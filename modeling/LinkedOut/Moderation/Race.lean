/-
  Concurrent moderation decisions. A decision request is a session of two atomic steps:
  it loads the row and checks that it is pending, and later it commits what it computed
  from that row, keyed on the primary key alone.

  `race_alone`: a session whose two steps follow each other is the sequential handler.
  `one_decision`: in every interleaving in which every commit finds the row still pending
  and none decides a layoff event under the item type DOCUMENT, at most one decision
  succeeds and the item's audit entries are its alone; `inTime_of_alone`: commits are in
  time when no session loads the row while another is between its load and its commit.
  `race_breaks`: two admins who both load before either commits both succeed.
-/
import LinkedOut.Interleave
import LinkedOut.Moderation.AuditTrail

namespace LinkedOut

/-! ## The sessions -/

/-- A request to one of the four decision routes. -/
inductive DecisionCall where
  | approveItem (itemType : ModeratedItemType) (itemId : Uuid) (token : Option String)
  | rejectItem (itemType : ModeratedItemType) (itemId : Uuid) (reason : String)
      (token : Option String)
  | approveDocument (itemId : Uuid) (token : Option String)
  | rejectDocument (itemId : Uuid) (reason : String) (token : Option String)

def DecisionCall.request : DecisionCall → Request
  | approveItem itemType itemId token => .approveModerationItem itemType itemId token
  | rejectItem itemType itemId reason token => .rejectModerationItem itemType itemId reason token
  | approveDocument itemId token => .approveDocument itemId token
  | rejectDocument itemId reason token => .rejectDocument itemId reason token

/-- The row that the route loads. -/
def DecisionCall.target : DecisionCall → Item
  | approveItem itemType itemId _ =>
    if itemType = .review then .review itemId else .layoffEvent itemId
  | rejectItem itemType itemId _ _ =>
    if itemType = .review then .review itemId else .layoffEvent itemId
  | approveDocument itemId _ => .document itemId
  | rejectDocument itemId _ _ => .document itemId

/-- The item type that the route logs: the one in the path, or DOCUMENT. -/
def DecisionCall.itemType : DecisionCall → ModeratedItemType
  | approveItem itemType _ _ => itemType
  | rejectItem itemType _ _ _ => itemType
  | approveDocument _ _ => .document
  | rejectDocument _ _ _ => .document

/-- What a session holds between its load and its commit. -/
inductive Loaded where
  | item (adminId : Uuid) (itemType : ModeratedItemType) (itemId : Uuid) (row : ModeratedItem)
      (decision : Decision)
  | documentApproval (adminId : Uuid) (row : ModerationQueueItem) (user : User)
  | documentRejection (adminId : Uuid) (row : ModerationQueueItem) (reason : String)

/-- The reads of the request, in the handler's order. -/
def DecisionCall.load (p : Platform) (env : Env) (call : DecisionCall) (db : Db) :
    Except HttpException Loaded :=
  match call with
  | approveItem itemType itemId token => do
    let admin ← getCurrentAdmin p env token db
    let row ← loadItem itemType itemId db
    return .item admin.id itemType itemId row approval
  | rejectItem itemType itemId reason token => do
    let admin ← getCurrentAdmin p env token db
    checkReason reason
    let row ← loadItem itemType itemId db
    return .item admin.id itemType itemId row (rejection reason)
  | approveDocument itemId token => do
    let (admin, row, user) ← loadForApproval p env itemId token db
    return .documentApproval admin.id row user
  | rejectDocument itemId reason token => do
    let (admin, row) ← loadForRejection p env itemId reason token db
    return .documentRejection admin.id row reason

/-- What the session writes. -/
def Loaded.flush (env : Env) (db : Db) : Loaded → Option Db
  | item adminId itemType itemId row decision =>
    flushDecision env adminId itemType itemId row decision db
  | documentApproval adminId row user => flushApproval env adminId row.id user db
  | documentRejection adminId row reason =>
    flushDocument env adminId row.id .rejected .reject (some reason) db

/-- The ephemeral file that the session deletes before its commit. -/
def Loaded.path : Loaded → Option String
  | item _ _ _ _ _ => none
  | documentApproval _ row _ => row.ephemeralPath
  | documentRejection _ row _ => row.ephemeralPath

def Loaded.action : Loaded → ModerationAction
  | item _ _ _ _ decision => decision.action
  | documentApproval _ _ _ => .approve
  | documentRejection _ _ _ => .reject

def Loaded.reason : Loaded → Option String
  | item _ _ _ _ decision => decision.reason
  | documentApproval _ _ _ => none
  | documentRejection _ _ reason => some reason

def Loaded.itemType : Loaded → ModeratedItemType
  | item _ itemType _ _ _ => itemType
  | documentApproval _ _ _ => .document
  | documentRejection _ _ _ => .document

/-- The answer to a decision that is committed. -/
def Loaded.answer : Loaded → Payload
  | item _ itemType itemId _ decision =>
    .moderationAction ⟨itemType, itemId, decision.status, decision.action⟩
  | documentApproval _ row user => .documentAction ⟨row.id, user.id, .approved, .approve⟩
  | documentRejection _ row _ => .documentAction ⟨row.id, row.userId, .rejected, .reject⟩

/-- Where a session stands. -/
inductive Deciding where
  | idle
  | loaded (l : Loaded)
  | finished

/-- A decision request answered with success, and what it decided. -/
structure Success (ι : Type) where
  session : ι
  action : ModerationAction
  reason : Option String
  deriving DecidableEq

/-- The next step of session `i`. -/
def decideStep {ι : Type} (p : Platform) (calls : ι → DecisionCall) (i : ι) (d : Draws)
    (s : Server) : Deciding → List (Success ι) × Server × Deciding
  | .idle =>
    match (calls i).load p d.env s.db with
    | .error _ => ([], s, .finished)
    | .ok l => ([], s, .loaded l)
  | .loaded l =>
    let s' := { s with files := deleteEphemeralFile l.path s.files }
    match commit d.env (l.flush d.env s.db) internalServerError with
    | .error _ => ([], s', .finished)
    | .ok db => ([⟨i, l.action, l.reason⟩], { s' with db }, .finished)
  | .finished => ([], s, .finished)

/-- The session has taken its first step. -/
def Deciding.begun : Deciding → Prop
  | idle => False
  | loaded _ => True
  | finished => True

/-- The session is between its load and its commit. -/
def Deciding.busy : Deciding → Prop
  | idle => False
  | loaded _ => True
  | finished => False

instance : DecidablePred Deciding.begun := fun l => by
  cases l <;> unfold Deciding.begun <;> infer_instance

instance : DecidablePred Deciding.busy := fun l => by
  cases l <;> unfold Deciding.busy <;> infer_instance

/-! ## A session alone is the handler -/

theorem loadForApproval_id {p : Platform} {env : Env} {itemId : Uuid} {token : Option String}
    {db : Db} {admin : AdminUser} {row : ModerationQueueItem} {user : User}
    (h : loadForApproval p env itemId token db = .ok (admin, row, user)) : row.id = itemId := by
  obtain ⟨_, _, h1⟩ := bind_ok h
  obtain ⟨_, hrow, h2⟩ := bind_ok h1
  obtain ⟨_, _, h3⟩ := bind_ok h2
  cases h3
  exact ((db.moderationQueue.find?_eq_some _ _).mp (loadDocumentItem_ok hrow).1).2

theorem loadForRejection_id {p : Platform} {env : Env} {itemId : Uuid} {reason : String}
    {token : Option String} {db : Db} {admin : AdminUser} {row : ModerationQueueItem}
    (h : loadForRejection p env itemId reason token db = .ok (admin, row)) : row.id = itemId := by
  obtain ⟨_, _, h1⟩ := bind_ok h
  obtain ⟨_, _, h2⟩ := bind_ok h1
  obtain ⟨_, hrow, h3⟩ := bind_ok h2
  cases h3
  exact ((db.moderationQueue.find?_eq_some _ _).mp (loadDocumentItem_ok hrow).1).2

/-- Both decisions on an item of the moderation queue, with the check of the reason first. -/
theorem answer_decideModerationItem (p : Platform) (env : Env) (itemType : ModeratedItemType)
    (itemId : Uuid) (decision : Decision) (check : Except HttpException Unit)
    (token : Option String) (s : Server) :
    answerCommit s (decideModerationItem p env itemType itemId decision check token s.db)
        .moderationAction =
      match (do
        let admin ← getCurrentAdmin p env token s.db
        check
        let row ← loadItem itemType itemId s.db
        return Loaded.item admin.id itemType itemId row decision : Except HttpException Loaded) with
      | .error e => (.error e, s)
      | .ok l =>
        match commit env (l.flush env s.db) internalServerError with
        | .error e => (.error e, s)
        | .ok db => (.ok l.answer, { s with db }) := by
  unfold decideModerationItem
  cases getCurrentAdmin p env token s.db with
  | error e => rfl
  | ok admin =>
    cases check with
    | error e => rfl
    | ok _ =>
      cases loadItem itemType itemId s.db with
      | error e => rfl
      | ok row =>
        simp only [bind, Except.bind, pure, Except.pure, Loaded.flush]
        cases commit env (flushDecision env admin.id itemType itemId row decision s.db)
          internalServerError <;> rfl

/-- The handler is the load, the deletion of the file and the commit. -/
theorem handle_decision (p : Platform) (env : Env) (call : DecisionCall) (s : Server) :
    handle p env call.request s =
      match call.load p env s.db with
      | .error e => (.error e, s)
      | .ok l =>
        let s' := { s with files := deleteEphemeralFile l.path s.files }
        match commit env (l.flush env s.db) internalServerError with
        | .error e => (.error e, s')
        | .ok db => (.ok l.answer, { s' with db }) := by
  cases call with
  | approveItem itemType itemId token =>
    refine (answer_decideModerationItem p env itemType itemId approval (.ok ()) token s).trans ?_
    rw [DecisionCall.load]
    cases getCurrentAdmin p env token s.db with
    | error e => rfl
    | ok admin => cases loadItem itemType itemId s.db <;> rfl
  | rejectItem itemType itemId reason token =>
    refine (answer_decideModerationItem p env itemType itemId (rejection reason)
      (checkReason reason) token s).trans ?_
    rw [DecisionCall.load]
    cases getCurrentAdmin p env token s.db with
    | error e => rfl
    | ok admin =>
      cases checkReason reason with
      | error e => rfl
      | ok _ => cases loadItem itemType itemId s.db <;> rfl
  | approveDocument itemId token =>
    simp only [DecisionCall.request, handle, approveDocument, DecisionCall.load]
    cases hload : loadForApproval p env itemId token s.db with
    | error e => rfl
    | ok r =>
      obtain ⟨admin, row, user⟩ := r
      have hid := loadForApproval_id hload
      simp only [bind, Except.bind, pure, Except.pure, Loaded.flush, answerFiles, Loaded.path]
      cases commit env (flushApproval env admin.id row.id user s.db) internalServerError with
      | error e => rfl
      | ok db => simp only [answerCommit, Loaded.answer, hid]
  | rejectDocument itemId reason token =>
    simp only [DecisionCall.request, handle, rejectDocument, DecisionCall.load]
    cases hload : loadForRejection p env itemId reason token s.db with
    | error e => rfl
    | ok r =>
      obtain ⟨admin, row⟩ := r
      have hid := loadForRejection_id hload
      simp only [bind, Except.bind, pure, Except.pure, Loaded.flush, answerFiles, Loaded.path]
      cases commit env (flushDocument env admin.id row.id .rejected .reject (some reason) s.db)
        internalServerError with
      | error e => rfl
      | ok db => simp only [answerCommit, Loaded.answer, hid]

/-- The two steps of a session, one after the other and with the same draws, leave what the
    handler leaves, and they succeed when it does. -/
theorem race_alone {ι : Type} [DecidableEq ι] (p : Platform) (calls : ι → DecisionCall) (i : ι)
    (d : Draws) (s : Server) :
    let run := (interleave (decideStep p calls)).exec [(i, d), (i, d)] ⟨s, fun _ => .idle⟩
    run.shared = (handle p d.env (calls i).request s).2 ∧
      (observed (decideStep p calls) [(i, d), (i, d)] ⟨s, fun _ => .idle⟩ ≠ [] ↔
        ∃ a, (handle p d.env (calls i).request s).1 = .ok a) := by
  rw [handle_decision]
  simp only [Machine.exec, observed, Machine.outputs, interleave, Function.update_self, decideStep]
  cases hload : (calls i).load p d.env s.db with
  | error e => simp
  | ok l =>
    cases hcommit : commit d.env (l.flush d.env s.db) internalServerError with
    | error e => simp [hcommit]
    | ok db => simp [hcommit]

/-! ## One session -/

/-- Where an action leaves its item. -/
def ModerationAction.outcome : ModerationAction → Standing
  | approve => .accepted
  | reject => .rejected

/-- What a session has loaded is the target row, stored as it is and pending. -/
inductive Loaded.Holds (target : Item) (db : Db) : Loaded → Prop
  | review {adminId : Uuid} {itemType : ModeratedItemType} {r : Review} {decision : Decision}
      (hvalid : decision.Valid) (htarget : target = .review r.id)
      (hfind : db.reviews.find? r.id = some r) (hpending : r.status = .pending) :
      Holds target db (.item adminId itemType r.id (.review r) decision)
  | layoffEvent {adminId : Uuid} {itemType : ModeratedItemType} {e : LayoffEvent}
      {decision : Decision} (hvalid : decision.Valid) (htarget : target = .layoffEvent e.id)
      (hfind : db.layoffEvents.find? e.id = some e) (hpending : e.status = .pending) :
      Holds target db (.item adminId itemType e.id (.layoffEvent e) decision)
  | approval {adminId : Uuid} {row : ModerationQueueItem} {user : User}
      (htarget : target = .document row.id) (hfind : db.moderationQueue.find? row.id = some row)
      (hpending : row.status = .pending) (huser : db.users.find? row.userId = some user) :
      Holds target db (.documentApproval adminId row user)
  | rejection {adminId : Uuid} {row : ModerationQueueItem} {reason : String}
      (htarget : target = .document row.id) (hfind : db.moderationQueue.find? row.id = some row)
      (hpending : row.status = .pending) :
      Holds target db (.documentRejection adminId row reason)

theorem Loaded.Holds.pending {target : Item} {db : Db} {l : Loaded} (h : l.Holds target db) :
    db.standing target = some .pending := by
  cases h with
  | review _ htarget hfind hpending =>
    simp only [htarget, Db.standing, hfind, Option.map_some, hpending, ReviewStatus.standing]
  | layoffEvent _ htarget hfind hpending =>
    simp only [htarget, Db.standing, hfind, Option.map_some, hpending, ReviewStatus.standing]
  | approval htarget hfind hpending _ =>
    simp only [htarget, Db.standing, hfind, Option.map_some, hpending, ModerationStatus.standing]
  | rejection htarget hfind hpending =>
    simp only [htarget, Db.standing, hfind, Option.map_some, hpending, ModerationStatus.standing]

theorem loadItem_holds {itemType : ModeratedItemType} {itemId adminId : Uuid} {db : Db}
    {row : ModeratedItem} {decision : Decision} (hvalid : decision.Valid)
    (h : loadItem itemType itemId db = .ok row) :
    (Loaded.item adminId itemType itemId row decision).Holds
      (if itemType = .review then .review itemId else .layoffEvent itemId) db := by
  rcases loadItem_ok h with ⟨ht, r, rfl, hfind, hpending⟩ | ⟨ht, e, rfl, hfind, hpending⟩
  · have hid : r.id = itemId := ((db.reviews.find?_eq_some _ _).mp hfind).2
    rw [if_pos ht, ← hid]
    exact .review hvalid rfl (hid ▸ hfind) hpending
  · have hid : e.id = itemId := ((db.layoffEvents.find?_eq_some _ _).mp hfind).2
    rw [if_neg ht, ← hid]
    exact .layoffEvent hvalid rfl (hid ▸ hfind) hpending

theorem load_holds {p : Platform} {env : Env} {call : DecisionCall} {db : Db} {l : Loaded}
    (h : call.load p env db = .ok l) : l.Holds call.target db := by
  cases call with
  | approveItem itemType itemId token =>
    obtain ⟨admin, _, h1⟩ := bind_ok h
    obtain ⟨row, hrow, h2⟩ := bind_ok h1
    cases h2
    exact loadItem_holds (Or.inl rfl) hrow
  | rejectItem itemType itemId reason token =>
    obtain ⟨admin, _, h1⟩ := bind_ok h
    obtain ⟨_, hreason, h2⟩ := bind_ok h1
    obtain ⟨row, hrow, h3⟩ := bind_ok h2
    cases h3
    exact loadItem_holds (Or.inr ⟨reason, checkReason_ok hreason, rfl⟩) hrow
  | approveDocument itemId token =>
    obtain ⟨⟨admin, row, user⟩, hload, h1⟩ := bind_ok h
    cases h1
    have hid := loadForApproval_id hload
    obtain ⟨_, _, h2⟩ := bind_ok hload
    obtain ⟨row', hrow, h3⟩ := bind_ok h2
    obtain ⟨user', huser, h4⟩ := bind_ok h3
    cases h4
    obtain ⟨hfind, hpending⟩ := loadDocumentItem_ok hrow
    rw [← hid] at hfind
    exact .approval (congrArg Item.document hid.symm) hfind hpending (loadOwner_ok huser)
  | rejectDocument itemId reason token =>
    obtain ⟨⟨admin, row⟩, hload, h1⟩ := bind_ok h
    cases h1
    have hid := loadForRejection_id hload
    obtain ⟨_, _, h2⟩ := bind_ok hload
    obtain ⟨_, _, h3⟩ := bind_ok h2
    obtain ⟨row', hrow, h4⟩ := bind_ok h3
    cases h4
    obtain ⟨hfind, hpending⟩ := loadDocumentItem_ok hrow
    rw [← hid] at hfind
    exact .rejection (congrArg Item.document hid.symm) hfind hpending

/-- What a session has loaded is filed under the item type of its request. -/
theorem load_itemType {p : Platform} {env : Env} {call : DecisionCall} {db : Db} {l : Loaded}
    (h : call.load p env db = .ok l) : l.itemType = call.itemType := by
  cases call with
  | approveItem itemType itemId token =>
    obtain ⟨_, _, h1⟩ := bind_ok h
    obtain ⟨_, _, h2⟩ := bind_ok h1
    cases h2
    rfl
  | rejectItem itemType itemId reason token =>
    obtain ⟨_, _, h1⟩ := bind_ok h
    obtain ⟨_, _, h2⟩ := bind_ok h1
    obtain ⟨_, _, h3⟩ := bind_ok h2
    cases h3
    rfl
  | approveDocument itemId token =>
    obtain ⟨_, _, h1⟩ := bind_ok h
    cases h1
    rfl
  | rejectDocument itemId reason token =>
    obtain ⟨_, _, h1⟩ := bind_ok h
    cases h1
    rfl

/-- The audit entry of a decision on the item. -/
structure Files (target : Item) (action : ModerationAction) (reason : Option String)
    (e : ModerationAuditLogEntry) : Prop where
  itemType : e.itemType = target.type
  itemId : e.itemId = target.id
  action : e.action = action
  reason : e.reason = reason

/-- One decision of the item, and nothing else, takes `db` to `db'`. -/
structure Decided (target : Item) (db db' : Db) (action : ModerationAction)
    (reason : Option String) : Prop where
  standing : db'.standing target = some action.outcome
  entry : ∃ e, db'.moderationAuditLog.rows = db.moderationAuditLog.rows ++ [e] ∧
    Files target action reason e
  raised : ∀ id u u', db.users.find? id = some u → db'.users.find? id = some u' →
    u'.verificationTier ≠ u.verificationTier →
      (∃ k, target = .document k) ∧ action = .approve

theorem raised_of_same_users {db db' : Db} (h : db'.users = db.users) {P : Prop} (id : Uuid)
    (u u' : User) (hu : db.users.find? id = some u) (hu' : db'.users.find? id = some u')
    (hne : u'.verificationTier ≠ u.verificationTier) : P := by
  rw [h, hu] at hu'
  cases hu'
  exact absurd rfl hne

theorem outcome_of_valid {d : Decision} (h : d.Valid) : d.status.standing = d.action.outcome := by
  rcases h with rfl | ⟨reason, _, rfl⟩ <;> rfl

theorem flush_decided {env : Env} {target : Item} {db db' : Db} {l : Loaded}
    (h : l.Holds target db) (hfiled : l.itemType = target.type)
    (hflush : l.flush env db = some db') : Decided target db db' l.action l.reason := by
  cases h with
  | @review adminId itemType r decision hvalid htarget hfind _ =>
    obtain ⟨log, hinsert, rfl⟩ := flushDecision_some hflush
    refine ⟨?_, ⟨_, (Table.insert_eq_some hinsert).1, hfiled, by rw [htarget]; rfl, rfl, rfl⟩,
      raised_of_same_users rfl⟩
    rw [htarget, Loaded.action, ← outcome_of_valid hvalid]
    exact standing_update_self (fun r : Review => r.status.standing) _ hfind
  | @layoffEvent adminId itemType e decision hvalid htarget hfind _ =>
    obtain ⟨log, hinsert, rfl⟩ := flushDecision_some hflush
    refine ⟨?_, ⟨_, (Table.insert_eq_some hinsert).1, hfiled, by rw [htarget]; rfl, rfl, rfl⟩,
      raised_of_same_users rfl⟩
    rw [htarget, Loaded.action, ← outcome_of_valid hvalid]
    exact standing_update_self (fun e : LayoffEvent => e.status.standing) _ hfind
  | @approval adminId row user htarget hfind _ huser =>
    obtain ⟨db1, hdocument, heq⟩ := Option.bind_eq_some_iff.mp hflush
    obtain ⟨log, hinsert, rfl⟩ := flushDocument_some hdocument
    have hlog : db'.moderationAuditLog = log := by
      split at heq <;> cases heq <;> rfl
    have hqueue : db'.moderationQueue = db.moderationQueue.update row.id
        (ModerationQueueItem.setDecision .approved (env.now 1)) := by
      split at heq <;> cases heq <;> rfl
    refine ⟨?_, ⟨_, by rw [hlog]; exact (Table.insert_eq_some hinsert).1, hfiled,
      by rw [htarget]; rfl, rfl, rfl⟩, fun _ _ _ _ _ _ => ⟨⟨row.id, htarget⟩, rfl⟩⟩
    rw [htarget, Db.standing, hqueue]
    exact standing_update_self (fun i : ModerationQueueItem => i.status.standing) _ hfind
  | @rejection adminId row reason htarget hfind _ =>
    obtain ⟨log, hinsert, rfl⟩ := flushDocument_some hflush
    refine ⟨?_, ⟨_, (Table.insert_eq_some hinsert).1, hfiled, by rw [htarget]; rfl, rfl, rfl⟩,
      raised_of_same_users rfl⟩
    rw [htarget]
    exact standing_update_self (fun i : ModerationQueueItem => i.status.standing) _ hfind

/-! ## All interleavings -/

/-- At most one decision succeeds, the item stands where it put it, the audit entries
    written are the item's and those of the successes, action by action and reason by
    reason, and a user is raised to DOCUMENT only by the approval of a document. -/
structure OneDecision {ι : Type} (target : Item) (db db' : Db) (successes : List (Success ι)) :
    Prop where
  once : successes.length ≤ 1
  standing : ∀ o ∈ successes, db'.standing target = some o.action.outcome
  audited : ∃ entries, db'.moderationAuditLog.rows = db.moderationAuditLog.rows ++ entries ∧
    db'.auditEntries target = db.auditEntries target ++ entries ∧
      List.Forall₂ (fun e o => e.action = o.action ∧ e.reason = o.reason) entries successes
  raised : ∀ id u u', db.users.find? id = some u → db'.users.find? id = some u' →
    u'.verificationTier ≠ u.verificationTier →
      (∃ k, target = .document k) ∧ db'.standing target = some .accepted

/-- A session that commits finds the item still pending: no other decision has been
    committed since it loaded the item. -/
def InTime {ι : Type} (target : Item) (c : Conf ι Server Deciding) (e : ι × Draws) : Prop :=
  (c.sess e.1).busy → c.shared.db.standing target = some .pending

/-- A session that commits files its decision under the item's own type: its request is
    not one with the item type DOCUMENT that has loaded a layoff event. -/
def FiledAsLoaded {ι : Type} (calls : ι → DecisionCall) (target : Item)
    (c : Conf ι Server Deciding) (e : ι × Draws) : Prop :=
  (c.sess e.1).busy → (calls e.1).itemType = target.type

/-- The invariant of a run whose commits are in time and filed as loaded: everything a
    session holds was loaded from the initial database, and that is still the database
    until a decision succeeds. -/
structure RaceInv {ι : Type} (calls : ι → DecisionCall) (target : Item) (db : Db)
    (successes : List (Success ι)) (c : Conf ι Server Deciding) : Prop where
  holds : ∀ i l, c.sess i = .loaded l → l.Holds target db ∧ l.itemType = (calls i).itemType
  outcome : (successes = [] ∧ c.shared.db = db) ∨
    ∃ o, successes = [o] ∧ Decided target db c.shared.db o.action o.reason

/-- A pending item has not been decided in this run. -/
theorem RaceInv.of_pending {ι : Type} {calls : ι → DecisionCall} {target : Item} {db : Db}
    {successes : List (Success ι)} {c : Conf ι Server Deciding}
    (h : RaceInv calls target db successes c)
    (hpending : c.shared.db.standing target = some .pending) :
    successes = [] ∧ c.shared.db = db := by
  rcases h.outcome with hfirst | ⟨⟨session, action, reason⟩, -, hdecided⟩
  · exact hfirst
  · have hstanding := hdecided.standing
    rw [hpending] at hstanding
    cases action <;> cases hstanding

/-- The one new entry of a decided item is one of the item's entries. -/
theorem Decided.auditEntries {target : Item} {db db' : Db} {action : ModerationAction}
    {reason : Option String} (h : Decided target db db' action reason) :
    ∃ e, db'.moderationAuditLog.rows = db.moderationAuditLog.rows ++ [e] ∧
      db'.auditEntries target = db.auditEntries target ++ [e] ∧
        e.action = action ∧ e.reason = reason := by
  obtain ⟨e, hrows, hfiles⟩ := h.entry
  refine ⟨e, hrows, ?_, hfiles.action, hfiles.reason⟩
  have hmatch : (e.itemType == target.type && e.itemId == target.id) = true := by
    rw [hfiles.itemType, hfiles.itemId, beq_self_eq_true, beq_self_eq_true]
    rfl
  unfold Db.auditEntries Table.select
  rw [hrows, List.filter_append, List.filter_singleton, hmatch]
  rfl

theorem oneDecision_of_inv {ι : Type} {calls : ι → DecisionCall} {target : Item} {db : Db}
    {successes : List (Success ι)} {c : Conf ι Server Deciding}
    (h : RaceInv calls target db successes c) :
    OneDecision target db c.shared.db successes := by
  rcases h.outcome with ⟨rfl, heq⟩ | ⟨o, rfl, hdecided⟩
  · rw [heq]
    refine ⟨Nat.zero_le 1, fun o ho => ?_, ⟨[], by simp⟩, fun id u u' hu hu' hne => ?_⟩
    · cases ho
    · rw [hu] at hu'
      cases hu'
      exact absurd rfl hne
  · obtain ⟨e, hrows, hentries, haction, hreason⟩ := hdecided.auditEntries
    refine ⟨le_refl 1, fun o' ho' => ?_, ⟨[e], hrows, hentries, .cons ⟨haction, hreason⟩ .nil⟩,
      fun id u u' hu hu' hne => ?_⟩
    · rw [List.mem_singleton.mp ho']; exact hdecided.standing
    · obtain ⟨hdocument, haction⟩ := hdecided.raised id u u' hu hu' hne
      exact ⟨hdocument, by rw [hdecided.standing, haction]; rfl⟩

/-- What a session holds after a step: what it holds already, or what the moving one loads. -/
theorem sess_loaded {ι : Type} [DecidableEq ι] {p : Platform} {calls : ι → DecisionCall}
    {c : Conf ι Server Deciding} {i j : ι} {d : Draws} {l : Loaded}
    (h : ((interleave (decideStep p calls)).step (i, d) c).2.sess j = .loaded l) :
    (j ≠ i ∧ c.sess j = .loaded l) ∨
      (j = i ∧ c.sess i = .idle ∧ (calls i).load p d.env c.shared.db = .ok l) := by
  by_cases hji : j = i
  · rw [hji, sess_self] at h
    cases hi : c.sess i with
    | idle =>
      rw [hi] at h
      simp only [decideStep] at h
      split at h
      · cases h
      · rename_i l' hload
        cases h
        exact Or.inr ⟨hji, rfl, hload⟩
    | loaded l' =>
      rw [hi] at h
      simp only [decideStep] at h
      split at h <;> cases h
    | finished =>
      rw [hi] at h
      cases h
  · rw [sess_ne _ _ _ hji] at h
    exact Or.inl ⟨hji, h⟩

/-- One step of a run whose commits are in time and filed as loaded. -/
theorem race_step {ι : Type} [DecidableEq ι] (p : Platform) (calls : ι → DecisionCall)
    (target : Item) (htarget : ∀ i, (calls i).target = target) (db : Db)
    (successes : List (Success ι)) (c : Conf ι Server Deciding) (i : ι) (d : Draws)
    (htime : InTime target c (i, d)) (hfiled : FiledAsLoaded calls target c (i, d))
    (h : RaceInv calls target db successes c) :
    RaceInv calls target db (successes ++ (decideStep p calls i d c.shared (c.sess i)).1)
      ((interleave (decideStep p calls)).step (i, d) c).2 := by
  constructor
  case holds =>
    intro j l hj
    rcases sess_loaded hj with ⟨-, hold⟩ | ⟨hji, -, hload⟩
    · exact h.holds j l hold
    · -- what can be loaded is pending, so nothing has been decided
      have hl := htarget i ▸ load_holds hload
      rw [(h.of_pending hl.pending).2] at hl
      exact ⟨hl, hji ▸ load_itemType hload⟩
  case outcome =>
    have hshared : ((interleave (decideStep p calls)).step (i, d) c).2.shared =
        (decideStep p calls i d c.shared (c.sess i)).2.1 := rfl
    rw [hshared]
    cases hi : c.sess i with
    | idle =>
      have hidle : (decideStep p calls i d c.shared .idle).1 = [] ∧
          (decideStep p calls i d c.shared .idle).2.1 = c.shared := by
        simp only [decideStep]
        split <;> exact ⟨rfl, rfl⟩
      rw [hidle.1, hidle.2, List.append_nil]
      exact h.outcome
    | loaded l =>
      have hbusy : (c.sess i).busy := by rw [hi]; trivial
      obtain ⟨hnil, hdb⟩ := h.of_pending (htime hbusy)
      obtain ⟨hholds, htype⟩ := h.holds i l hi
      rw [hnil, List.nil_append]
      simp only [decideStep]
      cases hcommit : commit d.env (l.flush d.env c.shared.db) internalServerError with
      | error e => exact Or.inl ⟨rfl, hdb⟩
      | ok db' =>
        rw [hdb] at hcommit
        exact Or.inr ⟨_, rfl,
          flush_decided hholds (htype.trans (hfiled hbusy)) (commit_ok hcommit).1⟩
    | finished =>
      rw [decideStep, List.append_nil]
      exact h.outcome

/-- For any number of decision requests on one item, in every interleaving in which every
    commit finds the item still pending and files its decision under the item's own type: at
    most one request succeeds, the item stands where that one put it, the audit entries
    written are the item's and that request's alone, and a user is raised only by the
    approval of a document. -/
theorem one_decision {ι : Type} [DecidableEq ι] (p : Platform) (calls : ι → DecisionCall)
    (target : Item) (htarget : ∀ i, (calls i).target = target) (sched : List (ι × Draws))
    (s : Server)
    (htime : (interleave (decideStep p calls)).Along (InTime target) sched ⟨s, fun _ => .idle⟩)
    (hfiled : (interleave (decideStep p calls)).Along (FiledAsLoaded calls target) sched
      ⟨s, fun _ => .idle⟩) :
    OneDecision target s.db
      ((interleave (decideStep p calls)).exec sched ⟨s, fun _ => .idle⟩).shared.db
      (observed (decideStep p calls) sched ⟨s, fun _ => .idle⟩) := by
  have hstart : RaceInv calls target s.db ([] : List (Success ι)) ⟨s, fun _ => .idle⟩ :=
    ⟨fun i l hl => (by cases hl), Or.inl ⟨rfl, rfl⟩⟩
  refine oneDecision_of_inv (observed_inv _ hstart (fun os t i d he hinv => ?_) sched
    ((Machine.along_and _).mpr ⟨htime, hfiled⟩))
  exact race_step p calls target htarget s.db os t i d he.1 he.2 hinv

/-- A document of alice waits for a decision. -/
def documentServer : Server :=
  .start { smallDb with
    moderationQueue := ⟨[⟨40, 1, .payslip, "digest", none, .pending, 0, none⟩], by decide⟩ }

/-- Root approves the document and ruth rejects it. -/
def twoAdmins : Bool → DecisionCall
  | true => .approveDocument 40 (some "root")
  | false => .rejectDocument 40 "unreadable" (some "ruth")

/-- Each admin loads the document after the other has committed. -/
theorem one_decision_in_turn :
    OneDecision (.document 40) documentServer.db
      ((interleave (decideStep smallPlatform twoAdmins)).exec
        [(true, drawsAt 0 50), (true, drawsAt 1 50), (false, drawsAt 2 51), (false, drawsAt 3 51)]
        ⟨documentServer, fun _ => .idle⟩).shared.db
      [⟨true, .approve, none⟩] := by
  refine one_decision smallPlatform twoAdmins (.document 40) (fun i => by cases i <;> rfl)
    [(true, drawsAt 0 50), (true, drawsAt 1 50), (false, drawsAt 2 51), (false, drawsAt 3 51)]
    documentServer ⟨?_, ?_, ?_, ?_, trivial⟩ ⟨?_, ?_, ?_, ?_, trivial⟩
  all_goals first | unfold InTime; decide | unfold FiledAsLoaded; decide

/-- Both admins load the document before either commits: both succeed. -/
theorem race_breaks :
    ¬ ∀ (p : Platform) (calls : Bool → DecisionCall) (target : Item),
      (∀ i, (calls i).target = target) → ∀ (sched : List (Bool × Draws)) (s : Server),
      OneDecision target s.db
        ((interleave (decideStep p calls)).exec sched ⟨s, fun _ => .idle⟩).shared.db
        (observed (decideStep p calls) sched ⟨s, fun _ => .idle⟩) := by
  intro hall
  have hone := (hall smallPlatform twoAdmins (.document 40) (fun i => by cases i <;> rfl)
    [(true, drawsAt 0 50), (false, drawsAt 1 51), (true, drawsAt 2 50), (false, drawsAt 3 51)]
    documentServer).once
  revert hone
  decide

/-! ## Serialised sessions are in time -/

/-- A finished session stays finished. -/
theorem decideStep_not_busy {ι : Type} (p : Platform) (calls : ι → DecisionCall) (i : ι) (d : Draws)
    (s : Server) (l : Deciding) (hbegun : l.begun) (hbusy : ¬ l.busy) :
    ¬ (decideStep p calls i d s l).2.2.busy := by
  cases l with
  | idle => exact hbegun.elim
  | loaded l => exact absurd trivial hbusy
  | finished => exact hbusy

theorem exists_loaded {l : Deciding} (h : l.busy) : ∃ held, l = .loaded held := by
  cases l with
  | idle => exact h.elim
  | loaded held => exact ⟨held, rfl⟩
  | finished => exact h.elim

/-- In a run of sessions one after the other every commit is in time. -/
theorem inTime_of_alone {ι : Type} [DecidableEq ι] (p : Platform) (calls : ι → DecisionCall)
    (target : Item) (htarget : ∀ i, (calls i).target = target) (sched : List (ι × Draws))
    (c : Conf ι Server Deciding) (hmutex : Mutex Deciding.busy c)
    (hpending : ∀ i, (c.sess i).busy → c.shared.db.standing target = some .pending)
    (halone :
      (interleave (decideStep p calls)).Along (Alone Deciding.begun Deciding.busy) sched c) :
    (interleave (decideStep p calls)).Along (InTime target) sched c := by
  induction sched generalizing c with
  | nil => trivial
  | cons e sched ih =>
    obtain ⟨i, d⟩ := e
    obtain ⟨hfirst, hrest⟩ := halone
    refine ⟨hpending i, ih _ (alone_mutex (decideStep_not_busy p calls) c (i, d) hfirst hmutex)
      (fun j hj => ?_) hrest⟩
    obtain ⟨l, hl⟩ := exists_loaded hj
    rcases sess_loaded hl with ⟨hji, hold⟩ | ⟨-, hi, hload⟩
    · -- the moving session is finished: it is not idle beside `j`, nor under way
      have hj' : (c.sess j).busy := by rw [hold]; trivial
      have hfinished : c.sess i = .finished := by
        cases hi : c.sess i with
        | idle => exact absurd hj' (hfirst (by rw [hi]; exact id) j)
        | loaded l' => exact absurd (hmutex j i hj' (by rw [hi]; trivial)) hji
        | finished => rfl
      have hshared : ((interleave (decideStep p calls)).step (i, d) c).2.shared = c.shared := by
        show (decideStep p calls i d c.shared (c.sess i)).2.1 = c.shared
        rw [hfinished]; rfl
      rw [hshared]
      exact hpending j hj'
    · have hshared : ((interleave (decideStep p calls)).step (i, d) c).2.shared = c.shared := by
        show (decideStep p calls i d c.shared (c.sess i)).2.1 = c.shared
        rw [hi]
        simp only [decideStep, hload]
      rw [hshared]
      exact htarget i ▸ (load_holds hload).pending

end LinkedOut
