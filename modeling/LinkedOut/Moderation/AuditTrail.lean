/-
  The internal audit log against the state it is about.

  `Explained` says which entries a row in a given standing has: none while it is
  pending, one APPROVE once it is accepted, one REJECT with a reason once it is
  rejected. `_load_item` takes the table from the item type only for REVIEW, while the
  log takes the item type as it came in the path; so a request with the item type
  DOCUMENT decides a layoff event and files the entry under a document
  (`misfiled_breaks`). `audit_trail`: in every run without such a request the log
  explains the state exactly.
-/
import LinkedOut.Effects

namespace LinkedOut

/-! ## Moderated rows -/

/-- A row of one of the three moderated tables. -/
inductive Item where
  | review (id : Uuid)
  | layoffEvent (id : Uuid)
  | document (id : Uuid)
  deriving DecidableEq

/-- The item type that stands for the row's table. -/
def Item.type : Item → ModeratedItemType
  | review _ => .review
  | layoffEvent _ => .layoffEvent
  | document _ => .document

def Item.id : Item → Uuid
  | review id => id
  | layoffEvent id => id
  | document id => id

inductive Standing where
  | pending
  | accepted
  | rejected
  deriving DecidableEq

def ReviewStatus.standing : ReviewStatus → Standing
  | pending => .pending | published => .accepted | rejected => .rejected

def ModerationStatus.standing : ModerationStatus → Standing
  | pending => .pending | approved => .accepted | rejected => .rejected

/-- Where the row stands, `none` while there is no such row. -/
def Db.standing (db : Db) : Item → Option Standing
  | .review id => (db.reviews.find? id).map fun r => r.status.standing
  | .layoffEvent id => (db.layoffEvents.find? id).map fun e => e.status.standing
  | .document id => (db.moderationQueue.find? id).map fun i => i.status.standing

/-- The audit entries with the row's item type and id. -/
def Db.auditEntries (db : Db) (item : Item) : List ModerationAuditLogEntry :=
  db.moderationAuditLog.select fun e => e.itemType == item.type && e.itemId == item.id

/-- The entries that a row has, by where it stands. -/
def Explained : Option Standing → List ModerationAuditLogEntry → Prop
  | some .accepted, entries => ∃ e, entries = [e] ∧ e.action = .approve
  | some .rejected, entries =>
    ∃ e reason, entries = [e] ∧ e.action = .reject ∧ e.reason = some reason ∧ reason ≠ ""
  | some .pending, entries => entries = []
  | none, entries => entries = []

/-- The log explains the state: every row has the entries its standing asks for, and every
    entry names a row of the table its item type stands for. -/
def AuditTrail (db : Db) : Prop :=
  (∀ item, db.standing item ≠ none → Explained (db.standing item) (db.auditEntries item)) ∧
    ∀ e ∈ db.moderationAuditLog.rows,
      ∃ item : Item, item.type = e.itemType ∧ item.id = e.itemId ∧ db.standing item ≠ none

/-- An empty log, and nothing decided. -/
def OnlyPending (db : Db) : Prop :=
  db.moderationAuditLog.rows = [] ∧ (∀ r ∈ db.reviews.rows, r.status = .pending) ∧
    (∀ e ∈ db.layoffEvents.rows, e.status = .pending) ∧
      ∀ i ∈ db.moderationQueue.rows, i.status = .pending

/-- A decision with the item type DOCUMENT that passes the gate and loads a layoff event. -/
def Misfiled (p : Platform) (env : Env) (db : Db) (req : Request) : Prop :=
  ∃ itemId decision token admin event,
    req.decision = some (.document, itemId, decision, token) ∧ decision.Valid ∧
      getCurrentAdmin p env token db = .ok admin ∧
      db.layoffEvents.find? itemId = some event ∧ event.status = .pending

/-! ## The invariant -/

/-- `AuditTrail` as one statement about every item, absent rows included. -/
def LogExplains (db : Db) : Prop :=
  ∀ item, Explained (db.standing item) (db.auditEntries item)

theorem auditTrail_of_explains {db : Db} (h : LogExplains db) : AuditTrail db := by
  refine ⟨fun item _ => h item, fun e he => ?_⟩
  obtain ⟨item, htype, hid⟩ : ∃ item : Item, item.type = e.itemType ∧ item.id = e.itemId := by
    cases ht : e.itemType with
    | review => exact ⟨.review e.itemId, rfl, rfl⟩
    | layoffEvent => exact ⟨.layoffEvent e.itemId, rfl, rfl⟩
    | document => exact ⟨.document e.itemId, rfl, rfl⟩
  refine ⟨item, htype, hid, fun hnone => ?_⟩
  have hnil := h item
  rw [hnone] at hnil
  have hmem : e ∈ db.auditEntries item :=
    (db.moderationAuditLog.mem_select _ e).mpr ⟨he, by simp [htype, hid]⟩
  rw [show db.auditEntries item = [] from hnil] at hmem
  cases hmem

theorem item_ext {a b : Item} (htype : a.type = b.type) (hid : a.id = b.id) : a = b := by
  cases a <;> cases b <;> cases htype <;> cases hid <;> rfl

/-- A row that enters pending, under an unchanged log. -/
theorem explains_enter {db db' : Db} (h : LogExplains db)
    (hlog : db'.moderationAuditLog = db.moderationAuditLog)
    (hmove : ∀ item, db'.standing item = db.standing item ∨
      (db.standing item = none ∧ db'.standing item = some .pending)) : LogExplains db' := by
  intro item
  have hentries : db'.auditEntries item = db.auditEntries item := by
    unfold Db.auditEntries; rw [hlog]
  have hitem := h item
  rw [hentries]
  rcases hmove item with heq | ⟨hnone, hpending⟩
  · rw [heq]; exact hitem
  · rw [hnone] at hitem
    rw [hpending]
    exact hitem

/-- A pending row that is decided, with one new entry filed under it. -/
theorem explains_decide {db db' : Db} (target : Item) {e : ModerationAuditLogEntry}
    (h : LogExplains db) (hinsert : db.moderationAuditLog.insert e = some db'.moderationAuditLog)
    (htype : e.itemType = target.type) (hid : e.itemId = target.id)
    (hbefore : db.standing target = some .pending)
    (hafter : Explained (db'.standing target) [e])
    (hothers : ∀ item, item ≠ target → db'.standing item = db.standing item) :
    LogExplains db' := by
  intro item
  have hentries : db'.auditEntries item = db.auditEntries item ++
      if e.itemType == item.type && e.itemId == item.id then [e] else [] :=
    Table.select_insert hinsert _
  by_cases heq : item = target
  · have hnil := h item
    rw [heq, hbefore] at hnil
    rw [heq, htype, hid] at hentries
    rw [heq, hentries, show db.auditEntries target = [] from hnil]
    simpa using hafter
  · have hfalse : (e.itemType == item.type && e.itemId == item.id) = false := by
      rw [Bool.eq_false_iff]
      intro htrue
      simp only [Bool.and_eq_true, beq_iff_eq] at htrue
      exact heq (item_ext (htrue.1.symm.trans htype) (htrue.2.symm.trans hid))
    rw [hentries, hfalse, hothers item heq]
    simpa using h item

section

variable {α : Type} [Record α] (status : α → Standing)

/-- Only the inserted row's standing changes. -/
theorem standing_insert {t u : Table α} {a : α} (h : t.insert a = some u)
    (ha : status a = .pending) (k : Nat) :
    (u.find? k).map status = (t.find? k).map status ∨
      ((t.find? k).map status = none ∧ (u.find? k).map status = some .pending) := by
  cases hk : t.find? k with
  | some b => exact Or.inl (by rw [Table.find?_of_insert h hk])
  | none =>
    rw [Table.find?_insert h, hk]
    split
    · exact Or.inr ⟨rfl, congrArg some ha⟩
    · exact Or.inl rfl

/-- Only the updated row's standing changes. -/
theorem standing_update_ne (t : Table α) (f : Patch α) {j k : Nat} (h : j ≠ k) :
    ((t.update k f).find? j).map status = (t.find? j).map status := by
  rw [Table.find?_update_ne t f h]

theorem standing_update_self {t : Table α} {k : Nat} {a : α} (f : Patch α)
    (h : t.find? k = some a) : ((t.update k f).find? k).map status = some (status (f.apply a)) := by
  rw [Table.find?_update_self t f h]; rfl

end

/-- The entry of a valid decision explains the standing it gives. -/
theorem explained_decision {d : Decision} (hd : d.Valid) {e : ModerationAuditLogEntry}
    (haction : e.action = d.action) (hreason : e.reason = d.reason) :
    Explained (some d.status.standing) [e] := by
  rcases hd with rfl | ⟨reason, hlen, rfl⟩
  · exact ⟨e, rfl, haction⟩
  · refine ⟨e, reason, rfl, haction, hreason, fun hempty => ?_⟩
    rw [hempty] at hlen
    exact absurd hlen (by decide)

/-- Every transaction that is not misfiled keeps the log in step with the state. -/
theorem write_explains {p : Platform} {env : Env} {db db' : Db} {req : Request} {out : Response}
    (h : Write p env db req out db') (hfiled : ¬ Misfiled p env db req) (hinv : LogExplains db) :
    LogExplains db' := by
  cases h with
  | documentUploaded _ hinsert =>
    refine explains_enter hinv rfl fun item => ?_
    cases item with
    | document id => exact standing_insert (fun i => i.status.standing) hinsert rfl id
    | _ => exact Or.inl rfl
  | reviewSubmitted _ _ _ _ hinsert =>
    refine explains_enter hinv rfl fun item => ?_
    cases item with
    | review id => exact standing_insert (fun r => r.status.standing) hinsert rfl id
    | _ => exact Or.inl rfl
  | layoffSubmitted _ _ _ hinsert =>
    refine explains_enter hinv rfl fun item => ?_
    cases item with
    | layoffEvent id => exact standing_insert (fun e => e.status.standing) hinsert rfl id
    | _ => exact Or.inl rfl
  | @reviewDecided _ itemId _ _ _ review _ _ _ hvalid _ hitem hpending hinsert =>
    refine explains_decide (.review itemId) hinv hinsert rfl rfl ?_ ?_ fun item hne => ?_
    · simp only [Db.standing, hitem, Option.map_some, hpending, ReviewStatus.standing]
    · rw [Db.standing, standing_update_self _ _ hitem]
      exact explained_decision hvalid rfl rfl
    · cases item with
      | review id => exact standing_update_ne _ _ _ fun hid => hne (congrArg Item.review hid)
      | _ => rfl
  | @layoffDecided _ itemType itemId decision token admin event _ _ hreq htype hvalid hadmin hitem
      hpending hinsert =>
    -- the item type is LAYOFF_EVENT, since DOCUMENT would be misfiled
    have hlayoff : itemType = .layoffEvent := by
      cases itemType with
      | review => exact absurd rfl htype
      | layoffEvent => rfl
      | document =>
        exact absurd ⟨itemId, decision, token, admin, event, hreq, hvalid, hadmin, hitem, hpending⟩
          hfiled
    refine explains_decide (.layoffEvent itemId) hinv hinsert hlayoff rfl ?_ ?_ fun item hne => ?_
    · simp only [Db.standing, hitem, Option.map_some, hpending, ReviewStatus.standing]
    · rw [Db.standing, standing_update_self _ _ hitem]
      exact explained_decision hvalid rfl rfl
    · cases item with
      | layoffEvent id =>
        exact standing_update_ne _ _ _ fun hid => hne (congrArg Item.layoffEvent hid)
      | _ => rfl
  | @documentApproved itemId _ _ item _ _ _ _ hitem hpending _ hinsert =>
    refine explains_decide (.document itemId) hinv hinsert rfl rfl ?_ ?_ fun item hne => ?_
    · simp only [Db.standing, hitem, Option.map_some, hpending, ModerationStatus.standing]
    · rw [Db.standing, standing_update_self _ _ hitem]
      exact ⟨_, rfl, rfl⟩
    · cases item with
      | document id => exact standing_update_ne _ _ _ fun hid => hne (congrArg Item.document hid)
      | _ => rfl
  | @documentRejected itemId reason _ _ item _ _ _ hreason hitem hpending hinsert =>
    refine explains_decide (.document itemId) hinv hinsert rfl rfl ?_ ?_ fun item hne => ?_
    · simp only [Db.standing, hitem, Option.map_some, hpending, ModerationStatus.standing]
    · rw [Db.standing, standing_update_self _ _ hitem]
      exact ⟨_, reason, rfl, rfl, rfl, fun hempty => by simp [hempty] at hreason⟩
    · cases item with
      | document id => exact standing_update_ne _ _ _ fun hid => hne (congrArg Item.document hid)
      | _ => rfl
  | _ => exact explains_enter hinv rfl fun item => Or.inl (by cases item <;> rfl)

/-! ## Whole runs -/

theorem explains_start {db : Db} (h : OnlyPending db) : LogExplains db := by
  obtain ⟨hlog, hreviews, hlayoffs, hdocuments⟩ := h
  intro item
  have hnil : db.auditEntries item = [] := by
    simp [Db.auditEntries, Table.select, hlog]
  rw [hnil]
  cases item with
  | review id =>
    cases hf : db.reviews.find? id with
    | none => simp [Db.standing, hf, Explained]
    | some r =>
      have hr := hreviews r ((db.reviews.find?_eq_some id r).mp hf).1
      simp [Db.standing, hf, hr, ReviewStatus.standing, Explained]
  | layoffEvent id =>
    cases hf : db.layoffEvents.find? id with
    | none => simp [Db.standing, hf, Explained]
    | some e =>
      have he := hlayoffs e ((db.layoffEvents.find?_eq_some id e).mp hf).1
      simp [Db.standing, hf, he, ReviewStatus.standing, Explained]
  | document id =>
    cases hf : db.moderationQueue.find? id with
    | none => simp [Db.standing, hf, Explained]
    | some i =>
      have hi := hdocuments i ((db.moderationQueue.find?_eq_some id i).mp hf).1
      simp [Db.standing, hf, hi, ModerationStatus.standing, Explained]

/-- In every run from an empty log with only pending rows, in which no request with the
    item type DOCUMENT decides a layoff event, the log explains every state reached. -/
theorem audit_trail (p : Platform) (es : List (Request × Draws)) (s : Server)
    (hstart : OnlyPending s.db)
    (hfiled : (Api p).Along (fun t e => ¬ Misfiled p e.2.env t.db e.1) es s) :
    AuditTrail ((Api p).exec es s).db := by
  refine auditTrail_of_explains ?_
  refine (Api p).exec_inv (I := fun t => LogExplains t.db) (fun t e he ht => ?_) es s
    (explains_start hstart) hfiled
  exact handle_rel (R := fun _ db' => LogExplains db') ht fun hwrite => write_explains hwrite he ht

/-- A review and a layoff event are submitted; the review is approved, the event rejected. -/
def auditRun : List (Request × Draws) :=
  [(.submitReview smallReview (some "alice"), drawsAt 0 20),
    (.submitLayoffEvent smallLayoff (some "bob"), drawsAt 1 21),
    (.approveModerationItem .review 20 (some "root"), drawsAt 2 30),
    (.rejectModerationItem .layoffEvent 21 "no source" (some "root"), drawsAt 3 31)]

theorem auditRun_trail :
    ((Api smallPlatform).exec auditRun (.start smallDb)).db.moderationAuditLog.rows.length = 2 ∧
      AuditTrail ((Api smallPlatform).exec auditRun (.start smallDb)).db := by
  refine ⟨by decide, audit_trail smallPlatform auditRun (.start smallDb) ?_ ?_⟩
  · exact ⟨rfl, by decide, by decide, by decide⟩
  · refine ⟨?_, ?_, ?_, ?_, trivial⟩ <;> rintro ⟨_, _, _, _, _, hreq, _⟩ <;> cases hreq

/-- A layoff event is submitted and then decided under the item type DOCUMENT. -/
def misfiledRun : List (Request × Draws) :=
  [(.submitLayoffEvent smallLayoff (some "alice"), drawsAt 0 20),
    (.approveModerationItem .document 20 (some "root"), drawsAt 1 30)]

/-- After `misfiledRun` the event is published without an entry of its own. -/
theorem misfiled_breaks :
    ¬ ∀ (p : Platform) (es : List (Request × Draws)) (s : Server), OnlyPending s.db →
      AuditTrail ((Api p).exec es s).db := by
  intro hall
  have htrail := (hall smallPlatform misfiledRun (.start smallDb)
    ⟨rfl, by decide, by decide, by decide⟩).1 (.layoffEvent 20)
  have hstanding : ((Api smallPlatform).exec misfiledRun (.start smallDb)).db.standing
      (.layoffEvent 20) = some .accepted := by decide
  have hentries : ((Api smallPlatform).exec misfiledRun (.start smallDb)).db.auditEntries
      (.layoffEvent 20) = [] := by decide
  rw [hstanding, hentries] at htrail
  obtain ⟨e, he, -⟩ := htrail (Option.some_ne_none _)
  cases he

end LinkedOut
