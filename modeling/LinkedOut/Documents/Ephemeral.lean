/-
  The plaintext of an uploaded document: a file on disk, which a pending row of the
  moderation queue refers to until the document is decided.

  The files and the database share no transaction. A document handler changes the files
  first and commits afterwards, and does not take the first change back when the commit
  raises: an upload leaves a file that no row refers to, a decision leaves a pending row
  whose file is gone. `handle_shelf` says which of the two a request does, if any;
  `documents_iff`: the files and the queue agree throughout a run if and only if no
  document request of the run fails that way. `commit_failure_orphans`: they can.
-/
import LinkedOut.Effects

namespace LinkedOut

/-- The API one request at a time, where the database may fail any commit. -/
def FaultyApi (p : Platform) : Machine (Request × Env) Server Response where
  step e s := handle p e.2 e.1 s

/-! ## Files and pending documents -/

/-- The files on disk are those of the pending documents. -/
structure Shelved (s : Server) : Prop where
  referenced : ∀ f ∈ s.files, ∃ i ∈ s.db.moderationQueue.rows,
    i.status = .pending ∧ i.ephemeralPath = some f
  present : ∀ i ∈ s.db.moderationQueue.rows, i.status = .pending →
    ∃ f ∈ i.ephemeralPath, f ∈ s.files
  decided : ∀ i ∈ s.db.moderationQueue.rows, i.status ≠ .pending → i.ephemeralPath = none

/-- No two documents are in one file. -/
def Apart (s : Server) : Prop :=
  ∀ i ∈ s.db.moderationQueue.rows, ∀ j ∈ s.db.moderationQueue.rows, ∀ f,
    i.ephemeralPath = some f → j.ephemeralPath = some f → i = j

/-- The file of a document that the step decides is gone after it. -/
def FileGone (s s' : Server) : Prop :=
  ∀ i ∈ s.db.moderationQueue.rows, i.status = .pending → ∀ f, i.ephemeralPath = some f →
    ∀ j ∈ s'.db.moderationQueue.rows, j.id = i.id → j.status ≠ .pending → f ∉ s'.files

/-! ## Where a document handler can fail halfway -/

/-- The commit raises: the schema refuses a row, or the database fails. -/
def commitRaises {α : Type} (env : Env) (flushed : Option α) : Bool :=
  flushed.isNone || env.commitFails

theorem commit_cases {α : Type} (env : Env) (flushed : Option α) (e : HttpException) :
    (commitRaises env flushed = true ∧ commit env flushed e = .error e) ∨
      (commitRaises env flushed = false ∧ ∃ a, flushed = some a ∧ commit env flushed e = .ok a) := by
  unfold commitRaises commit
  cases flushed with
  | none => exact Or.inl ⟨rfl, rfl⟩
  | some a =>
    cases hfails : env.commitFails with
    | true => exact Or.inl ⟨rfl, rfl⟩
    | false => exact Or.inr ⟨rfl, a, rfl, rfl⟩

/-- A document request that has touched the files when its commit raises. -/
def FailsMidway (p : Platform) (s : Server) (e : Request × Env) : Prop :=
  match e.1 with
  | .uploadDocument docType content token =>
    ∃ user, acceptDocument p e.2 content token s.db = .ok user ∧ e.2.path ∉ s.files ∧
      commitRaises e.2
        (s.db.moderationQueue.insert (newDocument p e.2 user.id docType content)) = true
  | .approveDocument itemId token =>
    ∃ admin item user, loadForApproval p e.2 itemId token s.db = .ok (admin, item, user) ∧
      commitRaises e.2 (flushApproval e.2 admin.id item.id user s.db) = true
  | .rejectDocument itemId reason token =>
    ∃ admin item, loadForRejection p e.2 itemId reason token s.db = .ok (admin, item) ∧
      commitRaises e.2
        (flushDocument e.2 admin.id item.id .rejected .reject (some reason) s.db) = true
  | _ => False

/-! ## What one request does to the files and the queue -/

/-- Files and queue change together, or not at all. -/
inductive Kept (s s' : Server) : Prop
  | untouched (hfiles : s'.files = s.files) (hqueue : s'.db.moderationQueue = s.db.moderationQueue)
  | uploaded {item : ModerationQueueItem} {f : String} (hfresh : f ∉ s.files)
      (hpending : item.status = .pending) (hpath : item.ephemeralPath = some f)
      (hfiles : s'.files = f :: s.files)
      (hqueue : s.db.moderationQueue.insert item = some s'.db.moderationQueue)
  | decided {item : ModerationQueueItem} {status : ModerationStatus} {t : Time}
      (hitem : s.db.moderationQueue.find? item.id = some item) (hpending : item.status = .pending)
      (hstatus : status ≠ .pending)
      (hfiles : s'.files = deleteEphemeralFile item.ephemeralPath s.files)
      (hqueue : s'.db.moderationQueue = s.db.moderationQueue.update item.id
        (ModerationQueueItem.setDecision status t))

/-- The files change and the queue does not. -/
inductive Broken (s s' : Server) : Prop
  | orphaned {f : String} (hfresh : f ∉ s.files) (hfiles : s'.files = f :: s.files)
      (hqueue : s'.db.moderationQueue = s.db.moderationQueue)
  | lost {item : ModerationQueueItem} (hitem : item ∈ s.db.moderationQueue.rows)
      (hpending : item.status = .pending)
      (hfiles : s'.files = deleteEphemeralFile item.ephemeralPath s.files)
      (hqueue : s'.db.moderationQueue = s.db.moderationQueue)

theorem not_mem_deleteEphemeralFile {f : String} {files : List String} :
    f ∉ deleteEphemeralFile (some f) files := by
  simp [deleteEphemeralFile]

theorem mem_deleteEphemeralFile {path : Option String} {f : String} {files : List String} :
    f ∈ deleteEphemeralFile path files ↔ f ∈ files ∧ path ≠ some f := by
  cases path with
  | none => simp [deleteEphemeralFile]
  | some g =>
    rw [deleteEphemeralFile, List.mem_filter, decide_eq_true_eq, ne_eq, ne_eq, Option.some.injEq,
      eq_comm]

/-- What `approve_document` has loaded is a pending row. -/
theorem loadForApproval_item {p : Platform} {env : Env} {itemId : Uuid} {token : Option String}
    {db : Db} {admin : AdminUser} {item : ModerationQueueItem} {user : User}
    (h : loadForApproval p env itemId token db = .ok (admin, item, user)) :
    item ∈ db.moderationQueue.rows ∧ item.status = .pending := by
  obtain ⟨_, _, h1⟩ := bind_ok h
  obtain ⟨_, hitem, h2⟩ := bind_ok h1
  obtain ⟨_, _, h3⟩ := bind_ok h2
  cases h3
  obtain ⟨hfind, hpending⟩ := loadDocumentItem_ok hitem
  exact ⟨((db.moderationQueue.find?_eq_some _ _).mp hfind).1, hpending⟩

/-- What `reject_document` has loaded is a pending row. -/
theorem loadForRejection_item {p : Platform} {env : Env} {itemId : Uuid} {reason : String}
    {token : Option String} {db : Db} {admin : AdminUser} {item : ModerationQueueItem}
    (h : loadForRejection p env itemId reason token db = .ok (admin, item)) :
    item ∈ db.moderationQueue.rows ∧ item.status = .pending := by
  obtain ⟨_, _, h1⟩ := bind_ok h
  obtain ⟨_, _, h2⟩ := bind_ok h1
  obtain ⟨_, hitem, h3⟩ := bind_ok h2
  cases h3
  obtain ⟨hfind, hpending⟩ := loadDocumentItem_ok hitem
  exact ⟨((db.moderationQueue.find?_eq_some _ _).mp hfind).1, hpending⟩

theorem flushDocument_queue {env : Env} {adminId itemId : Uuid} {status : ModerationStatus}
    {action : ModerationAction} {reason : Option String} {db db' : Db}
    (h : flushDocument env adminId itemId status action reason db = some db') :
    db'.moderationQueue = db.moderationQueue.update itemId
      (ModerationQueueItem.setDecision status (env.now 1)) := by
  obtain ⟨_, _, rfl⟩ := flushDocument_some h
  rfl

theorem flushApproval_queue {env : Env} {adminId itemId : Uuid} {user : User} {db db' : Db}
    (h : flushApproval env adminId itemId user db = some db') :
    db'.moderationQueue = db.moderationQueue.update itemId
      (ModerationQueueItem.setDecision .approved (env.now 1)) := by
  obtain ⟨db1, hflush, heq⟩ := Option.bind_eq_some_iff.mp h
  rw [← flushDocument_queue hflush]
  split at heq <;> cases heq <;> rfl

/-- The requests that write or delete an ephemeral file. -/
def Request.touchesFiles : Request → Bool
  | uploadDocument _ _ _ | approveDocument _ _ | rejectDocument _ _ _ => true
  | _ => false

theorem answerCommit_files {α : Type} (s : Server) (r : Except HttpException (Db × α))
    (payload : α → Payload) : (answerCommit s r payload).2.files = s.files := by
  cases r <;> rfl

theorem answerVerify_files (s : Server)
    (r : Except HttpException (Db × Except HttpException VerifyOut)) :
    (answerVerify s r).2.files = s.files := by
  cases r <;> rfl

theorem write_queue {p : Platform} {env : Env} {db db' : Db} {req : Request} {out : Response}
    (h : Write p env db req out db') (hreq : req.touchesFiles = false) :
    db'.moderationQueue = db.moderationQueue := by
  cases h with
  | documentUploaded => cases hreq
  | documentApproved => cases hreq
  | documentRejected => cases hreq
  | _ => rfl

section

variable {p : Platform} {env : Env} {s : Server}

theorem handle_files {req : Request} (h : req.touchesFiles = false) :
    (handle p env req s).2.files = s.files := by
  cases req with
  | uploadDocument => cases h
  | approveDocument => cases h
  | rejectDocument => cases h
  | verifyOtp => exact answerVerify_files s _
  | verifyEmail => exact answerVerify_files s _
  | requestOtp => exact answerCommit_files s _ _
  | requestEmailVerification => exact answerCommit_files s _ _
  | submitReview => exact answerCommit_files s _ _
  | corroborateReview => exact answerCommit_files s _ _
  | respondToReview => exact answerCommit_files s _ _
  | submitLayoffEvent => exact answerCommit_files s _ _
  | approveModerationItem => exact answerCommit_files s _ _
  | rejectModerationItem => exact answerCommit_files s _ _
  | createTakedownLogEntry => exact answerCommit_files s _ _
  | submitGrievance => exact answerCommit_files s _ _
  | _ => rfl

theorem handle_queue {req : Request} (h : req.touchesFiles = false) :
    (handle p env req s).2.db.moderationQueue = s.db.moderationQueue :=
  handle_rel (R := fun db db' => db'.moderationQueue = db.moderationQueue) rfl
    fun hwrite => write_queue hwrite h

theorem upload_shelf (docType : DocumentType) (content : List UInt8) (token : Option String) :
    (FailsMidway p s (.uploadDocument docType content token, env) ∧
        Broken s (handle p env (.uploadDocument docType content token) s).2) ∨
      (¬ FailsMidway p s (.uploadDocument docType content token, env) ∧
        Kept s (handle p env (.uploadDocument docType content token) s).2) := by
  unfold FailsMidway handle uploadDocument
  dsimp only
  cases hgate : acceptDocument p env content token s.db with
  | error e =>
    refine Or.inr ⟨?_, .untouched rfl rfl⟩
    rintro ⟨_, h, -⟩
    cases h
  | ok user =>
    by_cases hpath : env.path ∈ s.files
    · rw [show mkstemp env s.files = .error internalServerError from if_pos hpath]
      exact Or.inr ⟨fun ⟨_, _, hno, _⟩ => hno hpath, .untouched rfl rfl⟩
    · rw [show mkstemp env s.files = .ok (env.path :: s.files) from if_neg hpath]
      rcases commit_cases env
        (s.db.moderationQueue.insert (newDocument p env user.id docType content))
        internalServerError with ⟨hraises, hcommit⟩ | ⟨hno, queue, hinsert, hcommit⟩
      · refine Or.inl ⟨⟨user, rfl, hpath, hraises⟩, ?_⟩
        simp only [hcommit]
        exact .orphaned hpath rfl rfl
      · refine Or.inr ⟨?_, ?_⟩
        · rintro ⟨_, h, -, hraises⟩
          cases h
          exact Bool.false_ne_true (hno.symm.trans hraises)
        · simp only [hcommit]
          exact .uploaded hpath rfl rfl rfl hinsert

/-- What the two decisions share: the file is deleted, then the decision is committed. -/
theorem decision_shelf {item : ModerationQueueItem} (hitem : item ∈ s.db.moderationQueue.rows)
    (hpending : item.status = .pending) {status : ModerationStatus} (hstatus : status ≠ .pending)
    {flushed : Option Db} (out : DocumentModerationActionOut)
    (hflush : ∀ db', flushed = some db' → db'.moderationQueue = s.db.moderationQueue.update item.id
      (ModerationQueueItem.setDecision status (env.now 1))) :
    let r := answerFiles s (deleteEphemeralFile item.ephemeralPath s.files,
      commit env flushed internalServerError >>= fun db' => .ok (db', out)) .documentAction
    (commitRaises env flushed = true ∧ Broken s r.2) ∨
      (commitRaises env flushed = false ∧ Kept s r.2) := by
  intro r
  rcases commit_cases env flushed internalServerError with
    ⟨hraises, hcommit⟩ | ⟨hno, db', hsome, hcommit⟩
  · refine Or.inl ⟨hraises, ?_⟩
    simp only [r, hcommit]
    exact .lost hitem hpending rfl rfl
  · refine Or.inr ⟨hno, ?_⟩
    simp only [r, hcommit]
    exact .decided ((s.db.moderationQueue.find?_eq_some _ _).mpr ⟨hitem, rfl⟩) hpending hstatus rfl
      (hflush db' hsome)

theorem approve_shelf (itemId : Uuid) (token : Option String) :
    (FailsMidway p s (.approveDocument itemId token, env) ∧
        Broken s (handle p env (.approveDocument itemId token) s).2) ∨
      (¬ FailsMidway p s (.approveDocument itemId token, env) ∧
        Kept s (handle p env (.approveDocument itemId token) s).2) := by
  unfold FailsMidway handle approveDocument
  dsimp only
  cases hload : loadForApproval p env itemId token s.db with
  | error e =>
    refine Or.inr ⟨?_, .untouched rfl rfl⟩
    rintro ⟨_, _, _, h, -⟩
    cases h
  | ok loaded =>
    obtain ⟨admin, item, user⟩ := loaded
    obtain ⟨hitem, hpending⟩ := loadForApproval_item hload
    have hstatus : ModerationStatus.approved ≠ .pending := by decide
    rcases decision_shelf hitem hpending hstatus ⟨itemId, user.id, .approved, .approve⟩
      (fun _ => flushApproval_queue) with ⟨hraises, hbroken⟩ | ⟨hno, hkept⟩
    · exact Or.inl ⟨⟨admin, item, user, rfl, hraises⟩, hbroken⟩
    · refine Or.inr ⟨?_, hkept⟩
      rintro ⟨_, _, _, h, hraises⟩
      cases h
      exact Bool.false_ne_true (hno.symm.trans hraises)

theorem reject_shelf (itemId : Uuid) (reason : String) (token : Option String) :
    (FailsMidway p s (.rejectDocument itemId reason token, env) ∧
        Broken s (handle p env (.rejectDocument itemId reason token) s).2) ∨
      (¬ FailsMidway p s (.rejectDocument itemId reason token, env) ∧
        Kept s (handle p env (.rejectDocument itemId reason token) s).2) := by
  unfold FailsMidway handle rejectDocument
  dsimp only
  cases hload : loadForRejection p env itemId reason token s.db with
  | error e =>
    refine Or.inr ⟨?_, .untouched rfl rfl⟩
    rintro ⟨_, _, h, -⟩
    cases h
  | ok loaded =>
    obtain ⟨admin, item⟩ := loaded
    obtain ⟨hitem, hpending⟩ := loadForRejection_item hload
    have hstatus : ModerationStatus.rejected ≠ .pending := by decide
    rcases decision_shelf hitem hpending hstatus ⟨itemId, item.userId, .rejected, .reject⟩
      (fun _ => flushDocument_queue) with ⟨hraises, hbroken⟩ | ⟨hno, hkept⟩
    · exact Or.inl ⟨⟨admin, item, rfl, hraises⟩, hbroken⟩
    · refine Or.inr ⟨?_, hkept⟩
      rintro ⟨_, _, h, hraises⟩
      cases h
      exact Bool.false_ne_true (hno.symm.trans hraises)

/-- A document request fails midway and breaks the shelf, every other request keeps it. -/
theorem handle_shelf (p : Platform) (e : Request × Env) (s : Server) :
    (FailsMidway p s e ∧ Broken s ((FaultyApi p).step e s).2) ∨
      (¬ FailsMidway p s e ∧ Kept s ((FaultyApi p).step e s).2) := by
  obtain ⟨req, env⟩ := e
  cases hdoc : req.touchesFiles with
  | false =>
    refine Or.inr ⟨?_, .untouched (handle_files hdoc) (handle_queue hdoc)⟩
    cases req <;> first | exact not_false | cases hdoc
  | true =>
    cases req with
    | uploadDocument docType content token => exact upload_shelf docType content token
    | approveDocument itemId token => exact approve_shelf itemId token
    | rejectDocument itemId reason token => exact reject_shelf itemId reason token
    | _ => cases hdoc

end

/-! ## Keeping and breaking -/

variable {s s' : Server}

theorem Kept.shelved (h : Kept s s') (hs : Shelved s) (hapart : Apart s) : Shelved s' := by
  cases h with
  | untouched hfiles hqueue =>
    constructor
    · rw [hfiles, hqueue]; exact hs.referenced
    · rw [hfiles, hqueue]; exact hs.present
    · rw [hqueue]; exact hs.decided
  | @uploaded item f hfresh hpending hpath hfiles hqueue =>
    have hmem : ∀ i, i ∈ s'.db.moderationQueue.rows ↔ i ∈ s.db.moderationQueue.rows ∨ i = item :=
      Table.mem_insert hqueue
    constructor
    · intro g hg
      rw [hfiles] at hg
      rcases List.mem_cons.mp hg with rfl | hg
      · exact ⟨item, (hmem item).mpr (Or.inr rfl), hpending, hpath⟩
      · obtain ⟨i, hi, hi'⟩ := hs.referenced g hg
        exact ⟨i, (hmem i).mpr (Or.inl hi), hi'⟩
    · intro i hi hstatus
      rw [hfiles]
      rcases (hmem i).mp hi with hi | rfl
      · obtain ⟨g, hg, hmemg⟩ := hs.present i hi hstatus
        exact ⟨g, hg, List.mem_cons_of_mem _ hmemg⟩
      · exact ⟨f, hpath, List.mem_cons_self⟩
    · intro i hi hstatus
      rcases (hmem i).mp hi with hi | rfl
      · exact hs.decided i hi hstatus
      · exact absurd hpending hstatus
  | @decided item status t hitem hpending hstatus hfiles hqueue =>
    obtain ⟨hrow, -⟩ := (s.db.moderationQueue.find?_eq_some _ _).mp hitem
    have hmem : ∀ i, i ∈ s'.db.moderationQueue.rows ↔
        (i ∈ s.db.moderationQueue.rows ∧ i.id ≠ item.id) ∨
          i = (ModerationQueueItem.setDecision status t).apply item := by
      rw [hqueue]
      exact Table.mem_update_of_find? hitem _
    constructor
    · -- a file that is still there is not that of the decided row
      intro g hg
      rw [hfiles] at hg
      obtain ⟨hg, hother⟩ := mem_deleteEphemeralFile.mp hg
      obtain ⟨i, hi, hi'⟩ := hs.referenced g hg
      refine ⟨i, (hmem i).mpr (Or.inl ⟨hi, fun hid => hother ?_⟩), hi'⟩
      rw [← s.db.moderationQueue.eq_of_pk hi hrow hid]
      exact hi'.2
    · intro i hi hnow
      rcases (hmem i).mp hi with ⟨hi, hid⟩ | rfl
      · obtain ⟨g, hg, hmemg⟩ := hs.present i hi hnow
        refine ⟨g, hg, ?_⟩
        rw [hfiles]
        refine mem_deleteEphemeralFile.mpr ⟨hmemg, fun hpath => hid ?_⟩
        rw [hapart i hi item hrow g hg hpath]
      · exact absurd hnow hstatus
    · intro i hi hnow
      rcases (hmem i).mp hi with ⟨hi, -⟩ | rfl
      · exact hs.decided i hi hnow
      · rfl

theorem Kept.apart (h : Kept s s') (hs : Shelved s) (hapart : Apart s) : Apart s' := by
  cases h with
  | untouched _ hqueue =>
    unfold Apart
    rw [hqueue]
    exact hapart
  | @uploaded item f hfresh hpending hpath _ hqueue =>
    -- the path of a row that was there is on disk, so it is not the new one
    have hnew : ∀ i ∈ s.db.moderationQueue.rows, i.ephemeralPath ≠ some f := by
      intro i hi hf
      by_cases hstatus : i.status = .pending
      · obtain ⟨g, hg, hmemg⟩ := hs.present i hi hstatus
        rw [Option.mem_def, hf] at hg
        cases hg
        exact hfresh hmemg
      · rw [hs.decided i hi hstatus] at hf
        cases hf
    intro i hi j hj g hgi hgj
    rcases (Table.mem_insert hqueue i).mp hi with hi | rfl
    · rcases (Table.mem_insert hqueue j).mp hj with hj | rfl
      · exact hapart i hi j hj g hgi hgj
      · rw [hpath] at hgj
        cases hgj
        exact absurd hgi (hnew i hi)
    · rcases (Table.mem_insert hqueue j).mp hj with hj | rfl
      · rw [hpath] at hgi
        cases hgi
        exact absurd hgj (hnew j hj)
      · rfl
  | @decided item _ _ hitem _ _ _ hqueue =>
    intro i hi j hj g hgi hgj
    rw [hqueue] at hi hj
    rcases (Table.mem_update_of_find? hitem _ i).mp hi with ⟨hi, -⟩ | rfl
    · rcases (Table.mem_update_of_find? hitem _ j).mp hj with ⟨hj, -⟩ | rfl
      · exact hapart i hi j hj g hgi hgj
      · cases hgj
    · cases hgi

theorem Kept.fileGone (h : Kept s s') : FileGone s s' := by
  intro i hi hpending f hf j hj hid hdecided
  cases h with
  | untouched _ hqueue =>
    rw [hqueue] at hj
    rw [s.db.moderationQueue.eq_of_pk hj hi hid] at hdecided
    exact absurd hpending hdecided
  | uploaded _ hnew _ _ hqueue =>
    rcases (Table.mem_insert hqueue j).mp hj with hj | rfl
    · rw [s.db.moderationQueue.eq_of_pk hj hi hid] at hdecided
      exact absurd hpending hdecided
    · exact absurd hnew hdecided
  | @decided item _ _ hitem _ _ hfiles hqueue =>
    rw [hqueue] at hj
    rcases (Table.mem_update_of_find? hitem _ j).mp hj with ⟨hj, -⟩ | rfl
    · rw [s.db.moderationQueue.eq_of_pk hj hi hid] at hdecided
      exact absurd hpending hdecided
    · obtain ⟨hrow, -⟩ := (s.db.moderationQueue.find?_eq_some _ _).mp hitem
      have hsame : i = item := s.db.moderationQueue.eq_of_pk hi hrow hid.symm
      rw [hfiles, ← hsame, hf]
      exact not_mem_deleteEphemeralFile

theorem Broken.not_shelved (h : Broken s s') (hs : Shelved s) : ¬ Shelved s' := by
  intro hs'
  cases h with
  | @orphaned f hfresh hfiles hqueue =>
    -- a row that refers to the new file has its file on disk already
    obtain ⟨i, hi, hpending, hpath⟩ := hs'.referenced f (by rw [hfiles]; exact List.mem_cons_self)
    rw [hqueue] at hi
    obtain ⟨g, hg, hmem⟩ := hs.present i hi hpending
    rw [Option.mem_def, hpath] at hg
    cases hg
    exact hfresh hmem
  | @lost item hitem hpending hfiles hqueue =>
    obtain ⟨g, hg, hmem⟩ := hs'.present item (by rw [hqueue]; exact hitem) hpending
    rw [hfiles] at hmem
    exact (mem_deleteEphemeralFile.mp hmem).2 hg

/-! ## Whole runs -/

/-- From files and a queue that agree, they agree in every state of the run and the file of
    a decided document is gone, if and only if no document request fails midway. -/
theorem documents_iff (p : Platform) (es : List (Request × Env)) (s : Server) (hs : Shelved s)
    (hapart : Apart s) :
    ((∀ i, Shelved ((FaultyApi p).exec (es.take i) s)) ∧
        ∀ v ∈ (FaultyApi p).trace es s, FileGone v.before v.after) ↔
      (FaultyApi p).Along (fun t e => ¬ FailsMidway p t e) es s := by
  constructor
  · rintro ⟨hshelved, -⟩
    refine ((FaultyApi p).along_iff_getElem? _ es s).mpr fun n e he hfails => ?_
    have hnext : Shelved ((FaultyApi p).exec (es.take (n + 1)) s) := hshelved (n + 1)
    rw [(FaultyApi p).exec_take_succ he] at hnext
    rcases handle_shelf p e ((FaultyApi p).exec (es.take n) s) with ⟨-, hbroken⟩ | ⟨hno, -⟩
    · exact hbroken.not_shelved (hshelved n) hnext
    · exact hno hfails
  · intro hfine
    have hkept : ∀ (t : Server) (e : Request × Env), ¬ FailsMidway p t e →
        Kept t ((FaultyApi p).step e t).2 := by
      intro t e hno
      rcases handle_shelf p e t with ⟨hfails, -⟩ | ⟨-, hkept⟩
      · exact absurd hfails hno
      · exact hkept
    constructor
    · intro i
      have hinv := (FaultyApi p).exec_inv (I := fun t => Shelved t ∧ Apart t)
        (fun t e hno ht => ⟨(hkept t e hno).shelved ht.1 ht.2, (hkept t e hno).apart ht.1 ht.2⟩)
        (es.take i) s ⟨hs, hapart⟩ ((FaultyApi p).along_take_le hfine i)
      exact hinv.1
    · intro v hv
      have hno := ((FaultyApi p).along_iff _ es s).mp hfine v hv
      rw [(FaultyApi p).mem_trace hv]
      exact (hkept v.before v.event hno).fileGone

/-- An upload and its approval, with every commit as it should be. -/
def documentRun : List (Request × Env) :=
  [(.uploadDocument .payslip [1] (some "alice"), { (drawsAt 1 60).env with path := "/tmp/a" }),
    (.approveDocument 60 (some "root"), (drawsAt 2 80).env)]

theorem noDocuments_shelved : Shelved (.start smallDb) ∧ Apart (.start smallDb) :=
  ⟨⟨by decide, by decide, by decide⟩, fun _ hi => by cases hi⟩

theorem documentRun_shelved :
    Shelved ((FaultyApi smallPlatform).exec documentRun (.start smallDb)) := by
  have hfine : (FaultyApi smallPlatform).Along (fun t e => ¬ FailsMidway smallPlatform t e)
      documentRun (.start smallDb) := by
    refine ⟨?_, ?_, trivial⟩
    · rintro ⟨user, hgate, -, hraises⟩
      cases hgate
      exact absurd hraises (by decide)
    · rintro ⟨admin, item, user, hload, hraises⟩
      cases hload
      exact absurd hraises (by decide)
  exact ((documents_iff smallPlatform documentRun (.start smallDb) noDocuments_shelved.1
    noDocuments_shelved.2).mpr hfine).1 2

/-- An upload whose commit raises leaves its file behind, and a rejection whose commit
    raises leaves a pending row without its file. -/
theorem commit_failure_orphans :
    ¬ Shelved ((FaultyApi smallPlatform).exec
        [(.uploadDocument .payslip [1] (some "alice"),
          { (drawsAt 1 60) with path := "/tmp/a", commitFails := true })] (.start smallDb)) ∧
      ¬ Shelved ((FaultyApi smallPlatform).exec
        [(.uploadDocument .payslip [1] (some "alice"),
            { (drawsAt 1 60) with path := "/tmp/a", commitFails := false }),
          (.rejectDocument 60 "unreadable" (some "root"),
            { (drawsAt 2 80) with commitFails := true })] (.start smallDb)) := by
  constructor
  · intro h
    exact absurd (h.referenced "/tmp/a" (by decide)) (by decide)
  · intro h
    exact absurd (h.present ⟨60, 1, .payslip, "1", some "/tmp/a", .pending, 1, none⟩ (by decide) rfl)
      (by decide)

end LinkedOut
