/-
  `app/routers/admin.py`, `app/routers/takedown.py` and `app/routers/grievance.py`: admin
  login, the two moderation queues, grievance intake and triage, the takedown log.

  The four decision handlers are cut where the source awaits: `loadItem` and
  `loadDocumentItem` with `loadOwner` read, `flushDecision`, `flushApproval` and
  `flushRejection` write what was computed from the rows read before, keyed on the
  primary key alone.
-/
import LinkedOut.Tokens
import LinkedOut.Routers.Reviews

namespace LinkedOut

/-! ## Login -/

structure AdminLoginOut where
  accessToken : String
  tokenType : String := "bearer"
  adminId : Uuid
  deriving DecidableEq, Repr

def invalidCredentials : HttpException := { status := 401, detail := "invalid credentials" }

/-- The driver refuses a text with NUL as a bound parameter. -/
def adminLogin (p : Platform) (env : Env) (email password : String) (db : Db) :
    Except HttpException AdminLoginOut := do
  validate [("body.password", decide (1 ≤ password.length))]
  let email := p.lower (strip email)
  raiseIf (!storable email) internalServerError
  match ← scalarOneOrNone ((Lookup.adminByEmail email).rows db) with
  | none => .error invalidCredentials
  | some admin =>
    if !admin.isActive then .error invalidCredentials
    else if ← verifyPassword p password admin.passwordHash then
      .ok { accessToken := createAdminToken p (env.now 0) admin.id, adminId := admin.id }
    else .error invalidCredentials

/-! ## Moderation queue -/

structure ModerationQueueEntry where
  itemType : ModeratedItemType
  itemId : Uuid
  companyId : Uuid
  flaggedReason : Option String
  status : ReviewStatus
  previewText : Option String
  createdAt : Time
  deriving DecidableEq, Repr

def Review.queueEntry (r : Review) : ModerationQueueEntry :=
  ⟨.review, r.id, r.companyId, r.flaggedReason, r.status, some r.prose, r.createdAt⟩

def LayoffEvent.queueEntry (e : LayoffEvent) : ModerationQueueEntry :=
  ⟨.layoffEvent, e.id, e.companyId, e.flaggedReason, e.status, e.department, e.createdAt⟩

/-- The sort key `(flagged_reason is None, created_at)`. -/
def queueOrder (a b : ModerationQueueEntry) : Prop :=
  a.flaggedReason.isNone < b.flaggedReason.isNone ∨
    (a.flaggedReason.isNone = b.flaggedReason.isNone ∧ a.createdAt ≤ b.createdAt)

instance : DecidableRel queueOrder := fun _ _ => inferInstanceAs (Decidable (_ ∨ _))

/-- `entries`: the two unordered queries one after the other, then Python's stable sort. -/
def mergedQueue (place : Nat → Uuid → Nat) (db : Db) : List ModerationQueueEntry :=
  let reviews := orderAsc (fun r : Review => place 0 r.id) (fun _ => 0)
    (db.reviews.select fun r => r.status == .pending)
  let events := orderAsc (fun e : LayoffEvent => place 1 e.id) (fun _ => 0)
    (db.layoffEvents.select fun e => e.status == .pending)
  (reviews.map Review.queueEntry ++ events.map LayoffEvent.queueEntry).insertionSort queueOrder

def getModerationQueue (p : Platform) (env : Env) (page : Page) (token : Option String) (db : Db) :
    Except HttpException (Paginated ModerationQueueEntry) := do
  let _ ← getCurrentAdmin p env token db
  page.check
  let entries := mergedQueue env.place db
  return paginate page entries entries id

/-- What `_load_item` returns: a row of the table that `item_type` picks. -/
inductive ModeratedItem where
  | review (row : Review)
  | layoffEvent (row : LayoffEvent)
  deriving DecidableEq, Repr

/-- The 404 and the 409 of `_load_item`. -/
def loadPending {α : Type} (itemType : ModeratedItemType) (status : α → ReviewStatus)
    (row : Option α) : Except HttpException α :=
  match row with
  | none => .error { status := 404, detail := s!"{itemType.value} not found" }
  | some item =>
    if status item ≠ .pending then
      .error
        { status := 409,
          detail := s!"{itemType.value} is not pending moderation (status={(status item).value})" }
    else .ok item

/-- `_load_item`: every item type but REVIEW picks the layoff events. -/
def loadItem (itemType : ModeratedItemType) (itemId : Uuid) (db : Db) :
    Except HttpException ModeratedItem :=
  if itemType = .review then do
    let row ← scalarOneOrNone ((Lookup.reviewById itemId).rows db)
    let review ← loadPending itemType Review.status row
    return .review review
  else do
    let row ← scalarOneOrNone ((Lookup.layoffEventById itemId).rows db)
    let event ← loadPending itemType LayoffEvent.status row
    return .layoffEvent event

/-- What one of the two decisions writes. -/
structure Decision where
  status : ReviewStatus
  action : ModerationAction
  reason : Option String
  deriving DecidableEq, Repr

def approval : Decision := ⟨.published, .approve, none⟩

def rejection (reason : String) : Decision := ⟨.rejected, .reject, some reason⟩

/-- The audit entry of a decision, stamped at the clock reading `i`. -/
def newAuditEntry (env : Env) (i : Nat) (adminId : Uuid) (itemType : ModeratedItemType)
    (itemId : Uuid) (action : ModerationAction) (reason : Option String) :
    ModerationAuditLogEntry where
  id := env.uuid 0
  actorAdminId := some adminId
  itemType
  itemId
  action
  reason
  createdAt := env.now i

/-- `item.status = ...`, beside the log with the new entry. -/
def writeItem (item : ModeratedItem) (status : ReviewStatus)
    (moderationAuditLog : Table ModerationAuditLogEntry) (db : Db) : Db :=
  match item with
  | .review r =>
    { db with
      reviews := db.reviews.update r.id (Review.setStatus status)
      moderationAuditLog }
  | .layoffEvent e =>
    { db with
      layoffEvents := db.layoffEvents.update e.id (LayoffEvent.setStatus status)
      moderationAuditLog }

/-- The item's new status and the audit entry, in one flush. -/
def flushDecision (env : Env) (adminId : Uuid) (itemType : ModeratedItemType) (itemId : Uuid)
    (item : ModeratedItem) (decision : Decision) (db : Db) : Option Db := do
  let moderationAuditLog ← db.moderationAuditLog.insert
    (newAuditEntry env 1 adminId itemType itemId decision.action decision.reason)
  return writeItem item decision.status moderationAuditLog db

structure ModerationActionOut where
  itemType : ModeratedItemType
  itemId : Uuid
  status : ReviewStatus
  action : ModerationAction
  deriving DecidableEq, Repr

/-- Clock: 0 the bearer token, 1 `created_at` of the audit entry. -/
def decideModerationItem (p : Platform) (env : Env) (itemType : ModeratedItemType) (itemId : Uuid)
    (decision : Decision) (check : Except HttpException Unit) (token : Option String) (db : Db) :
    Except HttpException (Db × ModerationActionOut) := do
  let admin ← getCurrentAdmin p env token db
  check
  let item ← loadItem itemType itemId db
  let db' ← commit env (flushDecision env admin.id itemType itemId item decision db)
    internalServerError
  return (db', ⟨itemType, itemId, decision.status, decision.action⟩)

def approveModerationItem (p : Platform) (env : Env) (itemType : ModeratedItemType)
    (itemId : Uuid) (token : Option String) (db : Db) :
    Except HttpException (Db × ModerationActionOut) :=
  decideModerationItem p env itemType itemId approval (.ok ()) token db

/-- `ModerationRejectIn`: the reason is mandatory. -/
def checkReason (reason : String) : Except HttpException Unit :=
  validate [("body.reason", decide (1 ≤ reason.length))]

def rejectModerationItem (p : Platform) (env : Env) (itemType : ModeratedItemType)
    (itemId : Uuid) (reason : String) (token : Option String) (db : Db) :
    Except HttpException (Db × ModerationActionOut) :=
  decideModerationItem p env itemType itemId (rejection reason) (checkReason reason) token db

/-! ## Tier-3 document queue -/

structure DocumentQueueEntry where
  id : Uuid
  userId : Uuid
  docType : DocumentType
  status : ModerationStatus
  createdAt : Time
  deriving DecidableEq, Repr

def ModerationQueueItem.queueEntry (i : ModerationQueueItem) : DocumentQueueEntry :=
  ⟨i.id, i.userId, i.docType, i.status, i.createdAt⟩

def getDocumentQueue (p : Platform) (env : Env) (page : Page) (token : Option String) (db : Db) :
    Except HttpException (Paginated DocumentQueueEntry) := do
  let _ ← getCurrentAdmin p env token db
  page.check
  let rows := db.moderationQueue.select fun i => i.status == .pending
  return paginate page rows
    (orderAsc (fun i => env.place 0 i.id) ModerationQueueItem.createdAt rows)
    ModerationQueueItem.queueEntry

/-- `_load_document_item`. -/
def loadDocumentItem (itemId : Uuid) (db : Db) : Except HttpException ModerationQueueItem := do
  match ← scalarOneOrNone ((Lookup.documentById itemId).rows db) with
  | none => .error { status := 404, detail := "document queue item not found" }
  | some item =>
    if item.status ≠ .pending then
      .error {
        status := 409
        detail :=
          s!"document queue item is not pending moderation (status={item.status.value})" }
    else .ok item

/-- The owner of the document, whose tier an approval raises. -/
def loadOwner (item : ModerationQueueItem) (db : Db) : Except HttpException User := do
  match ← scalarOneOrNone ((Lookup.userById item.userId).rows db) with
  | none => .error { status := 404, detail := "associated user not found" }
  | some user => .ok user

/-- `delete_ephemeral_file`, when the row still has a path. -/
def deleteEphemeralFile (path : Option String) (files : List String) : List String :=
  match path with
  | none => files
  | some path => files.filter fun f => f ≠ path

/-- The decided row, and the audit entry. -/
def flushDocument (env : Env) (adminId itemId : Uuid) (status : ModerationStatus)
    (action : ModerationAction) (reason : Option String) (db : Db) : Option Db := do
  let moderationAuditLog ← db.moderationAuditLog.insert
    (newAuditEntry env 2 adminId .document itemId action reason)
  return { db with
    moderationQueue :=
      db.moderationQueue.update itemId (ModerationQueueItem.setDecision status (env.now 1))
    moderationAuditLog }

/-- An approval also raises the owner; the column is written only when it changes. -/
def flushApproval (env : Env) (adminId itemId : Uuid) (user : User) (db : Db) : Option Db := do
  let db' ← flushDocument env adminId itemId .approved .approve none db
  return if user.verificationTier = .document then db'
    else { db' with users := db'.users.update user.id (User.setTier .document) }

structure DocumentModerationActionOut where
  id : Uuid
  userId : Uuid
  status : ModerationStatus
  action : ModerationAction
  deriving DecidableEq, Repr

/-- What `approve_document` has read when it deletes the file. -/
def loadForApproval (p : Platform) (env : Env) (itemId : Uuid) (token : Option String) (db : Db) :
    Except HttpException (AdminUser × ModerationQueueItem × User) := do
  let admin ← getCurrentAdmin p env token db
  let item ← loadDocumentItem itemId db
  let user ← loadOwner item db
  return (admin, item, user)

/-- Clock: 0 the bearer token, 1 `reviewed_at`, 2 `created_at` of the audit entry. The file
    is deleted before the commit. -/
def approveDocument (p : Platform) (env : Env) (itemId : Uuid) (token : Option String) (db : Db)
    (files : List String) :
    List String × Except HttpException (Db × DocumentModerationActionOut) :=
  match loadForApproval p env itemId token db with
  | .error e => (files, .error e)
  | .ok (admin, item, user) =>
    (deleteEphemeralFile item.ephemeralPath files, do
      let db' ← commit env (flushApproval env admin.id item.id user db) internalServerError
      return (db', ⟨itemId, user.id, .approved, .approve⟩))

/-- What `reject_document` has read when it deletes the file. -/
def loadForRejection (p : Platform) (env : Env) (itemId : Uuid) (reason : String)
    (token : Option String) (db : Db) :
    Except HttpException (AdminUser × ModerationQueueItem) := do
  let admin ← getCurrentAdmin p env token db
  checkReason reason
  let item ← loadDocumentItem itemId db
  return (admin, item)

def rejectDocument (p : Platform) (env : Env) (itemId : Uuid) (reason : String)
    (token : Option String) (db : Db) (files : List String) :
    List String × Except HttpException (Db × DocumentModerationActionOut) :=
  match loadForRejection p env itemId reason token db with
  | .error e => (files, .error e)
  | .ok (admin, item) =>
    (deleteEphemeralFile item.ephemeralPath files, do
      let db' ← commit env (flushDocument env admin.id item.id .rejected .reject (some reason) db)
        internalServerError
      return (db', ⟨itemId, item.userId, .rejected, .reject⟩))

/-! ## Grievances -/

structure GrievanceComplaintAdminRead where
  id : Uuid
  complainantContact : String
  subject : String
  description : String
  relatedItemType : Option ModeratedItemType
  relatedItemId : Option Uuid
  status : GrievanceStatus
  slaDeadline : Time
  createdAt : Time
  pastDeadline : Bool
  deriving DecidableEq, Repr

def GrievanceComplaint.adminRead (now : Time) (c : GrievanceComplaint) :
    GrievanceComplaintAdminRead :=
  ⟨c.id, c.complainantContact, c.subject, c.description, c.relatedItemType, c.relatedItemId,
    c.status, c.slaDeadline, c.createdAt, decide (c.slaDeadline < now)⟩

/-- Clock: 0 the bearer token, 1 what `past_deadline` compares with. -/
def listGrievances (p : Platform) (env : Env) (page : Page) (token : Option String) (db : Db) :
    Except HttpException (Paginated GrievanceComplaintAdminRead) := do
  let _ ← getCurrentAdmin p env token db
  page.check
  let rows := db.grievanceComplaints.select fun _ => true
  return paginate page rows
    (orderAsc (fun c => env.place 0 c.id) GrievanceComplaint.slaDeadline rows)
    (GrievanceComplaint.adminRead (env.now 1))

structure GrievanceComplaintCreate where
  complainantContact : String
  subject : String
  description : String
  relatedItemType : Option ModeratedItemType := none
  relatedItemId : Option Uuid := none
  isCourtOrGovernmentMatter : Bool := false
  deriving DecidableEq, Repr

/-- `_looks_like_email`. -/
def looksLikeEmail (s : String) : Bool :=
  s.toList.contains '@' && s.toList.head? != some '@' && s.toList.getLast? != some '@'

def GrievanceComplaintCreate.check (body : GrievanceComplaintCreate) : Except HttpException Unit :=
  validate [
    ("body.complainant_contact",
      lengthIn 3 contactMaxLen body.complainantContact && looksLikeEmail body.complainantContact),
    ("body.subject", lengthIn 1 subjectMaxLen body.subject),
    ("body.description", lengthIn 1 descriptionMaxLen body.description)]

structure GrievanceComplaintOut where
  id : Uuid
  status : GrievanceStatus
  slaDeadline : Time
  message : String := "complaint received and acknowledged"
  deriving DecidableEq, Repr

/-- `_URGENT_SLA`, 3 hours. -/
def urgentSla : Time := minutes (3 * 60)

/-- `_STANDARD_SLA`, 7 days. -/
def standardSla : Time := minutes (7 * 24 * 60)

/-- The row `submit_grievance` adds. -/
def newComplaint (env : Env) (body : GrievanceComplaintCreate) : GrievanceComplaint where
  id := env.uuid 0
  complainantContact := body.complainantContact
  subject := body.subject
  description := body.description
  relatedItemType := body.relatedItemType
  relatedItemId := body.relatedItemId
  status := .acknowledged
  slaDeadline := env.now 1 + if body.isCourtOrGovernmentMatter then urgentSla else standardSla
  createdAt := env.now 1

/-- Clock: 0 the rate limit, 1 `created_at` and the deadline. -/
def submitGrievance (p : Platform) (env : Env) (body : GrievanceComplaintCreate) (db : Db) :
    Except HttpException (Db × GrievanceComplaintOut) := do
  body.check
  raiseIf (!storable body.complainantContact) internalServerError
  orTooManyRequests "too many grievance submissions recently, try again later"
    (enforceRateLimit
      (db.grievanceComplaints.select fun c => c.complainantContact == body.complainantContact)
      GrievanceComplaint.createdAt (env.now 0) p.settings.grievanceRateLimitWindowMinutes
      p.settings.grievanceRateLimitMaxRequests)
  let complaint := newComplaint env body
  let grievanceComplaints ← commit env (db.grievanceComplaints.insert complaint)
    internalServerError
  return ({ db with grievanceComplaints },
    { id := complaint.id, status := complaint.status, slaDeadline := complaint.slaDeadline })

/-! ## Takedown log -/

/-- The log is public; an entry is read whole. -/
def listTakedownLog (env : Env) (page : Page) (db : Db) :
    Except HttpException (Paginated TakedownLogEntry) := do
  page.check
  let rows := db.takedownLogEntries.select fun _ => true
  return paginate page rows
    (orderDesc (fun e => env.place 0 e.id) TakedownLogEntry.createdAt rows) id

structure TakedownLogEntryCreate where
  itemType : ModeratedItemType
  itemId : Uuid
  requesterType : TakedownRequesterType
  requesterDetail : Option String := none
  complied : Bool
  reason : String
  deriving DecidableEq, Repr

def TakedownLogEntryCreate.check (body : TakedownLogEntryCreate) : Except HttpException Unit :=
  validate [
    ("body.requester_detail",
      match body.requesterDetail with
      | none => true
      | some text => lengthIn 0 requesterDetailMaxLen text),
    ("body.reason", lengthIn 1 reasonMaxLen body.reason)]

/-- The row `create_takedown_log_entry` adds; `created_at` is the database's own clock. -/
def newTakedownLogEntry (env : Env) (body : TakedownLogEntryCreate) : TakedownLogEntry where
  id := env.uuid 0
  itemType := body.itemType
  itemId := body.itemId
  requesterType := body.requesterType
  requesterDetail := body.requesterDetail
  complied := body.complied
  reason := body.reason
  createdAt := env.dbNow

def createTakedownLogEntry (p : Platform) (env : Env) (body : TakedownLogEntryCreate)
    (token : Option String) (db : Db) : Except HttpException (Db × TakedownLogEntry) := do
  let _ ← getCurrentAdmin p env token db
  body.check
  let entry := newTakedownLogEntry env body
  let takedownLogEntries ← commit env (db.takedownLogEntries.insert entry) internalServerError
  return ({ db with takedownLogEntries }, entry)

end LinkedOut
