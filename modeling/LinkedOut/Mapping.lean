/-
  The mapping of `app/models` onto tables: column by column with its type and nullability, and
  the INSERT of each row. `Catalog.Accepts` is what an INSERT has to meet in a schema.
-/
import LinkedOut.Migrations.Commands
import LinkedOut.Models

namespace LinkedOut

/-! ## Values -/

/-- A value that is sent to a column; a label of an enumeration goes as text. -/
inductive Value where
  | uuid (id : Uuid)
  | text (s : String)
  | integer (n : Int)
  | boolean (b : Bool)
  | timestamp (t : Time)
  deriving DecidableEq

/-- The column type takes the value; a timestamptz goes beyond every Python datetime. -/
def Value.fits (labels? : TypeName → Option (List String)) : ColumnType TypeName → Value → Bool
  | .uuid, .uuid _ => true
  | .text, .text s => storable s
  | .varchar n, .text s => varchar n s
  | .integer, .integer n => int32 n
  | .boolean, .boolean _ => true
  | .timestamptz, .timestamp _ => true
  | .enum e, .text s => (labels? e).any fun labels => labels.contains s
  | _, _ => false

/-- The columns an INSERT names, with what it sends to each; `none` is NULL. -/
abbrev Insert := List (ColumnName × Option Value)

def Insert.value (row : Insert) (column : ColumnName) : Option Value :=
  ((row.find? fun entry => entry.1 = column).map Prod.snd).join

/-- The table has the columns that are named, each takes what is sent to it, and the others
    can do without. -/
def Catalog.Accepts (c : Schema) (t : TableName) (row : Insert) : Prop :=
  ∃ d, c.table? t = some d ∧
    (∀ entry ∈ row, ∃ col ∈ d.column? entry.1,
      match entry.2 with
      | none => col.nullable = true
      | some v => v.fits c.labels? col.type = true) ∧
    ∀ col ∈ d.columns,
      (∃ entry ∈ row, entry.1 = col.name) ∨ col.nullable = true ∨ col.default.isSome = true

/-! ## The labels -/

/-- Stored by name: the enumeration has no `values_callable`. -/
def DocumentType.label : DocumentType → String
  | offerLetter => "offer_letter" | payslip => "payslip" | idDocument => "id_document"
  | other => "other"

def ExitReason.label : ExitReason → String
  | management => "MANAGEMENT" | compensation => "COMPENSATION" | layoffs => "LAYOFFS"
  | culture => "CULTURE" | growth => "GROWTH" | relocation => "RELOCATION" | other => "OTHER"

def TenureBucket.label : TenureBucket → String
  | lessThan1yr => "LESS_THAN_1YR" | oneTo3yr => "ONE_TO_3YR" | threeTo5yr => "THREE_TO_5YR"
  | fivePlusYr => "FIVE_PLUS_YR"

def RoleLevel.label : RoleLevel → String
  | ic => "IC" | manager => "MANAGER" | seniorManager => "SENIOR_MANAGER"
  | directorPlus => "DIRECTOR_PLUS"

def LayoffSourceType.label : LayoffSourceType → String
  | selfReported => "SELF_REPORTED" | news => "NEWS"

def ModerationAction.label : ModerationAction → String
  | approve => "APPROVE" | reject => "REJECT"

def TakedownRequesterType.label : TakedownRequesterType → String
  | courtOrder => "COURT_ORDER" | governmentDirection => "GOVERNMENT_DIRECTION"
  | companyLegalRequest => "COMPANY_LEGAL_REQUEST" | userReport => "USER_REPORT"
  | internalModeration => "INTERNAL_MODERATION"

def GrievanceStatus.label : GrievanceStatus → String
  | received => "RECEIVED" | acknowledged => "ACKNOWLEDGED" | resolved => "RESOLVED"

/-! ## Mapped columns -/

/-- `mapped_column`: its name, type and nullability, and the attribute it stores. -/
structure Mapped (α : Type) where
  column : ColumnName
  type : ColumnType TypeName
  nullable : Bool
  get : α → Option Value
  notNull : nullable = false → ∀ a, get a ≠ none

section

variable {α : Type}

/-- NOT NULL. -/
def mapped (column : ColumnName) (type : ColumnType TypeName) (get : α → Value) : Mapped α :=
  ⟨column, type, false, fun a => some (get a), fun _ a => Option.some_ne_none (get a)⟩

/-- `nullable=True`. -/
def mappedNull (column : ColumnName) (type : ColumnType TypeName) (get : α → Option Value) :
    Mapped α :=
  ⟨column, type, true, get, fun h => Bool.noConfusion h⟩

end

/-- The models that the API reads and writes; of `Company` only the id is looked at. -/
inductive Entity where
  | user | otpCode | emailVerificationCode | moderationQueueItem | review | corroboration
  | layoffEvent | employerAccount | employerResponse | adminUser | moderationAuditLogEntry
  | takedownLogEntry | grievanceComplaint
  deriving DecidableEq

namespace Entity

def members : List Entity :=
  [user, otpCode, emailVerificationCode, moderationQueueItem, review, corroboration, layoffEvent,
    employerAccount, employerResponse, adminUser, moderationAuditLogEntry, takedownLogEntry,
    grievanceComplaint]

def Row : Entity → Type
  | user => User
  | otpCode => OTPCode
  | emailVerificationCode => EmailVerificationCode
  | moderationQueueItem => ModerationQueueItem
  | review => Review
  | corroboration => Corroboration
  | layoffEvent => LayoffEvent
  | employerAccount => EmployerAccount
  | employerResponse => EmployerResponse
  | adminUser => AdminUser
  | moderationAuditLogEntry => ModerationAuditLogEntry
  | takedownLogEntry => TakedownLogEntry
  | grievanceComplaint => GrievanceComplaint

/-- `__tablename__`. -/
def table : Entity → TableName
  | user => .users
  | otpCode => .otpCodes
  | emailVerificationCode => .emailVerificationCodes
  | moderationQueueItem => .moderationQueue
  | review => .reviews
  | corroboration => .corroborations
  | layoffEvent => .layoffEvents
  | employerAccount => .employerAccounts
  | employerResponse => .employerResponses
  | adminUser => .adminUsers
  | moderationAuditLogEntry => .moderationAuditLog
  | takedownLogEntry => .takedownLogEntries
  | grievanceComplaint => .grievanceComplaints

def rows (db : Db) : (k : Entity) → List k.Row
  | user => db.users.rows
  | otpCode => db.otpCodes.rows
  | emailVerificationCode => db.emailVerificationCodes.rows
  | moderationQueueItem => db.moderationQueue.rows
  | review => db.reviews.rows
  | corroboration => db.corroborations.rows
  | layoffEvent => db.layoffEvents.rows
  | employerAccount => db.employerAccounts.rows
  | employerResponse => db.employerResponses.rows
  | adminUser => db.adminUsers.rows
  | moderationAuditLogEntry => db.moderationAuditLog.rows
  | takedownLogEntry => db.takedownLogEntries.rows
  | grievanceComplaint => db.grievanceComplaints.rows

def clash : (k : Entity) → k.Row → k.Row → Bool
  | user => Record.clash (α := User)
  | otpCode => Record.clash (α := OTPCode)
  | emailVerificationCode => Record.clash (α := EmailVerificationCode)
  | moderationQueueItem => Record.clash (α := ModerationQueueItem)
  | review => Record.clash (α := Review)
  | corroboration => Record.clash (α := Corroboration)
  | layoffEvent => Record.clash (α := LayoffEvent)
  | employerAccount => Record.clash (α := EmployerAccount)
  | employerResponse => Record.clash (α := EmployerResponse)
  | adminUser => Record.clash (α := AdminUser)
  | moderationAuditLogEntry => Record.clash (α := ModerationAuditLogEntry)
  | takedownLogEntry => Record.clash (α := TakedownLogEntry)
  | grievanceComplaint => Record.clash (α := GrievanceComplaint)

end Entity

/-! ## The classes of app/models -/

def User.mapping : List (Mapped User) := [
  mapped .id .uuid fun u => .uuid u.id,
  mapped .phoneHash (.varchar 64) fun u => .text u.phoneHash,
  mappedNull .emailDomainHash (.varchar 64) fun u => u.emailDomainHash.map .text,
  mapped .verificationTier (.enum .verificationTier) fun u => .text u.verificationTier.value]

def OTPCode.mapping : List (Mapped OTPCode) := [
  mapped .id .uuid fun c => .uuid c.id,
  mapped .phoneHash (.varchar 64) fun c => .text c.phoneHash,
  mapped .otpHash (.varchar 64) fun c => .text c.otpHash,
  mapped .attempts .integer fun c => .integer c.attempts,
  mapped .expiresAt .timestamptz fun c => .timestamp c.expiresAt,
  mappedNull .consumedAt .timestamptz fun c => c.consumedAt.map .timestamp,
  mapped .createdAt .timestamptz fun c => .timestamp c.createdAt]

def EmailVerificationCode.mapping : List (Mapped EmailVerificationCode) := [
  mapped .id .uuid fun c => .uuid c.id,
  mapped .userId .uuid fun c => .uuid c.userId,
  mapped .emailHash (.varchar 64) fun c => .text c.emailHash,
  mapped .domainHash (.varchar 64) fun c => .text c.domainHash,
  mapped .codeHash (.varchar 64) fun c => .text c.codeHash,
  mapped .attempts .integer fun c => .integer c.attempts,
  mapped .expiresAt .timestamptz fun c => .timestamp c.expiresAt,
  mappedNull .consumedAt .timestamptz fun c => c.consumedAt.map .timestamp,
  mapped .createdAt .timestamptz fun c => .timestamp c.createdAt]

def ModerationQueueItem.mapping : List (Mapped ModerationQueueItem) := [
  mapped .id .uuid fun i => .uuid i.id,
  mapped .userId .uuid fun i => .uuid i.userId,
  mapped .docType (.enum .documentType) fun i => .text i.docType.label,
  mapped .contentHash (.varchar 64) fun i => .text i.contentHash,
  mappedNull .ephemeralPath (.varchar 512) fun i => i.ephemeralPath.map .text,
  mapped .status (.enum .moderationStatus) fun i => .text i.status.value,
  mapped .createdAt .timestamptz fun i => .timestamp i.createdAt,
  mappedNull .reviewedAt .timestamptz fun i => i.reviewedAt.map .timestamp]

def Review.mapping : List (Mapped Review) := [
  mapped .id .uuid fun r => .uuid r.id,
  mapped .userId .uuid fun r => .uuid r.userId,
  mapped .companyId .uuid fun r => .uuid r.companyId,
  mapped .exitReason (.enum .exitReason) fun r => .text r.exitReason.label,
  mapped .tenureBucket (.enum .tenureBucket) fun r => .text r.tenureBucket.label,
  mapped .department (.varchar departmentMaxLen) fun r => .text r.department,
  mapped .roleLevel (.enum .roleLevel) fun r => .text r.roleLevel.label,
  mapped .isCurrentEmployee .boolean fun r => .boolean r.isCurrentEmployee,
  mapped .prose .text fun r => .text r.prose,
  mapped .status (.enum .reviewStatus) fun r => .text r.status.value,
  mappedNull .flaggedReason .text fun r => r.flaggedReason.map .text,
  mapped .createdAt .timestamptz fun r => .timestamp r.createdAt]

def Corroboration.mapping : List (Mapped Corroboration) := [
  mapped .id .uuid fun c => .uuid c.id,
  mapped .reviewId .uuid fun c => .uuid c.reviewId,
  mapped .userId .uuid fun c => .uuid c.userId,
  mappedNull .comment (.varchar corroborationCommentMaxLen) fun c => c.comment.map .text,
  mapped .createdAt .timestamptz fun c => .timestamp c.createdAt]

def LayoffEvent.mapping : List (Mapped LayoffEvent) := [
  mapped .id .uuid fun e => .uuid e.id,
  mapped .companyId .uuid fun e => .uuid e.companyId,
  mapped .eventDate .timestamptz fun e => .timestamp e.eventDate,
  mappedNull .department (.varchar departmentMaxLen) fun e => e.department.map .text,
  mappedNull .estimatedHeadcount .integer fun e => e.estimatedHeadcount.map .integer,
  mapped .sourceType (.enum .layoffSourceType) fun e => .text e.sourceType.label,
  mappedNull .sourceUrl (.varchar 1000) fun e => e.sourceUrl.map .text,
  mappedNull .submittedByUserId .uuid fun e => e.submittedByUserId.map .uuid,
  mapped .status (.enum .reviewStatus) fun e => .text e.status.value,
  mappedNull .flaggedReason .text fun e => e.flaggedReason.map .text,
  mapped .createdAt .timestamptz fun e => .timestamp e.createdAt]

def EmployerAccount.mapping : List (Mapped EmployerAccount) := [
  mapped .id .uuid fun a => .uuid a.id,
  mapped .companyId .uuid fun a => .uuid a.companyId,
  mapped .domainHash (.varchar 64) fun a => .text a.domainHash,
  mapped .verified .boolean fun a => .boolean a.verified]

def EmployerResponse.mapping : List (Mapped EmployerResponse) := [
  mapped .id .uuid fun r => .uuid r.id,
  mapped .reviewId .uuid fun r => .uuid r.reviewId,
  mapped .employerAccountId .uuid fun r => .uuid r.employerAccountId,
  mapped .responseText (.varchar responseTextMaxLen) fun r => .text r.responseText,
  mapped .createdAt .timestamptz fun r => .timestamp r.createdAt]

def AdminUser.mapping : List (Mapped AdminUser) := [
  mapped .id .uuid fun a => .uuid a.id,
  mapped .email (.varchar 255) fun a => .text a.email,
  mapped .passwordHash (.varchar 255) fun a => .text a.passwordHash,
  mapped .isActive .boolean fun a => .boolean a.isActive]

def ModerationAuditLogEntry.mapping : List (Mapped ModerationAuditLogEntry) := [
  mapped .id .uuid fun e => .uuid e.id,
  mappedNull .actorAdminId .uuid fun e => e.actorAdminId.map .uuid,
  mapped .itemType (.enum .moderatedItemType) fun e => .text e.itemType.value,
  mapped .itemId .uuid fun e => .uuid e.itemId,
  mapped .action (.enum .moderationAction) fun e => .text e.action.label,
  mappedNull .reason .text fun e => e.reason.map .text,
  mapped .createdAt .timestamptz fun e => .timestamp e.createdAt]

def TakedownLogEntry.mapping : List (Mapped TakedownLogEntry) := [
  mapped .id .uuid fun e => .uuid e.id,
  mapped .itemType (.enum .moderatedItemType) fun e => .text e.itemType.value,
  mapped .itemId .uuid fun e => .uuid e.itemId,
  mapped .requesterType (.enum .takedownRequesterType) fun e => .text e.requesterType.label,
  mappedNull .requesterDetail (.varchar requesterDetailMaxLen) fun e => e.requesterDetail.map .text,
  mapped .complied .boolean fun e => .boolean e.complied,
  mapped .reason (.varchar reasonMaxLen) fun e => .text e.reason,
  mapped .createdAt .timestamptz fun e => .timestamp e.createdAt]

def GrievanceComplaint.mapping : List (Mapped GrievanceComplaint) := [
  mapped .id .uuid fun c => .uuid c.id,
  mapped .complainantContact (.varchar contactMaxLen) fun c => .text c.complainantContact,
  mapped .subject (.varchar subjectMaxLen) fun c => .text c.subject,
  mapped .description .text fun c => .text c.description,
  mappedNull .relatedItemType (.enum .moderatedItemType) fun c =>
    c.relatedItemType.map fun t => .text t.value,
  mappedNull .relatedItemId .uuid fun c => c.relatedItemId.map .uuid,
  mapped .status (.enum .grievanceStatus) fun c => .text c.status.label,
  mapped .slaDeadline .timestamptz fun c => .timestamp c.slaDeadline,
  mapped .createdAt .timestamptz fun c => .timestamp c.createdAt]

def Entity.mapping : (k : Entity) → List (Mapped k.Row)
  | user => User.mapping
  | otpCode => OTPCode.mapping
  | emailVerificationCode => EmailVerificationCode.mapping
  | moderationQueueItem => ModerationQueueItem.mapping
  | review => Review.mapping
  | corroboration => Corroboration.mapping
  | layoffEvent => LayoffEvent.mapping
  | employerAccount => EmployerAccount.mapping
  | employerResponse => EmployerResponse.mapping
  | adminUser => AdminUser.mapping
  | moderationAuditLogEntry => ModerationAuditLogEntry.mapping
  | takedownLogEntry => TakedownLogEntry.mapping
  | grievanceComplaint => GrievanceComplaint.mapping

/-- The INSERT of a row. -/
def Entity.insert (k : Entity) (a : k.Row) : Insert := k.mapping.map fun f => (f.column, f.get a)

end LinkedOut
