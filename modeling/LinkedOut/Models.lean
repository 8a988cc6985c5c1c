/-
  The data model: `app/models`. One structure a table, under the source's column
  names, the enumerations, and the database as one `Table` each.

  `clash` of a row type is its primary key together with its declared unique
  constraints; `admits` is what the driver and the column types take (varchar
  lengths in characters, Integer as a signed 32-bit value, no NUL in text, an
  event date that has a year in UTC). Columns that no modelled function reads are
  left out (`created_at` of `User`, `AdminUser`, `EmployerAccount`; the display
  columns of `Company`). A UUID is a natural number and a timestamp is an integer
  count of microseconds.
-/
import LinkedOut.Table

namespace LinkedOut

abbrev Uuid := Nat

/-- A timestamp in microseconds since the epoch. -/
abbrev Time := Int

/-! ## app/models/enums.py -/

inductive VerificationTier where
  | unverified | phone | email | document
  deriving DecidableEq, Repr

def VerificationTier.value : VerificationTier → String
  | unverified => "unverified" | phone => "phone" | email => "email" | document => "document"

inductive DocumentType where
  | offerLetter | payslip | idDocument | other
  deriving DecidableEq, Repr

inductive ModerationStatus where
  | pending | approved | rejected
  deriving DecidableEq, Repr

def ModerationStatus.value : ModerationStatus → String
  | pending => "pending" | approved => "approved" | rejected => "rejected"

inductive ExitReason where
  | management | compensation | layoffs | culture | growth | relocation | other
  deriving DecidableEq, Repr

/-- The members in declaration order. -/
def ExitReason.members : List ExitReason :=
  [management, compensation, layoffs, culture, growth, relocation, other]

inductive TenureBucket where
  | lessThan1yr | oneTo3yr | threeTo5yr | fivePlusYr
  deriving DecidableEq, Repr

def TenureBucket.members : List TenureBucket := [lessThan1yr, oneTo3yr, threeTo5yr, fivePlusYr]

inductive RoleLevel where
  | ic | manager | seniorManager | directorPlus
  deriving DecidableEq, Repr

def RoleLevel.members : List RoleLevel := [ic, manager, seniorManager, directorPlus]

inductive ReviewStatus where
  | pending | published | rejected
  deriving DecidableEq, Repr

def ReviewStatus.value : ReviewStatus → String
  | pending => "PENDING" | published => "PUBLISHED" | rejected => "REJECTED"

inductive LayoffSourceType where
  | selfReported | news
  deriving DecidableEq, Repr

inductive ModeratedItemType where
  | review | layoffEvent | document
  deriving DecidableEq, Repr

def ModeratedItemType.value : ModeratedItemType → String
  | review => "REVIEW" | layoffEvent => "LAYOFF_EVENT" | document => "DOCUMENT"

inductive ModerationAction where
  | approve | reject
  deriving DecidableEq, Repr

inductive TakedownRequesterType where
  | courtOrder | governmentDirection | companyLegalRequest | userReport | internalModeration
  deriving DecidableEq, Repr

inductive GrievanceStatus where
  | received | acknowledged | resolved
  deriving DecidableEq, Repr

/-! ## Column types -/

/-- PostgreSQL text cannot hold NUL. -/
def storable (s : String) : Bool := s.toList.all fun c => c ≠ Char.ofNat 0

/-- `String(n)`: at most `n` characters. -/
def varchar (n : Nat) (s : String) : Bool := storable s && decide (s.length ≤ n)

/-- A Python datetime in UTC: from 0001-01-01 to the last microsecond of 9999. -/
def utcDatetime (t : Time) : Bool :=
  decide (-62135596800000000 ≤ t) && decide (t ≤ 253402300799999999)

/-- A nullable column admits NULL. -/
def nullable {α : Type} (p : α → Bool) : Option α → Bool
  | none => true
  | some a => p a

/-- `Integer` is a signed 32-bit value. -/
def int32 (n : Int) : Bool := decide (-2147483648 ≤ n) && decide (n ≤ 2147483647)

def departmentMaxLen : Nat := 100
def proseMaxLen : Nat := 500
def corroborationCommentMaxLen : Nat := 200
def responseTextMaxLen : Nat := 1000
def requesterDetailMaxLen : Nat := 500
def reasonMaxLen : Nat := 1000
def contactMaxLen : Nat := 255
def subjectMaxLen : Nat := 200
def descriptionMaxLen : Nat := 2000

/-! ## Rows -/

/-- `companies`; seeded, no endpoint writes it. -/
structure Company where
  id : Uuid
  corporateEmailDomains : List String
  deriving DecidableEq, Repr

structure User where
  id : Uuid
  phoneHash : String
  emailDomainHash : Option String
  verificationTier : VerificationTier
  deriving DecidableEq, Repr

structure OTPCode where
  id : Uuid
  phoneHash : String
  otpHash : String
  attempts : Nat
  expiresAt : Time
  consumedAt : Option Time
  createdAt : Time
  deriving DecidableEq, Repr

structure EmailVerificationCode where
  id : Uuid
  userId : Uuid
  emailHash : String
  domainHash : String
  codeHash : String
  attempts : Nat
  expiresAt : Time
  consumedAt : Option Time
  createdAt : Time
  deriving DecidableEq, Repr

/-- `moderation_queue`, the Tier-3 documents. -/
structure ModerationQueueItem where
  id : Uuid
  userId : Uuid
  docType : DocumentType
  contentHash : String
  ephemeralPath : Option String
  status : ModerationStatus
  createdAt : Time
  reviewedAt : Option Time
  deriving DecidableEq, Repr

structure Review where
  id : Uuid
  userId : Uuid
  companyId : Uuid
  exitReason : ExitReason
  tenureBucket : TenureBucket
  department : String
  roleLevel : RoleLevel
  isCurrentEmployee : Bool
  prose : String
  status : ReviewStatus
  flaggedReason : Option String
  createdAt : Time
  deriving DecidableEq, Repr

structure Corroboration where
  id : Uuid
  reviewId : Uuid
  userId : Uuid
  comment : Option String
  createdAt : Time
  deriving DecidableEq, Repr

structure LayoffEvent where
  id : Uuid
  companyId : Uuid
  eventDate : Time
  department : Option String
  estimatedHeadcount : Option Int
  sourceType : LayoffSourceType
  sourceUrl : Option String
  submittedByUserId : Option Uuid
  status : ReviewStatus
  flaggedReason : Option String
  createdAt : Time
  deriving DecidableEq, Repr

/-- `employer_accounts`; seeded, no endpoint writes it. -/
structure EmployerAccount where
  id : Uuid
  companyId : Uuid
  domainHash : String
  verified : Bool
  deriving DecidableEq, Repr

structure EmployerResponse where
  id : Uuid
  reviewId : Uuid
  employerAccountId : Uuid
  responseText : String
  createdAt : Time
  deriving DecidableEq, Repr

/-- `admin_users`; seeded, no endpoint writes it. -/
structure AdminUser where
  id : Uuid
  email : String
  passwordHash : String
  isActive : Bool
  deriving DecidableEq, Repr

structure ModerationAuditLogEntry where
  id : Uuid
  actorAdminId : Option Uuid
  itemType : ModeratedItemType
  itemId : Uuid
  action : ModerationAction
  reason : Option String
  createdAt : Time
  deriving DecidableEq, Repr

structure TakedownLogEntry where
  id : Uuid
  itemType : ModeratedItemType
  itemId : Uuid
  requesterType : TakedownRequesterType
  requesterDetail : Option String
  complied : Bool
  reason : String
  createdAt : Time
  deriving DecidableEq, Repr

structure GrievanceComplaint where
  id : Uuid
  complainantContact : String
  subject : String
  description : String
  relatedItemType : Option ModeratedItemType
  relatedItemId : Option Uuid
  status : GrievanceStatus
  slaDeadline : Time
  createdAt : Time
  deriving DecidableEq, Repr

/-! ## Constraints -/

/-- A table whose only constraint is its primary key. -/
@[reducible] def Record.byId {α : Type} (id : α → Uuid) (admits : α → Bool) : Record α where
  pk := id
  clash a b := id a == id b
  admits := admits
  clash_comm a b := by
    rw [Bool.eq_iff_iff, beq_iff_eq, beq_iff_eq]; exact eq_comm
  clash_of_pk a b h := beq_iff_eq.mpr h

/-- A table with its primary key and one more unique constraint, over the columns `uq`. -/
@[reducible] def Record.byIdAnd {α κ : Type} [DecidableEq κ] (id : α → Uuid) (uq : α → κ)
    (admits : α → Bool) : Record α where
  pk := id
  clash a b := id a == id b || uq a == uq b
  admits := admits
  clash_comm a b := by
    rw [Bool.eq_iff_iff]
    simp only [Bool.or_eq_true, beq_iff_eq]
    exact or_congr eq_comm eq_comm
  clash_of_pk a b h := by simp [h]

instance : Record Company := Record.byId Company.id fun _ => true

instance : Record User := Record.byIdAnd User.id User.phoneHash fun _ => true

instance : Record OTPCode := Record.byId OTPCode.id fun _ => true

instance : Record EmailVerificationCode := Record.byId EmailVerificationCode.id fun _ => true

instance : Record ModerationQueueItem := Record.byId ModerationQueueItem.id fun _ => true

/-- `uq_reviews_user_company`. -/
instance : Record Review := Record.byIdAnd Review.id (fun r => (r.userId, r.companyId))
  fun r => varchar departmentMaxLen r.department && storable r.prose &&
    nullable storable r.flaggedReason

/-- `uq_corroborations_review_user`. -/
instance : Record Corroboration :=
  Record.byIdAnd Corroboration.id (fun c => (c.reviewId, c.userId))
    fun c => nullable (varchar corroborationCommentMaxLen) c.comment

instance : Record LayoffEvent := Record.byId LayoffEvent.id fun e =>
  utcDatetime e.eventDate && nullable (varchar departmentMaxLen) e.department &&
    nullable int32 e.estimatedHeadcount && nullable storable e.flaggedReason

/-- `uq_employer_accounts_company_id`. -/
instance : Record EmployerAccount :=
  Record.byIdAnd EmployerAccount.id EmployerAccount.companyId fun _ => true

/-- `uq_employer_responses_review_id`. -/
instance : Record EmployerResponse :=
  Record.byIdAnd EmployerResponse.id EmployerResponse.reviewId
    fun r => varchar responseTextMaxLen r.responseText

instance : Record AdminUser := Record.byIdAnd AdminUser.id AdminUser.email fun _ => true

instance : Record ModerationAuditLogEntry :=
  Record.byId ModerationAuditLogEntry.id fun e => nullable storable e.reason

instance : Record TakedownLogEntry := Record.byId TakedownLogEntry.id fun e =>
  nullable (varchar requesterDetailMaxLen) e.requesterDetail && varchar reasonMaxLen e.reason

instance : Record GrievanceComplaint := Record.byId GrievanceComplaint.id fun c =>
  varchar contactMaxLen c.complainantContact && varchar subjectMaxLen c.subject &&
    storable c.description

/-! ## The database -/

/-- The committed state of the database. -/
structure Db where
  companies : Table Company
  users : Table User
  otpCodes : Table OTPCode
  emailVerificationCodes : Table EmailVerificationCode
  moderationQueue : Table ModerationQueueItem
  reviews : Table Review
  corroborations : Table Corroboration
  layoffEvents : Table LayoffEvent
  employerAccounts : Table EmployerAccount
  employerResponses : Table EmployerResponse
  adminUsers : Table AdminUser
  moderationAuditLog : Table ModerationAuditLogEntry
  takedownLogEntries : Table TakedownLogEntry
  grievanceComplaints : Table GrievanceComplaint

/-- The schema without rows. -/
def Db.empty : Db where
  companies := .empty
  users := .empty
  otpCodes := .empty
  emailVerificationCodes := .empty
  moderationQueue := .empty
  reviews := .empty
  corroborations := .empty
  layoffEvents := .empty
  employerAccounts := .empty
  employerResponses := .empty
  adminUsers := .empty
  moderationAuditLog := .empty
  takedownLogEntries := .empty
  grievanceComplaints := .empty

/-! ## ORM updates

  Each sets columns that no constraint speaks of. -/

def User.setTier (tier : VerificationTier) : Patch User where
  apply u := { u with verificationTier := tier }
  pk_apply _ := rfl
  clash_apply _ _ := rfl

def User.setDomainHash (domainHash : String) : Patch User where
  apply u := { u with emailDomainHash := some domainHash }
  pk_apply _ := rfl
  clash_apply _ _ := rfl

def OTPCode.setAttempts (attempts : Nat) : Patch OTPCode where
  apply c := { c with attempts }
  pk_apply _ := rfl
  clash_apply _ _ := rfl

def OTPCode.setConsumed (at_ : Time) : Patch OTPCode where
  apply c := { c with consumedAt := some at_ }
  pk_apply _ := rfl
  clash_apply _ _ := rfl

def EmailVerificationCode.setAttempts (attempts : Nat) : Patch EmailVerificationCode where
  apply c := { c with attempts }
  pk_apply _ := rfl
  clash_apply _ _ := rfl

def EmailVerificationCode.setConsumed (at_ : Time) : Patch EmailVerificationCode where
  apply c := { c with consumedAt := some at_ }
  pk_apply _ := rfl
  clash_apply _ _ := rfl

def Review.setStatus (status : ReviewStatus) : Patch Review where
  apply r := { r with status }
  pk_apply _ := rfl
  clash_apply _ _ := rfl

def LayoffEvent.setStatus (status : ReviewStatus) : Patch LayoffEvent where
  apply e := { e with status }
  pk_apply _ := rfl
  clash_apply _ _ := rfl

/-- The decision on a document: its status, when, and the path forgotten. -/
def ModerationQueueItem.setDecision (status : ModerationStatus) (at_ : Time) :
    Patch ModerationQueueItem where
  apply i := { i with status, reviewedAt := some at_, ephemeralPath := none }
  pk_apply _ := rfl
  clash_apply _ _ := rfl

end LinkedOut
