/-
  What the migrations of `alembic/versions` are written in: the names of the schema, the
  operations of `alembic.op`, and the statements that a command sends for them.

  `create_table` creates the enumerations of its columns first, each once in a command, and
  `drop_table` leaves them; that is why the downgrades drop them themselves.
-/
import LinkedOut.Ddl

namespace LinkedOut

/-! ## The names -/

inductive TableName where
  | companies | users | otpCodes | emailVerificationCodes | moderationQueue | reviews
  | corroborations | layoffEvents | employerAccounts | employerResponses | adminUsers
  | moderationAuditLog | takedownLogEntries | grievanceComplaints
  deriving DecidableEq

inductive ColumnName where
  | id | name | slug | industry | corporateEmailDomains | employeeSizeBucket | hqLocation | logoUrl
  | description | createdAt | updatedAt | phoneHash | verificationTier | emailDomainHash | otpHash
  | attempts | expiresAt | consumedAt | userId | emailHash | domainHash | codeHash | docType
  | contentHash | ephemeralPath | status | reviewedAt | companyId | exitReason | tenureBucket
  | department | roleLevel | isCurrentEmployee | prose | reviewId | comment | eventDate
  | estimatedHeadcount | sourceType | sourceUrl | submittedByUserId | verified
  | employerAccountId | responseText | flaggedReason | email | passwordHash | isActive
  | actorAdminId | itemType | itemId | action | reason | requesterType | requesterDetail
  | complied | complainantContact | subject | relatedItemType | relatedItemId | slaDeadline
  deriving DecidableEq

inductive TypeName where
  | employeeSizeBucket | verificationTier | documentType | moderationStatus | exitReason
  | tenureBucket | roleLevel | reviewStatus | layoffSourceType | moderatedItemType
  | moderationAction | takedownRequesterType | grievanceStatus
  deriving DecidableEq

inductive IndexName where
  | ixCompaniesSlug | ixUsersPhoneHash | ixUsersEmailDomainHash | ixOtpCodesPhoneHash
  | ixOtpCodesCreatedAt | ixEmailVerificationCodesUserId | ixEmailVerificationCodesCreatedAt
  | ixModerationQueueUserId | ixModerationQueueContentHash | ixModerationQueueCreatedAt
  | ixReviewsUserId | ixReviewsCompanyId | ixCorroborationsReviewId | ixCorroborationsUserId
  | ixLayoffEventsCompanyId | ixLayoffEventsEventDate | ixEmployerAccountsCompanyId
  | ixEmployerAccountsDomainHash | ixEmployerResponsesReviewId
  | ixEmployerResponsesEmployerAccountId | ixAdminUsersEmail | ixModerationAuditLogActorAdminId
  | ixModerationAuditLogItemId | ixTakedownLogEntriesItemId | ixTakedownLogEntriesCreatedAt
  | ixGrievanceComplaintsSlaDeadline | ixReviewsCompanyIdStatus | ixLayoffEventsCompanyIdStatus
  deriving DecidableEq

/-! ## Alembic operations -/

/-- A type of SQLAlchemy: an enumeration comes with its labels. -/
abbrev SaType := ColumnType (TypeName × List String)

abbrev SaColumn := Column ColumnName (TypeName × List String)

abbrev Schema := Catalog TableName ColumnName TypeName IndexName

abbrev Statement := Change TableName ColumnName TypeName IndexName

/-- `op.create_table`, `op.drop_table`, and so on; `execute` takes a statement as it is. -/
inductive Op where
  | createTable (t : TableName) (d : TableDef TableName ColumnName (TypeName × List String))
  | dropTable (t : TableName)
  | addColumn (t : TableName) (column : ColumnName) (type : SaType)
  | dropColumn (t : TableName) (column : ColumnName)
  | createIndex (i : Index TableName ColumnName IndexName)
  | dropIndex (index : IndexName)
  | execute (statement : Statement)

def ColumnType.map {ε ε' : Type} (f : ε → ε') : ColumnType ε → ColumnType ε'
  | uuid => uuid
  | text => text
  | integer => integer
  | boolean => boolean
  | timestamptz => timestamptz
  | varchar n => varchar n
  | varcharArray n => varcharArray n
  | enum e => enum (f e)

/-- The table as the database stores it, its enumerations by their names. -/
def TableDef.stored (d : TableDef TableName ColumnName (TypeName × List String)) :
    TableDef TableName ColumnName TypeName where
  columns := d.columns.map fun col => ⟨col.name, col.type.map Prod.fst, col.nullable, col.default⟩
  foreignKeys := d.foreignKeys
  primaryKey := d.primaryKey
  uniques := d.uniques

/-- `CREATE TYPE` for the enumerations of the columns, but for those in the memo. -/
def createTypes (memo : List TypeName) : List SaColumn → List Statement × List TypeName
  | [] => ([], memo)
  | col :: cols =>
    match col.type with
    | .enum (e, labels) =>
      if memo.contains e then createTypes memo cols
      else
        let r := createTypes (e :: memo) cols
        (.createType e labels :: r.1, r.2)
    | _ => createTypes memo cols

/-- The statements one command sends. -/
def statements (memo : List TypeName) : List Op → List Statement
  | [] => []
  | .createTable t d :: ops =>
    let r := createTypes memo d.columns
    r.1 ++ .createTable t d.stored :: statements r.2 ops
  | .dropTable t :: ops => .dropTable t :: statements memo ops
  | .addColumn t column type :: ops =>
    .addColumn t column (type.map Prod.fst) :: statements memo ops
  | .dropColumn t column :: ops => .dropColumn t column :: statements memo ops
  | .createIndex i :: ops => .createIndex i :: statements memo ops
  | .dropIndex index :: ops => .dropIndex index :: statements memo ops
  | .execute statement :: ops => statement :: statements memo ops

structure Migration where
  revision : String
  downRevision : Option String
  upgrade : List Op
  downgrade : List Op

end LinkedOut
