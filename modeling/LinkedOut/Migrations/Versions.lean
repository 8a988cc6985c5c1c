/-
  `alembic/versions`: the six migrations, operation by operation.
-/
import LinkedOut.Migrations

namespace LinkedOut

namespace Versions

/-! ## Columns -/

def notNull (column : ColumnName) (type : SaType) : SaColumn := ⟨column, type, false, none⟩

def orNull (column : ColumnName) (type : SaType) : SaColumn := ⟨column, type, true, none⟩

/-- NOT NULL with a `server_default`. -/
def defaulted (column : ColumnName) (type : SaType) (default : String) : SaColumn :=
  ⟨column, type, false, some default⟩

def id : SaColumn := notNull .id .uuid

/-- `server_default=sa.text("now()")`. -/
def stamp (column : ColumnName) : SaColumn := defaulted column .timestamptz "now()"

def cascade (column : ColumnName) (table : TableName) : ForeignKey TableName ColumnName :=
  ⟨column, table, .id, .cascade⟩

def setNull (column : ColumnName) (table : TableName) : ForeignKey TableName ColumnName :=
  ⟨column, table, .id, .setNull⟩

/-! ## Enumerations -/

def employeeSizeBucket : SaType :=
  .enum (.employeeSizeBucket, ["micro", "small", "medium", "large", "enterprise"])

def verificationTier : SaType :=
  .enum (.verificationTier, ["unverified", "phone", "email", "document"])

def documentType : SaType :=
  .enum (.documentType, ["offer_letter", "payslip", "id_document", "other"])

def moderationStatus : SaType := .enum (.moderationStatus, ["pending", "approved", "rejected"])

def exitReason : SaType :=
  .enum (.exitReason, ["MANAGEMENT", "COMPENSATION", "LAYOFFS", "CULTURE", "GROWTH", "RELOCATION",
    "OTHER"])

def tenureBucket : SaType :=
  .enum (.tenureBucket, ["LESS_THAN_1YR", "ONE_TO_3YR", "THREE_TO_5YR", "FIVE_PLUS_YR"])

def roleLevel : SaType := .enum (.roleLevel, ["IC", "MANAGER", "SENIOR_MANAGER", "DIRECTOR_PLUS"])

def reviewStatus : SaType := .enum (.reviewStatus, ["PENDING", "PUBLISHED", "REJECTED"])

def layoffSourceType : SaType := .enum (.layoffSourceType, ["SELF_REPORTED", "NEWS"])

def moderatedItemType : SaType := .enum (.moderatedItemType, ["REVIEW", "LAYOFF_EVENT"])

def moderationAction : SaType := .enum (.moderationAction, ["APPROVE", "REJECT"])

def takedownRequesterType : SaType :=
  .enum (.takedownRequesterType, ["COURT_ORDER", "GOVERNMENT_DIRECTION", "COMPANY_LEGAL_REQUEST",
    "USER_REPORT", "INTERNAL_MODERATION"])

def grievanceStatus : SaType := .enum (.grievanceStatus, ["RECEIVED", "ACKNOWLEDGED", "RESOLVED"])

/-! ## 0001: companies and users -/

def v0001 : Migration where
  revision := "0001"
  downRevision := none
  upgrade := [
    .createTable .companies {
      columns := [id, notNull .name (.varchar 255), notNull .slug (.varchar 255),
        orNull .industry (.varchar 120), defaulted .corporateEmailDomains (.varcharArray 255) "{}",
        orNull .employeeSizeBucket employeeSizeBucket, orNull .hqLocation (.varchar 255),
        orNull .logoUrl (.varchar 500), orNull .description .text, stamp .createdAt,
        stamp .updatedAt]
      primaryKey := [.id]
      uniques := [[.name]] },
    .createIndex ⟨.ixCompaniesSlug, .companies, [.slug], true⟩,
    .createTable .users {
      columns := [id, notNull .phoneHash (.varchar 64),
        defaulted .verificationTier verificationTier "unverified", stamp .createdAt]
      primaryKey := [.id] },
    .createIndex ⟨.ixUsersPhoneHash, .users, [.phoneHash], true⟩]
  downgrade := [
    .dropIndex .ixUsersPhoneHash,
    .dropTable .users,
    .dropIndex .ixCompaniesSlug,
    .dropTable .companies,
    .execute (.dropTypeIfExists .verificationTier),
    .execute (.dropTypeIfExists .employeeSizeBucket)]

/-! ## 0002: OTP codes, email codes, documents -/

def v0002 : Migration where
  revision := "0002"
  downRevision := some "0001"
  upgrade := [
    .addColumn .users .emailDomainHash (.varchar 64),
    .createIndex ⟨.ixUsersEmailDomainHash, .users, [.emailDomainHash], false⟩,
    .createTable .otpCodes {
      columns := [id, notNull .phoneHash (.varchar 64), notNull .otpHash (.varchar 64),
        notNull .attempts .integer, notNull .expiresAt .timestamptz,
        orNull .consumedAt .timestamptz, notNull .createdAt .timestamptz]
      primaryKey := [.id] },
    .createIndex ⟨.ixOtpCodesPhoneHash, .otpCodes, [.phoneHash], false⟩,
    .createIndex ⟨.ixOtpCodesCreatedAt, .otpCodes, [.createdAt], false⟩,
    .createTable .emailVerificationCodes {
      columns := [id, notNull .userId .uuid, notNull .emailHash (.varchar 64),
        notNull .domainHash (.varchar 64), notNull .codeHash (.varchar 64),
        notNull .attempts .integer, notNull .expiresAt .timestamptz,
        orNull .consumedAt .timestamptz, notNull .createdAt .timestamptz]
      foreignKeys := [cascade .userId .users]
      primaryKey := [.id] },
    .createIndex ⟨.ixEmailVerificationCodesUserId, .emailVerificationCodes, [.userId], false⟩,
    .createIndex ⟨.ixEmailVerificationCodesCreatedAt, .emailVerificationCodes, [.createdAt], false⟩,
    .createTable .moderationQueue {
      columns := [id, notNull .userId .uuid, notNull .docType documentType,
        notNull .contentHash (.varchar 64), orNull .ephemeralPath (.varchar 512),
        defaulted .status moderationStatus "pending", notNull .createdAt .timestamptz,
        orNull .reviewedAt .timestamptz]
      foreignKeys := [cascade .userId .users]
      primaryKey := [.id] },
    .createIndex ⟨.ixModerationQueueUserId, .moderationQueue, [.userId], false⟩,
    .createIndex ⟨.ixModerationQueueContentHash, .moderationQueue, [.contentHash], false⟩,
    .createIndex ⟨.ixModerationQueueCreatedAt, .moderationQueue, [.createdAt], false⟩]
  downgrade := [
    .dropIndex .ixModerationQueueCreatedAt,
    .dropIndex .ixModerationQueueContentHash,
    .dropIndex .ixModerationQueueUserId,
    .dropTable .moderationQueue,
    .dropIndex .ixEmailVerificationCodesCreatedAt,
    .dropIndex .ixEmailVerificationCodesUserId,
    .dropTable .emailVerificationCodes,
    .dropIndex .ixOtpCodesCreatedAt,
    .dropIndex .ixOtpCodesPhoneHash,
    .dropTable .otpCodes,
    .dropIndex .ixUsersEmailDomainHash,
    .dropColumn .users .emailDomainHash,
    .execute (.dropTypeIfExists .moderationStatus),
    .execute (.dropTypeIfExists .documentType)]

/-! ## 0003: the review flow -/

def v0003 : Migration where
  revision := "0003"
  downRevision := some "0002"
  upgrade := [
    .createTable .reviews {
      columns := [id, notNull .userId .uuid, notNull .companyId .uuid,
        notNull .exitReason exitReason, notNull .tenureBucket tenureBucket,
        notNull .department (.varchar 100), notNull .roleLevel roleLevel,
        notNull .isCurrentEmployee .boolean, notNull .prose .text,
        defaulted .status reviewStatus "PENDING", stamp .createdAt]
      foreignKeys := [cascade .userId .users, cascade .companyId .companies]
      primaryKey := [.id]
      uniques := [[.userId, .companyId]] },
    .createIndex ⟨.ixReviewsUserId, .reviews, [.userId], false⟩,
    .createIndex ⟨.ixReviewsCompanyId, .reviews, [.companyId], false⟩,
    .createTable .corroborations {
      columns := [id, notNull .reviewId .uuid, notNull .userId .uuid, orNull .comment (.varchar 200),
        stamp .createdAt]
      foreignKeys := [cascade .reviewId .reviews, cascade .userId .users]
      primaryKey := [.id]
      uniques := [[.reviewId, .userId]] },
    .createIndex ⟨.ixCorroborationsReviewId, .corroborations, [.reviewId], false⟩,
    .createIndex ⟨.ixCorroborationsUserId, .corroborations, [.userId], false⟩,
    .createTable .layoffEvents {
      columns := [id, notNull .companyId .uuid, notNull .eventDate .timestamptz,
        orNull .department (.varchar 100), orNull .estimatedHeadcount .integer,
        notNull .sourceType layoffSourceType, orNull .sourceUrl (.varchar 1000),
        orNull .submittedByUserId .uuid, defaulted .status reviewStatus "PENDING",
        stamp .createdAt]
      foreignKeys := [cascade .companyId .companies, setNull .submittedByUserId .users]
      primaryKey := [.id] },
    .createIndex ⟨.ixLayoffEventsCompanyId, .layoffEvents, [.companyId], false⟩,
    .createIndex ⟨.ixLayoffEventsEventDate, .layoffEvents, [.eventDate], false⟩,
    .createTable .employerAccounts {
      columns := [id, notNull .companyId .uuid, notNull .domainHash (.varchar 64),
        notNull .verified .boolean, stamp .createdAt]
      foreignKeys := [cascade .companyId .companies]
      primaryKey := [.id]
      uniques := [[.companyId]] },
    .createIndex ⟨.ixEmployerAccountsCompanyId, .employerAccounts, [.companyId], false⟩,
    .createIndex ⟨.ixEmployerAccountsDomainHash, .employerAccounts, [.domainHash], false⟩,
    .createTable .employerResponses {
      columns := [id, notNull .reviewId .uuid, notNull .employerAccountId .uuid,
        notNull .responseText (.varchar 1000), stamp .createdAt]
      foreignKeys := [cascade .reviewId .reviews, cascade .employerAccountId .employerAccounts]
      primaryKey := [.id]
      uniques := [[.reviewId]] },
    .createIndex ⟨.ixEmployerResponsesReviewId, .employerResponses, [.reviewId], false⟩,
    .createIndex ⟨.ixEmployerResponsesEmployerAccountId, .employerResponses, [.employerAccountId],
      false⟩]
  downgrade := [
    .dropIndex .ixEmployerResponsesEmployerAccountId,
    .dropIndex .ixEmployerResponsesReviewId,
    .dropTable .employerResponses,
    .dropIndex .ixEmployerAccountsDomainHash,
    .dropIndex .ixEmployerAccountsCompanyId,
    .dropTable .employerAccounts,
    .dropIndex .ixLayoffEventsEventDate,
    .dropIndex .ixLayoffEventsCompanyId,
    .dropTable .layoffEvents,
    .dropIndex .ixCorroborationsUserId,
    .dropIndex .ixCorroborationsReviewId,
    .dropTable .corroborations,
    .dropIndex .ixReviewsCompanyId,
    .dropIndex .ixReviewsUserId,
    .dropTable .reviews,
    .execute (.dropTypeIfExists .layoffSourceType),
    .execute (.dropTypeIfExists .reviewStatus),
    .execute (.dropTypeIfExists .roleLevel),
    .execute (.dropTypeIfExists .tenureBucket),
    .execute (.dropTypeIfExists .exitReason)]

/-! ## 0004: moderation and compliance -/

def v0004 : Migration where
  revision := "0004"
  downRevision := some "0003"
  upgrade := [
    .addColumn .reviews .flaggedReason .text,
    .addColumn .layoffEvents .flaggedReason .text,
    .createTable .adminUsers {
      columns := [id, notNull .email (.varchar 255), notNull .passwordHash (.varchar 255),
        notNull .isActive .boolean, stamp .createdAt]
      primaryKey := [.id]
      uniques := [[.email]] },
    .createIndex ⟨.ixAdminUsersEmail, .adminUsers, [.email], true⟩,
    .createTable .moderationAuditLog {
      columns := [id, orNull .actorAdminId .uuid, notNull .itemType moderatedItemType,
        notNull .itemId .uuid, notNull .action moderationAction, orNull .reason .text,
        stamp .createdAt]
      foreignKeys := [setNull .actorAdminId .adminUsers]
      primaryKey := [.id] },
    .createIndex ⟨.ixModerationAuditLogActorAdminId, .moderationAuditLog, [.actorAdminId], false⟩,
    .createIndex ⟨.ixModerationAuditLogItemId, .moderationAuditLog, [.itemId], false⟩,
    .createTable .takedownLogEntries {
      columns := [id, notNull .itemType moderatedItemType, notNull .itemId .uuid,
        notNull .requesterType takedownRequesterType, orNull .requesterDetail (.varchar 500),
        notNull .complied .boolean, notNull .reason (.varchar 1000), stamp .createdAt]
      primaryKey := [.id] },
    .createIndex ⟨.ixTakedownLogEntriesItemId, .takedownLogEntries, [.itemId], false⟩,
    .createIndex ⟨.ixTakedownLogEntriesCreatedAt, .takedownLogEntries, [.createdAt], false⟩,
    .createTable .grievanceComplaints {
      columns := [id, notNull .complainantContact (.varchar 255), notNull .subject (.varchar 200),
        notNull .description .text, orNull .relatedItemType moderatedItemType,
        orNull .relatedItemId .uuid, notNull .status grievanceStatus,
        notNull .slaDeadline .timestamptz, stamp .createdAt]
      primaryKey := [.id] },
    .createIndex ⟨.ixGrievanceComplaintsSlaDeadline, .grievanceComplaints, [.slaDeadline], false⟩]
  downgrade := [
    .dropIndex .ixGrievanceComplaintsSlaDeadline,
    .dropTable .grievanceComplaints,
    .execute (.dropTypeIfExists .grievanceStatus),
    .dropIndex .ixTakedownLogEntriesCreatedAt,
    .dropIndex .ixTakedownLogEntriesItemId,
    .dropTable .takedownLogEntries,
    .execute (.dropTypeIfExists .takedownRequesterType),
    .dropIndex .ixModerationAuditLogItemId,
    .dropIndex .ixModerationAuditLogActorAdminId,
    .dropTable .moderationAuditLog,
    .execute (.dropTypeIfExists .moderationAction),
    .execute (.dropTypeIfExists .moderatedItemType),
    .dropIndex .ixAdminUsersEmail,
    .dropTable .adminUsers,
    .dropColumn .layoffEvents .flaggedReason,
    .dropColumn .reviews .flaggedReason]

/-! ## 0005: documents in the moderation log -/

/-- The downgrade is `pass`: the label stays. -/
def v0005 : Migration where
  revision := "0005"
  downRevision := some "0004"
  upgrade := [.execute (.addValueIfNotExists .moderatedItemType "DOCUMENT")]
  downgrade := []

/-! ## 0006: composite indexes -/

def v0006 : Migration where
  revision := "0006"
  downRevision := some "0005"
  upgrade := [
    .createIndex ⟨.ixReviewsCompanyIdStatus, .reviews, [.companyId, .status], false⟩,
    .createIndex ⟨.ixLayoffEventsCompanyIdStatus, .layoffEvents, [.companyId, .status], false⟩]
  downgrade := [
    .dropIndex .ixLayoffEventsCompanyIdStatus,
    .dropIndex .ixReviewsCompanyIdStatus]

end Versions

/-- In the order in which each names the one before it. -/
def versions : List Migration :=
  [Versions.v0001, Versions.v0002, Versions.v0003, Versions.v0004, Versions.v0005, Versions.v0006]

end LinkedOut
