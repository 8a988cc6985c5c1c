/-
  The models against the schema at head, `schemaAt 6`: what the six migrations build is what
  `app/models` declares, but that `admin_users.email` is unique twice over.

  * `accepts_iff`: an INSERT is accepted exactly when the row fits the lengths, the 32 bits
    and the NULs of its columns.
  * `clash_iff`: two rows clash exactly when they agree on a unique key of the schema.
  * `members_foreignKeys`: the foreign keys are those of the models.
-/
import LinkedOut.Mapping

namespace LinkedOut

/-! ## Columns, labels and keys -/

/-- The table has the mapped columns, of the same types and nullability; what it has besides is
    nullable or has a default. -/
def Entity.agrees (k : Entity) (c : Schema) : Bool :=
  (c.table? k.table).any fun d =>
    k.mapping.all (fun f =>
      (d.column? f.column).any fun col => col.type = f.type && col.nullable = f.nullable) &&
    d.columns.all fun col =>
      k.mapping.any (fun f => f.column = col.name) || col.nullable || col.default.isSome

theorem Entity.mem_members (k : Entity) : k ∈ Entity.members := by
  cases k <;> decide

theorem members_agree : ∀ k ∈ Entity.members, k.agrees (schemaAt 6) = true := by
  decide +kernel

def TypeName.members : List TypeName :=
  [employeeSizeBucket, verificationTier, documentType, moderationStatus, exitReason, tenureBucket,
    roleLevel, reviewStatus, layoffSourceType, moderatedItemType, moderationAction,
    takedownRequesterType, grievanceStatus]

/-- The labels of the enumerations at head. -/
def labelsAtHead : TypeName → List String
  | .employeeSizeBucket => ["micro", "small", "medium", "large", "enterprise"]
  | .verificationTier => ["unverified", "phone", "email", "document"]
  | .documentType => ["offer_letter", "payslip", "id_document", "other"]
  | .moderationStatus => ["pending", "approved", "rejected"]
  | .exitReason =>
    ["MANAGEMENT", "COMPENSATION", "LAYOFFS", "CULTURE", "GROWTH", "RELOCATION", "OTHER"]
  | .tenureBucket => ["LESS_THAN_1YR", "ONE_TO_3YR", "THREE_TO_5YR", "FIVE_PLUS_YR"]
  | .roleLevel => ["IC", "MANAGER", "SENIOR_MANAGER", "DIRECTOR_PLUS"]
  | .reviewStatus => ["PENDING", "PUBLISHED", "REJECTED"]
  | .layoffSourceType => ["SELF_REPORTED", "NEWS"]
  | .moderatedItemType => ["REVIEW", "LAYOFF_EVENT", "DOCUMENT"]
  | .moderationAction => ["APPROVE", "REJECT"]
  | .takedownRequesterType => ["COURT_ORDER", "GOVERNMENT_DIRECTION", "COMPANY_LEGAL_REQUEST",
    "USER_REPORT", "INTERNAL_MODERATION"]
  | .grievanceStatus => ["RECEIVED", "ACKNOWLEDGED", "RESOLVED"]

theorem members_labels :
    ∀ e ∈ TypeName.members, (schemaAt 6).labels? e = some (labelsAtHead e) := by
  decide +kernel

theorem labels?_head (e : TypeName) : (schemaAt 6).labels? e = some (labelsAtHead e) :=
  members_labels e (by cases e <;> decide)

/-- The unique keys. The models declare that of `admin_users.email` once; 0004 makes a constraint
    and an index of it. -/
def Entity.keys : Entity → List (List ColumnName)
  | user => [[.id], [.phoneHash]]
  | otpCode => [[.id]]
  | emailVerificationCode => [[.id]]
  | moderationQueueItem => [[.id]]
  | review => [[.id], [.userId, .companyId]]
  | corroboration => [[.id], [.reviewId, .userId]]
  | layoffEvent => [[.id]]
  | employerAccount => [[.id], [.companyId]]
  | employerResponse => [[.id], [.reviewId]]
  | adminUser => [[.id], [.email], [.email]]
  | moderationAuditLogEntry => [[.id]]
  | takedownLogEntry => [[.id]]
  | grievanceComplaint => [[.id]]

theorem members_keys : ∀ k ∈ Entity.members, (schemaAt 6).keys k.table = k.keys := by
  decide +kernel

/-! ## What the column types ask of a row -/

/-- Lengths, 32 bits and no NUL; everything else of a row fits by its type. -/
def Entity.fits : (k : Entity) → k.Row → Bool
  | user => fun u : User => varchar 64 u.phoneHash && nullable (varchar 64) u.emailDomainHash
  | otpCode => fun c : OTPCode => varchar 64 c.phoneHash && varchar 64 c.otpHash && int32 c.attempts
  | emailVerificationCode => fun c : EmailVerificationCode =>
    varchar 64 c.emailHash && varchar 64 c.domainHash && varchar 64 c.codeHash && int32 c.attempts
  | moderationQueueItem => fun i : ModerationQueueItem =>
    varchar 64 i.contentHash && nullable (varchar 512) i.ephemeralPath
  | review => fun r : Review => admits r
  | corroboration => fun c : Corroboration => admits c
  | layoffEvent => fun e : LayoffEvent =>
    nullable (varchar departmentMaxLen) e.department && nullable int32 e.estimatedHeadcount &&
      nullable (varchar 1000) e.sourceUrl && nullable storable e.flaggedReason
  | employerAccount => fun a : EmployerAccount => varchar 64 a.domainHash
  | employerResponse => fun r : EmployerResponse => admits r
  | adminUser => fun a : AdminUser => varchar 255 a.email && varchar 255 a.passwordHash
  | moderationAuditLogEntry => fun e : ModerationAuditLogEntry => admits e
  | takedownLogEntry => fun e : TakedownLogEntry => admits e
  | grievanceComplaint => fun c : GrievanceComplaint => admits c

/-- Every value that the mapping sends for the row fits its column. -/
def Fitting {α : Type} (labels? : TypeName → Option (List String)) (mapping : List (Mapped α))
    (a : α) : Prop :=
  ∀ f ∈ mapping, ∀ v ∈ f.get a, v.fits labels? f.type = true

section

variable {α : Type} {labels? : TypeName → Option (List String)} {column : ColumnName}
  {type : ColumnType TypeName} {fs : List (Mapped α)} {a : α}

@[simp] theorem fitting_nil : Fitting labels? [] a := fun _ hf => absurd hf List.not_mem_nil

@[simp] theorem fitting_mapped {get : α → Value} :
    Fitting labels? (mapped column type get :: fs) a ↔
      (get a).fits labels? type = true ∧ Fitting labels? fs a := by
  simp [Fitting, mapped]

@[simp] theorem fitting_mappedNull {get : α → Option Value} :
    Fitting labels? (mappedNull column type get :: fs) a ↔
      nullable (Value.fits labels? type) (get a) = true ∧ Fitting labels? fs a := by
  cases hget : get a <;> simp [Fitting, mappedNull, nullable, hget]

end

section

variable {labels? : TypeName → Option (List String)}

@[simp] theorem fits_uuid (id : Uuid) : Value.fits labels? .uuid (.uuid id) = true := rfl

@[simp] theorem fits_text (s : String) : Value.fits labels? .text (.text s) = storable s := rfl

@[simp] theorem fits_varchar (n : Nat) (s : String) :
    Value.fits labels? (.varchar n) (.text s) = varchar n s := rfl

@[simp] theorem fits_integer (n : Int) : Value.fits labels? .integer (.integer n) = int32 n := rfl

@[simp] theorem fits_boolean (b : Bool) : Value.fits labels? .boolean (.boolean b) = true := rfl

@[simp] theorem fits_timestamptz (t : Time) :
    Value.fits labels? .timestamptz (.timestamp t) = true := rfl

end

@[simp] theorem fits_enum (e : TypeName) (s : String) :
    Value.fits (schemaAt 6).labels? (.enum e) (.text s) = (labelsAtHead e).contains s := by
  show ((schemaAt 6).labels? e).any _ = _
  rw [labels?_head]
  rfl

@[simp] theorem fits_tier (t : VerificationTier) :
    t.value ∈ labelsAtHead .verificationTier := by
  cases t <;> decide

@[simp] theorem fits_docType (t : DocumentType) :
    t.label ∈ labelsAtHead .documentType := by
  cases t <;> decide

@[simp] theorem fits_documentStatus (t : ModerationStatus) :
    t.value ∈ labelsAtHead .moderationStatus := by
  cases t <;> decide

@[simp] theorem fits_exitReason (t : ExitReason) : t.label ∈ labelsAtHead .exitReason := by
  cases t <;> decide

@[simp] theorem fits_tenure (t : TenureBucket) : t.label ∈ labelsAtHead .tenureBucket := by
  cases t <;> decide

@[simp] theorem fits_roleLevel (t : RoleLevel) : t.label ∈ labelsAtHead .roleLevel := by
  cases t <;> decide

@[simp] theorem fits_status (t : ReviewStatus) : t.value ∈ labelsAtHead .reviewStatus := by
  cases t <;> decide

@[simp] theorem fits_sourceType (t : LayoffSourceType) :
    t.label ∈ labelsAtHead .layoffSourceType := by
  cases t <;> decide

/-- DOCUMENT too, since 0005. -/
@[simp] theorem fits_itemType (t : ModeratedItemType) :
    t.value ∈ labelsAtHead .moderatedItemType := by
  cases t <;> decide

@[simp] theorem fits_action (t : ModerationAction) :
    t.label ∈ labelsAtHead .moderationAction := by
  cases t <;> decide

@[simp] theorem fits_requester (t : TakedownRequesterType) :
    t.label ∈ labelsAtHead .takedownRequesterType := by
  cases t <;> decide

@[simp] theorem fits_grievanceStatus (t : GrievanceStatus) :
    t.label ∈ labelsAtHead .grievanceStatus := by
  cases t <;> decide

section

variable {α β : Type} {p : β → Bool}

@[simp] theorem nullable_map (f : α → β) (o : Option α) :
    nullable p (o.map f) = nullable (fun a => p (f a)) o := by
  cases o <;> rfl

@[simp] theorem nullable_true (o : Option β) : nullable (fun _ => true) o = true := by
  cases o <;> rfl

end

theorem User.fitting_iff (u : User) :
    Fitting (schemaAt 6).labels? User.mapping u ↔ Entity.user.fits u = true := by
  simp [User.mapping, Entity.fits]

theorem OTPCode.fitting_iff (c : OTPCode) :
    Fitting (schemaAt 6).labels? OTPCode.mapping c ↔ Entity.otpCode.fits c = true := by
  simp [OTPCode.mapping, Entity.fits, and_assoc]

theorem EmailVerificationCode.fitting_iff (c : EmailVerificationCode) :
    Fitting (schemaAt 6).labels? EmailVerificationCode.mapping c ↔
      Entity.emailVerificationCode.fits c = true := by
  simp [EmailVerificationCode.mapping, Entity.fits, and_assoc]

theorem ModerationQueueItem.fitting_iff (i : ModerationQueueItem) :
    Fitting (schemaAt 6).labels? ModerationQueueItem.mapping i ↔
      Entity.moderationQueueItem.fits i = true := by
  simp [ModerationQueueItem.mapping, Entity.fits]

theorem Review.fitting_iff (r : Review) :
    Fitting (schemaAt 6).labels? Review.mapping r ↔ Entity.review.fits r = true := by
  simp [Review.mapping, Entity.fits, admits, and_assoc]

theorem Corroboration.fitting_iff (c : Corroboration) :
    Fitting (schemaAt 6).labels? Corroboration.mapping c ↔ Entity.corroboration.fits c = true := by
  simp [Corroboration.mapping, Entity.fits, admits]

theorem LayoffEvent.fitting_iff (e : LayoffEvent) :
    Fitting (schemaAt 6).labels? LayoffEvent.mapping e ↔ Entity.layoffEvent.fits e = true := by
  simp [LayoffEvent.mapping, Entity.fits, and_assoc]

theorem EmployerAccount.fitting_iff (a : EmployerAccount) :
    Fitting (schemaAt 6).labels? EmployerAccount.mapping a ↔
      Entity.employerAccount.fits a = true := by
  simp [EmployerAccount.mapping, Entity.fits]

theorem EmployerResponse.fitting_iff (r : EmployerResponse) :
    Fitting (schemaAt 6).labels? EmployerResponse.mapping r ↔
      Entity.employerResponse.fits r = true := by
  simp [EmployerResponse.mapping, Entity.fits, admits]

theorem AdminUser.fitting_iff (a : AdminUser) :
    Fitting (schemaAt 6).labels? AdminUser.mapping a ↔ Entity.adminUser.fits a = true := by
  simp [AdminUser.mapping, Entity.fits]

theorem ModerationAuditLogEntry.fitting_iff (e : ModerationAuditLogEntry) :
    Fitting (schemaAt 6).labels? ModerationAuditLogEntry.mapping e ↔
      Entity.moderationAuditLogEntry.fits e = true := by
  simp [ModerationAuditLogEntry.mapping, Entity.fits, admits]

theorem TakedownLogEntry.fitting_iff (e : TakedownLogEntry) :
    Fitting (schemaAt 6).labels? TakedownLogEntry.mapping e ↔
      Entity.takedownLogEntry.fits e = true := by
  simp [TakedownLogEntry.mapping, Entity.fits, admits]

theorem GrievanceComplaint.fitting_iff (c : GrievanceComplaint) :
    Fitting (schemaAt 6).labels? GrievanceComplaint.mapping c ↔
      Entity.grievanceComplaint.fits c = true := by
  simp [GrievanceComplaint.mapping, Entity.fits, admits, and_assoc]

theorem fitting_iff (k : Entity) (a : k.Row) :
    Fitting (schemaAt 6).labels? k.mapping a ↔ k.fits a = true := by
  cases k with
  | user => exact User.fitting_iff a
  | otpCode => exact OTPCode.fitting_iff a
  | emailVerificationCode => exact EmailVerificationCode.fitting_iff a
  | moderationQueueItem => exact ModerationQueueItem.fitting_iff a
  | review => exact Review.fitting_iff a
  | corroboration => exact Corroboration.fitting_iff a
  | layoffEvent => exact LayoffEvent.fitting_iff a
  | employerAccount => exact EmployerAccount.fitting_iff a
  | employerResponse => exact EmployerResponse.fitting_iff a
  | adminUser => exact AdminUser.fitting_iff a
  | moderationAuditLogEntry => exact ModerationAuditLogEntry.fitting_iff a
  | takedownLogEntry => exact TakedownLogEntry.fitting_iff a
  | grievanceComplaint => exact GrievanceComplaint.fitting_iff a

/-- An INSERT is accepted exactly when the row fits. -/
theorem accepts_iff (k : Entity) (a : k.Row) :
    (schemaAt 6).Accepts k.table (k.insert a) ↔ k.fits a = true := by
  obtain ⟨d, htable, hagrees⟩ := Option.any_eq_true _ _ |>.mp (members_agree k k.mem_members)
  obtain ⟨hmapped, hrest⟩ := Bool.and_eq_true_iff.mp hagrees
  have hcolumn : ∀ f ∈ k.mapping, ∃ col, d.column? f.column = some col ∧ col.type = f.type ∧
      col.nullable = f.nullable := by
    intro f hf
    obtain ⟨col, hcol, heq⟩ := Option.any_eq_true _ _ |>.mp (List.all_eq_true.mp hmapped f hf)
    exact ⟨col, hcol, by simpa using heq⟩
  rw [← fitting_iff]
  constructor
  · rintro ⟨d', htable', hentries, -⟩ f hf v hv
    rw [htable] at htable'
    cases htable'
    obtain ⟨col, hcol, hentry⟩ := hentries (f.column, f.get a) (List.mem_map_of_mem hf)
    obtain ⟨col', hcol', htype, -⟩ := hcolumn f hf
    rw [Option.mem_def, hcol'] at hcol
    cases hcol
    rw [Option.mem_def.mp hv] at hentry
    exact htype ▸ hentry
  · intro hfits
    refine ⟨d, htable, fun entry hentry => ?_, fun col hcol => ?_⟩
    · obtain ⟨f, hf, rfl⟩ := List.mem_map.mp hentry
      obtain ⟨col, hcol, htype, hnullable⟩ := hcolumn f hf
      refine ⟨col, hcol, ?_⟩
      dsimp only
      cases hget : f.get a with
      | none =>
        rw [hnullable]
        by_contra hnot
        exact f.notNull (Bool.eq_false_of_not_eq_true hnot) a hget
      | some v =>
        rw [htype]
        exact hfits f hf v hget
    · have hcover := List.all_eq_true.mp hrest col hcol
      simp only [Bool.or_eq_true, List.any_eq_true, decide_eq_true_eq] at hcover
      rcases hcover with (⟨f, hf, hname⟩ | hnullable) | hdefault
      · exact Or.inl ⟨_, List.mem_map_of_mem hf, hname⟩
      · exact Or.inr (Or.inl hnullable)
      · exact Or.inr (Or.inr hdefault)

/-! ## Unique keys -/

/-- A column of the row as it is stored. -/
def Entity.stored (k : Entity) (a : k.Row) : ColumnName → Option Value := (k.insert a).value

section

variable {a b : ColumnName → Option Value} {column column' : ColumnName} {i i' j j' : Uuid}

theorem sameKey_uuid (ha : a column = some (.uuid i)) (hb : b column = some (.uuid j)) :
    SameKey [column] a b ↔ i = j := by
  simp [SameKey, ha, hb]

theorem sameKey_text {s t : String} (ha : a column = some (.text s))
    (hb : b column = some (.text t)) :
    SameKey [column] a b ↔ s = t := by
  simp [SameKey, ha, hb]

theorem sameKey_uuids (ha : a column = some (.uuid i)) (hb : b column = some (.uuid j))
    (ha' : a column' = some (.uuid i')) (hb' : b column' = some (.uuid j')) :
    SameKey [column, column'] a b ↔ (i, i') = (j, j') := by
  simp [SameKey, ha, hb, ha', hb']

end

section

variable {k : Entity} {a b : k.Row} {i j : Uuid}

/-- A table whose only key is its primary key. -/
theorem exists_sameKey_id (hkeys : k.keys = [[.id]]) (ha : k.stored a .id = some (.uuid i))
    (hb : k.stored b .id = some (.uuid j)) :
    (∃ key ∈ k.keys, SameKey key (k.stored a) (k.stored b)) ↔ (i == j) = true := by
  rw [hkeys]
  simp [sameKey_uuid ha hb]

/-- A table with one more unique key. -/
theorem exists_sameKey_idAnd {κ : Type} [DecidableEq κ] {u v : κ} {key : List ColumnName}
    (hkeys : k.keys = [[.id], key]) (ha : k.stored a .id = some (.uuid i))
    (hb : k.stored b .id = some (.uuid j))
    (hkey : SameKey key (k.stored a) (k.stored b) ↔ u = v) :
    (∃ key ∈ k.keys, SameKey key (k.stored a) (k.stored b)) ↔ (i == j || u == v) = true := by
  rw [hkeys]
  simp [sameKey_uuid ha hb, hkey]

end

theorem User.sameKey_iff (a b : User) :
    (∃ key ∈ Entity.user.keys, SameKey key (Entity.user.stored a) (Entity.user.stored b)) ↔
      clash a b = true :=
  exists_sameKey_idAnd rfl rfl rfl (sameKey_text rfl rfl)

theorem Review.sameKey_iff (a b : Review) :
    (∃ key ∈ Entity.review.keys, SameKey key (Entity.review.stored a) (Entity.review.stored b)) ↔
      clash a b = true :=
  exists_sameKey_idAnd rfl rfl rfl (sameKey_uuids rfl rfl rfl rfl)

theorem Corroboration.sameKey_iff (a b : Corroboration) :
    (∃ key ∈ Entity.corroboration.keys,
      SameKey key (Entity.corroboration.stored a) (Entity.corroboration.stored b)) ↔
      clash a b = true :=
  exists_sameKey_idAnd rfl rfl rfl (sameKey_uuids rfl rfl rfl rfl)

theorem EmployerAccount.sameKey_iff (a b : EmployerAccount) :
    (∃ key ∈ Entity.employerAccount.keys,
      SameKey key (Entity.employerAccount.stored a) (Entity.employerAccount.stored b)) ↔
      clash a b = true :=
  exists_sameKey_idAnd rfl rfl rfl (sameKey_uuid rfl rfl)

theorem EmployerResponse.sameKey_iff (a b : EmployerResponse) :
    (∃ key ∈ Entity.employerResponse.keys,
      SameKey key (Entity.employerResponse.stored a) (Entity.employerResponse.stored b)) ↔
      clash a b = true :=
  exists_sameKey_idAnd rfl rfl rfl (sameKey_uuid rfl rfl)

theorem AdminUser.sameKey_iff (a b : AdminUser) :
    (∃ key ∈ Entity.adminUser.keys,
      SameKey key (Entity.adminUser.stored a) (Entity.adminUser.stored b)) ↔
      clash a b = true := by
  have hid : SameKey [.id] (Entity.adminUser.stored a) (Entity.adminUser.stored b) ↔
      a.id = b.id := sameKey_uuid rfl rfl
  have hemail : SameKey [.email] (Entity.adminUser.stored a) (Entity.adminUser.stored b) ↔
      a.email = b.email := sameKey_text rfl rfl
  simp [Entity.keys, hid, hemail, clash]

/-- Two rows clash exactly when they agree on a unique key of the migrated schema. -/
theorem clash_iff (k : Entity) (a b : k.Row) :
    k.clash a b = true ↔
      ∃ key ∈ (schemaAt 6).keys k.table, SameKey key (k.stored a) (k.stored b) := by
  rw [members_keys k k.mem_members]
  cases k with
  | user => exact (User.sameKey_iff a b).symm
  | review => exact (Review.sameKey_iff a b).symm
  | corroboration => exact (Corroboration.sameKey_iff a b).symm
  | employerAccount => exact (EmployerAccount.sameKey_iff a b).symm
  | employerResponse => exact (EmployerResponse.sameKey_iff a b).symm
  | adminUser => exact (AdminUser.sameKey_iff a b).symm
  | _ => exact (exists_sameKey_id rfl rfl rfl).symm

/-! ## Foreign keys -/

/-- The foreign keys of the models. -/
def Entity.foreignKeys : Entity → List (ForeignKey TableName ColumnName)
  | emailVerificationCode => [⟨.userId, .users, .id, .cascade⟩]
  | moderationQueueItem => [⟨.userId, .users, .id, .cascade⟩]
  | review => [⟨.userId, .users, .id, .cascade⟩, ⟨.companyId, .companies, .id, .cascade⟩]
  | corroboration => [⟨.reviewId, .reviews, .id, .cascade⟩, ⟨.userId, .users, .id, .cascade⟩]
  | layoffEvent =>
    [⟨.companyId, .companies, .id, .cascade⟩, ⟨.submittedByUserId, .users, .id, .setNull⟩]
  | employerAccount => [⟨.companyId, .companies, .id, .cascade⟩]
  | employerResponse => [⟨.reviewId, .reviews, .id, .cascade⟩,
    ⟨.employerAccountId, .employerAccounts, .id, .cascade⟩]
  | moderationAuditLogEntry => [⟨.actorAdminId, .adminUsers, .id, .setNull⟩]
  | user | otpCode | adminUser | takedownLogEntry | grievanceComplaint => []

theorem members_foreignKeys :
    ∀ k ∈ Entity.members, (schemaAt 6).foreignKeys k.table = k.foreignKeys := by
  decide +kernel

end LinkedOut
