/-
  The database of the API under the schema at head: columns, lengths, unique keys and foreign
  keys (`Db.Conforms`).

  `conforms_iff`: a database conforms exactly when every row fits its columns and the twelve
  foreign keys of `app/models` hold; the unique keys are in the tables themselves.
  `api_keeps_schema`: that, and the requests keep all of it, with digests of 64 characters, as
  long as the limit on attempts and the paths that `mkstemp` makes fit their columns.
-/
import LinkedOut.Mapping.Head
import LinkedOut.Reviews.References

namespace LinkedOut

open Table

/-! ## The tables as they are stored -/

/-- Of `companies` only the id is looked at. -/
def Db.stored (db : Db) : Rows Value
  | .companies => db.companies.rows.map fun c column =>
    if column = .id then some (.uuid c.id) else none
  | .users => (Entity.user.rows db).map Entity.user.stored
  | .otpCodes => (Entity.otpCode.rows db).map Entity.otpCode.stored
  | .emailVerificationCodes =>
    (Entity.emailVerificationCode.rows db).map Entity.emailVerificationCode.stored
  | .moderationQueue => (Entity.moderationQueueItem.rows db).map Entity.moderationQueueItem.stored
  | .reviews => (Entity.review.rows db).map Entity.review.stored
  | .corroborations => (Entity.corroboration.rows db).map Entity.corroboration.stored
  | .layoffEvents => (Entity.layoffEvent.rows db).map Entity.layoffEvent.stored
  | .employerAccounts => (Entity.employerAccount.rows db).map Entity.employerAccount.stored
  | .employerResponses => (Entity.employerResponse.rows db).map Entity.employerResponse.stored
  | .adminUsers => (Entity.adminUser.rows db).map Entity.adminUser.stored
  | .moderationAuditLog =>
    (Entity.moderationAuditLogEntry.rows db).map Entity.moderationAuditLogEntry.stored
  | .takedownLogEntries => (Entity.takedownLogEntry.rows db).map Entity.takedownLogEntry.stored
  | .grievanceComplaints =>
    (Entity.grievanceComplaint.rows db).map Entity.grievanceComplaint.stored

/-- What the schema asks of the tables as a whole. -/
structure Db.Conforms (c : Schema) (db : Db) : Prop where
  /-- every table and every column that is mapped is there -/
  held : c.trim db.stored = db.stored
  accepted : ∀ k : Entity, ∀ a ∈ k.rows db, c.Accepts k.table (k.insert a)
  keys : ∀ t, ∀ key ∈ c.keys t, (db.stored t).Pairwise fun a b => ¬ SameKey key a b
  foreignKeys : ∀ t, ∀ fk ∈ c.foreignKeys t, fk.Holds t db.stored

theorem stored_table (k : Entity) (db : Db) : db.stored k.table = (k.rows db).map k.stored := by
  cases k <;> rfl

theorem table_cases (t : TableName) : t = .companies ∨ ∃ k : Entity, t = k.table := by
  cases t with
  | companies => exact Or.inl rfl
  | users => exact Or.inr ⟨.user, rfl⟩
  | otpCodes => exact Or.inr ⟨.otpCode, rfl⟩
  | emailVerificationCodes => exact Or.inr ⟨.emailVerificationCode, rfl⟩
  | moderationQueue => exact Or.inr ⟨.moderationQueueItem, rfl⟩
  | reviews => exact Or.inr ⟨.review, rfl⟩
  | corroborations => exact Or.inr ⟨.corroboration, rfl⟩
  | layoffEvents => exact Or.inr ⟨.layoffEvent, rfl⟩
  | employerAccounts => exact Or.inr ⟨.employerAccount, rfl⟩
  | employerResponses => exact Or.inr ⟨.employerResponse, rfl⟩
  | adminUsers => exact Or.inr ⟨.adminUser, rfl⟩
  | moderationAuditLog => exact Or.inr ⟨.moderationAuditLogEntry, rfl⟩
  | takedownLogEntries => exact Or.inr ⟨.takedownLogEntry, rfl⟩
  | grievanceComplaints => exact Or.inr ⟨.grievanceComplaint, rfl⟩

/-! ## Columns -/

/-- A column that is not mapped is not sent. -/
theorem stored_none {k : Entity} {column : ColumnName}
    (h : ∀ f ∈ k.mapping, f.column ≠ column) (a : k.Row) : k.stored a column = none := by
  unfold Entity.stored Insert.value Entity.insert
  rw [List.find?_eq_none.mpr]
  · rfl
  · intro entry hentry
    obtain ⟨f, hf, rfl⟩ := List.mem_map.mp hentry
    simpa using h f hf

theorem companies_head : (schemaAt 6).hasTable .companies = true ∧
    (schemaAt 6).hasColumn .companies .id = true ∧ (schemaAt 6).foreignKeys .companies = [] ∧
    (schemaAt 6).keys .companies = [[.id], [.name], [.slug]] := by
  decide +kernel

theorem mapped_hasColumn {k : Entity} {f : Mapped k.Row} (hf : f ∈ k.mapping) :
    (schemaAt 6).hasColumn k.table f.column = true := by
  obtain ⟨d, htable, hagrees⟩ := Option.any_eq_true _ _ |>.mp (members_agree k k.mem_members)
  have hmapped := List.all_eq_true.mp (Bool.and_eq_true_iff.mp hagrees).1 f hf
  obtain ⟨col, hcol, -⟩ := Option.any_eq_true _ _ |>.mp hmapped
  exact Catalog.hasColumn_iff.mpr ⟨d, htable, Option.isSome_iff_exists.mpr ⟨col, hcol⟩⟩

theorem table_hasTable (k : Entity) : (schemaAt 6).hasTable k.table = true := by
  obtain ⟨d, htable, -⟩ := Option.any_eq_true _ _ |>.mp (members_agree k k.mem_members)
  exact Option.isSome_iff_exists.mpr ⟨d, htable⟩

theorem stored_held (db : Db) : (schemaAt 6).trim db.stored = db.stored := by
  funext t
  unfold Catalog.trim
  rcases table_cases t with rfl | ⟨k, rfl⟩
  · rw [if_pos companies_head.1]
    simp only [Db.stored, List.map_map]
    refine List.map_congr_left fun c _ => funext fun column => ?_
    by_cases hid : column = .id
    · simp [hid, companies_head.2.1]
    · simp [hid]
  · rw [if_pos (table_hasTable k), stored_table, List.map_map]
    refine List.map_congr_left fun a _ => funext fun column => ?_
    show (if _ then k.stored a column else none) = k.stored a column
    split
    · rfl
    · rename_i hnone
      refine (stored_none (fun f hf hcolumn => hnone ?_) a).symm
      rw [← hcolumn]
      exact mapped_hasColumn hf

/-! ## Unique keys -/

theorem rows_distinct (k : Entity) (db : Db) :
    (k.rows db).Pairwise fun a b => k.clash a b = false := by
  cases k with
  | user => exact db.users.distinct
  | otpCode => exact db.otpCodes.distinct
  | emailVerificationCode => exact db.emailVerificationCodes.distinct
  | moderationQueueItem => exact db.moderationQueue.distinct
  | review => exact db.reviews.distinct
  | corroboration => exact db.corroborations.distinct
  | layoffEvent => exact db.layoffEvents.distinct
  | employerAccount => exact db.employerAccounts.distinct
  | employerResponse => exact db.employerResponses.distinct
  | adminUser => exact db.adminUsers.distinct
  | moderationAuditLogEntry => exact db.moderationAuditLog.distinct
  | takedownLogEntry => exact db.takedownLogEntries.distinct
  | grievanceComplaint => exact db.grievanceComplaints.distinct

/-- The names and slugs of companies are not looked at. -/
theorem stored_keys (db : Db) (t : TableName) (key : List ColumnName)
    (hkey : key ∈ (schemaAt 6).keys t) : (db.stored t).Pairwise fun a b => ¬ SameKey key a b := by
  rcases table_cases t with rfl | ⟨k, rfl⟩
  · rw [companies_head.2.2.2] at hkey
    refine List.pairwise_map.mpr (db.companies.distinct.imp fun {a b} hab hsame => ?_)
    have hid : a.id ≠ b.id := fun h => by
      rw [Record.clash_of_pk a b h] at hab
      cases hab
    rcases List.mem_cons.mp hkey with rfl | hkey
    · exact hid (by simpa using (hsame .id List.mem_cons_self).1)
    · rcases List.mem_cons.mp hkey with rfl | hkey
      · exact (hsame .name List.mem_cons_self).2 rfl
      · rw [List.mem_singleton.mp hkey] at hsame
        exact (hsame .slug List.mem_cons_self).2 rfl
  · rw [stored_table, List.pairwise_map]
    refine (rows_distinct k db).imp fun {a b} hab hsame => ?_
    rw [(clash_iff k a b).mpr ⟨key, hkey, hsame⟩] at hab
    cases hab

/-! ## Foreign keys -/

/-- A foreign key of the schema is one of the model when both sides read the same columns. -/
theorem holds_iff {α β : Type} [Record α] [Record β] {child : Table α} {parent : Table β}
    {fk : α → Option Nat} {s : α → ColumnName → Option Value} {s' : β → ColumnName → Option Value}
    {key : ForeignKey TableName ColumnName} {t : TableName} {rows : Rows Value}
    (hchild : rows t = child.rows.map s) (hparent : rows key.table = parent.rows.map s')
    (hs : ∀ a, s a key.column = (fk a).map .uuid)
    (hs' : ∀ b, s' b key.references = some (.uuid (pk b))) :
    key.Holds t rows ↔ Refers fk child parent := by
  unfold ForeignKey.Holds Refers Has
  rw [hchild, hparent, List.forall_mem_map]
  refine forall₂_congr fun a _ => ?_
  rw [hs]
  constructor
  · intro h i hi
    rw [hi] at h
    obtain ⟨row, hrow, href⟩ := h (.uuid i) rfl
    obtain ⟨b, hb, rfl⟩ := List.mem_map.mp hrow
    rw [hs'] at href
    exact ⟨b, hb, by simpa using href⟩
  · intro h v hv
    obtain ⟨i, hi, rfl⟩ := Option.map_eq_some_iff.mp hv
    obtain ⟨b, hb, rfl⟩ := h i hi
    exact ⟨s' b, List.mem_map_of_mem hb, hs' b⟩

section

variable (db : Db)

/-- The foreign keys of a model, read from the tables. -/
def Entity.Referring (k : Entity) : Prop := ∀ fk ∈ k.foreignKeys, fk.Holds k.table db.stored

theorem emailVerificationCode_referring :
    Entity.emailVerificationCode.Referring db ↔
      Refers (fun c => some c.userId) db.emailVerificationCodes db.users :=
  List.forall_mem_singleton.trans (holds_iff rfl rfl (fun _ => rfl) fun _ => rfl)

theorem moderationQueueItem_referring :
    Entity.moderationQueueItem.Referring db ↔
      Refers (fun i => some i.userId) db.moderationQueue db.users :=
  List.forall_mem_singleton.trans (holds_iff rfl rfl (fun _ => rfl) fun _ => rfl)

theorem employerAccount_referring :
    Entity.employerAccount.Referring db ↔
      Refers (fun a => some a.companyId) db.employerAccounts db.companies :=
  List.forall_mem_singleton.trans (holds_iff rfl rfl (fun _ => rfl) fun _ => rfl)

theorem moderationAuditLogEntry_referring :
    Entity.moderationAuditLogEntry.Referring db ↔
      Refers ModerationAuditLogEntry.actorAdminId db.moderationAuditLog db.adminUsers :=
  List.forall_mem_singleton.trans (holds_iff rfl rfl (fun _ => rfl) fun _ => rfl)

theorem review_referring :
    Entity.review.Referring db ↔
      Refers (fun r => some r.userId) db.reviews db.users ∧
        Refers (fun r => some r.companyId) db.reviews db.companies :=
  List.forall_mem_cons.trans (and_congr (holds_iff rfl rfl (fun _ => rfl) fun _ => rfl)
    (List.forall_mem_singleton.trans (holds_iff rfl rfl (fun _ => rfl) fun _ => rfl)))

theorem corroboration_referring :
    Entity.corroboration.Referring db ↔
      Refers (fun c => some c.reviewId) db.corroborations db.reviews ∧
        Refers (fun c => some c.userId) db.corroborations db.users :=
  List.forall_mem_cons.trans (and_congr (holds_iff rfl rfl (fun _ => rfl) fun _ => rfl)
    (List.forall_mem_singleton.trans (holds_iff rfl rfl (fun _ => rfl) fun _ => rfl)))

theorem layoffEvent_referring :
    Entity.layoffEvent.Referring db ↔
      Refers (fun e => some e.companyId) db.layoffEvents db.companies ∧
        Refers LayoffEvent.submittedByUserId db.layoffEvents db.users :=
  List.forall_mem_cons.trans (and_congr (holds_iff rfl rfl (fun _ => rfl) fun _ => rfl)
    (List.forall_mem_singleton.trans (holds_iff rfl rfl (fun _ => rfl) fun _ => rfl)))

theorem employerResponse_referring :
    Entity.employerResponse.Referring db ↔
      Refers (fun r => some r.reviewId) db.employerResponses db.reviews ∧
        Refers (fun r => some r.employerAccountId) db.employerResponses db.employerAccounts :=
  List.forall_mem_cons.trans (and_congr (holds_iff rfl rfl (fun _ => rfl) fun _ => rfl)
    (List.forall_mem_singleton.trans (holds_iff rfl rfl (fun _ => rfl) fun _ => rfl)))

/-- The foreign keys of the schema are those of the models. -/
theorem references_iff :
    References db ↔ ∀ t, ∀ fk ∈ (schemaAt 6).foreignKeys t, fk.Holds t db.stored := by
  constructor
  · intro h t
    rcases table_cases t with rfl | ⟨k, rfl⟩
    · rw [companies_head.2.2.1]
      exact List.forall_mem_nil _
    rw [members_foreignKeys k k.mem_members]
    cases k with
    | emailVerificationCode => exact (emailVerificationCode_referring db).mpr h.emailCodeUser
    | moderationQueueItem => exact (moderationQueueItem_referring db).mpr h.documentUser
    | review => exact (review_referring db).mpr ⟨h.reviewUser, h.reviewCompany⟩
    | corroboration =>
      exact (corroboration_referring db).mpr ⟨h.corroborationReview, h.corroborationUser⟩
    | layoffEvent => exact (layoffEvent_referring db).mpr ⟨h.layoffCompany, h.layoffUser⟩
    | employerAccount => exact (employerAccount_referring db).mpr h.accountCompany
    | employerResponse =>
      exact (employerResponse_referring db).mpr ⟨h.responseReview, h.responseAccount⟩
    | moderationAuditLogEntry => exact (moderationAuditLogEntry_referring db).mpr h.auditAdmin
    | _ => exact List.forall_mem_nil _
  · intro h
    have hk : ∀ k : Entity, k.Referring db := fun k fk hfk =>
      h k.table fk (by rwa [members_foreignKeys k k.mem_members])
    obtain ⟨hreviewUser, hreviewCompany⟩ := (review_referring db).mp (hk .review)
    obtain ⟨hcorroborated, hcorroborator⟩ := (corroboration_referring db).mp (hk .corroboration)
    obtain ⟨hlayoffCompany, hlayoffUser⟩ := (layoffEvent_referring db).mp (hk .layoffEvent)
    obtain ⟨hanswered, haccount⟩ := (employerResponse_referring db).mp (hk .employerResponse)
    exact {
      emailCodeUser := (emailVerificationCode_referring db).mp (hk .emailVerificationCode)
      documentUser := (moderationQueueItem_referring db).mp (hk .moderationQueueItem)
      reviewUser := hreviewUser
      reviewCompany := hreviewCompany
      corroborationReview := hcorroborated
      corroborationUser := hcorroborator
      layoffCompany := hlayoffCompany
      layoffUser := hlayoffUser
      accountCompany := (employerAccount_referring db).mp (hk .employerAccount)
      responseReview := hanswered
      responseAccount := haccount
      auditAdmin := (moderationAuditLogEntry_referring db).mp (hk .moderationAuditLogEntry) }

end

/-! ## Rows that fit -/

/-- Every row fits its columns. -/
structure RowsFit (db : Db) : Prop where
  users : ∀ u ∈ db.users.rows, Entity.user.fits u = true
  otpCodes : ∀ c ∈ db.otpCodes.rows, Entity.otpCode.fits c = true
  emailVerificationCodes :
    ∀ c ∈ db.emailVerificationCodes.rows, Entity.emailVerificationCode.fits c = true
  moderationQueue : ∀ i ∈ db.moderationQueue.rows, Entity.moderationQueueItem.fits i = true
  reviews : ∀ r ∈ db.reviews.rows, Entity.review.fits r = true
  corroborations : ∀ c ∈ db.corroborations.rows, Entity.corroboration.fits c = true
  layoffEvents : ∀ e ∈ db.layoffEvents.rows, Entity.layoffEvent.fits e = true
  employerAccounts : ∀ a ∈ db.employerAccounts.rows, Entity.employerAccount.fits a = true
  employerResponses : ∀ r ∈ db.employerResponses.rows, Entity.employerResponse.fits r = true
  adminUsers : ∀ a ∈ db.adminUsers.rows, Entity.adminUser.fits a = true
  moderationAuditLog :
    ∀ e ∈ db.moderationAuditLog.rows, Entity.moderationAuditLogEntry.fits e = true
  takedownLogEntries : ∀ e ∈ db.takedownLogEntries.rows, Entity.takedownLogEntry.fits e = true
  grievanceComplaints :
    ∀ c ∈ db.grievanceComplaints.rows, Entity.grievanceComplaint.fits c = true

theorem rowsFit_iff (db : Db) : RowsFit db ↔ ∀ k : Entity, ∀ a ∈ k.rows db, k.fits a = true := by
  constructor
  · intro h k
    cases k with
    | user => exact h.users
    | otpCode => exact h.otpCodes
    | emailVerificationCode => exact h.emailVerificationCodes
    | moderationQueueItem => exact h.moderationQueue
    | review => exact h.reviews
    | corroboration => exact h.corroborations
    | layoffEvent => exact h.layoffEvents
    | employerAccount => exact h.employerAccounts
    | employerResponse => exact h.employerResponses
    | adminUser => exact h.adminUsers
    | moderationAuditLogEntry => exact h.moderationAuditLog
    | takedownLogEntry => exact h.takedownLogEntries
    | grievanceComplaint => exact h.grievanceComplaints
  · intro h
    exact ⟨h .user, h .otpCode, h .emailVerificationCode, h .moderationQueueItem, h .review,
      h .corroboration, h .layoffEvent, h .employerAccount, h .employerResponse, h .adminUser,
      h .moderationAuditLogEntry, h .takedownLogEntry, h .grievanceComplaint⟩

/-- What the schema at head asks of the database. -/
theorem conforms_iff (db : Db) : db.Conforms (schemaAt 6) ↔ RowsFit db ∧ References db := by
  have haccepted : (∀ k : Entity, ∀ a ∈ k.rows db, (schemaAt 6).Accepts k.table (k.insert a)) ↔
      RowsFit db := by
    rw [rowsFit_iff]
    exact forall_congr' fun k => forall₂_congr fun a _ => accepts_iff k a
  constructor
  · intro h
    exact ⟨haccepted.mp h.accepted, (references_iff db).mpr h.foreignKeys⟩
  · rintro ⟨hfit, href⟩
    exact ⟨stored_held db, haccepted.mpr hfit, stored_keys db, (references_iff db).mp href⟩

/-! ## One transaction -/

/-- SHA-256 in hexadecimal is 64 characters. -/
structure Platform.HexDigests (p : Platform) : Prop where
  hmac : ∀ value, varchar 64 (p.hmac value) = true
  sha256 : ∀ content, varchar 64 (p.sha256 content) = true

section

variable {α : Type} [Record α] {t t' : Table α} {a : α} {P : α → Prop}

theorem forall_insert (h : t.insert a = some t') (ht : ∀ b ∈ t.rows, P b) (ha : P a) :
    ∀ b ∈ t'.rows, P b := by
  intro b hb
  rcases (mem_insert h b).mp hb with hb | rfl
  · exact ht b hb
  · exact ha

theorem forall_update {k : Nat} {f : Patch α} (ht : ∀ b ∈ t.rows, P b)
    (hf : ∀ b, P b → P (f.apply b)) : ∀ b ∈ (t.update k f).rows, P b := by
  intro b hb
  rcases (t.mem_update k f b).mp hb with ⟨hb, -⟩ | ⟨c, hc, -, rfl⟩
  · exact ht b hb
  · exact hf c (ht c hc)

end

section

variable {p : Platform} {env : Env} {db db' : Db} {req : Request} {out : Response}

theorem hashPhone_fits (hp : p.HexDigests) {phone phoneHash : String}
    (h : hashPhone p phone = .ok phoneHash) : varchar 64 phoneHash = true := by
  unfold hashPhone at h
  cases hnormal : normalizePhone phone with
  | error e => rw [hnormal] at h; cases h
  | ok normal =>
    rw [hnormal] at h
    cases h
    exact hp.hmac normal

theorem submittedEmailHash_fits (hp : p.HexDigests) {email emailHash : String}
    (h : submittedEmailHash p email = .ok emailHash) : varchar 64 emailHash = true := by
  obtain ⟨_, -, h1⟩ := bind_ok h
  cases h1
  exact hp.hmac _

/-- One more attempt on a row that has been judged. -/
theorem int32_succ {n maxAttempts : Nat} (h : n < maxAttempts) (hmax : maxAttempts ≤ 2147483647) :
    int32 ((n + 1 : Nat) : Int) = true := by
  unfold int32
  simp only [Bool.and_eq_true, decide_eq_true_eq]
  omega

/-- A login stores the hash of a new phone number. -/
theorem login_fits {phoneHash : String} {users users' : Table User} {userId : Uuid}
    (h : Login env phoneHash users users' userId) (hphone : varchar 64 phoneHash = true)
    (husers : ∀ u ∈ users.rows, Entity.user.fits u = true) :
    ∀ u ∈ users'.rows, Entity.user.fits u = true := by
  cases h with
  | signup _ hinsert =>
    refine forall_insert hinsert husers ?_
    simp [Entity.fits, hphone, nullable]
  | raise => exact forall_update husers fun _ hu => hu
  | again => exact husers

theorem raiseToEmail_fits {user : User} {domainHash : String} {users : Table User}
    (hdomain : varchar 64 domainHash = true)
    (husers : ∀ u ∈ users.rows, Entity.user.fits u = true) :
    ∀ u ∈ (raiseToEmail user domainHash users).rows, Entity.user.fits u = true := by
  have hset : ∀ u ∈ (users.update user.id (User.setDomainHash domainHash)).rows,
      Entity.user.fits u = true :=
    forall_update husers fun u hu => by
      have hphone : varchar 64 u.phoneHash = true := (Bool.and_eq_true_iff.mp hu).1
      simp [Entity.fits, User.setDomainHash, nullable, hphone, hdomain]
  have hraise : ∀ {users : Table User}, (∀ u ∈ users.rows, Entity.user.fits u = true) →
      ∀ u ∈ (users.update user.id (User.setTier .email)).rows, Entity.user.fits u = true :=
    fun h => forall_update h fun _ hu => hu
  have hfirst : ∀ u ∈ (if user.emailDomainHash = some domainHash then users
      else users.update user.id (User.setDomainHash domainHash)).rows,
      Entity.user.fits u = true := by
    split
    · exact husers
    · exact hset
  unfold raiseToEmail
  dsimp only
  by_cases htier : user.verificationTier = .phone
  · rw [if_pos htier]
    exact hraise hfirst
  · rw [if_neg htier]
    exact hfirst

/-- `admits` asks for the columns of an event but for its source. -/
theorem layoffEvent_fits {e : LayoffEvent} (h : admits e = true) (hsource : e.sourceUrl = none) :
    Entity.layoffEvent.fits e = true := by
  obtain ⟨⟨⟨-, hdepartment⟩, hheadcount⟩, hreason⟩ := by
    simpa only [admits, Bool.and_eq_true] using h
  simp only [Entity.fits, hdepartment, hheadcount, hsource, hreason]
  rfl

/-- A transaction stores rows that fit. -/
theorem write_rowsFit (hp : p.HexDigests) (hmax : p.settings.otpMaxAttempts ≤ 2147483647)
    (hpath : varchar 512 env.path = true) (h : Write p env db req out db') (hdb : RowsFit db) :
    RowsFit db' := by
  cases h with
  | otpIssued hphone _ hinsert =>
    exact { hdb with
      otpCodes := forall_insert hinsert hdb.otpCodes (by
        simp [Entity.fits, newOtpCode, hashCode, hashPii, hashPhone_fits hp hphone, hp.hmac,
          int32]) }
  | otpWrong _ hjudge =>
    have hattempts := int32_succ (judge_ok hjudge).2.2.1 hmax
    exact { hdb with
      otpCodes := forall_update hdb.otpCodes fun c hc => by
        simp only [Entity.fits, Bool.and_eq_true] at hc ⊢
        exact ⟨hc.1, hattempts⟩ }
  | otpAccepted hphone _ hlogin =>
    exact { hdb with
      otpCodes := forall_update hdb.otpCodes fun _ hc => hc
      users := login_fits hlogin (hashPhone_fits hp hphone) hdb.users }
  | emailIssued _ _ hemail _ hinsert =>
    exact { hdb with
      emailVerificationCodes := forall_insert hinsert hdb.emailVerificationCodes (by
        simp [Entity.fits, newEmailCode, hashCode, hashDomain, hashPii,
          submittedEmailHash_fits hp hemail, hp.hmac, int32]) }
  | emailWrong _ _ hjudge =>
    have hattempts := int32_succ (judge_ok hjudge).2.2.1 hmax
    exact { hdb with
      emailVerificationCodes := forall_update hdb.emailVerificationCodes fun c hc => by
        simp only [Entity.fits, Bool.and_eq_true] at hc ⊢
        exact ⟨hc.1, hattempts⟩ }
  | emailAccepted _ _ hjudge =>
    have hrow := hdb.emailVerificationCodes _ (pending_some (judge_ok hjudge).1).1
    simp only [Entity.fits, Bool.and_eq_true] at hrow
    exact { hdb with
      emailVerificationCodes := forall_update hdb.emailVerificationCodes fun _ hc => hc
      users := raiseToEmail_fits hrow.1.1.2 hdb.users }
  | documentUploaded _ hinsert =>
    exact { hdb with
      moderationQueue := forall_insert hinsert hdb.moderationQueue (by
        simp [Entity.fits, newDocument, nullable, hp.sha256, hpath]) }
  | reviewSubmitted _ _ _ _ hinsert =>
    exact { hdb with reviews := forall_insert hinsert hdb.reviews (insert_eq_some hinsert).2.1 }
  | reviewCorroborated _ _ _ hinsert =>
    exact { hdb with
      corroborations := forall_insert hinsert hdb.corroborations (insert_eq_some hinsert).2.1 }
  | reviewAnswered _ _ _ hinsert =>
    exact { hdb with
      employerResponses :=
        forall_insert hinsert hdb.employerResponses (insert_eq_some hinsert).2.1 }
  | layoffSubmitted _ _ _ hinsert =>
    exact { hdb with
      layoffEvents :=
        forall_insert hinsert hdb.layoffEvents (layoffEvent_fits (insert_eq_some hinsert).2.1 rfl) }
  | reviewDecided _ _ _ _ _ hinsert =>
    exact { hdb with
      reviews := forall_update hdb.reviews fun _ hr => hr
      moderationAuditLog :=
        forall_insert hinsert hdb.moderationAuditLog (insert_eq_some hinsert).2.1 }
  | layoffDecided _ _ _ _ _ _ hinsert =>
    exact { hdb with
      layoffEvents := forall_update hdb.layoffEvents fun _ he => he
      moderationAuditLog :=
        forall_insert hinsert hdb.moderationAuditLog (insert_eq_some hinsert).2.1 }
  | documentApproved _ _ _ _ hinsert =>
    exact { hdb with
      moderationQueue := forall_update hdb.moderationQueue fun i hi => by
        simp only [Entity.fits, ModerationQueueItem.setDecision, nullable, Bool.and_true,
          Bool.and_eq_true] at hi ⊢
        exact hi.1
      users := forall_update hdb.users fun _ hu => hu
      moderationAuditLog :=
        forall_insert hinsert hdb.moderationAuditLog (insert_eq_some hinsert).2.1 }
  | documentRejected _ _ _ _ hinsert =>
    exact { hdb with
      moderationQueue := forall_update hdb.moderationQueue fun i hi => by
        simp only [Entity.fits, ModerationQueueItem.setDecision, nullable, Bool.and_true,
          Bool.and_eq_true] at hi ⊢
        exact hi.1
      moderationAuditLog :=
        forall_insert hinsert hdb.moderationAuditLog (insert_eq_some hinsert).2.1 }
  | takedownLogged _ hinsert =>
    exact { hdb with
      takedownLogEntries :=
        forall_insert hinsert hdb.takedownLogEntries (insert_eq_some hinsert).2.1 }
  | grievanceSubmitted _ hinsert =>
    exact { hdb with
      grievanceComplaints :=
        forall_insert hinsert hdb.grievanceComplaints (insert_eq_some hinsert).2.1 }

end

/-! ## Whole runs -/

/-- A database is one of the migrated schema exactly when its rows fit and the references of
    `app/models` hold, and every run of the API from such a database ends in one. -/
theorem api_keeps_schema (p : Platform) (hp : p.HexDigests)
    (hmax : p.settings.otpMaxAttempts ≤ 2147483647) :
    (∀ db : Db, db.Conforms (schemaAt 6) ↔ RowsFit db ∧ References db) ∧
      ∀ (s : Server) (es : List (Request × Draws)), s.db.Conforms (schemaAt 6) →
        (∀ e ∈ es, varchar 512 e.2.path = true) →
          ((Api p).exec es s).db.Conforms (schemaAt 6) := by
  refine ⟨conforms_iff, fun s es hs hpaths => ?_⟩
  have hrun : RowsFit ((Api p).exec es s).db ∧ References ((Api p).exec es s).db :=
    (Api p).exec_inv (I := fun s => RowsFit s.db ∧ References s.db)
      (C := fun _ e => varchar 512 e.2.path = true)
      (fun s e hpath hI => ⟨handle_rel (R := fun _ db' => RowsFit db') hI.1 fun hwrite =>
        write_rowsFit hp hmax hpath hwrite hI.1, step_references hI.2⟩)
      es s ((conforms_iff s.db).mp hs)
      (((Api p).along_iff_getElem? _ es s).mpr fun n e he => hpaths e (List.mem_of_getElem? he))
  exact (conforms_iff _).mpr hrun

/-- Digests cut to the 64 characters of a column. -/
def shortPlatform : Platform :=
  { smallPlatform with
    hmac := fun value => String.ofList ((value.toList.filter fun c => c ≠ Char.ofNat 0).take 64)
    sha256 := fun _ => "00" }

theorem shortPlatform_digests : shortPlatform.HexDigests where
  hmac value := by
    have hstorable : storable (shortPlatform.hmac value) = true := by
      show (String.ofList _).toList.all _ = true
      rw [String.toList_ofList, List.all_eq_true]
      intro c hc
      exact (List.mem_filter.mp (List.mem_of_mem_take hc)).2
    have hlength : (shortPlatform.hmac value).length ≤ 64 := by
      show (String.ofList _).length ≤ 64
      rw [String.length_ofList]
      exact List.length_take_le _ _
    unfold varchar
    rw [hstorable, decide_eq_true hlength]
    rfl
  sha256 _ := (by decide : varchar 64 "00" = true)

theorem smallDb_conforms : smallDb.Conforms (schemaAt 6) := by
  refine (conforms_iff _).mpr ⟨?_, smallDb_references⟩
  constructor <;> exact List.all_eq_true.mp (by decide)

theorem signup_conforms :
    ((Api shortPlatform).exec [(.requestOtp "+15551234567", drawsAt 0 20),
      (.verifyOtp "+15551234567" "000000", drawsAt 1 30),
      (.submitReview smallReview (some "alice"), drawsAt 2 40)] (.start smallDb)).db.Conforms
        (schemaAt 6) :=
  (api_keeps_schema shortPlatform shortPlatform_digests (by decide)).2 (.start smallDb) _
    smallDb_conforms (by decide)

end LinkedOut
