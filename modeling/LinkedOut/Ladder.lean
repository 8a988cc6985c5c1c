/-
  The verification ladder cannot be skipped. Each tier of a user rests on evidence in
  another table: a consumed OTP, a consumed email code, an approved document with its
  audit entry.

  `UserAfter` says what one transaction can do to a user, `write_user` that no
  transaction does anything else. `verification_ladder`: in every run from a database
  without users and content the evidence of every user is there, content belongs to
  users of the email tier or higher, and no request lowers a tier.
-/
import LinkedOut.Codes.Flow
import LinkedOut.History

namespace LinkedOut

/-! ## The evidence -/

/-- Going from `db` to `db'` the email code `c` is consumed. -/
def Consumes (db db' : Db) (c : EmailVerificationCode) : Prop :=
  db.emailVerificationCodes.find? c.id = some c ∧ c.consumedAt = none ∧
    ∃ c', db'.emailVerificationCodes.find? c.id = some c' ∧ c'.consumedAt ≠ none

/-- In the run recorded by `tr` the code `c` is the last that its user has consumed. -/
def LastConsumed (tr : List ApiStep) (c : EmailVerificationCode) : Prop :=
  ∃ tr₁ v tr₂, tr = tr₁ ++ v :: tr₂ ∧ Consumes v.before.db v.after.db c ∧
    ∀ w ∈ tr₂, ∀ c', Consumes w.before.db w.after.db c' → c'.userId ≠ c.userId

/-- A code sent to the phone has been consumed. -/
def PhoneEvidence (db : Db) (phoneHash : String) : Prop :=
  ∃ c ∈ db.otpCodes.rows, c.phoneHash = phoneHash ∧ c.consumedAt ≠ none

/-- The email code that the user consumed last was sent to the user's domain. -/
def EmailEvidence (tr : List ApiStep) (u : User) : Prop :=
  ∃ c, LastConsumed tr c ∧ c.userId = u.id ∧ u.emailDomainHash = some c.domainHash

/-- A document of the user has been approved, and the log says so. -/
def DocumentEvidence (db : Db) (userId : Uuid) : Prop :=
  ∃ i ∈ db.moderationQueue.rows, i.userId = userId ∧ i.status = .approved ∧
    ∃ e ∈ db.moderationAuditLog.rows, e.itemType = .document ∧ e.itemId = i.id ∧
      e.action = .approve

/-- A user of the email tier or higher. -/
def OfEmailTier (users : Table User) (userId : Uuid) : Prop :=
  ∃ u ∈ users.rows, u.id = userId ∧ tierRank .email ≤ tierRank u.verificationTier

/-- What holds of the database `db` that the run recorded by `tr` has led to. -/
structure Ladder (tr : List ApiStep) (db : Db) : Prop where
  phone : ∀ u ∈ db.users.rows, PhoneEvidence db u.phoneHash
  email : ∀ u ∈ db.users.rows, tierRank .email ≤ tierRank u.verificationTier → EmailEvidence tr u
  document : ∀ u ∈ db.users.rows, u.verificationTier = .document → DocumentEvidence db u.id
  reviews : ∀ r ∈ db.reviews.rows, OfEmailTier db.users r.userId
  layoffEvents : ∀ e ∈ db.layoffEvents.rows, ∀ k, e.submittedByUserId = some k →
    OfEmailTier db.users k
  documents : ∀ i ∈ db.moderationQueue.rows, OfEmailTier db.users i.userId

/-- Every user is still there, at no lower a tier. -/
def KeepsTiers (users users' : Table User) : Prop :=
  ∀ u ∈ users.rows, ∃ u' ∈ users'.rows, u'.id = u.id ∧
    tierRank u.verificationTier ≤ tierRank u'.verificationTier

/-! ## What a transaction does to a user -/

/-- A user row after a transaction: the same as before, or written by a right OTP, by a right
    email code or by the approval of a document. -/
inductive UserAfter (db db' : Db) (u' : User) : Prop
  | same (hmem : u' ∈ db.users.rows) (hno : ∀ c, Consumes db db' c → c.userId ≠ u'.id)
  | signedUp (hphone : PhoneEvidence db' u'.phoneHash) (htier : u'.verificationTier = .phone)
  | phoned {u : User} (hmem : u ∈ db.users.rows) (hphone : u'.phoneHash = u.phoneHash)
      (htier : u'.verificationTier = .phone)
  | emailed {u : User} {c : EmailVerificationCode} (hmem : u ∈ db.users.rows)
      (hid : u'.id = u.id) (hphone : u'.phoneHash = u.phoneHash) (hconsumes : Consumes db db' c)
      (howner : c.userId = u'.id) (hdomain : u'.emailDomainHash = some c.domainHash)
      (htier : u'.verificationTier = .document → u.verificationTier = .document)
  | documented {u : User} (hmem : u ∈ db.users.rows) (hid : u'.id = u.id)
      (hphone : u'.phoneHash = u.phoneHash) (hdomain : u'.emailDomainHash = u.emailDomainHash)
      (hno : ∀ c, Consumes db db' c → c.userId ≠ u'.id)
      (howner : ∃ i ∈ db.moderationQueue.rows, i.userId = u.id)
      (hdocument : DocumentEvidence db' u'.id)

theorem not_consumes_of_eq {db db' : Db}
    (h : db'.emailVerificationCodes = db.emailVerificationCodes) (c : EmailVerificationCode) :
    ¬ Consumes db db' c := by
  rintro ⟨hfind, hnone, c', hfind', hsome⟩
  rw [h, hfind] at hfind'
  cases hfind'
  exact hsome hnone

theorem not_consumes_of_insert {db db' : Db} {row : EmailVerificationCode}
    (h : db.emailVerificationCodes.insert row = some db'.emailVerificationCodes)
    (c : EmailVerificationCode) : ¬ Consumes db db' c := by
  rintro ⟨hfind, hnone, c', hfind', hsome⟩
  rw [Table.find?_of_insert h hfind] at hfind'
  cases hfind'
  exact hsome hnone

theorem not_consumes_of_attempts {db db' : Db} {k : Uuid} {n : Nat}
    (h : db'.emailVerificationCodes =
      db.emailVerificationCodes.update k (EmailVerificationCode.setAttempts n))
    (c : EmailVerificationCode) : ¬ Consumes db db' c := by
  rintro ⟨hfind, hnone, c', hfind', hsome⟩
  rw [h, Table.find?_update, hfind] at hfind'
  split at hfind' <;> cases hfind' <;> exact hsome hnone

/-- A right email code consumes its own row and no other. -/
theorem consumes_iff {db db' : Db} {row : EmailVerificationCode} {t : Time}
    (hrow : db.emailVerificationCodes.find? row.id = some row) (hnone : row.consumedAt = none)
    (h : db'.emailVerificationCodes =
      db.emailVerificationCodes.update row.id (EmailVerificationCode.setConsumed t))
    (c : EmailVerificationCode) : Consumes db db' c ↔ c = row := by
  constructor
  · rintro ⟨hfind, hcnone, c', hfind', hsome⟩
    rw [h, Table.find?_update] at hfind'
    split at hfind'
    · rename_i hid
      rw [hid, hrow] at hfind
      exact (Option.some.inj hfind).symm
    · rw [hfind] at hfind'
      cases hfind'
      exact absurd hcnone hsome
  · rintro rfl
    refine ⟨hrow, hnone, _, by rw [h, Table.find?_update_self _ _ hrow], ?_⟩
    exact fun hc => by cases hc

/-- The user row after a right email code. -/
theorem mem_raiseToEmail {user u' : User} {domainHash : String} {users : Table User}
    (hfind : users.find? user.id = some user) (h : u' ∈ (raiseToEmail user domainHash users).rows) :
    (u' ∈ users.rows ∧ u'.id ≠ user.id) ∨
      (u'.id = user.id ∧ u'.phoneHash = user.phoneHash ∧ u'.emailDomainHash = some domainHash ∧
        u'.verificationTier =
          if user.verificationTier = .phone then .email else user.verificationTier) := by
  -- the domain hash is written first, unless it is there already
  obtain ⟨users1, user1, hdef, hfind1, hid, hphone, htier, hdomain, hmem1⟩ :
      ∃ users1 user1, users1 = (if user.emailDomainHash = some domainHash then users
          else users.update user.id (User.setDomainHash domainHash)) ∧
        users1.find? user.id = some user1 ∧ user1.id = user.id ∧
        user1.phoneHash = user.phoneHash ∧ user1.verificationTier = user.verificationTier ∧
        user1.emailDomainHash = some domainHash ∧
        ∀ b ∈ users1.rows, b.id ≠ user.id → b ∈ users.rows := by
    by_cases hsame : user.emailDomainHash = some domainHash
    · exact ⟨users, user, (if_pos hsame).symm, hfind, rfl, rfl, rfl, hsame, fun b hb _ => hb⟩
    · refine ⟨_, _, (if_neg hsame).symm, Table.find?_update_self _ _ hfind, rfl, rfl, rfl, rfl,
        fun b hb hne => ?_⟩
      rcases (Table.mem_update_of_find? hfind _ b).mp hb with ⟨hmem, -⟩ | rfl
      · exact hmem
      · exact absurd rfl hne
  unfold raiseToEmail at h
  rw [← hdef] at h
  by_cases hphoneTier : user.verificationTier = .phone
  · simp only [if_pos hphoneTier] at h ⊢
    rcases (Table.mem_update_of_find? hfind1 _ u').mp h with ⟨hmem, hne⟩ | rfl
    · exact Or.inl ⟨hmem1 u' hmem hne, hne⟩
    · exact Or.inr ⟨hid, hphone, hdomain, rfl⟩
  · simp only [if_neg hphoneTier] at h ⊢
    by_cases hne : u'.id = user.id
    · have hu : u' = user1 := users1.eq_of_pk h
        ((users1.find?_eq_some _ _).mp hfind1).1 (hne.trans hid.symm)
      rw [hu]
      exact Or.inr ⟨hid, hphone, hdomain, htier⟩
    · exact Or.inl ⟨hmem1 u' h hne, hne⟩

theorem judgeEmail_right {p : Platform} {env : Env} {userId : Uuid} {emailHash code : String}
    {db : Db} {row : EmailVerificationCode}
    (h : judgeEmail p env userId emailHash code db = .ok (.right row)) :
    db.emailVerificationCodes.find? row.id = some row ∧ row.userId = userId ∧
      row.consumedAt = none := by
  obtain ⟨hrow, -⟩ := judge_ok h
  obtain ⟨-, hkey, hnone, -⟩ := pending_some hrow
  exact ⟨pending_find? hrow, congrArg Prod.fst hkey, hnone⟩

theorem judgeOtp_right {p : Platform} {env : Env} {phoneHash code : String} {db : Db}
    {row : OTPCode} (h : judgeOtp p env phoneHash code db = .ok (.right row)) :
    db.otpCodes.find? row.id = some row ∧ row.phoneHash = phoneHash := by
  obtain ⟨hrow, -⟩ := judge_ok h
  exact ⟨pending_find? hrow, (pending_some hrow).2.1⟩

theorem write_user {p : Platform} {env : Env} {db db' : Db} {req : Request} {out : Response}
    (h : Write p env db req out db') {u' : User} (hu : u' ∈ db'.users.rows) :
    UserAfter db db' u' := by
  cases h with
  | @otpAccepted phone code phoneHash row users userId _ _ hjudge hlogin =>
    cases hlogin with
    | signup _ hinsert =>
      rcases (Table.mem_insert hinsert u').mp hu with hmem | rfl
      · exact .same hmem fun c hc => absurd hc (not_consumes_of_eq rfl c)
      · obtain ⟨hfind, hphone⟩ := judgeOtp_right hjudge
        refine .signedUp ⟨_, (Table.mem_update_of_find? hfind _ _).mpr (Or.inr rfl), hphone, ?_⟩ rfl
        exact fun hc => by cases hc
    | @raise user hmem _ _ =>
      have hfind := (db.users.find?_eq_some user.id user).mpr ⟨hmem, rfl⟩
      rcases (Table.mem_update_of_find? hfind _ u').mp hu with ⟨hmem', -⟩ | rfl
      · exact .same hmem' fun c hc => absurd hc (not_consumes_of_eq rfl c)
      · exact .phoned hmem rfl rfl
    | again => exact .same hu fun c hc => absurd hc (not_consumes_of_eq rfl c)
  | emailIssued _ _ _ _ hinsert =>
    exact .same hu fun c hc => absurd hc (not_consumes_of_insert hinsert c)
  | emailWrong => exact .same hu fun c hc => absurd hc (not_consumes_of_attempts rfl c)
  | @emailAccepted email code emailHash token user row _ hgate _ hjudge =>
    obtain ⟨hfind, -, -⟩ := requireTier_ok hgate
    obtain ⟨hrow, howner, hnone⟩ := judgeEmail_right hjudge
    have hconsumes : ∀ c, Consumes db (consumeEmail env user row db) c ↔ c = row :=
      consumes_iff hrow hnone rfl
    rcases mem_raiseToEmail hfind hu with ⟨hmem, hne⟩ | ⟨hid, hphone, hdomain, htier⟩
    · refine .same hmem fun c hc hcu => hne ?_
      rw [(hconsumes c).mp hc, howner] at hcu
      exact hcu.symm
    · refine .emailed ((db.users.find?_eq_some _ _).mp hfind).1 hid hphone
        ((hconsumes row).mpr rfl) (howner.trans hid.symm) hdomain fun hdocument => ?_
      rw [htier] at hdocument
      split at hdocument
      · cases hdocument
      · exact hdocument
  | @documentApproved itemId token admin item user _ _ _ hitem _ huser hinsert =>
    obtain ⟨hmem, hid⟩ := (db.users.find?_eq_some _ _).mp huser
    change user.id = item.userId at hid
    have hfind := (db.users.find?_eq_some user.id user).mpr ⟨hmem, rfl⟩
    obtain ⟨himem, hiid⟩ := (db.moderationQueue.find?_eq_some _ _).mp hitem
    rcases (Table.mem_update_of_find? hfind _ u').mp hu with ⟨hmem', -⟩ | rfl
    · exact .same hmem' fun c hc => absurd hc (not_consumes_of_eq rfl c)
    · refine .documented hmem rfl rfl rfl (fun c hc => absurd hc (not_consumes_of_eq rfl c))
        ⟨item, himem, hid.symm⟩ ?_
      exact ⟨_, (Table.mem_update_of_find? hitem _ _).mpr (Or.inr rfl), hid.symm, rfl, _,
        (Table.mem_insert hinsert _).mpr (Or.inr rfl), rfl, hiid.symm, rfl⟩
  | _ => exact .same hu fun c hc => absurd hc (not_consumes_of_eq rfl c)

theorem handle_user {p : Platform} {env : Env} {req : Request} {s : Server} {u' : User}
    (hu : u' ∈ (handle p env req s).2.db.users.rows) :
    UserAfter s.db (handle p env req s).2.db u' :=
  handle_rel (R := fun db db' => u' ∈ db'.users.rows → UserAfter db db' u')
    (fun hmem => .same hmem fun c hc => absurd hc (not_consumes_of_eq rfl c))
    (fun hwrite hmem => write_user hwrite hmem) hu

/-! ## No tier is lowered -/

theorem KeepsTiers.refl (users : Table User) : KeepsTiers users users :=
  fun u hu => ⟨u, hu, rfl, le_rfl⟩

theorem KeepsTiers.trans {users users' users'' : Table User} (h : KeepsTiers users users')
    (h' : KeepsTiers users' users'') : KeepsTiers users users'' := by
  intro u hu
  obtain ⟨u', hu', hid, hrank⟩ := h u hu
  obtain ⟨u'', hu'', hid', hrank'⟩ := h' u' hu'
  exact ⟨u'', hu'', hid'.trans hid, hrank.trans hrank'⟩

/-- Users who only move forward keep their tiers. -/
theorem KeepsTiers.of_moved {users users' : Table User} (h : Table.Moved User.Later users users') :
    KeepsTiers users users' := by
  intro u hu
  obtain ⟨u', hfind, hlater⟩ :=
    h.find? (fun h => h.id) ((users.find?_eq_some u.id u).mpr ⟨hu, rfl⟩)
  exact ⟨u', ((users'.find?_eq_some _ _).mp hfind).1, hlater.id, hlater.tier⟩

theorem handle_keepsTiers (p : Platform) (env : Env) (req : Request) (s : Server) :
    KeepsTiers s.db.users (handle p env req s).2.db.users :=
  .of_moved (handle_later p env req s).users

theorem OfEmailTier.kept {users users' : Table User} {userId : Uuid} (h : OfEmailTier users userId)
    (hkeeps : KeepsTiers users users') : OfEmailTier users' userId := by
  obtain ⟨u, hu, hid, hrank⟩ := h
  obtain ⟨u', hu', hid', hrank'⟩ := hkeeps u hu
  exact ⟨u', hu', hid'.trans hid, hrank.trans hrank'⟩

/-! ## The evidence stays -/

/-- A consumed code stays as it is. -/
theorem PhoneEvidence.later {db db' : Db} {phoneHash : String} (h : PhoneEvidence db phoneHash)
    (hlater : db.Later db') : PhoneEvidence db' phoneHash := by
  obtain ⟨c, hc, hphone, hconsumed⟩ := h
  obtain ⟨c', hfind, hcode⟩ :=
    hlater.otpCodes.find? (fun h => h.id) ((db.otpCodes.find?_eq_some c.id c).mpr ⟨hc, rfl⟩)
  rw [hcode.consumed hconsumed] at hfind
  exact ⟨c, ((db'.otpCodes.find?_eq_some _ _).mp hfind).1, hphone, hconsumed⟩

/-- An approved document is not decided again, and no audit entry is lost. -/
theorem DocumentEvidence.later {db db' : Db} {userId : Uuid} (h : DocumentEvidence db userId)
    (hlater : db.Later db') : DocumentEvidence db' userId := by
  obtain ⟨i, hi, hid, happroved, e, he, hentry⟩ := h
  obtain ⟨i', hfind, hitem⟩ := hlater.moderationQueue.find? (fun h => congrArg Prod.fst h.fixed)
    ((db.moderationQueue.find?_eq_some i.id i).mpr ⟨hi, rfl⟩)
  rw [hitem.decided (by rw [happroved]; decide)] at hfind
  exact ⟨i, ((db'.moderationQueue.find?_eq_some _ _).mp hfind).1, hid, happroved, e,
    hlater.moderationAuditLog.subset he, hentry⟩

theorem lastConsumed_now {tr : List ApiStep} {v : ApiStep} {c : EmailVerificationCode}
    (h : Consumes v.before.db v.after.db c) : LastConsumed (tr ++ [v]) c :=
  ⟨tr, v, [], rfl, h, fun w hw => by cases hw⟩

theorem lastConsumed_kept {tr : List ApiStep} {v : ApiStep} {c : EmailVerificationCode}
    (h : LastConsumed tr c)
    (hno : ∀ c', Consumes v.before.db v.after.db c' → c'.userId ≠ c.userId) :
    LastConsumed (tr ++ [v]) c := by
  obtain ⟨tr₁, w, tr₂, rfl, hconsumes, hlast⟩ := h
  refine ⟨tr₁, w, tr₂ ++ [v], by simp, hconsumes, fun x hx => ?_⟩
  rcases List.mem_append.mp hx with hx | hx
  · exact hlast x hx
  · rw [List.mem_singleton.mp hx]
    exact hno

theorem emailEvidence_kept {tr : List ApiStep} {v : ApiStep} {u u' : User}
    (h : EmailEvidence tr u) (hid : u'.id = u.id) (hdomain : u'.emailDomainHash = u.emailDomainHash)
    (hno : ∀ c, Consumes v.before.db v.after.db c → c.userId ≠ u'.id) :
    EmailEvidence (tr ++ [v]) u' := by
  obtain ⟨c, hlast, howner, hhash⟩ := h
  refine ⟨c, lastConsumed_kept hlast fun c' hc' => ?_, howner.trans hid.symm, hdomain.trans hhash⟩
  rw [howner, ← hid]
  exact hno c' hc'

/-! ## Content belongs to users of the email tier -/

theorem requireTier_ofEmailTier {p : Platform} {env : Env} {token : Option String} {db : Db}
    {user : User} (h : requireTier p env .email token db = .ok user) :
    OfEmailTier db.users user.id := by
  obtain ⟨hfind, hrank, -⟩ := requireTier_ok h
  exact ⟨user, ((db.users.find?_eq_some _ _).mp hfind).1, rfl, hrank⟩

/-- The owner of a row: one that owned a row before, or a user of the email tier. -/
theorem write_review_owner {p : Platform} {env : Env} {db db' : Db} {req : Request}
    {out : Response} (h : Write p env db req out db') {r : Review} (hr : r ∈ db'.reviews.rows) :
    (∃ r₀ ∈ db.reviews.rows, r₀.userId = r.userId) ∨ OfEmailTier db.users r.userId := by
  cases h with
  | reviewSubmitted hgate _ _ _ hinsert =>
    rcases (Table.mem_insert hinsert r).mp hr with hmem | rfl
    · exact Or.inl ⟨r, hmem, rfl⟩
    · exact Or.inr (requireTier_ofEmailTier hgate)
  | reviewDecided =>
    exact Or.inl (db.reviews.exists_of_mem_update Review.userId (fun _ => rfl) hr)
  | _ => exact Or.inl ⟨r, hr, rfl⟩

theorem write_layoff_owner {p : Platform} {env : Env} {db db' : Db} {req : Request}
    {out : Response} (h : Write p env db req out db') {e : LayoffEvent}
    (he : e ∈ db'.layoffEvents.rows) {userId : Uuid} (howner : e.submittedByUserId = some userId) :
    (∃ e₀ ∈ db.layoffEvents.rows, e₀.submittedByUserId = some userId) ∨
      OfEmailTier db.users userId := by
  cases h with
  | layoffSubmitted hgate _ _ hinsert =>
    rcases (Table.mem_insert hinsert e).mp he with hmem | rfl
    · exact Or.inl ⟨e, hmem, howner⟩
    · cases howner
      exact Or.inr (requireTier_ofEmailTier hgate)
  | layoffDecided =>
    obtain ⟨e₀, hmem, hsame⟩ :=
      db.layoffEvents.exists_of_mem_update LayoffEvent.submittedByUserId (fun _ => rfl) he
    exact Or.inl ⟨e₀, hmem, hsame.trans howner⟩
  | _ => exact Or.inl ⟨e, he, howner⟩

theorem write_document_owner {p : Platform} {env : Env} {db db' : Db} {req : Request}
    {out : Response} (h : Write p env db req out db') {i : ModerationQueueItem}
    (hi : i ∈ db'.moderationQueue.rows) :
    (∃ i₀ ∈ db.moderationQueue.rows, i₀.userId = i.userId) ∨ OfEmailTier db.users i.userId := by
  cases h with
  | documentUploaded hgate hinsert =>
    rcases (Table.mem_insert hinsert i).mp hi with hmem | rfl
    · exact Or.inl ⟨i, hmem, rfl⟩
    · exact Or.inr (requireTier_ofEmailTier hgate)
  | documentApproved =>
    exact Or.inl
      (db.moderationQueue.exists_of_mem_update ModerationQueueItem.userId (fun _ => rfl) hi)
  | documentRejected =>
    exact Or.inl
      (db.moderationQueue.exists_of_mem_update ModerationQueueItem.userId (fun _ => rfl) hi)
  | _ => exact Or.inl ⟨i, hi, rfl⟩

/-! ## One request -/

section

variable {p : Platform} {tr : List ApiStep} {s : Server}

theorem Ladder.phone_step (h : Ladder tr s.db) (e : Request × Draws) :
    ∀ u ∈ ((Api p).step e s).2.db.users.rows,
      PhoneEvidence ((Api p).step e s).2.db u.phoneHash := by
  intro u' hu'
  have hlater := handle_later p e.2.env e.1 s
  cases handle_user hu' with
  | same hmem => exact (h.phone u' hmem).later hlater
  | signedUp hphone => exact hphone
  | @phoned u hmem hphone => exact hphone ▸ (h.phone u hmem).later hlater
  | @emailed u _ hmem _ hphone => exact hphone ▸ (h.phone u hmem).later hlater
  | @documented u hmem _ hphone => exact hphone ▸ (h.phone u hmem).later hlater

theorem Ladder.email_step (h : Ladder tr s.db) (e : Request × Draws) :
    ∀ u ∈ ((Api p).step e s).2.db.users.rows, tierRank .email ≤ tierRank u.verificationTier →
      EmailEvidence (tr ++ [(Api p).serve e s]) u := by
  intro u' hu' hrank
  have hnotPhone : u'.verificationTier ≠ .phone := by
    intro htier
    rw [htier] at hrank
    exact absurd hrank (by decide)
  cases handle_user hu' with
  | same hmem hno => exact emailEvidence_kept (h.email u' hmem hrank) rfl rfl hno
  | signedUp _ htier => exact absurd htier hnotPhone
  | phoned _ _ htier => exact absurd htier hnotPhone
  | @emailed _ c _ _ _ hconsumes howner hdomain =>
    exact ⟨c, lastConsumed_now hconsumes, howner, hdomain⟩
  | @documented u hmem hid _ hdomain hno howner =>
    -- the document was uploaded by a user of the email tier, and it is this one
    obtain ⟨i, hi, howner⟩ := howner
    obtain ⟨u₀, hu₀, hid₀, hrank₀⟩ := h.documents i hi
    cases s.db.users.eq_of_pk hu₀ hmem (hid₀.trans howner)
    exact emailEvidence_kept (h.email _ hmem hrank₀) hid hdomain hno

theorem Ladder.document_step (h : Ladder tr s.db) (e : Request × Draws) :
    ∀ u ∈ ((Api p).step e s).2.db.users.rows, u.verificationTier = .document →
      DocumentEvidence ((Api p).step e s).2.db u.id := by
  intro u' hu' hdocument
  have hlater := handle_later p e.2.env e.1 s
  cases handle_user hu' with
  | same hmem => exact (h.document u' hmem hdocument).later hlater
  | signedUp _ htier => rw [htier] at hdocument; cases hdocument
  | phoned _ _ htier => rw [htier] at hdocument; cases hdocument
  | @emailed u _ hmem hid _ _ _ _ htier =>
    exact hid ▸ (h.document u hmem (htier hdocument)).later hlater
  | documented _ _ _ _ _ _ hevidence => exact hevidence

theorem Ladder.reviews_step (h : Ladder tr s.db) (e : Request × Draws) :
    ∀ r ∈ ((Api p).step e s).2.db.reviews.rows,
      OfEmailTier ((Api p).step e s).2.db.users r.userId := by
  intro r hr
  refine OfEmailTier.kept ?_ (handle_keepsTiers p e.2.env e.1 s)
  refine handle_rel (R := fun db db' => r ∈ db'.reviews.rows → OfEmailTier db.users r.userId)
    (h.reviews r) (fun hwrite hmem => ?_) hr
  rcases write_review_owner hwrite hmem with ⟨r₀, hr₀, hid⟩ | hnew
  · exact hid ▸ h.reviews r₀ hr₀
  · exact hnew

theorem Ladder.layoffEvents_step (h : Ladder tr s.db) (e : Request × Draws) :
    ∀ ev ∈ ((Api p).step e s).2.db.layoffEvents.rows, ∀ k, ev.submittedByUserId = some k →
      OfEmailTier ((Api p).step e s).2.db.users k := by
  intro ev hev k howner
  refine OfEmailTier.kept ?_ (handle_keepsTiers p e.2.env e.1 s)
  refine handle_rel (R := fun db db' => ev ∈ db'.layoffEvents.rows → OfEmailTier db.users k)
    (fun hmem => h.layoffEvents ev hmem k howner) (fun hwrite hmem => ?_) hev
  rcases write_layoff_owner hwrite hmem howner with ⟨ev₀, hev₀, howner₀⟩ | hnew
  · exact h.layoffEvents ev₀ hev₀ k howner₀
  · exact hnew

theorem Ladder.documents_step (h : Ladder tr s.db) (e : Request × Draws) :
    ∀ i ∈ ((Api p).step e s).2.db.moderationQueue.rows,
      OfEmailTier ((Api p).step e s).2.db.users i.userId := by
  intro i hi
  refine OfEmailTier.kept ?_ (handle_keepsTiers p e.2.env e.1 s)
  refine handle_rel (R := fun db db' => i ∈ db'.moderationQueue.rows → OfEmailTier db.users i.userId)
    (h.documents i) (fun hwrite hmem => ?_) hi
  rcases write_document_owner hwrite hmem with ⟨i₀, hi₀, hid⟩ | hnew
  · exact hid ▸ h.documents i₀ hi₀
  · exact hnew

theorem Ladder.step (h : Ladder tr s.db) (e : Request × Draws) :
    Ladder (tr ++ [(Api p).serve e s]) ((Api p).step e s).2.db :=
  ⟨h.phone_step e, h.email_step e, h.document_step e, h.reviews_step e, h.layoffEvents_step e,
    h.documents_step e⟩

end

/-! ## Whole runs -/

/-- In every run from a database without users and content, the tier of every user is
    backed by its evidence in every state reached, and no request lowers a tier. -/
theorem verification_ladder (p : Platform) (es : List (Request × Draws)) (s : Server)
    (husers : s.db.users.rows = []) (hreviews : s.db.reviews.rows = [])
    (hlayoffs : s.db.layoffEvents.rows = []) (hdocuments : s.db.moderationQueue.rows = []) :
    Ladder ((Api p).trace es s) ((Api p).exec es s).db ∧
      ∀ v ∈ (Api p).trace es s, KeepsTiers v.before.db.users v.after.db.users := by
  constructor
  · refine (Api p).trace_inv (I := fun tr t => Ladder tr t.db) (P := fun _ => True) s ?_
      (fun _ _ _ => trivial) (fun _ e _ hladder => hladder.step e) es trivial
    constructor
    · simp [husers]
    · simp [husers]
    · simp [husers]
    · simp [hreviews]
    · simp [hlayoffs]
    · simp [hdocuments]
  · intro v hv
    rw [(Api p).mem_trace hv]
    exact handle_keepsTiers p v.event.2.env v.event.1 v.before

/-- The draws of a sign-up that gives its user the id of the token `alice`. -/
def signupDraws (t : Time) : Draws := { now := fun _ => t, uuid := fun _ => 1 }

/-- One user climbs from the phone to the document tier and writes a review on the way. -/
def ladderRun : List (Request × Draws) :=
  [(.requestOtp "+15551234567", drawsAt 0 30),
    (.verifyOtp "+15551234567" "000000", signupDraws 1),
    (.requestEmailVerification "al@acme.com" (some "alice"), drawsAt 2 40),
    (.verifyEmail "al@acme.com" "000000" (some "alice"), drawsAt 3 50),
    (.uploadDocument .payslip [1] (some "alice"), drawsAt 4 60),
    (.submitReview smallReview (some "alice"), drawsAt 5 70),
    (.approveDocument 60 (some "root"), drawsAt 6 80)]

/-- The small deployment before anyone has signed up. -/
def unusedDb : Db := { smallDb with users := .empty }

theorem ladderRun_climbs :
    ((Api smallPlatform).exec ladderRun (.start unusedDb)).db.users.rows.map
        (fun u => (u.id, u.verificationTier)) = [(1, .document)] ∧
      Ladder ((Api smallPlatform).trace ladderRun (.start unusedDb))
        ((Api smallPlatform).exec ladderRun (.start unusedDb)).db :=
  ⟨by decide, (verification_ladder smallPlatform ladderRun (.start unusedDb) rfl rfl rfl rfl).1⟩

end LinkedOut
