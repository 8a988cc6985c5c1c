/-
  Who reviews a company. A review is stored for any user of the email tier and any
  company: `submit_review` looks at no domain.

  What the code keeps is which address a user has verified: `DomainHistory` follows the
  domain hash from the request that issued a code to the row of the code, `Ladder` from
  the code consumed last to the user. `own_company_iff`: a run stores only reviews by
  users of the reviewed company if and only if whoever has a review stored had verified,
  last of all, an address at a domain of that company. `stranger_reviews`: it stores others.
-/
import LinkedOut.Ladder

namespace LinkedOut

/-! ## Reviews of the own company -/

/-- The reviews that the step stores. -/
def storedReviews (v : ApiStep) : List Review :=
  v.after.db.reviews.rows.filter fun r => decide (∀ r₀ ∈ v.before.db.reviews.rows, r₀.id ≠ r.id)

/-- The hash is that of a domain which the company has registered. -/
def Registers (p : Platform) (db : Db) (companyId : Uuid) (domainHash : String) : Prop :=
  ∃ c ∈ db.companies.rows, c.id = companyId ∧
    ∃ d ∈ c.corporateEmailDomains, domainHash = hashDomain p d

/-- The domain hash of the user is that of a domain of the company. -/
def BelongsTo (p : Platform) (db : Db) (userId companyId : Uuid) : Prop :=
  ∃ u ∈ db.users.rows, u.id = userId ∧
    ∃ domainHash ∈ u.emailDomainHash, Registers p db companyId domainHash

instance (p : Platform) (db : Db) (companyId : Uuid) (domainHash : String) :
    Decidable (Registers p db companyId domainHash) :=
  inferInstanceAs (Decidable (∃ c ∈ db.companies.rows, _ ∧ _))

instance (p : Platform) (db : Db) (userId companyId : Uuid) :
    Decidable (BelongsTo p db userId companyId) :=
  inferInstanceAs (Decidable (∃ u ∈ db.users.rows, _ ∧ _))

/-- Every review of the run is stored for a user of the reviewed company. -/
def ReviewersBelong (p : Platform) (tr : List ApiStep) : Prop :=
  ∀ v ∈ tr, ∀ r ∈ storedReviews v, BelongsTo p v.before.db r.userId r.companyId

instance (p : Platform) (tr : List ApiStep) : Decidable (ReviewersBelong p tr) :=
  inferInstanceAs (Decidable (∀ v ∈ tr, _))

/-! ## The address a user has verified -/

/-- The hash of the domain of an address, when it has one. -/
def domainHashOf (p : Platform) (email : String) : Option String :=
  ((splitEmailDomain (normalizeEmail p email)).map (hashDomain p)).toOption

/-- The step issues the email code with the id `k` for the address. -/
def IssuedFor (w : ApiStep) (k : Uuid) (email : String) : Prop :=
  ∃ token, w.event.1 = .requestEmailVerification email token ∧ w.out.isOk = true ∧
    w.event.2.uuid 0 = k

/-- In the run recorded by `tr`, the code that the user consumed last was issued for the
    address. -/
def LastVerified (tr : List ApiStep) (userId : Uuid) (email : String) : Prop :=
  ∃ c, LastConsumed tr c ∧ c.userId = userId ∧ ∃ w ∈ tr, IssuedFor w c.id email

/-- Whenever the run stores a review, the address that the author has verified last is at a
    domain of the reviewed company. -/
def OwnAddresses (p : Platform) (tr : List ApiStep) : Prop :=
  ∀ (i : Nat) (v : ApiStep), tr[i]? = some v → ∀ r ∈ storedReviews v, ∀ email,
    LastVerified (tr.take i) r.userId email →
      ∃ domainHash ∈ domainHashOf p email, Registers p v.before.db r.companyId domainHash

/-- The columns of an email code that its address decides. -/
def SameDomain (c c' : EmailVerificationCode) : Prop :=
  c'.id = c.id ∧ c'.domainHash = c.domainHash

/-- What the run recorded by `tr` says about the email codes. -/
structure DomainHistory (p : Platform) (tr : List ApiStep) (codes : Table EmailVerificationCode) :
    Prop where
  issued : ∀ c ∈ codes.rows, ∃ w ∈ tr, ∃ email, IssuedFor w c.id email
  stored : ∀ w ∈ tr, ∀ k email, IssuedFor w k email →
    ∃ c ∈ codes.rows, c.id = k ∧ domainHashOf p email = some c.domainHash
  kept : ∀ w ∈ tr, ∀ c ∈ w.before.db.emailVerificationCodes.rows, ∃ c' ∈ codes.rows, SameDomain c c'

/-- A code keeps its domain hash as long as it is stored. -/
theorem write_keepsDomain {p : Platform} {env : Env} {db db' : Db} {req : Request}
    {out : Response} (h : Write p env db req out db') {c : EmailVerificationCode}
    (hc : c ∈ db.emailVerificationCodes.rows) :
    ∃ c' ∈ db'.emailVerificationCodes.rows, SameDomain c c' := by
  have hupdate : ∀ (k : Uuid) (f : Patch EmailVerificationCode), (∀ a, SameDomain a (f.apply a)) →
      ∃ c' ∈ (db.emailVerificationCodes.update k f).rows, SameDomain c c' := by
    intro k f hf
    by_cases hk : c.id = k
    · exact ⟨_, (Table.mem_update _ k f _).mpr (Or.inr ⟨c, hc, hk, rfl⟩), hf c⟩
    · exact ⟨c, (Table.mem_update _ k f c).mpr (Or.inl ⟨hc, hk⟩), rfl, rfl⟩
  cases h with
  | emailIssued _ _ _ _ hinsert =>
    exact ⟨c, (Table.mem_insert hinsert c).mpr (Or.inl hc), rfl, rfl⟩
  | emailWrong => exact hupdate _ _ fun _ => ⟨rfl, rfl⟩
  | emailAccepted => exact hupdate _ _ fun _ => ⟨rfl, rfl⟩
  | _ => exact ⟨c, hc, rfl, rfl⟩

/-- A code after a transaction was stored before it, or is the one that it issues. -/
theorem write_issues {p : Platform} {env : Env} {db db' : Db} {req : Request} {out : Response}
    (h : Write p env db req out db') {c' : EmailVerificationCode}
    (hc' : c' ∈ db'.emailVerificationCodes.rows) :
    (∃ c ∈ db.emailVerificationCodes.rows, SameDomain c c') ∨
      (∃ email token, req = .requestEmailVerification email token ∧ out.isOk = true ∧
        env.uuid 0 = c'.id) := by
  have hupdate : ∀ (k : Uuid) (f : Patch EmailVerificationCode), (∀ a, SameDomain a (f.apply a)) →
      c' ∈ (db.emailVerificationCodes.update k f).rows →
      ∃ c ∈ db.emailVerificationCodes.rows, SameDomain c c' := by
    intro k f hf hmem
    rcases (Table.mem_update _ k f c').mp hmem with ⟨hold, -⟩ | ⟨a, ha, -, rfl⟩
    · exact ⟨c', hold, rfl, rfl⟩
    · exact ⟨a, ha, hf a⟩
  cases h with
  | @emailIssued email _ _ token _ _ _ _ _ _ _ hinsert =>
    rcases (Table.mem_insert hinsert c').mp hc' with hold | rfl
    · exact Or.inl ⟨c', hold, rfl, rfl⟩
    · exact Or.inr ⟨email, token, rfl, rfl, rfl⟩
  | emailWrong => exact Or.inl (hupdate _ _ (fun _ => ⟨rfl, rfl⟩) hc')
  | emailAccepted => exact Or.inl (hupdate _ _ (fun _ => ⟨rfl, rfl⟩) hc')
  | _ => exact Or.inl ⟨c', hc', rfl, rfl⟩

/-- The code that is issued has the hash of the domain it is issued for. -/
theorem write_stores {p : Platform} {env : Env} {db db' : Db} {email : String}
    {token : Option String} {out : Response}
    (h : Write p env db (.requestEmailVerification email token) out db') :
    ∃ c ∈ db'.emailVerificationCodes.rows, c.id = env.uuid 0 ∧
      domainHashOf p email = some c.domainHash := by
  cases h with
  | emailIssued _ hdomain _ _ hinsert =>
    refine ⟨_, (Table.mem_insert hinsert _).mpr (Or.inr rfl), rfl, ?_⟩
    unfold domainHashOf
    rw [hdomain]
    rfl
  | reviewDecided hreq => cases hreq
  | layoffDecided hreq => cases hreq

/-- A transaction consumes one email code at most. -/
theorem write_consumes_unique {p : Platform} {env : Env} {db db' : Db} {req : Request}
    {out : Response} (h : Write p env db req out db') {c c' : EmailVerificationCode}
    (hc : Consumes db db' c) (hc' : Consumes db db' c') : c = c' := by
  cases h with
  | emailIssued _ _ _ _ hinsert => exact absurd hc (not_consumes_of_insert hinsert c)
  | emailWrong => exact absurd hc (not_consumes_of_attempts rfl c)
  | @emailAccepted _ _ _ _ user row _ _ _ hjudge =>
    obtain ⟨hrow, -, hnone⟩ := judgeEmail_right hjudge
    have hone : ∀ a, Consumes db (consumeEmail env user row db) a ↔ a = row :=
      consumes_iff hrow hnone rfl
    rw [(hone c).mp hc, (hone c').mp hc']
  | _ => exact absurd hc (not_consumes_of_eq rfl c)

/-- A review is stored for a user of the email tier. -/
theorem write_new_review {p : Platform} {env : Env} {db db' : Db} {req : Request} {out : Response}
    (h : Write p env db req out db') {r : Review} (hr : r ∈ db'.reviews.rows)
    (hnew : ∀ r₀ ∈ db.reviews.rows, r₀.id ≠ r.id) : OfEmailTier db.users r.userId := by
  cases h with
  | reviewSubmitted hgate _ _ _ hinsert =>
    rcases (Table.mem_insert hinsert r).mp hr with hold | rfl
    · exact absurd rfl (hnew r hold)
    · exact requireTier_ofEmailTier hgate
  | reviewDecided =>
    obtain ⟨r₀, hr₀, hid⟩ := db.reviews.exists_of_mem_update Review.id (fun _ => rfl) hr
    exact absurd hid (hnew r₀ hr₀)
  | _ => exact absurd rfl (hnew r hr)

section

variable {p : Platform} {tr : List ApiStep} {s : Server}

theorem keepsDomain_step (e : Request × Draws) {c : EmailVerificationCode}
    (hc : c ∈ s.db.emailVerificationCodes.rows) :
    ∃ c' ∈ ((Api p).step e s).2.db.emailVerificationCodes.rows, SameDomain c c' :=
  handle_rel (R := fun _ db' => ∃ c' ∈ db'.emailVerificationCodes.rows, SameDomain c c')
    ⟨c, hc, rfl, rfl⟩ fun hwrite => write_keepsDomain hwrite hc

theorem SameDomain.trans {a b c : EmailVerificationCode} (h : SameDomain a b)
    (h' : SameDomain b c) : SameDomain a c := ⟨h'.1.trans h.1, h'.2.trans h.2⟩

/-- A code after a request was stored before it, or is the one that it issues. -/
theorem step_issues (e : Request × Draws) {c' : EmailVerificationCode}
    (hc' : c' ∈ ((Api p).step e s).2.db.emailVerificationCodes.rows) :
    (∃ c ∈ s.db.emailVerificationCodes.rows, SameDomain c c') ∨
      ∃ email, IssuedFor ((Api p).serve e s) c'.id email := by
  rcases handle_cases p e.2.env e.1 s with ⟨hdb, -⟩ | hwrite
  · change c' ∈ (handle p e.2.env e.1 s).2.db.emailVerificationCodes.rows at hc'
    rw [hdb] at hc'
    exact Or.inl ⟨c', hc', rfl, rfl⟩
  · rcases write_issues hwrite hc' with hold | ⟨email, token, hreq, hok, hid⟩
    · exact Or.inl hold
    · exact Or.inr ⟨email, token, hreq, hok, hid⟩

theorem DomainHistory.issued_step (h : DomainHistory p tr s.db.emailVerificationCodes)
    (e : Request × Draws) :
    ∀ c ∈ ((Api p).step e s).2.db.emailVerificationCodes.rows,
      ∃ w ∈ tr ++ [(Api p).serve e s], ∃ email, IssuedFor w c.id email := by
  intro c' hc'
  rcases step_issues e hc' with ⟨c, hc, hsame⟩ | ⟨email, hissued⟩
  · obtain ⟨w, hw, email, hissued⟩ := h.issued c hc
    exact ⟨w, List.mem_append_left _ hw, email, by rw [hsame.1]; exact hissued⟩
  · exact ⟨_, List.mem_append_right _ (List.mem_singleton_self _), email, hissued⟩

/-- Only a read is answered with success without a transaction. -/
theorem exists_write {e : Request × Draws} (hok : ((Api p).step e s).1.isOk = true)
    (hread : e.1.isRead = false) :
    Write p e.2.env s.db e.1 ((Api p).step e s).1 ((Api p).step e s).2.db := by
  rcases handle_cases p e.2.env e.1 s with ⟨-, hsuccess⟩ | hwrite
  · cases hout : (handle p e.2.env e.1 s).1 with
    | error exc =>
      change (handle p e.2.env e.1 s).1.isOk = true at hok
      rw [hout] at hok
      cases hok
    | ok a =>
      have := hsuccess a hout
      rw [hread] at this
      cases this
  · exact hwrite

theorem DomainHistory.stored_step (h : DomainHistory p tr s.db.emailVerificationCodes)
    (e : Request × Draws) :
    ∀ w ∈ tr ++ [(Api p).serve e s], ∀ k email, IssuedFor w k email →
      ∃ c ∈ ((Api p).step e s).2.db.emailVerificationCodes.rows, c.id = k ∧
        domainHashOf p email = some c.domainHash := by
  intro w hw k email hissued
  rcases List.mem_append.mp hw with hw | hw
  · obtain ⟨c, hc, hid, hdomain⟩ := h.stored w hw k email hissued
    obtain ⟨c', hc', hsame⟩ := keepsDomain_step e hc
    exact ⟨c', hc', hsame.1.trans hid, by rw [hsame.2]; exact hdomain⟩
  · rw [List.mem_singleton.mp hw] at hissued
    obtain ⟨token, hreq, hok, hid⟩ := hissued
    change e.1 = _ at hreq
    have hwrite := exists_write hok (by rw [hreq]; rfl)
    rw [hreq] at hwrite
    obtain ⟨c, hc, hcid, hdomain⟩ := write_stores hwrite
    exact ⟨c, hc, hcid.trans hid, hdomain⟩

theorem DomainHistory.kept_step (h : DomainHistory p tr s.db.emailVerificationCodes)
    (e : Request × Draws) :
    ∀ w ∈ tr ++ [(Api p).serve e s], ∀ c ∈ w.before.db.emailVerificationCodes.rows,
      ∃ c' ∈ ((Api p).step e s).2.db.emailVerificationCodes.rows, SameDomain c c' := by
  intro w hw c hc
  rcases List.mem_append.mp hw with hw | hw
  · obtain ⟨c₁, hc₁, hsame⟩ := h.kept w hw c hc
    obtain ⟨c', hc', hsame'⟩ := keepsDomain_step e hc₁
    exact ⟨c', hc', hsame.trans hsame'⟩
  · rw [List.mem_singleton.mp hw] at hc
    exact keepsDomain_step e hc

theorem domainHistory_run (es : List (Request × Draws)) {s : Server}
    (h : s.db.emailVerificationCodes.rows = []) :
    DomainHistory p ((Api p).trace es s) ((Api p).exec es s).db.emailVerificationCodes := by
  refine (Api p).trace_inv (I := fun tr t => DomainHistory p tr t.db.emailVerificationCodes)
    (P := fun _ => True) s ?_ (fun _ _ _ => trivial)
    (fun _ e _ hist => ⟨hist.issued_step e, hist.stored_step e, hist.kept_step e⟩) es trivial
  constructor
  all_goals simp [h]

/-! ## The code consumed last -/

/-- A request consumes one email code at most. -/
theorem consumes_unique {e : Request × Draws} {c c' : EmailVerificationCode}
    (hc : Consumes s.db ((Api p).step e s).2.db c)
    (hc' : Consumes s.db ((Api p).step e s).2.db c') : c = c' := by
  rcases handle_cases p e.2.env e.1 s with ⟨hdb, -⟩ | hwrite
  · exact absurd hc (not_consumes_of_eq (congrArg Db.emailVerificationCodes hdb) c)
  · exact write_consumes_unique hwrite hc hc'

/-- The code that a user consumed last is one. -/
theorem lastConsumed_unique {es : List (Request × Draws)} {c c' : EmailVerificationCode}
    (h : LastConsumed ((Api p).trace es s) c) (h' : LastConsumed ((Api p).trace es s) c')
    (howner : c'.userId = c.userId) : c' = c := by
  obtain ⟨tr₁, v, tr₂, heq, hconsumes, hlast⟩ := h
  obtain ⟨tr₁', v', tr₂', heq', hconsumes', hlast'⟩ := h'
  have hv : v = (Api p).serve v.event v.before :=
    (Api p).mem_trace (by rw [heq]; exact List.mem_append_right _ List.mem_cons_self)
  rw [heq] at heq'
  rcases List.append_eq_append_iff.mp heq' with ⟨l, -, htail⟩ | ⟨l, -, htail⟩
  · cases l with
    | nil =>
      cases htail
      rw [hv] at hconsumes hconsumes'
      exact consumes_unique hconsumes' hconsumes
    | cons x l =>
      -- the other step comes later
      rw [List.cons_append, List.cons.injEq] at htail
      have hmem : v' ∈ tr₂ := by
        rw [htail.2]
        exact List.mem_append_right _ List.mem_cons_self
      exact absurd howner (hlast v' hmem c' hconsumes')
  · cases l with
    | nil =>
      cases htail
      rw [hv] at hconsumes hconsumes'
      exact consumes_unique hconsumes' hconsumes
    | cons x l =>
      rw [List.cons_append, List.cons.injEq] at htail
      have hmem : v ∈ tr₂' := by
        rw [htail.2]
        exact List.mem_append_right _ List.mem_cons_self
      exact absurd howner.symm (hlast' v hmem c hconsumes)

/-- The code that was consumed is still stored, with its domain hash. -/
theorem LastConsumed.stored {codes : Table EmailVerificationCode} {c : EmailVerificationCode}
    (h : LastConsumed tr c) (hist : DomainHistory p tr codes) :
    ∃ c' ∈ codes.rows, SameDomain c c' := by
  obtain ⟨tr₁, v, tr₂, rfl, ⟨hfind, -⟩, -⟩ := h
  have hmem : c ∈ v.before.db.emailVerificationCodes.rows :=
    ((v.before.db.emailVerificationCodes.find?_eq_some _ _).mp hfind).1
  exact hist.kept v (List.mem_append_right _ List.mem_cons_self) c hmem

/-- Whoever rests on a verified address has verified one last. -/
theorem EmailEvidence.exists_lastVerified {codes : Table EmailVerificationCode} {u : User}
    (h : EmailEvidence tr u) (hist : DomainHistory p tr codes) :
    ∃ email, LastVerified tr u.id email := by
  obtain ⟨c, hlast, howner, -⟩ := h
  obtain ⟨c', hc', hid, -⟩ := hlast.stored hist
  obtain ⟨w, hw, email, hissued⟩ := hist.issued c' hc'
  exact ⟨email, c, hlast, howner, w, hw, by rw [← hid]; exact hissued⟩

/-- The domain hash of a user is that of the address verified last. -/
theorem EmailEvidence.domainHashOf {es : List (Request × Draws)}
    {codes : Table EmailVerificationCode} {u : User}
    (h : EmailEvidence ((Api p).trace es s) u)
    (hist : DomainHistory p ((Api p).trace es s) codes) {email : String}
    (hverified : LastVerified ((Api p).trace es s) u.id email) :
    u.emailDomainHash = LinkedOut.domainHashOf p email := by
  obtain ⟨c₀, hlast₀, howner₀, hhash⟩ := h
  obtain ⟨c, hlast, howner, w, hw, hissued⟩ := hverified
  have hsame : c₀ = c := lastConsumed_unique hlast hlast₀ (howner₀.trans howner.symm)
  obtain ⟨c', hc', hid, hdomain⟩ := hlast.stored hist
  obtain ⟨c'', hc'', hid', hdomain'⟩ := hist.stored w hw c.id email hissued
  have hrow : c'' = c' := codes.eq_of_pk hc'' hc' (hid'.trans hid.symm)
  rw [hhash, hdomain', hrow, hdomain, hsame]

/-! ## Whole runs -/

/-- A database before anyone has signed up. -/
structure Unused (db : Db) : Prop where
  users : db.users.rows = []
  emailVerificationCodes : db.emailVerificationCodes.rows = []
  moderationQueue : db.moderationQueue.rows = []
  reviews : db.reviews.rows = []
  layoffEvents : db.layoffEvents.rows = []

/-- The author of the review that a request stores is of the email tier. -/
theorem stored_ofEmailTier {e : Request × Draws} {r : Review}
    (h : r ∈ storedReviews ((Api p).serve e s)) : OfEmailTier s.db.users r.userId := by
  obtain ⟨hafter, hnew⟩ := List.mem_filter.mp h
  exact handle_rel (R := fun db db' => r ∈ db'.reviews.rows →
      (∀ r₀ ∈ db.reviews.rows, r₀.id ≠ r.id) → OfEmailTier db.users r.userId)
    (fun hmem hno => absurd rfl (hno r hmem)) (fun hwrite => write_new_review hwrite) hafter
    (of_decide_eq_true hnew)

/-- The reviewer belongs to the company if and only if the address verified last does. -/
theorem belongsTo_iff {es : List (Request × Draws)} {t : Server}
    (hladder : Ladder ((Api p).trace es s) t.db)
    (hist : DomainHistory p ((Api p).trace es s) t.db.emailVerificationCodes)
    {userId companyId : Uuid} (hauthor : OfEmailTier t.db.users userId) :
    BelongsTo p t.db userId companyId ↔
      ∀ email, LastVerified ((Api p).trace es s) userId email →
        ∃ domainHash ∈ domainHashOf p email, Registers p t.db companyId domainHash := by
  obtain ⟨u, hu, rfl, hrank⟩ := hauthor
  have hevidence : EmailEvidence ((Api p).trace es s) u := hladder.email u hu hrank
  constructor
  · rintro ⟨u', hu', hid, domainHash, hhash, hregisters⟩ email hverified
    have hsame : u' = u := t.db.users.eq_of_pk hu' hu hid
    rw [hsame, hevidence.domainHashOf hist hverified] at hhash
    exact ⟨domainHash, hhash, hregisters⟩
  · intro h
    obtain ⟨email, hverified⟩ := hevidence.exists_lastVerified hist
    obtain ⟨domainHash, hdomain, hregisters⟩ := h email hverified
    rw [← hevidence.domainHashOf hist hverified] at hdomain
    exact ⟨u, hu, rfl, domainHash, hdomain, hregisters⟩

end

/-- A run from a database before anyone has signed up stores only reviews by users of the
    reviewed company if and only if, whenever a review is stored, the address that its
    author has verified last is at a domain of the company. -/
theorem own_company_iff (p : Platform) (es : List (Request × Draws)) (s : Server)
    (hs : Unused s.db) :
    ReviewersBelong p ((Api p).trace es s) ↔ OwnAddresses p ((Api p).trace es s) := by
  have hstep : ∀ (i : Nat) (v : ApiStep), ((Api p).trace es s)[i]? = some v →
      ∀ r ∈ storedReviews v, (BelongsTo p v.before.db r.userId r.companyId ↔
        ∀ email, LastVerified (((Api p).trace es s).take i) r.userId email →
          ∃ domainHash ∈ domainHashOf p email, Registers p v.before.db r.companyId domainHash) := by
    intro i v hv r hr
    obtain ⟨e, -, rfl⟩ := (Api p).exists_serve hv
    rw [(Api p).trace_take]
    have hladder := (verification_ladder p (es.take i) s hs.users hs.reviews hs.layoffEvents
      hs.moderationQueue).1
    exact belongsTo_iff hladder (domainHistory_run (es.take i) hs.emailVerificationCodes)
      (stored_ofEmailTier hr)
  constructor
  · intro h i v hv r hr
    exact (hstep i v hv r hr).mp (h v (List.mem_of_getElem? hv) r hr)
  · intro h v hv r hr
    obtain ⟨i, hi⟩ := List.getElem?_of_mem hv
    exact (hstep i v hi r hr).mpr (h i v hi r hr)

theorem unusedDb_unused : Unused unusedDb := ⟨rfl, rfl, rfl, rfl, rfl⟩

/-- Of the climb that reviews the company of the verified address. -/
theorem ladderRun_ownAddresses :
    OwnAddresses smallPlatform ((Api smallPlatform).trace ladderRun (.start unusedDb)) :=
  (own_company_iff smallPlatform ladderRun (.start unusedDb) unusedDb_unused).mp (by decide)

/-- A user verifies an address of a mail provider and reviews the company. -/
def strangerRun : List (Request × Draws) :=
  [(.requestOtp "+15551234567", drawsAt 0 30),
    (.verifyOtp "+15551234567" "000000", signupDraws 1),
    (.requestEmailVerification "al@gmail.com" (some "alice"), drawsAt 2 40),
    (.verifyEmail "al@gmail.com" "000000" (some "alice"), drawsAt 3 50),
    (.submitReview smallReview (some "alice"), drawsAt 5 70)]

theorem stranger_reviews :
    Unused unusedDb ∧
      ¬ ReviewersBelong smallPlatform ((Api smallPlatform).trace strangerRun (.start unusedDb)) :=
  ⟨unusedDb_unused, by decide⟩

end LinkedOut
