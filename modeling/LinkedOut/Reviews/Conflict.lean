/-
  What a 409 of the three posts says.

  Each handler looks for a row of its own (`existing`), and it turns every exception of
  its commit into the conflict of that lookup: a lost race, but also a text the database
  cannot store, a foreign key whose row is gone, or a connection that is lost. Here a
  handler runs over `view`: its lookups and its commit each find the database that other
  requests have made of it by then. An error is kept with the database it is raised on
  (`raisedOn`), so that a 409 can be compared with what is stored there.

  `conflict_truthful_iff`: a 409 means a stored row exactly when, by the commit, such a row
  is stored or the database takes the new one (`Takes`).
-/
import LinkedOut.Refusals
import LinkedOut.Reviews.Race

namespace LinkedOut

/-! ## Handlers over a changing database -/

/-- The error, with the database it is raised on. -/
def raisedOn {α : Type} (db : Db) (x : Except HttpException α) : Except (HttpException × Db) α :=
  x.mapError fun e => (e, db)

/-- The lookups of `submit_review`, behind its gate. -/
def submitLookups (p : Platform) (env : Env) (body : ReviewCreate) (userId : Uuid)
    (view : Nat → Db) : Except (HttpException × Db) Unit := do
  raisedOn (view 0) body.check
  raisedOn (view 1) (requireCompany body.companyId (view 1))
  raisedOn (view 2) (orTooManyRequests "too many reviews submitted recently, try again later"
    (enforceRateLimit ((view 2).reviews.select fun r => r.userId == userId) Review.createdAt
      (env.now 1) p.settings.reviewRateLimitWindowMinutes p.settings.reviewRateLimitMaxRequests))
  raisedOn (view 3)
    (refuseExisting (.reviewByAuthor userId body.companyId) duplicateReview (view 3))

/-- `submitReview`, each lookup and the commit on the database as it finds it. -/
def submitReviewOver (p : Platform) (env : Env) (body : ReviewCreate) (token : Option String)
    (view : Nat → Db) : Except (HttpException × Db) (Db × CreateOut) := do
  let user ← raisedOn (view 0) (requireTier p env .email token (view 0))
  submitLookups p env body user.id view
  let review := newReview p env user.id body
  let reviews ← raisedOn (view 4) (commit env ((view 4).reviews.insert review) duplicateReview)
  return ({ view 4 with reviews }, review.createOut)

/-- The lookups of `corroborate_review`, behind its gate. -/
def corroborateLookups (reviewId : Uuid) (comment : Option String) (userId : Uuid)
    (view : Nat → Db) : Except (HttpException × Db) Unit := do
  raisedOn (view 0) (checkComment comment)
  let review ← raisedOn (view 1) (requireReview reviewId (view 1))
  raisedOn (view 1) (raiseIf (review.userId == userId)
    { status := 400, detail := "you cannot corroborate your own review" })
  raisedOn (view 2)
    (refuseExisting (.corroborationBy reviewId userId) alreadyCorroborated (view 2))

/-- `corroborateReview`, each lookup and the commit on the database as it finds it. -/
def corroborateReviewOver (p : Platform) (env : Env) (reviewId : Uuid) (comment : Option String)
    (token : Option String) (view : Nat → Db) :
    Except (HttpException × Db) (Db × CorroborationCreateOut) := do
  let user ← raisedOn (view 0) (requireTier p env .phone token (view 0))
  corroborateLookups reviewId comment user.id view
  let corroboration := newCorroboration env reviewId user.id comment
  let corroborations ← raisedOn (view 3)
    (commit env ((view 3).corroborations.insert corroboration) alreadyCorroborated)
  return ({ view 3 with corroborations }, { id := corroboration.id })

/-- The lookups of `respond_to_review`, behind its gate. -/
def respondLookups (reviewId : Uuid) (responseText : String) (companyId : Uuid)
    (view : Nat → Db) : Except (HttpException × Db) Unit := do
  raisedOn (view 0)
    (validate [("body.response_text", lengthIn 1 responseTextMaxLen responseText)])
  let review ← raisedOn (view 1) (requireReview reviewId (view 1))
  raisedOn (view 1) (raiseIf (review.companyId != companyId)
    { status := 403, detail := "you may only respond to reviews about your own company" })
  raisedOn (view 2) (refuseExisting (.responseTo reviewId) alreadyAnswered (view 2))

/-- `respondToReview`, each lookup and the commit on the database as it finds it. -/
def respondToReviewOver (p : Platform) (env : Env) (reviewId : Uuid) (responseText : String)
    (token : Option String) (view : Nat → Db) :
    Except (HttpException × Db) (Db × EmployerResponseRead) := do
  let account ← raisedOn (view 0) (getCurrentEmployerAccount p env token (view 0))
  respondLookups reviewId responseText account.companyId view
  let response := newResponse env reviewId account.id responseText
  let employerResponses ← raisedOn (view 3)
    (commit env ((view 3).employerResponses.insert response) alreadyAnswered)
  return ({ view 3 with employerResponses }, response.read)

/-! ## On a database nobody else writes, they are the handlers -/

theorem raisedOn_bind {α β : Type} (db : Db) (x : Except HttpException α)
    (f : α → Except HttpException β) :
    (raisedOn db x >>= fun a => raisedOn db (f a)) = raisedOn db (x >>= f) := by
  cases x <;> rfl

theorem raisedOn_return {α : Type} (db : Db) (a : α) :
    (pure a : Except (HttpException × Db) α) = raisedOn db (pure a) := rfl

theorem submitReviewOver_const (p : Platform) (env : Env) (body : ReviewCreate)
    (token : Option String) (db : Db) :
    submitReviewOver p env body token (fun _ => db) =
      raisedOn db (submitReview p env body token db) := by
  simp only [submitReviewOver, submitLookups, submitReview, raisedOn_return db, raisedOn_bind,
    bind_assoc]

theorem corroborateReviewOver_const (p : Platform) (env : Env) (reviewId : Uuid)
    (comment token : Option String) (db : Db) :
    corroborateReviewOver p env reviewId comment token (fun _ => db) =
      raisedOn db (corroborateReview p env reviewId comment token db) := by
  simp only [corroborateReviewOver, corroborateLookups, checkComment, raisedOn_return db,
    raisedOn_bind, bind_assoc]
  rfl

theorem respondToReviewOver_const (p : Platform) (env : Env) (reviewId : Uuid)
    (responseText : String) (token : Option String) (db : Db) :
    respondToReviewOver p env reviewId responseText token (fun _ => db) =
      raisedOn db (respondToReview p env reviewId responseText token db) := by
  simp only [respondToReviewOver, respondLookups, respondToReview, raisedOn_return db,
    raisedOn_bind, bind_assoc]

/-! ## What a 409 says -/

/-- A row is stored for the key. -/
def Stored (key : PostKey) (db : Db) : Prop := ∃ posted ∈ db.posts, posted.key = key

/-- A 409 is raised only where a row is stored for the key. -/
def TruthfulConflict {α : Type} (key : PostKey) (r : Except (HttpException × Db) α) : Prop :=
  ∀ e db, r = .error (e, db) → e.status = 409 → Stored key db

/-- The database is up and takes the row: its texts are storable and its id is fresh. -/
def Takes {α : Type} [Record α] (env : Env) (table : Table α) (row : α) : Prop :=
  env.commitFails = false ∧ admits row = true ∧ table.find? (pk row) = none

theorem stored_review {userId companyId : Uuid} {db : Db} :
    Stored (.review userId companyId) db ↔
      ∃ r ∈ db.reviews.rows, r.userId = userId ∧ r.companyId = companyId := by
  simp [Stored, Db.posts, or_and_right, exists_or, Review.post, Corroboration.post,
    EmployerResponse.post]

theorem stored_corroboration {reviewId userId : Uuid} {db : Db} :
    Stored (.corroboration reviewId userId) db ↔
      ∃ c ∈ db.corroborations.rows, c.reviewId = reviewId ∧ c.userId = userId := by
  simp [Stored, Db.posts, or_and_right, exists_or, Review.post, Corroboration.post,
    EmployerResponse.post]

theorem stored_response {reviewId : Uuid} {db : Db} :
    Stored (.response reviewId) db ↔ ∃ a ∈ db.employerResponses.rows, a.reviewId = reviewId := by
  simp [Stored, Db.posts, or_and_right, exists_or, Review.post, Corroboration.post,
    EmployerResponse.post]

section

variable {α β : Type} {key : PostKey} {db : Db}

theorem truthful_ok (a : α) : TruthfulConflict key (.ok a) :=
  fun _ _ h => nomatch h

theorem truthful_bind {x : Except (HttpException × Db) α}
    {f : α → Except (HttpException × Db) β} (hx : TruthfulConflict key x) :
    TruthfulConflict key (x >>= f) ↔ ∀ a, x = .ok a → TruthfulConflict key (f a) := by
  cases x with
  | error e =>
    refine ⟨fun _ a h => (nomatch h), fun _ e' db' h => ?_⟩
    cases h
    exact hx _ _ rfl
  | ok a =>
    refine ⟨fun h b hb => ?_, fun h => h a rfl⟩
    cases hb
    exact h

/-- An exception that is no conflict. -/
theorem truthful_raisedOn {x : Except HttpException α} (h : ∀ e, x = .error e → e.status ≠ 409) :
    TruthfulConflict key (raisedOn db x) := by
  intro e db' hx hstatus
  cases x with
  | error e' =>
    cases hx
    exact absurd hstatus (h _ rfl)
  | ok a => cases hx

/-- The lookup of an existing row. -/
theorem truthful_refuseExisting {existing : Lookup α} {conflict : HttpException}
    (h : ∀ a ∈ existing.rows db, Stored key db) :
    TruthfulConflict key (raisedOn db (refuseExisting existing conflict db)) := by
  unfold refuseExisting
  match existing.rows db, h with
  | [], _ => exact truthful_ok ()
  | [a], h =>
    intro e db' hx _
    cases hx
    exact h a List.mem_cons_self
  | _ :: _ :: _, _ =>
    intro e db' hx hstatus
    cases hx
    exact absurd hstatus (by decide)

/-- The last step of a post: every failure is the conflict. -/
theorem truthful_last {x : Except HttpException α} {out : α → β}
    (h : ∀ e, x = .error e → e.status = 409) :
    TruthfulConflict key (raisedOn db x >>= fun a => .ok (out a)) ↔
      Stored key db ∨ ∃ a, x = .ok a := by
  cases x with
  | error e =>
    constructor
    · intro htruthful
      exact Or.inl (htruthful e db rfl (h e rfl))
    · rintro (hdb | ⟨a, ha⟩) e' db' he _
      · cases he
        exact hdb
      · cases ha
  | ok a => exact iff_of_true (truthful_ok (out a)) (Or.inr ⟨a, rfl⟩)

end

/-- A post behind its gate: the lookups, and then the commit. -/
theorem truthful_post {α : Type} {key : PostKey} {lookups : Except (HttpException × Db) Unit}
    {last : Except (HttpException × Db) α} {P : Prop} (hlookups : TruthfulConflict key lookups)
    (hlast : TruthfulConflict key last ↔ P) :
    TruthfulConflict key (lookups >>= fun _ => last) ↔ (lookups = .ok () → P) := by
  rw [truthful_bind hlookups]
  exact ⟨fun h hok => hlast.mp (h () hok), fun h _ hok => hlast.mpr (h hok)⟩

/-- A commit goes through when the database is up and no column and no constraint objects. -/
theorem commit_insert_iff {α : Type} [Record α] {env : Env} {table : Table α} {row : α}
    {conflict : HttpException} :
    (∃ t, commit env (table.insert row) conflict = .ok t) ↔
      env.commitFails = false ∧ admits row = true ∧ ∀ b ∈ table.rows, clash b row = false := by
  constructor
  · rintro ⟨t, ht⟩
    obtain ⟨hinsert, hup⟩ := commit_ok ht
    obtain ⟨-, hadmits, hfresh⟩ := Table.insert_eq_some hinsert
    exact ⟨hup, hadmits, hfresh⟩
  · rintro ⟨hup, hadmits, hfresh⟩
    unfold Table.insert commit
    rw [dif_pos ⟨hadmits, hfresh⟩, hup]
    exact ⟨_, rfl⟩

/-- The commit of a row whose only declared constraint, beside the primary key, is the key. -/
theorem truthful_commit {α β κ : Type} [DecidableEq κ] [Record α] {key : PostKey} {db : Db}
    {env : Env} {table : Table α} {row : α} {conflict : HttpException} {out : Table α → β}
    (uq : α → κ) (hclash : ∀ b, clash b row = (pk b == pk row || uq b == uq row))
    (hstored : Stored key db ↔ ∃ b ∈ table.rows, uq b = uq row) (hconflict : conflict.status = 409) :
    TruthfulConflict key
        (raisedOn db (commit env (table.insert row) conflict) >>= fun t => .ok (out t)) ↔
      Stored key db ∨ Takes env table row := by
  rw [truthful_last fun e he => commit_error he ▸ hconflict, commit_insert_iff]
  by_cases hdb : Stored key db
  · exact iff_of_true (Or.inl hdb) (Or.inl hdb)
  have huq : ∀ b ∈ table.rows, uq b ≠ uq row := fun b hb heq => hdb (hstored.mpr ⟨b, hb, heq⟩)
  refine or_congr_right (and_congr_right fun _ => and_congr_right fun _ => ?_)
  have hnone : table.find? (pk row) = none ↔ ∀ b ∈ table.rows, pk b ≠ pk row := by
    simp [Table.find?]
  rw [hnone]
  refine forall₂_congr fun b hb => ?_
  have hfalse := huq b hb
  rw [hclash]
  simp [hfalse]

/-! ## The lookups raise truthful conflicts -/

theorem validate_error {checks : List (String × Bool)} {e : HttpException}
    (h : validate checks = .error e) : e.status = 422 := by
  unfold validate raiseIf at h
  split at h
  · cases h
    rfl
  · cases h

theorem raiseIf_error {c : Bool} {e e' : HttpException} (h : raiseIf c e = .error e') : e' = e := by
  unfold raiseIf at h
  split at h
  · exact (Except.error.inj h).symm
  · cases h

theorem orTooManyRequests_error {detail : String} {r : Except RateLimitExceeded Unit}
    {e : HttpException} (h : orTooManyRequests detail r = .error e) : e.status = 429 := by
  cases r with
  | error exc =>
    cases h
    rfl
  | ok u => cases h

theorem requireCompany_error {companyId : Uuid} {db : Db} {e : HttpException}
    (h : requireCompany companyId db = .error e) : e = companyNotFound := by
  unfold requireCompany at h
  rw [scalarOneOrNone_pk, ok_bind] at h
  split at h
  · exact (Except.error.inj h).symm
  · cases h

theorem requireReview_error {reviewId : Uuid} {db : Db} {e : HttpException}
    (h : requireReview reviewId db = .error e) : e = reviewNotFound := by
  unfold requireReview at h
  split at h
  · exact (Except.error.inj h).symm
  · cases h

section

variable {p : Platform} {env : Env} {view : Nat → Db}

theorem submitLookups_truthful (body : ReviewCreate) (userId : Uuid) :
    TruthfulConflict (.review userId body.companyId) (submitLookups p env body userId view) := by
  have hcheck : ∀ e, body.check = .error e → e.status ≠ 409 := fun e he => by
    have := validate_error he
    omega
  have hcompany : ∀ e, requireCompany body.companyId (view 1) = .error e → e.status ≠ 409 :=
    fun e he => by rw [requireCompany_error he]; decide
  refine (truthful_bind (truthful_raisedOn hcheck)).mpr fun _ _ => ?_
  refine (truthful_bind (truthful_raisedOn hcompany)).mpr fun _ _ => ?_
  refine (truthful_bind (truthful_raisedOn fun e he => ?_)).mpr fun _ _ => ?_
  · have := orTooManyRequests_error he
    omega
  refine truthful_refuseExisting fun r hr => stored_review.mpr ⟨r, ?_⟩
  simpa [Table.mem_select] using hr

theorem corroborateLookups_truthful (reviewId : Uuid) (comment : Option String) (userId : Uuid) :
    TruthfulConflict (.corroboration reviewId userId)
      (corroborateLookups reviewId comment userId view) := by
  have hcheck : ∀ e, checkComment comment = .error e → e.status ≠ 409 := fun e he => by
    have := validate_error he
    omega
  have hreview : ∀ e, requireReview reviewId (view 1) = .error e → e.status ≠ 409 :=
    fun e he => by rw [requireReview_error he]; decide
  refine (truthful_bind (truthful_raisedOn hcheck)).mpr fun _ _ => ?_
  refine (truthful_bind (truthful_raisedOn hreview)).mpr fun review _ => ?_
  refine (truthful_bind (truthful_raisedOn fun e he => ?_)).mpr fun _ _ => ?_
  · rw [raiseIf_error he]
    decide
  refine truthful_refuseExisting fun c hc => stored_corroboration.mpr ⟨c, ?_⟩
  simpa [Table.mem_select] using hc

theorem respondLookups_truthful (reviewId : Uuid) (responseText : String) (companyId : Uuid) :
    TruthfulConflict (.response reviewId) (respondLookups reviewId responseText companyId view) := by
  have hreview : ∀ e, requireReview reviewId (view 1) = .error e → e.status ≠ 409 :=
    fun e he => by rw [requireReview_error he]; decide
  refine (truthful_bind (truthful_raisedOn fun e he => ?_)).mpr fun _ _ => ?_
  · have := validate_error he
    omega
  refine (truthful_bind (truthful_raisedOn hreview)).mpr fun review _ => ?_
  refine (truthful_bind (truthful_raisedOn fun e he => ?_)).mpr fun _ _ => ?_
  · rw [raiseIf_error he]
    decide
  refine truthful_refuseExisting fun a ha => stored_response.mpr ⟨a, ?_⟩
  simpa [Table.mem_select] using ha

/-! ## The three posts -/

theorem submit_truthful_iff {body : ReviewCreate} {token : Option String} {user : User}
    (hgate : requireTier p env .email token (view 0) = .ok user) :
    TruthfulConflict (.review user.id body.companyId) (submitReviewOver p env body token view) ↔
      (submitLookups p env body user.id view = .ok () →
        Stored (.review user.id body.companyId) (view 4) ∨
          Takes env (view 4).reviews (newReview p env user.id body)) := by
  rw [submitReviewOver, hgate]
  refine truthful_post (submitLookups_truthful body user.id) (truthful_commit
    (fun r => (r.userId, r.companyId)) (fun b => rfl) ?_ rfl)
  rw [stored_review]
  simp only [newReview, Prod.mk.injEq]

theorem corroborate_truthful_iff {reviewId : Uuid} {comment token : Option String} {user : User}
    (hgate : requireTier p env .phone token (view 0) = .ok user) :
    TruthfulConflict (.corroboration reviewId user.id)
        (corroborateReviewOver p env reviewId comment token view) ↔
      (corroborateLookups reviewId comment user.id view = .ok () →
        Stored (.corroboration reviewId user.id) (view 3) ∨
          Takes env (view 3).corroborations (newCorroboration env reviewId user.id comment)) := by
  rw [corroborateReviewOver, hgate]
  refine truthful_post (corroborateLookups_truthful reviewId comment user.id) (truthful_commit
    (fun c => (c.reviewId, c.userId)) (fun b => rfl) ?_ rfl)
  rw [stored_corroboration]
  simp only [newCorroboration, Prod.mk.injEq]

theorem respond_truthful_iff {reviewId : Uuid} {responseText : String} {token : Option String}
    {account : EmployerAccount}
    (hgate : getCurrentEmployerAccount p env token (view 0) = .ok account) :
    TruthfulConflict (.response reviewId)
        (respondToReviewOver p env reviewId responseText token view) ↔
      (respondLookups reviewId responseText account.companyId view = .ok () →
        Stored (.response reviewId) (view 3) ∨
          Takes env (view 3).employerResponses
            (newResponse env reviewId account.id responseText)) := by
  rw [respondToReviewOver, hgate]
  refine truthful_post (respondLookups_truthful reviewId responseText account.companyId)
    (truthful_commit EmployerResponse.reviewId (fun b => rfl) ?_ rfl)
  rw [stored_response]
  rfl

/-- For each of the three posts: no 409 without a stored row exactly when, of the requests
    that pass every lookup, by the commit a row is stored or the database takes the new
    one. -/
theorem conflict_truthful_iff (p : Platform) (env : Env) (token : Option String)
    (view : Nat → Db) :
    (∀ (body : ReviewCreate) (user : User), requireTier p env .email token (view 0) = .ok user →
      (TruthfulConflict (.review user.id body.companyId)
          (submitReviewOver p env body token view) ↔
        (submitLookups p env body user.id view = .ok () →
          Stored (.review user.id body.companyId) (view 4) ∨
            Takes env (view 4).reviews (newReview p env user.id body)))) ∧
    (∀ (reviewId : Uuid) (comment : Option String) (user : User),
      requireTier p env .phone token (view 0) = .ok user →
      (TruthfulConflict (.corroboration reviewId user.id)
          (corroborateReviewOver p env reviewId comment token view) ↔
        (corroborateLookups reviewId comment user.id view = .ok () →
          Stored (.corroboration reviewId user.id) (view 3) ∨
            Takes env (view 3).corroborations
              (newCorroboration env reviewId user.id comment)))) ∧
    (∀ (reviewId : Uuid) (responseText : String) (account : EmployerAccount),
      getCurrentEmployerAccount p env token (view 0) = .ok account →
      (TruthfulConflict (.response reviewId)
          (respondToReviewOver p env reviewId responseText token view) ↔
        (respondLookups reviewId responseText account.companyId view = .ok () →
          Stored (.response reviewId) (view 3) ∨
            Takes env (view 3).employerResponses
              (newResponse env reviewId account.id responseText)))) :=
  ⟨fun _ _ hgate => submit_truthful_iff hgate, fun _ _ _ hgate => corroborate_truthful_iff hgate,
    fun _ _ _ hgate => respond_truthful_iff hgate⟩

end

/-- Alice's review with a NUL in its prose, which the schema of the request lets through. -/
def nulReview : ReviewCreate := { smallReview with prose := "long hours\x00" }

theorem nulReview_conflict :
    ¬ ∀ (p : Platform) (env : Env) (body : ReviewCreate) (token : Option String)
      (view : Nat → Db) (user : User),
      requireTier p env .email token (view 0) = .ok user → body.check = .ok () →
      TruthfulConflict (.review user.id body.companyId)
        (submitReviewOver p env body token view) := by
  intro h
  have halice := h smallPlatform (drawsAt 1 70).env nulReview (some "alice") (fun _ => smallDb)
    alice (by decide) (by decide) duplicateReview smallDb (by rfl) rfl
  exact absurd (stored_review.mp halice) (by decide)

/-- Her review without it is taken, and so it is never refused as a duplicate. -/
theorem smallReview_truthful :
    requireTier smallPlatform (drawsAt 1 70).env .email (some "alice") smallDb = .ok alice ∧
      TruthfulConflict (.review 1 5)
        (submitReviewOver smallPlatform (drawsAt 1 70).env smallReview (some "alice")
          fun _ => smallDb) := by
  have hgate : requireTier smallPlatform (drawsAt 1 70).env .email (some "alice") smallDb =
      .ok alice := by decide
  exact ⟨hgate, ((conflict_truthful_iff smallPlatform (drawsAt 1 70).env (some "alice")
    fun _ => smallDb).1 smallReview alice hgate).mpr fun _ => Or.inr ⟨rfl, by decide, rfl⟩⟩

end LinkedOut
