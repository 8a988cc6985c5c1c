/-
  Foreign keys. The models declare twelve and rely on the database to enforce them; no
  handler checks one at its commit.

  `references_hold`: over every run of the API, and over every interleaving of submissions,
  corroborations and responses with any other requests, each foreign key of each stored row
  is NULL or the id of a stored row. What a session has looked up before its commit is still
  there at its commit, since no request deletes anything (`Db.Later`); so a commit is never
  refused for a foreign key.
-/
import LinkedOut.History
import LinkedOut.Reviews.Race

namespace LinkedOut

open Table

/-- The foreign keys of `app/models`: of the rows of `db`, to the rows of `parents`. -/
structure ReferInto (parents db : Db) : Prop where
  emailCodeUser : Refers (fun c => some c.userId) db.emailVerificationCodes parents.users
  documentUser : Refers (fun i => some i.userId) db.moderationQueue parents.users
  reviewUser : Refers (fun r => some r.userId) db.reviews parents.users
  reviewCompany : Refers (fun r => some r.companyId) db.reviews parents.companies
  corroborationReview : Refers (fun c => some c.reviewId) db.corroborations parents.reviews
  corroborationUser : Refers (fun c => some c.userId) db.corroborations parents.users
  layoffCompany : Refers (fun e => some e.companyId) db.layoffEvents parents.companies
  layoffUser : Refers LayoffEvent.submittedByUserId db.layoffEvents parents.users
  accountCompany : Refers (fun a => some a.companyId) db.employerAccounts parents.companies
  responseReview : Refers (fun r => some r.reviewId) db.employerResponses parents.reviews
  responseAccount :
    Refers (fun r => some r.employerAccountId) db.employerResponses parents.employerAccounts
  auditAdmin : Refers ModerationAuditLogEntry.actorAdminId db.moderationAuditLog parents.adminUsers

/-- Every foreign key holds. -/
def References (db : Db) : Prop := ReferInto db db

/-! ## What has been looked up stays -/

theorem Db.Later.hasUser {db db' : Db} (h : db.Later db') {k : Uuid} (hk : db.users.Has k) :
    db'.users.Has k := h.users.has User.Later.id hk

theorem Db.Later.hasReview {db db' : Db} (h : db.Later db') {k : Uuid} (hk : db.reviews.Has k) :
    db'.reviews.Has k := by
  refine h.reviews.has (fun {r r'} hr => ?_) hk
  rw [hr.fixed]
  rfl

theorem ReferInto.later {db db' db'' : Db} (h : ReferInto db db'') (hlater : db.Later db') :
    ReferInto db' db'' where
  emailCodeUser := h.emailCodeUser.mono fun _ => hlater.hasUser
  documentUser := h.documentUser.mono fun _ => hlater.hasUser
  reviewUser := h.reviewUser.mono fun _ => hlater.hasUser
  reviewCompany := hlater.companies ▸ h.reviewCompany
  corroborationReview := h.corroborationReview.mono fun _ => hlater.hasReview
  corroborationUser := h.corroborationUser.mono fun _ => hlater.hasUser
  layoffCompany := hlater.companies ▸ h.layoffCompany
  layoffUser := h.layoffUser.mono fun _ => hlater.hasUser
  accountCompany := hlater.companies ▸ h.accountCompany
  responseReview := h.responseReview.mono fun _ => hlater.hasReview
  responseAccount := hlater.employerAccounts ▸ h.responseAccount
  auditAdmin := hlater.adminUsers ▸ h.auditAdmin

/-! ## One transaction -/

theorem requireCompany_has {companyId : Uuid} {db : Db} (h : requireCompany companyId db = .ok ()) :
    db.companies.Has companyId := by
  unfold requireCompany at h
  rw [scalarOneOrNone_pk] at h
  cases hfind : db.companies.find? companyId with
  | none => rw [hfind] at h; cases h
  | some c => exact has_of_find? hfind

theorem requireTier_has {p : Platform} {env : Env} {minimum : VerificationTier}
    {token : Option String} {db : Db} {user : User}
    (h : requireTier p env minimum token db = .ok user) : db.users.Has user.id :=
  has_of_find? (requireTier_ok h).1

theorem requireReview_has {reviewId : Uuid} {db : Db} {r : Review}
    (h : requireReview reviewId db = .ok r) : db.reviews.Has reviewId :=
  ⟨r, requireReview_mem h⟩

/-- The rows of a transaction refer to rows that were there before it. -/
theorem write_referInto {p : Platform} {env : Env} {db db' : Db} {req : Request} {out : Response}
    (h : Write p env db req out db') (hdb : References db) : ReferInto db db' := by
  have hsame : ReferInto db db := hdb
  cases h with
  | emailIssued hgate _ _ _ hinsert =>
    exact { hsame with
      emailCodeUser := hsame.emailCodeUser.insert hinsert
        (by rintro k ⟨⟩; exact requireTier_has hgate) }
  | emailWrong => exact { hsame with emailCodeUser := hsame.emailCodeUser.update _ _ fun _ => rfl }
  | emailAccepted =>
    exact { hsame with emailCodeUser := hsame.emailCodeUser.update _ _ fun _ => rfl }
  | documentUploaded hgate hinsert =>
    exact { hsame with
      documentUser := hsame.documentUser.insert hinsert
        (by rintro k ⟨⟩; exact requireTier_has hgate) }
  | reviewSubmitted hgate _ hcompany _ hinsert =>
    exact { hsame with
      reviewUser := hsame.reviewUser.insert hinsert (by rintro k ⟨⟩; exact requireTier_has hgate)
      reviewCompany := hsame.reviewCompany.insert hinsert
        (by rintro k ⟨⟩; exact requireCompany_has hcompany) }
  | reviewCorroborated hgate hreview _ hinsert =>
    exact { hsame with
      corroborationReview := hsame.corroborationReview.insert hinsert
        (by rintro k ⟨⟩; exact requireReview_has hreview)
      corroborationUser := hsame.corroborationUser.insert hinsert
        (by rintro k ⟨⟩; exact requireTier_has hgate) }
  | reviewAnswered hgate hreview _ hinsert =>
    exact { hsame with
      responseReview := hsame.responseReview.insert hinsert
        (by rintro k ⟨⟩; exact requireReview_has hreview)
      responseAccount := hsame.responseAccount.insert hinsert
        (by rintro k ⟨⟩; exact has_of_find? (getCurrentEmployerAccount_ok hgate).1) }
  | layoffSubmitted hgate _ hcompany hinsert =>
    exact { hsame with
      layoffCompany := hsame.layoffCompany.insert hinsert
        (by rintro k ⟨⟩; exact requireCompany_has hcompany)
      layoffUser := hsame.layoffUser.insert hinsert
        (by rintro k ⟨⟩; exact requireTier_has hgate) }
  | reviewDecided _ _ hadmin _ _ hinsert =>
    exact { hsame with
      reviewUser := hsame.reviewUser.update _ _ fun _ => rfl
      reviewCompany := hsame.reviewCompany.update _ _ fun _ => rfl
      auditAdmin := hsame.auditAdmin.insert hinsert
        (by rintro k ⟨⟩; exact has_of_find? (getCurrentAdmin_ok hadmin).1) }
  | layoffDecided _ _ _ hadmin _ _ hinsert =>
    exact { hsame with
      layoffCompany := hsame.layoffCompany.update _ _ fun _ => rfl
      layoffUser := hsame.layoffUser.update _ _ fun _ => rfl
      auditAdmin := hsame.auditAdmin.insert hinsert
        (by rintro k ⟨⟩; exact has_of_find? (getCurrentAdmin_ok hadmin).1) }
  | documentApproved hadmin _ _ _ hinsert =>
    exact { hsame with
      documentUser := hsame.documentUser.update _ _ fun _ => rfl
      auditAdmin := hsame.auditAdmin.insert hinsert
        (by rintro k ⟨⟩; exact has_of_find? (getCurrentAdmin_ok hadmin).1) }
  | documentRejected hadmin _ _ _ hinsert =>
    exact { hsame with
      documentUser := hsame.documentUser.update _ _ fun _ => rfl
      auditAdmin := hsame.auditAdmin.insert hinsert
        (by rintro k ⟨⟩; exact has_of_find? (getCurrentAdmin_ok hadmin).1) }
  | _ => exact { hsame with }

theorem step_references {p : Platform} {env : Env} {req : Request} {s : Server}
    (hs : References s.db) : References (handle p env req s).2.db :=
  handle_rel (R := fun _ db' => References db') hs fun hwrite =>
    (write_referInto hwrite hs).later (write_later hwrite)

/-! ## One step of a session -/

/-- The ids that a submission goes by are those of stored rows. -/
def ReviewSubmission.Found (companyId : Uuid) (db : Db) : ReviewSubmission → Prop
  | received => True
  | author user => db.users.Has user.id
  | authorAtCompany user | authorInLimit user _ | newAuthor user _ =>
    db.users.Has user.id ∧ db.companies.Has companyId

/-- The same of any session. -/
def Posting.Found (call : PostCall) (db : Db) (l : Posting) : Prop :=
  match call, l with
  | .submitReview body _, .submission l => l.Found body.companyId db
  | .corroborateReview _ _ _, .corroborator user => db.users.Has user.id
  | .corroborateReview reviewId _ _, .ofAnother user
  | .corroborateReview reviewId _ _, .newCorroborator user =>
    db.users.Has user.id ∧ db.reviews.Has reviewId
  | .respondToReview _ _ _, .responder account => db.employerAccounts.Has account.id
  | .respondToReview reviewId _ _, .ofOwnCompany account
  | .respondToReview reviewId _ _, .newResponder account =>
    db.employerAccounts.Has account.id ∧ db.reviews.Has reviewId
  | _, _ => True

theorem Posting.Found.later {call : PostCall} {db db' : Db} {l : Posting} (h : l.Found call db)
    (hlater : db.Later db') : l.Found call db' := by
  have hcompany : ∀ {k}, db.companies.Has k → db'.companies.Has k := fun hk => hlater.companies ▸ hk
  have haccount : ∀ {k}, db.employerAccounts.Has k → db'.employerAccounts.Has k :=
    fun hk => hlater.employerAccounts ▸ hk
  cases call with
  | submitReview body token =>
    cases l with
    | submission l =>
      cases l with
      | received => trivial
      | author => exact hlater.hasUser h
      | authorAtCompany => exact ⟨hlater.hasUser h.1, hcompany h.2⟩
      | authorInLimit => exact ⟨hlater.hasUser h.1, hcompany h.2⟩
      | newAuthor => exact ⟨hlater.hasUser h.1, hcompany h.2⟩
    | _ => trivial
  | corroborateReview reviewId comment token =>
    cases l with
    | corroborator => exact hlater.hasUser h
    | ofAnother => exact ⟨hlater.hasUser h.1, hlater.hasReview h.2⟩
    | newCorroborator => exact ⟨hlater.hasUser h.1, hlater.hasReview h.2⟩
    | _ => trivial
  | respondToReview reviewId responseText token =>
    cases l with
    | responder => exact haccount h
    | ofOwnCompany => exact ⟨haccount h.1, hlater.hasReview h.2⟩
    | newResponder => exact ⟨haccount h.1, hlater.hasReview h.2⟩
    | _ => trivial
  | other => cases l <;> trivial

theorem found_finished (call : PostCall) (db : Db) : Posting.finished.Found call db := by
  cases call <;> trivial

/-- One step of a session leads to a later database whose rows refer to rows that were there. -/
structure FoundStep (call : PostCall) (s : Server) (r : List Posted × Server × Posting) :
    Prop where
  later : s.db.Later r.2.1.db
  refers : References s.db → ReferInto s.db r.2.1.db
  found : r.2.2.Found call r.2.1.db

section

variable {p : Platform} {call : PostCall} {env : Env} {s : Server} {l : Posting}

theorem foundStep_stays (h : l.Found call s.db) : FoundStep call s ([], s, l) :=
  ⟨.refl _, fun hs => hs, h⟩

theorem looksUp_found {r : Except HttpException Posting}
    (h : ∀ l', r = .ok l' → l'.Found call s.db) : FoundStep call s (looksUp s r) := by
  cases r with
  | error e => exact foundStep_stays (found_finished call s.db)
  | ok l' => exact foundStep_stays (h l' rfl)

theorem stores_found {r : Except HttpException (Db × Posted)}
    (h : ∀ db posted, r = .ok (db, posted) →
      s.db.Later db ∧ (References s.db → ReferInto s.db db)) : FoundStep call s (stores s r) := by
  cases r with
  | error e => exact foundStep_stays (found_finished call s.db)
  | ok a =>
    obtain ⟨hlater, hrefers⟩ := h a.1 a.2 rfl
    exact ⟨hlater, hrefers, found_finished call _⟩

theorem submitStatement_found {body : ReviewCreate} {token : Option String}
    {l : ReviewSubmission} (hl : l.Found body.companyId s.db) :
    FoundStep (.submitReview body token) s (submitStep.statement p body token env s l) := by
  cases l with
  | received =>
    refine looksUp_found fun l' h => ?_
    obtain ⟨_, hnext, rfl⟩ := map_ok.mp h
    obtain ⟨user, hgate, h1⟩ := bind_ok hnext
    obtain ⟨_, -, h2⟩ := bind_ok h1
    cases h2
    exact requireTier_has hgate
  | author user =>
    refine looksUp_found fun l' h => ?_
    obtain ⟨_, hnext, rfl⟩ := map_ok.mp h
    obtain ⟨_, hcompany, h1⟩ := bind_ok hnext
    cases h1
    exact ⟨hl, requireCompany_has hcompany⟩
  | authorAtCompany user =>
    refine looksUp_found fun l' h => ?_
    obtain ⟨_, hnext, rfl⟩ := map_ok.mp h
    obtain ⟨_, -, h1⟩ := bind_ok hnext
    cases h1
    exact hl
  | authorInLimit user checked =>
    refine looksUp_found fun l' h => ?_
    obtain ⟨_, hnext, rfl⟩ := map_ok.mp h
    obtain ⟨_, -, h1⟩ := bind_ok hnext
    cases h1
    exact hl
  | newAuthor user checked =>
    refine stores_found fun db posted h => ?_
    obtain ⟨⟨db', review⟩, hstored, heq⟩ := map_ok.mp h
    obtain ⟨reviews, hcommit, h1⟩ := bind_ok hstored
    cases h1
    cases heq
    have hinsert := (commit_ok hcommit).1
    refine ⟨{ Db.Later.refl s.db with reviews := moved_insert .refl hinsert }, fun hs => ?_⟩
    have hsame : ReferInto s.db s.db := hs
    exact { hsame with
      reviewUser := hsame.reviewUser.insert hinsert (by rintro k ⟨⟩; exact hl.1)
      reviewCompany := hsame.reviewCompany.insert hinsert (by rintro k ⟨⟩; exact hl.2) }

theorem submitStep_found {body : ReviewCreate} {token : Option String}
    (hl : l.Found (.submitReview body token) s.db) :
    FoundStep (.submitReview body token) s (submitStep p body token env s l) := by
  cases l with
  | idle => exact submitStatement_found (l := .received) trivial
  | submission l => exact submitStatement_found hl
  | _ => exact foundStep_stays (found_finished _ _)

theorem corroborateStep_found {reviewId : Uuid} {comment token : Option String}
    (hl : l.Found (.corroborateReview reviewId comment token) s.db) :
    FoundStep (.corroborateReview reviewId comment token) s
      (corroborateStep p reviewId comment token env s l) := by
  cases l with
  | idle =>
    refine looksUp_found fun l' h => ?_
    obtain ⟨user, hgate, h1⟩ := bind_ok h
    obtain ⟨_, -, h2⟩ := bind_ok h1
    cases h2
    exact requireTier_has hgate
  | corroborator user =>
    refine looksUp_found fun l' h => ?_
    obtain ⟨review, hreview, h1⟩ := bind_ok h
    obtain ⟨_, -, h2⟩ := bind_ok h1
    cases h2
    exact ⟨hl, requireReview_has hreview⟩
  | ofAnother user =>
    refine looksUp_found fun l' h => ?_
    obtain ⟨_, -, h1⟩ := bind_ok h
    cases h1
    exact hl
  | newCorroborator user =>
    refine stores_found fun db posted h => ?_
    obtain ⟨corroborations, hcommit, h1⟩ := bind_ok h
    cases h1
    have hinsert := (commit_ok hcommit).1
    refine ⟨{ Db.Later.refl s.db with corroborations := prefix_insert hinsert }, fun hs => ?_⟩
    have hsame : ReferInto s.db s.db := hs
    exact { hsame with
      corroborationReview := hsame.corroborationReview.insert hinsert
        (by rintro k ⟨⟩; exact hl.2)
      corroborationUser := hsame.corroborationUser.insert hinsert (by rintro k ⟨⟩; exact hl.1) }
  | _ => exact foundStep_stays (found_finished _ _)

theorem respondStep_found {reviewId : Uuid} {responseText : String} {token : Option String}
    (hl : l.Found (.respondToReview reviewId responseText token) s.db) :
    FoundStep (.respondToReview reviewId responseText token) s
      (respondStep p reviewId responseText token env s l) := by
  cases l with
  | idle =>
    refine looksUp_found fun l' h => ?_
    obtain ⟨account, hgate, h1⟩ := bind_ok h
    obtain ⟨_, -, h2⟩ := bind_ok h1
    cases h2
    exact has_of_find? (getCurrentEmployerAccount_ok hgate).1
  | responder account =>
    refine looksUp_found fun l' h => ?_
    obtain ⟨review, hreview, h1⟩ := bind_ok h
    obtain ⟨_, -, h2⟩ := bind_ok h1
    cases h2
    exact ⟨hl, requireReview_has hreview⟩
  | ofOwnCompany account =>
    refine looksUp_found fun l' h => ?_
    obtain ⟨_, -, h1⟩ := bind_ok h
    cases h1
    exact hl
  | newResponder account =>
    refine stores_found fun db posted h => ?_
    obtain ⟨responses, hcommit, h1⟩ := bind_ok h
    cases h1
    have hinsert := (commit_ok hcommit).1
    refine ⟨{ Db.Later.refl s.db with employerResponses := prefix_insert hinsert }, fun hs => ?_⟩
    have hsame : ReferInto s.db s.db := hs
    exact { hsame with
      responseReview := hsame.responseReview.insert hinsert (by rintro k ⟨⟩; exact hl.2)
      responseAccount := hsame.responseAccount.insert hinsert (by rintro k ⟨⟩; exact hl.1) }
  | _ => exact foundStep_stays (found_finished _ _)

theorem otherStep_found {req : Request} (hreq : req.posts = false) :
    FoundStep (.other req hreq) s (otherStep p req env s l) := by
  cases l with
  | idle =>
    refine ⟨handle_later p env req s, fun hs => ?_, found_finished _ _⟩
    exact handle_rel (R := ReferInto) hs fun hwrite => write_referInto hwrite hs
  | _ => exact foundStep_stays (found_finished _ _)

end

theorem postStep_found {ι : Type} (p : Platform) (calls : ι → PostCall) (i : ι) (env : Env)
    {s : Server} {l : Posting} (hl : l.Found (calls i) s.db) :
    FoundStep (calls i) s (postStep p calls i env s l) := by
  unfold postStep
  cases hcall : calls i with
  | submitReview body token => exact submitStep_found (hcall ▸ hl)
  | corroborateReview reviewId comment token => exact corroborateStep_found (hcall ▸ hl)
  | respondToReview reviewId responseText token => exact respondStep_found (hcall ▸ hl)
  | other req hreq => exact otherStep_found hreq

/-! ## Whole runs -/

/-- Every foreign key holds in every state of every run of the API, and of every interleaving
    of posts with any other requests. -/
theorem references_hold (p : Platform) (s : Server) (hs : References s.db) :
    (∀ es : List (Request × Draws), References ((Api p).exec es s).db) ∧
    ∀ (ι : Type) [DecidableEq ι] (calls : ι → PostCall) (sched : List (ι × Env)),
      References
        ((interleave (postStep p calls)).exec sched ⟨s, fun _ => .idle⟩).shared.db := by
  constructor
  · intro es
    exact (Api p).exec_inv (I := fun s => References s.db) (C := fun _ _ => True)
      (fun s e _ hI => step_references hI) es s hs ((Api p).along_true es s)
  · intro ι _ calls sched
    refine ((interleave (postStep p calls)).exec_inv (I := fun c => References c.shared.db ∧
      ∀ i, (c.sess i).Found (calls i) c.shared.db) (C := fun _ _ => True) (fun c e _ hI => ?_) sched
      ⟨s, fun _ => .idle⟩ ⟨hs, fun i => ?_⟩ ((interleave (postStep p calls)).along_true sched _)).1
    · obtain ⟨i, env⟩ := e
      have hstep := postStep_found p calls i env (hI.2 i)
      refine ⟨(hstep.refers hI.1).later hstep.later, fun j => ?_⟩
      by_cases hj : j = i
      · rw [hj, sess_self]
        exact hstep.found
      · rw [sess_ne _ _ _ hj]
        exact (hI.2 j).later hstep.later
    · cases calls i <;> trivial

theorem smallDb_references : References smallDb := by
  have hempty : ∀ {α β : Type} [Record α] [Record β] (fk : α → Option Nat) (parent : Table β),
      Refers fk (.empty : Table α) parent := fun _ _ a ha => by cases ha
  constructor
  case accountCompany =>
    rintro a ha k ⟨⟩
    obtain rfl := List.mem_singleton.mp ha
    exact ⟨_, List.mem_singleton_self _, rfl⟩
  all_goals exact hempty _ _

theorem racingPosts_refer :
    References ((interleave (postStep smallPlatform racingPosts)).exec racingSchedule
      ⟨.start smallDb, fun _ => .idle⟩).shared.db :=
  (references_hold smallPlatform (.start smallDb) smallDb_references).2 (Fin 3) racingPosts
    racingSchedule

end LinkedOut
