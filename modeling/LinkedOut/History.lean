/-
  What one request does to the rows that are stored: nothing is deleted, and a row only
  moves forward. Which column may change, and how, is one relation a table.

  * `Db.Later`: what of a database is in every later one.
  * `write_later`, `rows_only_move_forward`: every request, and every run of the API, leads
    to a later database. A consumed code, a decided review, layoff event or document and
    every log entry is final, attempts are only counted up, and no tier is lowered.
-/
import LinkedOut.Effects
import LinkedOut.Table.History

namespace LinkedOut

open Table

/-! ## How a row may move -/

/-- The tier is never lowered, and a domain is replaced but not forgotten. -/
structure User.Later (u u' : User) : Prop where
  id : u'.id = u.id
  phoneHash : u'.phoneHash = u.phoneHash
  tier : tierRank u.verificationTier ≤ tierRank u'.verificationTier
  domain : u.emailDomainHash.isSome = true → u'.emailDomainHash.isSome = true

/-- A code is counted up and then consumed, once. -/
structure CodeLater {γ κ : Type} [Record γ] [OneTimeCode γ κ] (c c' : γ) : Prop where
  id : pk c' = pk c
  key : OneTimeCode.key c' = OneTimeCode.key c
  codeHash : OneTimeCode.codeHash c' = OneTimeCode.codeHash c
  expiresAt : OneTimeCode.expiresAt c' = OneTimeCode.expiresAt c
  createdAt : OneTimeCode.createdAt c' = OneTimeCode.createdAt c
  attempts : OneTimeCode.attempts c ≤ OneTimeCode.attempts c'
  consumed : OneTimeCode.consumedAt c ≠ none → c' = c

/-- A document is decided once, and then its path is forgotten. -/
structure ModerationQueueItem.Later (i i' : ModerationQueueItem) : Prop where
  fixed : (i'.id, i'.userId, i'.docType, i'.contentHash, i'.createdAt) =
    (i.id, i.userId, i.docType, i.contentHash, i.createdAt)
  decided : i.status ≠ .pending → i' = i
  forgotten : i' = i ∨ i'.status ≠ .pending ∧ i'.ephemeralPath = none ∧ i'.reviewedAt ≠ none

/-- Nothing of a review changes but its status, and that once. -/
structure Review.Later (r r' : Review) : Prop where
  fixed : r' = { r with status := r'.status }
  decided : r.status ≠ .pending → r' = r

/-- Nothing of a layoff event changes but its status, and that once. -/
structure LayoffEvent.Later (e e' : LayoffEvent) : Prop where
  fixed : e' = { e with status := e'.status }
  decided : e.status ≠ .pending → e' = e

/-- What is seeded stays; what is stored moves forward, and the logs, the corroborations,
    the responses and the complaints only grow. -/
structure Db.Later (db db' : Db) : Prop where
  companies : db'.companies = db.companies
  employerAccounts : db'.employerAccounts = db.employerAccounts
  adminUsers : db'.adminUsers = db.adminUsers
  users : Moved User.Later db.users db'.users
  otpCodes : Moved CodeLater db.otpCodes db'.otpCodes
  emailVerificationCodes : Moved CodeLater db.emailVerificationCodes db'.emailVerificationCodes
  moderationQueue : Moved ModerationQueueItem.Later db.moderationQueue db'.moderationQueue
  reviews : Moved Review.Later db.reviews db'.reviews
  layoffEvents : Moved LayoffEvent.Later db.layoffEvents db'.layoffEvents
  corroborations : db.corroborations.rows <+: db'.corroborations.rows
  employerResponses : db.employerResponses.rows <+: db'.employerResponses.rows
  moderationAuditLog : db.moderationAuditLog.rows <+: db'.moderationAuditLog.rows
  takedownLogEntries : db.takedownLogEntries.rows <+: db'.takedownLogEntries.rows
  grievanceComplaints : db.grievanceComplaints.rows <+: db'.grievanceComplaints.rows

/-! ## Each way to move is an order -/

theorem User.Later.refl (u : User) : u.Later u := ⟨rfl, rfl, le_rfl, fun h => h⟩

theorem User.Later.trans {u u' u'' : User} (h : u.Later u') (h' : u'.Later u'') : u.Later u'' :=
  ⟨h'.id.trans h.id, h'.phoneHash.trans h.phoneHash, h.tier.trans h'.tier,
    fun hd => h'.domain (h.domain hd)⟩

section

variable {γ κ : Type} [Record γ] [OneTimeCode γ κ]

theorem CodeLater.refl (c : γ) : CodeLater c c :=
  ⟨rfl, rfl, rfl, rfl, rfl, le_rfl, fun _ => rfl⟩

theorem CodeLater.trans {c c' c'' : γ} (h : CodeLater c c') (h' : CodeLater c' c'') :
    CodeLater c c'' := by
  refine ⟨h'.id.trans h.id, h'.key.trans h.key, h'.codeHash.trans h.codeHash,
    h'.expiresAt.trans h.expiresAt, h'.createdAt.trans h.createdAt,
    h.attempts.trans h'.attempts, fun hc => ?_⟩
  obtain rfl := h.consumed hc
  exact h'.consumed hc

end

theorem ModerationQueueItem.Later.refl (i : ModerationQueueItem) : i.Later i :=
  ⟨rfl, fun _ => rfl, Or.inl rfl⟩

theorem ModerationQueueItem.Later.trans {i i' i'' : ModerationQueueItem} (h : i.Later i')
    (h' : i'.Later i'') : i.Later i'' := by
  refine ⟨h'.fixed.trans h.fixed, fun hd => ?_, ?_⟩
  · obtain rfl := h.decided hd
    exact h'.decided hd
  · rcases h.forgotten with rfl | hforgotten
    · exact h'.forgotten
    · rw [h'.decided hforgotten.1]
      exact Or.inr hforgotten

theorem Review.Later.refl (r : Review) : r.Later r := ⟨rfl, fun _ => rfl⟩

theorem Review.Later.trans {r r' r'' : Review} (h : r.Later r') (h' : r'.Later r'') :
    r.Later r'' := by
  refine ⟨?_, fun hd => ?_⟩
  · have hfixed := h'.fixed
    rw [h.fixed] at hfixed
    exact hfixed
  · obtain rfl := h.decided hd
    exact h'.decided hd

theorem LayoffEvent.Later.refl (e : LayoffEvent) : e.Later e := ⟨rfl, fun _ => rfl⟩

theorem LayoffEvent.Later.trans {e e' e'' : LayoffEvent} (h : e.Later e') (h' : e'.Later e'') :
    e.Later e'' := by
  refine ⟨?_, fun hd => ?_⟩
  · have hfixed := h'.fixed
    rw [h.fixed] at hfixed
    exact hfixed
  · obtain rfl := h.decided hd
    exact h'.decided hd

theorem Db.Later.refl (db : Db) : db.Later db where
  companies := rfl
  employerAccounts := rfl
  adminUsers := rfl
  users := .refl .refl _
  otpCodes := .refl .refl _
  emailVerificationCodes := .refl .refl _
  moderationQueue := .refl .refl _
  reviews := .refl .refl _
  layoffEvents := .refl .refl _
  corroborations := List.prefix_rfl
  employerResponses := List.prefix_rfl
  moderationAuditLog := List.prefix_rfl
  takedownLogEntries := List.prefix_rfl
  grievanceComplaints := List.prefix_rfl

theorem Db.Later.trans {db db' db'' : Db} (h : db.Later db') (h' : db'.Later db'') :
    db.Later db'' where
  companies := h'.companies.trans h.companies
  employerAccounts := h'.employerAccounts.trans h.employerAccounts
  adminUsers := h'.adminUsers.trans h.adminUsers
  users := h.users.trans .trans h'.users
  otpCodes := h.otpCodes.trans .trans h'.otpCodes
  emailVerificationCodes := h.emailVerificationCodes.trans .trans h'.emailVerificationCodes
  moderationQueue := h.moderationQueue.trans .trans h'.moderationQueue
  reviews := h.reviews.trans .trans h'.reviews
  layoffEvents := h.layoffEvents.trans .trans h'.layoffEvents
  corroborations := h.corroborations.trans h'.corroborations
  employerResponses := h.employerResponses.trans h'.employerResponses
  moderationAuditLog := h.moderationAuditLog.trans h'.moderationAuditLog
  takedownLogEntries := h.takedownLogEntries.trans h'.takedownLogEntries
  grievanceComplaints := h.grievanceComplaints.trans h'.grievanceComplaints

/-! ## One request -/

theorem setTier_later {u : User} {tier : VerificationTier}
    (h : tierRank u.verificationTier ≤ tierRank tier) : u.Later ((User.setTier tier).apply u) :=
  ⟨rfl, rfl, h, fun hd => hd⟩

theorem tierRank_le_document (tier : VerificationTier) : tierRank tier ≤ tierRank .document := by
  cases tier <;> decide

theorem owner_later {users : Table User} {k : Uuid} {user : User} (h : users.find? k = some user) :
    Moved User.Later users (users.update user.id (User.setTier .document)) := by
  refine moved_update .refl (a := user) ?_ (setTier_later (tierRank_le_document _))
  exact (users.find?_eq_some _ _).mpr ⟨((users.find?_eq_some _ _).mp h).1, rfl⟩

/-- A login adds a user, raises one from the bottom, or leaves the users alone. -/
theorem login_later {env : Env} {phoneHash : String} {users users' : Table User} {userId : Uuid}
    (h : Login env phoneHash users users' userId) : Moved User.Later users users' := by
  cases h with
  | signup _ hinsert => exact moved_insert .refl hinsert
  | raise huser _ htier =>
    refine moved_update .refl ((users.find?_eq_some _ _).mpr ⟨huser, rfl⟩) (setTier_later ?_)
    rw [htier]
    decide
  | again => exact .refl .refl _

/-- A right email code sets the domain, and raises the tier when it is PHONE. -/
theorem raiseToEmail_later {users : Table User} {user : User} {domainHash : String}
    (h : users.find? user.id = some user) :
    Moved User.Later users (raiseToEmail user domainHash users) := by
  have hdomain : user.Later ((User.setDomainHash domainHash).apply user) :=
    ⟨rfl, rfl, le_rfl, fun _ => rfl⟩
  have hraise : ∀ u : User, user.verificationTier = .phone →
      u.verificationTier = user.verificationTier → u.Later ((User.setTier .email).apply u) := by
    intro u hphone hu
    refine setTier_later ?_
    rw [hu, hphone]
    decide
  unfold raiseToEmail
  dsimp only
  by_cases hset : user.emailDomainHash = some domainHash
  · rw [if_pos hset]
    split
    · rename_i hphone
      exact moved_update .refl h (hraise user hphone rfl)
    · exact .refl .refl _
  · rw [if_neg hset]
    have hfirst := moved_update (f := User.setDomainHash domainHash) .refl h hdomain
    split
    · rename_i hphone
      refine hfirst.trans .trans (moved_update .refl
        (a := (User.setDomainHash domainHash).apply user) ?_ (hraise _ hphone rfl))
      exact users.find?_update_self _ h
    · exact hfirst

section

variable {γ κ : Type} [Record γ] [OneTimeCode γ κ] [DecidableEq κ]

/-- What a verification writes to the row it has judged. -/
theorem judged_later {place : Uuid → Nat} {codes : Table γ} {k : κ} {maxAttempts : Nat}
    {now t : Time} {missing expired submittedHash : String} {v : Verdict γ}
    (h : judge maxAttempts now missing expired submittedHash (pending place codes k) = .ok v) :
    Moved CodeLater codes (codes.update (pk v.row)
        (OneTimeCode.setAttempts (OneTimeCode.attempts v.row + 1))) ∧
      Moved CodeLater codes (codes.update (pk v.row) (OneTimeCode.setConsumed t)) := by
  have hrow := (judge_ok h).1
  have hnone := (pending_some hrow).2.2.1
  constructor
  · refine moved_update .refl (pending_find? hrow) ?_
    exact ⟨Patch.pk_apply _ _, by simp, by simp, by simp, by simp, by simp,
      fun hne => absurd hnone hne⟩
  · refine moved_update .refl (pending_find? hrow) ?_
    exact ⟨Patch.pk_apply _ _, by simp, by simp, by simp, by simp, by simp,
      fun hne => absurd hnone hne⟩

end

/-- A pending row of either kind of content is decided. -/
theorem review_decided_later {db : Db} {itemId : Uuid} {review : Review} (status : ReviewStatus)
    (hitem : db.reviews.find? itemId = some review) (hpending : review.status = .pending) :
    Moved Review.Later db.reviews (db.reviews.update itemId (Review.setStatus status)) :=
  moved_update .refl hitem ⟨rfl, fun hne => absurd hpending hne⟩

theorem layoff_decided_later {db : Db} {itemId : Uuid} {event : LayoffEvent}
    (status : ReviewStatus) (hitem : db.layoffEvents.find? itemId = some event)
    (hpending : event.status = .pending) :
    Moved LayoffEvent.Later db.layoffEvents
      (db.layoffEvents.update itemId (LayoffEvent.setStatus status)) :=
  moved_update .refl hitem ⟨rfl, fun hne => absurd hpending hne⟩

theorem document_decided_later {db : Db} {itemId : Uuid} {item : ModerationQueueItem}
    {status : ModerationStatus} (at_ : Time) (hstatus : status ≠ .pending)
    (hitem : db.moderationQueue.find? itemId = some item) (hpending : item.status = .pending) :
    Moved ModerationQueueItem.Later db.moderationQueue
      (db.moderationQueue.update itemId (ModerationQueueItem.setDecision status at_)) :=
  moved_update .refl hitem ⟨rfl, fun hne => absurd hpending hne,
    Or.inr ⟨hstatus, rfl, Option.some_ne_none _⟩⟩

/-- Every transaction leads to a later database. -/
theorem write_later {p : Platform} {env : Env} {db db' : Db} {req : Request} {out : Response}
    (h : Write p env db req out db') : db.Later db' := by
  have hsame := Db.Later.refl db
  cases h with
  | otpIssued _ _ hinsert => exact { hsame with otpCodes := moved_insert .refl hinsert }
  | otpWrong _ hjudge => exact { hsame with otpCodes := (judged_later (t := 0) hjudge).1 }
  | otpAccepted _ hjudge hlogin =>
    exact { hsame with otpCodes := (judged_later hjudge).2, users := login_later hlogin }
  | emailIssued _ _ _ _ hinsert =>
    exact { hsame with emailVerificationCodes := moved_insert .refl hinsert }
  | emailWrong _ _ hjudge =>
    exact { hsame with emailVerificationCodes := (judged_later (t := 0) hjudge).1 }
  | emailAccepted hgate _ hjudge =>
    exact { hsame with
      emailVerificationCodes := (judged_later hjudge).2
      users := raiseToEmail_later (requireTier_ok hgate).1 }
  | documentUploaded _ hinsert => exact { hsame with moderationQueue := moved_insert .refl hinsert }
  | reviewSubmitted _ _ _ _ hinsert => exact { hsame with reviews := moved_insert .refl hinsert }
  | reviewCorroborated _ _ _ hinsert => exact { hsame with corroborations := prefix_insert hinsert }
  | reviewAnswered _ _ _ hinsert => exact { hsame with employerResponses := prefix_insert hinsert }
  | layoffSubmitted _ _ _ hinsert =>
    exact { hsame with layoffEvents := moved_insert .refl hinsert }
  | reviewDecided _ _ _ hitem hpending hinsert =>
    exact { hsame with
      reviews := review_decided_later _ hitem hpending
      moderationAuditLog := prefix_insert hinsert }
  | layoffDecided _ _ _ _ hitem hpending hinsert =>
    exact { hsame with
      layoffEvents := layoff_decided_later _ hitem hpending
      moderationAuditLog := prefix_insert hinsert }
  | documentApproved _ hitem hpending huser hinsert =>
    exact { hsame with
      moderationQueue := document_decided_later _ (by decide) hitem hpending
      users := owner_later huser
      moderationAuditLog := prefix_insert hinsert }
  | documentRejected _ _ hitem hpending hinsert =>
    exact { hsame with
      moderationQueue := document_decided_later _ (by decide) hitem hpending
      moderationAuditLog := prefix_insert hinsert }
  | takedownLogged _ hinsert => exact { hsame with takedownLogEntries := prefix_insert hinsert }
  | grievanceSubmitted _ hinsert =>
    exact { hsame with grievanceComplaints := prefix_insert hinsert }

/-! ## Whole runs -/

theorem handle_later (p : Platform) (env : Env) (req : Request) (s : Server) :
    s.db.Later (handle p env req s).2.db :=
  handle_rel (R := Db.Later) (.refl _) write_later

/-- Every run of the API leads to a later database. -/
theorem exec_later (p : Platform) (es : List (Request × Draws)) (s : Server) :
    s.db.Later ((Api p).exec es s).db := by
  induction es generalizing s with
  | nil => exact .refl _
  | cons e es ih => exact (handle_later p e.2.env e.1 s).trans (ih _)

/-- Rows only move forward: over every run of the API, whatever is requested, each state is
    later than every one before it. -/
theorem rows_only_move_forward (p : Platform) (es : List (Request × Draws)) (s : Server)
    {i j : Nat} (hij : i ≤ j) :
    ((Api p).exec (es.take i) s).db.Later ((Api p).exec (es.take j) s).db := by
  obtain ⟨fs, hfs⟩ := List.take_prefix_take_left (l := es) hij
  rw [← hfs, Machine.exec_append]
  exact exec_later p fs _

/-- A review is submitted, approved and then, in vain, rejected. -/
def decidedTwice : List (Request × Draws) :=
  [(.submitReview smallReview (some "alice"), drawsAt 0 20),
    (.approveModerationItem .review 20 (some "root"), drawsAt 1 30),
    (.rejectModerationItem .review 20 "late" (some "root"), drawsAt 2 31)]

theorem decidedTwice_later :
    ((Api smallPlatform).exec (decidedTwice.take 2) (.start smallDb)).db.Later
      ((Api smallPlatform).exec (decidedTwice.take 3) (.start smallDb)).db :=
  rows_only_move_forward smallPlatform decidedTwice (.start smallDb) (by decide)

end LinkedOut
