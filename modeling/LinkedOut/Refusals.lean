/-
  A refused request changes nothing.

  A handler raises before its commit or instead of it, and a failed commit is rolled
  back, so what a 4xx leaves is what it found. The one 4xx after a commit is the wrong
  code, whose attempt is counted first (`WrongCode`). The document handlers touch the
  file system before their commit, but behind that point they can only fail with a 500.
-/
import LinkedOut.Documents.Ephemeral

namespace LinkedOut

open OneTimeCode

/-- One more attempt on the row, and nothing else in the table. -/
structure CountsAttempt {γ κ : Type} [Record γ] [OneTimeCode γ κ] (codes codes' : Table γ)
    (row : γ) : Prop where
  stored : codes.find? (pk row) = some row
  counted : codes'.find? (pk row) = some ((setAttempts (attempts row + 1)).apply row)
  others : ∀ id, id ≠ pk row → codes'.find? id = codes.find? id

/-- A submitted code that is not the one of the selected row. -/
inductive WrongCode (p : Platform) (env : Env) (db : Db) : Request → HttpException → Db → Prop
  | otp {phone code phoneHash : String} {otpRow : OTPCode} {otpCodes : Table OTPCode}
      (hphone : hashPhone p phone = .ok phoneHash)
      (hrow : pending (env.place 0) db.otpCodes phoneHash = some otpRow)
      (hcode : hashCode p code ≠ otpRow.otpHash)
      (hcount : CountsAttempt db.otpCodes otpCodes otpRow) :
      WrongCode p env db (.verifyOtp phone code)
        (incorrectCode p.settings.otpMaxAttempts (otpRow.attempts + 1)) { db with otpCodes }
  | email {email code emailHash : String} {token : Option String} {user : User}
      {codeRow : EmailVerificationCode} {emailVerificationCodes : Table EmailVerificationCode}
      (huser : requireTier p env .phone token db = .ok user)
      (hemail : submittedEmailHash p email = .ok emailHash)
      (hrow : pending (env.place 0) db.emailVerificationCodes (user.id, emailHash) = some codeRow)
      (hcode : hashCode p code ≠ codeRow.codeHash)
      (hcount : CountsAttempt db.emailVerificationCodes emailVerificationCodes codeRow) :
      WrongCode p env db (.verifyEmail email code token)
        (incorrectCode p.settings.otpMaxAttempts (codeRow.attempts + 1))
        { db with emailVerificationCodes }

theorem judge_wrong {γ κ : Type} [Record γ] [OneTimeCode γ κ] {maxAttempts : Nat} {now : Time}
    {missing expired submittedHash : String} {row : Option γ} {r : γ}
    (h : judge maxAttempts now missing expired submittedHash row = .ok (.wrong r)) :
    row = some r ∧ submittedHash ≠ codeHash r := by
  have hrow := (judge_ok h).1
  refine ⟨hrow, fun heq => ?_⟩
  subst hrow
  unfold judge at h
  simp only [Verdict.row, heq, ne_eq, not_true_eq_false, if_false] at h
  split at h
  · cases h
  · split at h <;> cases h

theorem countsAttempt {γ κ : Type} [Record γ] [OneTimeCode γ κ] [DecidableEq κ]
    {place : Uuid → Nat} {codes : Table γ} {k : κ} {row : γ}
    (hrow : pending place codes k = some row) :
    CountsAttempt codes (codes.update (pk row) (setAttempts (attempts row + 1))) row where
  stored := pending_find? hrow
  counted := codes.find?_update_self _ (pending_find? hrow)
  others _ hid := codes.find?_update_ne _ hid

theorem commit_error {α : Type} {env : Env} {flushed : Option α} {onFailure e : HttpException}
    (h : commit env flushed onFailure = .error e) : e = onFailure := by
  unfold commit at h
  split at h
  · exact (Except.error.inj h).symm
  · split at h
    · exact (Except.error.inj h).symm
    · cases h

theorem bind_error {ε α β : Type} {x : Except ε α} {f : α → Except ε β} {e : ε}
    (h : (x >>= f) = .error e) : x = .error e ∨ ∃ a, x = .ok a ∧ f a = .error e := by
  cases x with
  | error e' => exact Or.inl (congrArg Except.error (Except.error.inj h))
  | ok a => exact Or.inr ⟨a, rfl, h⟩

/-- What a response says about the state it leaves: a 4xx leaves it as it was, or has
    counted a wrong code. -/
def Refuses (p : Platform) (env : Env) (req : Request) (s : Server) (r : Response × Server) :
    Prop :=
  ∀ e, r.1 = .error e → e.status < 500 →
    r.2.files = s.files ∧ (r.2.db = s.db ∨ WrongCode p env s.db req e r.2.db)

section

variable {p : Platform} {env : Env} {req : Request} {s : Server}

theorem answerCommit_refuses {α : Type} (r : Except HttpException (Db × α))
    (payload : α → Payload) : Refuses p env req s (answerCommit s r payload) := by
  intro e he _
  cases r with
  | error _ => exact ⟨rfl, Or.inl rfl⟩
  | ok _ => cases he

/-- The file operations of a document handler come after every check that gives a 4xx. -/
theorem answerFiles_refuses {α : Type} {r : List String × Except HttpException (Db × α)}
    (payload : α → Payload) (hfiles : ∀ e, r.2 = .error e → e.status < 500 → r.1 = s.files) :
    Refuses p env req s (answerFiles s r payload) := by
  intro e he hstatus
  obtain ⟨files, out⟩ := r
  cases out with
  | error e' => exact ⟨hfiles e (congrArg _ (Except.error.inj he)) hstatus, Or.inl rfl⟩
  | ok _ => cases he

/-- Past the commit, the only answers are success and a 500. -/
theorem verified_error {i : Nat} {userId : Uuid} {db : Db} {e : HttpException}
    (h : (verified p env i userId db).map Payload.verified = .error e) : e.status = 500 := by
  unfold verified at h
  split at h
  · cases h
    rfl
  · cases h

theorem verifyOtp_refuses (phone code : String) :
    Refuses p env (.verifyOtp phone code) s
      (answerVerify s (verifyOtp p env phone code s.db)) := by
  intro e he hstatus
  refine ⟨answerVerify_files s _, ?_⟩
  cases hr : verifyOtp p env phone code s.db with
  | error e' =>
    exact Or.inl rfl
  | ok r =>
    rw [hr] at he
    obtain ⟨phoneHash, hphone, h1⟩ := bind_ok hr
    obtain ⟨v, hjudge, h2⟩ := bind_ok h1
    cases v with
    | wrong otpRow =>
      obtain ⟨db', hcommit, h3⟩ := bind_ok h2
      cases h3
      cases (commit_ok hcommit).1
      cases he
      obtain ⟨hrow, hcode⟩ := judge_wrong hjudge
      exact Or.inr (.otp (orUnprocessable_ok hphone) hrow hcode (countsAttempt hrow))
    | right otpRow =>
      obtain ⟨user, _, h3⟩ := bind_ok h2
      obtain ⟨⟨db', userId⟩, _, h4⟩ := bind_ok h3
      cases h4
      have h500 := verified_error he
      omega

theorem verifyEmail_refuses (email code : String) (token : Option String) :
    Refuses p env (.verifyEmail email code token) s
      (answerVerify s (verifyEmail p env email code token s.db)) := by
  intro e he hstatus
  refine ⟨answerVerify_files s _, ?_⟩
  cases hr : verifyEmail p env email code token s.db with
  | error e' =>
    exact Or.inl rfl
  | ok r =>
    rw [hr] at he
    obtain ⟨user, huser, h1⟩ := bind_ok hr
    obtain ⟨emailHash, hemail, h2⟩ := bind_ok h1
    obtain ⟨v, hjudge, h3⟩ := bind_ok h2
    cases v with
    | wrong codeRow =>
      obtain ⟨db', hcommit, h4⟩ := bind_ok h3
      cases h4
      cases (commit_ok hcommit).1
      cases he
      obtain ⟨hrow, hcode⟩ := judge_wrong hjudge
      exact Or.inr (.email huser hemail hrow hcode (countsAttempt hrow))
    | right codeRow =>
      obtain ⟨db', _, h4⟩ := bind_ok h3
      cases h4
      have h500 := verified_error he
      omega

/-- A commit of a document handler that fails is a 500. -/
theorem commit_then_error {α β : Type} {flushed : Option α} {out : α → β} {e : HttpException}
    (h : (do let a ← commit env flushed internalServerError; return out a) = Except.error e) :
    e.status = 500 := by
  rcases bind_error h with hcommit | ⟨_, _, h'⟩
  · rw [commit_error hcommit]
    rfl
  · cases h'

theorem uploadDocument_refuses (docType : DocumentType) (content : List UInt8)
    (token : Option String) : Refuses p env req s
      (answerFiles s (uploadDocument p env docType content token s.db s.files)
        .documentUpload) := by
  refine answerFiles_refuses _ fun e he hstatus => ?_
  unfold uploadDocument at he ⊢
  cases haccept : acceptDocument p env content token s.db with
  | error e' => rfl
  | ok user =>
    simp only [haccept] at he ⊢
    cases hfile : mkstemp env s.files with
    | error e' => rfl
    | ok files' =>
      simp only [hfile] at he
      have h500 := commit_then_error he
      omega

theorem approveDocument_refuses (itemId : Uuid) (token : Option String) : Refuses p env req s
    (answerFiles s (approveDocument p env itemId token s.db s.files) .documentAction) := by
  refine answerFiles_refuses _ fun e he hstatus => ?_
  unfold approveDocument at he ⊢
  cases hload : loadForApproval p env itemId token s.db with
  | error e' => rfl
  | ok r =>
    simp only [hload] at he
    have h500 := commit_then_error he
    omega

theorem rejectDocument_refuses (itemId : Uuid) (reason : String) (token : Option String) :
    Refuses p env req s
      (answerFiles s (rejectDocument p env itemId reason token s.db s.files) .documentAction) := by
  refine answerFiles_refuses _ fun e he hstatus => ?_
  unfold rejectDocument at he ⊢
  cases hload : loadForRejection p env itemId reason token s.db with
  | error e' => rfl
  | ok r =>
    simp only [hload] at he
    have h500 := commit_then_error he
    omega

theorem unchanged_refuses {r : Response × Server} (hdb : r.2.db = s.db)
    (hfiles : r.2.files = s.files) : Refuses p env req s r :=
  fun _ _ _ => ⟨hfiles, Or.inl hdb⟩

theorem handle_refuses (req : Request) : Refuses p env req s (handle p env req s) := by
  cases req with
  | verifyOtp phone code => exact verifyOtp_refuses phone code
  | verifyEmail email code token => exact verifyEmail_refuses email code token
  | uploadDocument docType content token => exact uploadDocument_refuses docType content token
  | approveDocument itemId token => exact approveDocument_refuses itemId token
  | rejectDocument itemId reason token => exact rejectDocument_refuses itemId reason token
  | requestOtp | requestEmailVerification | submitReview | corroborateReview | respondToReview
  | submitLayoffEvent | approveModerationItem | rejectModerationItem | createTakedownLogEntry
  | submitGrievance => exact answerCommit_refuses _ _
  | _ => exact unchanged_refuses rfl rfl

/-- A request that is answered with a 4xx, on any state and whether or not the database
    fails its commit, leaves the database and the files as they were; a wrong code alone is
    counted, on the row it was compared with. -/
theorem refused_unchanged {e : HttpException} (h : (handle p env req s).1 = .error e)
    (hstatus : 400 ≤ e.status ∧ e.status < 500) :
    (handle p env req s).2.files = s.files ∧
      ((handle p env req s).2.db = s.db ∨ WrongCode p env s.db req e (handle p env req s).2.db) :=
  handle_refuses req e h hstatus.2

end

/-- One code is out for a phone. -/
def otpSent : Server :=
  (handle smallPlatform (drawsAt 0 30).env (.requestOtp "+15551234567") (.start smallDb)).2

theorem wrongOtp_counted :
    WrongCode smallPlatform (drawsAt 1 31).env otpSent.db (.verifyOtp "+15551234567" "000009")
      (incorrectCode 3 1)
      (handle smallPlatform (drawsAt 1 31).env (.verifyOtp "+15551234567" "000009") otpSent).2.db := by
  have hresponse : (handle smallPlatform (drawsAt 1 31).env
      (.verifyOtp "+15551234567" "000009") otpSent).1 = .error (incorrectCode 3 1) := by
    decide
  refine (refused_unchanged hresponse (by decide)).2.resolve_left fun hdb => ?_
  have hattempts := congrArg (fun db : Db => db.otpCodes.rows.map OTPCode.attempts) hdb
  exact absurd hattempts (by decide)

end LinkedOut
