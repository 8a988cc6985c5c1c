/-
  One-time codes: what the OTP and the corporate-email flow of `app/routers/auth.py`
  share.

  A code row has a key: the phone hash of an OTP, the user and the email hash of an
  email code. A verification looks at one row of its key, the newest that is not
  consumed, and then judges the submitted code against that row alone.

  `pending_some` and `judge_ok` say what is known of the row once the code has been
  compared with it.
-/
import LinkedOut.Core

namespace LinkedOut

/-- A table of one-time codes. `setAttempts` and `setConsumed` are the two UPDATEs. -/
class OneTimeCode (γ : Type) (κ : outParam Type) [Record γ] where
  key : γ → κ
  codeHash : γ → String
  attempts : γ → Nat
  expiresAt : γ → Time
  consumedAt : γ → Option Time
  createdAt : γ → Time
  setAttempts : Nat → Patch γ
  setConsumed : Time → Patch γ
  key_setAttempts : ∀ n c, key ((setAttempts n).apply c) = key c
  codeHash_setAttempts : ∀ n c, codeHash ((setAttempts n).apply c) = codeHash c
  attempts_setAttempts : ∀ n c, attempts ((setAttempts n).apply c) = n
  expiresAt_setAttempts : ∀ n c, expiresAt ((setAttempts n).apply c) = expiresAt c
  consumedAt_setAttempts : ∀ n c, consumedAt ((setAttempts n).apply c) = consumedAt c
  createdAt_setAttempts : ∀ n c, createdAt ((setAttempts n).apply c) = createdAt c
  key_setConsumed : ∀ t c, key ((setConsumed t).apply c) = key c
  codeHash_setConsumed : ∀ t c, codeHash ((setConsumed t).apply c) = codeHash c
  attempts_setConsumed : ∀ t c, attempts ((setConsumed t).apply c) = attempts c
  expiresAt_setConsumed : ∀ t c, expiresAt ((setConsumed t).apply c) = expiresAt c
  consumedAt_setConsumed : ∀ t c, consumedAt ((setConsumed t).apply c) = some t
  createdAt_setConsumed : ∀ t c, createdAt ((setConsumed t).apply c) = createdAt c

attribute [simp] OneTimeCode.key_setAttempts OneTimeCode.codeHash_setAttempts
  OneTimeCode.attempts_setAttempts OneTimeCode.expiresAt_setAttempts
  OneTimeCode.consumedAt_setAttempts OneTimeCode.createdAt_setAttempts
  OneTimeCode.key_setConsumed OneTimeCode.codeHash_setConsumed
  OneTimeCode.attempts_setConsumed OneTimeCode.expiresAt_setConsumed
  OneTimeCode.consumedAt_setConsumed OneTimeCode.createdAt_setConsumed

open OneTimeCode

instance : OneTimeCode OTPCode String where
  key := OTPCode.phoneHash
  codeHash := OTPCode.otpHash
  attempts := OTPCode.attempts
  expiresAt := OTPCode.expiresAt
  consumedAt := OTPCode.consumedAt
  createdAt := OTPCode.createdAt
  setAttempts := OTPCode.setAttempts
  setConsumed := OTPCode.setConsumed
  key_setAttempts _ _ := rfl
  codeHash_setAttempts _ _ := rfl
  attempts_setAttempts _ _ := rfl
  expiresAt_setAttempts _ _ := rfl
  consumedAt_setAttempts _ _ := rfl
  createdAt_setAttempts _ _ := rfl
  key_setConsumed _ _ := rfl
  codeHash_setConsumed _ _ := rfl
  attempts_setConsumed _ _ := rfl
  expiresAt_setConsumed _ _ := rfl
  consumedAt_setConsumed _ _ := rfl
  createdAt_setConsumed _ _ := rfl

instance : OneTimeCode EmailVerificationCode (Uuid × String) where
  key c := (c.userId, c.emailHash)
  codeHash := EmailVerificationCode.codeHash
  attempts := EmailVerificationCode.attempts
  expiresAt := EmailVerificationCode.expiresAt
  consumedAt := EmailVerificationCode.consumedAt
  createdAt := EmailVerificationCode.createdAt
  setAttempts := EmailVerificationCode.setAttempts
  setConsumed := EmailVerificationCode.setConsumed
  key_setAttempts _ _ := rfl
  codeHash_setAttempts _ _ := rfl
  attempts_setAttempts _ _ := rfl
  expiresAt_setAttempts _ _ := rfl
  consumedAt_setAttempts _ _ := rfl
  createdAt_setAttempts _ _ := rfl
  key_setConsumed _ _ := rfl
  codeHash_setConsumed _ _ := rfl
  attempts_setConsumed _ _ := rfl
  expiresAt_setConsumed _ _ := rfl
  consumedAt_setConsumed _ _ := rfl
  createdAt_setConsumed _ _ := rfl

section

variable {γ κ : Type} [Record γ] [OneTimeCode γ κ] [DecidableEq κ]

/-! ## The row a verification looks at -/

/-- `consumed_at IS NULL`, newest first, `LIMIT 1`. -/
def pending (place : Uuid → Nat) (codes : Table γ) (k : κ) : Option γ :=
  (orderDesc (fun c => place (pk c)) createdAt
    (codes.select fun c => key c == k && (consumedAt c).isNone)).head?

/-- What the comparison of the submitted code with the stored hash finds. -/
inductive Verdict (γ : Type) where
  | wrong (row : γ)
  | right (row : γ)

def Verdict.row : Verdict γ → γ
  | wrong row => row
  | right row => row

/-- The checks of a verification, in the order of the source. -/
def judge (maxAttempts : Nat) (now : Time) (missing expired submittedHash : String)
    (row : Option γ) : Except HttpException (Verdict γ) :=
  match row with
  | none => .error { status := 400, detail := missing }
  | some row =>
    if expiresAt row < now then .error { status := 400, detail := expired }
    else if maxAttempts ≤ attempts row then
      .error { status := 429, detail := "too many attempts" }
    else if submittedHash ≠ codeHash row then .ok (.wrong row)
    else .ok (.right row)

/-- The answer to a wrong code, after the attempt has been counted. -/
def incorrectCode (maxAttempts attempts : Nat) : HttpException :=
  { status := 400, detail := s!"incorrect code, {maxAttempts - attempts} attempt(s) remaining" }

theorem pending_some {place : Uuid → Nat} {codes : Table γ} {k : κ} {row : γ}
    (h : pending place codes k = some row) :
    row ∈ codes.rows ∧ key row = k ∧ consumedAt row = none ∧
      ∀ c ∈ codes.rows, key c = k → consumedAt c = none → createdAt c ≤ createdAt row := by
  obtain ⟨hmem, hmax⟩ := head?_orderDesc _ _ h
  obtain ⟨hrow, hfilter⟩ := (codes.mem_select _ _).mp hmem
  simp only [Bool.and_eq_true, beq_iff_eq, Option.isNone_iff_eq_none] at hfilter
  refine ⟨hrow, hfilter.1, hfilter.2, fun c hc hkey hnone => ?_⟩
  exact hmax c ((codes.mem_select _ _).mpr ⟨hc, by simp [hkey, hnone]⟩)

theorem pending_find? {place : Uuid → Nat} {codes : Table γ} {k : κ} {row : γ}
    (h : pending place codes k = some row) : codes.find? (pk row) = some row :=
  (codes.find?_eq_some _ _).mpr ⟨(pending_some h).1, rfl⟩

omit [DecidableEq κ] in
theorem judge_ok {maxAttempts : Nat} {now : Time} {missing expired submittedHash : String}
    {row : Option γ} {v : Verdict γ}
    (h : judge maxAttempts now missing expired submittedHash row = .ok v) :
    row = some v.row ∧ now ≤ expiresAt v.row ∧ attempts v.row < maxAttempts ∧
      (∀ r, v = .right r → submittedHash = codeHash r) := by
  unfold judge at h
  split at h
  · cases h
  · rename_i row
    split at h
    · cases h
    · rename_i hexp
      split at h
      · cases h
      · rename_i hatt
        split at h
        · cases h
          exact ⟨rfl, not_lt.mp hexp, not_le.mp hatt, fun r hr => by cases hr⟩
        · rename_i hcode
          cases h
          exact ⟨rfl, not_lt.mp hexp, not_le.mp hatt,
            fun r hr => by cases hr; exact not_not.mp hcode⟩

end

end LinkedOut
