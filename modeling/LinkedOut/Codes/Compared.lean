/-
  How often a code is compared when requests are served one at a time.

  Every comparison is paid for: a wrong code adds an attempt to the row, a right one
  consumes it, and a row that is consumed or out of attempts is compared no more
  (`Paid`). `compared_le`: so no row is ever compared with more codes than allowed, when
  the commit of a right code does not fail (`Settles`). `otp_settles`: it fails for an OTP
  only when the id drawn for the new user is in use.
-/
import LinkedOut.Codes.Agreement
import LinkedOut.Codes.Race

namespace LinkedOut

open OneTimeCode

namespace Flow

variable {γ κ : Type} [Record γ] [OneTimeCode γ κ] [DecidableEq κ] {p : Platform}
  (F : Flow p γ κ)

/-- The step compares a submitted code with the row with the id `k`. -/
def compares (k : Uuid) (v : ApiStep) : Bool :=
  (F.submitted v.event v.before.db).any fun sub =>
    (sub.verdict p.settings.otpMaxAttempts (F.codes v.before.db)).any fun w => pk w.row == k

/-- A right code that is compared is consumed. -/
def Settles (s : Server) (e : Request × Draws) : Prop :=
  ∀ sub row, F.submitted e s.db = some sub →
    sub.verdict p.settings.otpMaxAttempts (F.codes s.db) = some (.right row) →
    ∃ c' ∈ (F.codes ((Api p).step e s).2.db).rows, pk c' = pk row ∧ (consumedAt c').isSome

/-- The comparisons that the row accounts for: its attempts, and one when it is consumed. -/
def paidFor (c : γ) : Nat := attempts c + if (consumedAt c).isSome then 1 else 0

/-- Every comparison in the record is accounted for by a row of the table. -/
structure Paid (tr : List ApiStep) (codes : Table γ) : Prop where
  accounted : ∀ c ∈ codes.rows, tr.countP (F.compares (pk c)) ≤ paidFor c
  bounded : ∀ c ∈ codes.rows, tr.countP (F.compares (pk c)) ≤ p.settings.otpMaxAttempts
  unmet : ∀ k, (∀ c ∈ codes.rows, pk c ≠ k) → tr.countP (F.compares k) = 0

variable {F} {tr : List ApiStep} {s : Server}

theorem compares_iff (v : ApiStep) (k : Uuid) :
    F.compares k v = true ↔ ∃ sub w, F.submitted v.event v.before.db = some sub ∧
      sub.verdict p.settings.otpMaxAttempts (F.codes v.before.db) = some w ∧ pk w.row = k := by
  unfold compares
  simp only [Option.any_eq_true, beq_iff_eq]
  constructor
  · rintro ⟨sub, hsub, w, hw, hk⟩
    exact ⟨sub, w, hsub, hw, hk⟩
  · rintro ⟨sub, w, hsub, hw, hk⟩
    exact ⟨sub, hsub, w, hw, hk⟩

/-- A row that a step leaves alone was not compared. -/
theorem not_compares_kept {e : Request × Draws} (hsettles : F.Settles s e) {c' : γ}
    (hafter : c' ∈ (F.codes ((Api p).step e s).2.db).rows)
    (hmem : c' ∈ (F.codes s.db).rows)
    (hwrong : ∀ sub, F.submitted e s.db = some sub →
      sub.verdict p.settings.otpMaxAttempts (F.codes s.db) ≠ some (.wrong c')) :
    F.compares (pk c') ((Api p).serve e s) ≠ true := by
  intro hcompares
  obtain ⟨sub, w, hsub, hverdict, hk⟩ := (compares_iff _ _).mp hcompares
  change F.submitted e s.db = some sub at hsub
  change sub.verdict _ (F.codes s.db) = some w at hverdict
  obtain ⟨hrow, -, hnone⟩ := Submission.target_mem (Submission.verdict_some hverdict).1
  have hsame : w.row = c' := (F.codes s.db).eq_of_pk hrow hmem hk
  cases w with
  | wrong row =>
    cases hsame
    exact hwrong sub hsub hverdict
  | right row =>
    cases hsame
    obtain ⟨c, hc, hpk, hconsumed⟩ := hsettles sub row hsub hverdict
    rw [(F.codes ((Api p).step e s).2.db).eq_of_pk hc hafter hpk, hnone] at hconsumed
    cases hconsumed

/-- A comparison with the row is one more in the record, and one more spent. -/
theorem Paid.compared {codes : Table γ} (h : F.Paid tr codes) {c c' : γ} (hc : c ∈ codes.rows)
    (hpk : pk c = pk c') (hattempts : attempts c < p.settings.otpMaxAttempts)
    (hnone : consumedAt c = none) (hpaid : paidFor c' = paidFor c + 1) (v : ApiStep) :
    (tr ++ [v]).countP (F.compares (pk c')) ≤ paidFor c' ∧
      (tr ++ [v]).countP (F.compares (pk c')) ≤ p.settings.otpMaxAttempts := by
  have hone : paidFor c = attempts c := by simp [paidFor, hnone]
  have hle : (tr ++ [v]).countP (F.compares (pk c')) ≤ tr.countP (F.compares (pk c')) + 1 := by
    rw [countP_snoc]
    split <;> omega
  have hold := h.accounted c hc
  rw [hpk] at hold
  constructor <;> omega

theorem Paid.step (h : F.Paid tr (F.codes s.db)) {e : Request × Draws} (hsettles : F.Settles s e) :
    F.Paid (tr ++ [(Api p).serve e s]) (F.codes ((Api p).step e s).2.db) := by
  have hboth : ∀ c' ∈ (F.codes ((Api p).step e s).2.db).rows,
      (tr ++ [(Api p).serve e s]).countP (F.compares (pk c')) ≤ paidFor c' ∧
        (tr ++ [(Api p).serve e s]).countP (F.compares (pk c')) ≤ p.settings.otpMaxAttempts := by
    intro c' hc'
    cases (F.step e s).rowAfter hc' with
    | new hasked hok hattempts hconsumed hfresh hnone =>
      have hno : F.compares (pk c') ((Api p).serve e s) ≠ true := by
        intro hcompares
        obtain ⟨sub, -, hsub, -⟩ := (compares_iff _ _).mp hcompares
        change F.submitted e s.db = some sub at hsub
        rw [hnone] at hsub
        cases hsub
      have hzero := h.unmet (pk c') hfresh
      rw [countP_snoc, if_neg hno, hzero]
      exact ⟨Nat.zero_le _, Nat.zero_le _⟩
    | kept hmem hwrong =>
      rw [countP_snoc, if_neg (not_compares_kept hsettles hc' hmem hwrong)]
      exact ⟨h.accounted c' hmem, h.bounded c' hmem⟩
    | @counted c sub hmem hsub hverdict hsame hattempts hconsumed =>
      obtain ⟨htarget, -, hfree, -⟩ := Submission.verdict_some hverdict
      have hnone := (Submission.target_mem htarget).2.2
      refine h.compared hmem hsame.pk hfree hnone ?_ _
      simp only [paidFor, hattempts, hconsumed]
      omega
    | @consumed c sub hmem hsub hverdict hsame hattempts hconsumed =>
      obtain ⟨htarget, -, hfree, -⟩ := Submission.verdict_some hverdict
      have hnone : consumedAt c = none := (Submission.target_mem htarget).2.2
      refine h.compared hmem hsame.pk hfree hnone ?_ _
      simp [paidFor, hattempts, hconsumed, hnone]
  refine ⟨fun c hc => (hboth c hc).1, fun c hc => (hboth c hc).2, fun k hk => ?_⟩
  have hbefore : ∀ c ∈ (F.codes s.db).rows, pk c ≠ k := by
    intro c hc hpk
    obtain ⟨c', hc', hsame, -⟩ := (F.step e s).kept hc
    exact hk c' hc' (hsame.pk.symm.trans hpk)
  have hno : F.compares k ((Api p).serve e s) ≠ true := by
    intro hcompares
    obtain ⟨sub, w, -, hverdict, hpk⟩ := (compares_iff _ _).mp hcompares
    exact hbefore w.row (Submission.target_mem (Submission.verdict_some hverdict).1).1 hpk
  rw [countP_snoc, if_neg hno, h.unmet k hbefore]

/-- No row is compared with more codes than allowed. -/
theorem compared_le (F : Flow p γ κ) (es : List (Request × Draws)) (s : Server)
    (hsettles : (Api p).Along F.Settles es s) (k : Uuid) :
    ((Api p).trace es s).countP (F.compares k) ≤ p.settings.otpMaxAttempts := by
  have hpaid : F.Paid ((Api p).trace es s) (F.codes ((Api p).exec es s).db) := by
    induction es using List.reverseRecOn with
    | nil => exact ⟨fun _ _ => Nat.zero_le _, fun _ _ => Nat.zero_le _, fun _ _ => rfl⟩
    | append_singleton es e ih =>
      obtain ⟨hbefore, hnow⟩ := ((Api p).along_snoc _ es e s).mp hsettles
      rw [(Api p).trace_snoc, (Api p).exec_snoc]
      exact (ih hbefore).step hnow
  by_cases hk : ∃ c ∈ (F.codes ((Api p).exec es s).db).rows, pk c = k
  · obtain ⟨c, hc, rfl⟩ := hk
    exact hpaid.bounded c hc
  · have hnone := hpaid.unmet k fun c hc hpk => hk ⟨c, hc, hpk⟩
    rw [hnone]
    exact Nat.zero_le _

end Flow

/-- The id that `uuid4` would give a new user is not in use. -/
def FreshUserId (s : Server) (e : Request × Draws) : Prop :=
  ∀ u ∈ s.db.users.rows, u.id ≠ e.2.uuid 0

/-- A right OTP is committed when the id of the new user is free. -/
theorem verifyOtp_right {p : Platform} {d : Draws} {phone phoneHash code : String} {db : Db}
    {row : OTPCode} (hphone : hashPhone p phone = .ok phoneHash)
    (hjudge : judgeOtp p d.env phoneHash code db = .ok (.right row))
    (hfresh : ∀ u ∈ db.users.rows, u.id ≠ d.uuid 0) :
    ∃ db' out, verifyOtp p d.env phone code db = .ok (db', out) ∧
      db'.otpCodes = db.otpCodes.update row.id (OTPCode.setConsumed (d.now 1)) := by
  obtain ⟨user, huser⟩ := loadUserByPhone_total phoneHash db
  have hnew : user = none → ∀ u ∈ db.users.rows, u.phoneHash ≠ phoneHash := by
    rintro rfl
    rcases loadUserByPhone_ok huser with ⟨-, hnew⟩ | ⟨u, hu, -⟩
    · exact hnew
    · cases hu
  obtain ⟨db', userId, hflush, hcodes, -⟩ := consumeOtp_some d.env row hnew fun _ => hfresh
  refine ⟨db', verified p d.env 2 userId db', ?_, hcodes⟩
  unfold verifyOtp
  rw [hphone]
  simp only [orUnprocessable, Except.mapError, ok_bind, hjudge, huser, hflush, commit_env_some]
  rfl

theorem otp_settles {p : Platform} {s : Server} {e : Request × Draws} (h : FreshUserId s e) :
    (otpFlow p).Settles s e := by
  intro sub row hsub hverdict
  obtain ⟨req, d⟩ := e
  cases req with
  | verifyOtp phone code =>
    cases hphone : hashPhone p phone with
    | error err =>
      simp only [otpFlow, otpSubmitted, hphone] at hsub
      cases hsub
    | ok phoneHash =>
      simp only [otpFlow, otpSubmitted, hphone] at hsub
      cases hsub
      have hjudge : judgeOtp p d.env phoneHash code s.db = .ok (.right row) := by
        have htoOption := (judgeOtp_verdict p d phoneHash code s.db).trans hverdict
        cases hj : judgeOtp p d.env phoneHash code s.db with
        | error err => rw [hj] at htoOption; cases htoOption
        | ok w => rw [hj] at htoOption; cases htoOption; rfl
      obtain ⟨db', out, hout, hcodes⟩ := verifyOtp_right hphone hjudge h
      have hrow := pending_find? (judge_ok hjudge).1
      have hafter : ((Api p).step (.verifyOtp phone code, d) s).2.db = db' := by
        simp only [Api, handle, hout, answerVerify]
      change ∃ c' ∈ ((Api p).step (.verifyOtp phone code, d) s).2.db.otpCodes.rows, _
      rw [hafter, hcodes]
      exact ⟨_, (Table.mem_update_of_find? hrow _ _).mpr (Or.inr rfl), rfl, rfl⟩
  | _ => cases hsub

end LinkedOut
