/-
  A flow of one-time codes: a table of codes, the requests that issue a code and the
  requests that submit one.

  `FlowStep` says all that a step of the API can do to the table of a flow. `otpFlow` and
  `emailFlow` are the two flows of `app/routers/auth.py`; each carries the proof that
  every request, of either flow or of none, is such a step.
-/
import LinkedOut.Effects

namespace LinkedOut

open OneTimeCode

/-- What a verification submits: the key, the hash of the code, the clock reading of the
    expiry check, the order of rows with equal `created_at`, and the clock reading of
    `consumed_at`. -/
structure Submission (κ : Type) where
  key : κ
  hash : String
  now : Time
  place : Uuid → Nat
  consumedAt : Time

section

variable {γ κ : Type} [Record γ] [OneTimeCode γ κ] [DecidableEq κ]

/-- The row that the verification looks at. -/
def Submission.target (sub : Submission κ) (codes : Table γ) : Option γ :=
  pending sub.place codes sub.key

/-- What the comparison finds; `none` when the code is refused without being compared. -/
def Submission.verdict (sub : Submission κ) (maxAttempts : Nat) (codes : Table γ) :
    Option (Verdict γ) :=
  (judge maxAttempts sub.now "" "" sub.hash (sub.target codes)).toOption

omit [DecidableEq κ] in
/-- The texts of the errors play no role in the verdict. -/
theorem judge_toOption {maxAttempts : Nat} {now : Time} {submittedHash : String} {row : Option γ}
    (m e m' e' : String) :
    (judge maxAttempts now m e submittedHash row).toOption =
      (judge maxAttempts now m' e' submittedHash row).toOption := by
  unfold judge
  repeat' split
  all_goals rfl

theorem Submission.verdict_some {sub : Submission κ} {maxAttempts : Nat} {codes : Table γ}
    {v : Verdict γ} (h : sub.verdict maxAttempts codes = some v) :
    sub.target codes = some v.row ∧ sub.now ≤ expiresAt v.row ∧ attempts v.row < maxAttempts ∧
      (∀ row, v = .right row → sub.hash = codeHash row) := by
  unfold Submission.verdict at h
  cases hjudge : judge maxAttempts sub.now "" "" sub.hash (sub.target codes) with
  | error e => rw [hjudge] at h; cases h
  | ok w =>
    rw [hjudge] at h
    cases h
    exact judge_ok hjudge

/-- All that a step can do to the codes: `asked` is the row it asks to issue, `submitted`
    what it submits, `ok` whether it is answered with success. -/
inductive FlowStep (maxAttempts : Nat) (codes : Table γ) :
    Table γ → Bool → Option γ → Option (Submission κ) → Prop
  | idle {ok : Bool} : FlowStep maxAttempts codes codes ok none none
  | issued {codes' : Table γ} {row : γ} (hinsert : codes.insert row = some codes')
      (hattempts : attempts row = 0) (hconsumed : consumedAt row = none) :
      FlowStep maxAttempts codes codes' true (some row) none
  | notIssued {row : γ} : FlowStep maxAttempts codes codes false (some row) none
  | refused {sub : Submission κ} (hverdict : sub.verdict maxAttempts codes = none) :
      FlowStep maxAttempts codes codes false none (some sub)
  | wrong {sub : Submission κ} {row : γ}
      (hverdict : sub.verdict maxAttempts codes = some (.wrong row)) :
      FlowStep maxAttempts codes (codes.update (pk row) (setAttempts (attempts row + 1))) false
        none (some sub)
  | failed {sub : Submission κ} {row : γ}
      (hverdict : sub.verdict maxAttempts codes = some (.right row)) :
      FlowStep maxAttempts codes codes false none (some sub)
  | accepted {sub : Submission κ} {row : γ} {ok : Bool}
      (hverdict : sub.verdict maxAttempts codes = some (.right row)) :
      FlowStep maxAttempts codes (codes.update (pk row) (setConsumed sub.consumedAt)) ok
        none (some sub)

/-- The columns of a code that no request ever writes again. -/
structure SameCode (c c' : γ) : Prop where
  pk : pk c = pk c'
  key : key c = key c'
  codeHash : codeHash c = codeHash c'
  expiresAt : expiresAt c = expiresAt c'
  createdAt : createdAt c = createdAt c'

omit [DecidableEq κ] in
theorem SameCode.refl (c : γ) : SameCode c c := ⟨rfl, rfl, rfl, rfl, rfl⟩

omit [DecidableEq κ] in
theorem SameCode.trans {a b c : γ} (h : SameCode a b) (h' : SameCode b c) : SameCode a c :=
  ⟨h.pk.trans h'.pk, h.key.trans h'.key, h.codeHash.trans h'.codeHash,
    h.expiresAt.trans h'.expiresAt, h.createdAt.trans h'.createdAt⟩

omit [DecidableEq κ] in
theorem SameCode.setAttempts (n : Nat) (c : γ) :
    SameCode c ((OneTimeCode.setAttempts n : Patch γ).apply c) :=
  ⟨((OneTimeCode.setAttempts n : Patch γ).pk_apply c).symm, by simp, by simp, by simp, by simp⟩

omit [DecidableEq κ] in
theorem SameCode.setConsumed (t : Time) (c : γ) :
    SameCode c ((OneTimeCode.setConsumed t : Patch γ).apply c) :=
  ⟨((OneTimeCode.setConsumed t : Patch γ).pk_apply c).symm, by simp, by simp, by simp, by simp⟩

theorem Submission.target_mem {sub : Submission κ} {codes : Table γ} {row : γ}
    (h : sub.target codes = some row) :
    row ∈ codes.rows ∧ OneTimeCode.key row = sub.key ∧ OneTimeCode.consumedAt row = none :=
  ⟨(pending_some h).1, (pending_some h).2.1, (pending_some h).2.2.1⟩

theorem Submission.hash_ne {sub : Submission κ} {maxAttempts : Nat} {codes : Table γ} {row : γ}
    (h : sub.verdict maxAttempts codes = some (.wrong row)) : sub.hash ≠ codeHash row := by
  have htarget := (Submission.verdict_some h).1
  unfold Submission.verdict judge at h
  simp only [htarget] at h
  intro hhash
  repeat' split at h
  all_goals first | exact absurd hhash ‹_› | cases h

/-- A code that is not compared is expired or locked. -/
theorem Submission.verdict_none {sub : Submission κ} {maxAttempts : Nat} {codes : Table γ}
    {row : γ} (h : sub.verdict maxAttempts codes = none) (htarget : sub.target codes = some row) :
    expiresAt row < sub.now ∨ maxAttempts ≤ attempts row := by
  by_contra hnot
  rw [not_or] at hnot
  unfold Submission.verdict judge at h
  simp only [htarget, if_neg hnot.1, if_neg hnot.2] at h
  split at h <;> cases h

/-- A wrong code that is not counted met its row expired or locked. -/
theorem Submission.uncounted {sub : Submission κ} {maxAttempts : Nat} {codes : Table γ} {row : γ}
    (htarget : sub.target codes = some row) (hhash : sub.hash ≠ codeHash row)
    (hwrong : sub.verdict maxAttempts codes ≠ some (.wrong row)) :
    expiresAt row < sub.now ∨ maxAttempts ≤ attempts row := by
  refine Submission.verdict_none ?_ htarget
  cases hverdict : sub.verdict maxAttempts codes with
  | none => rfl
  | some v =>
    obtain ⟨hrow, -, -, hright⟩ := Submission.verdict_some hverdict
    rw [htarget] at hrow
    cases v with
    | wrong r => cases hrow; exact absurd hverdict hwrong
    | right r => cases hrow; exact absurd (hright _ rfl) hhash

/-! ## What a step does to a row -/

section

variable {maxAttempts : Nat} {codes codes' : Table γ} {ok : Bool} {asked : Option γ}
  {submitted : Option (Submission κ)}

/-- A row after the step is new, or the same code as before: untouched, with one attempt more
    for a wrong code, or consumed for a right one. -/
inductive RowAfter (maxAttempts : Nat) (codes : Table γ) (ok : Bool) (asked : Option γ)
    (submitted : Option (Submission κ)) (c' : γ) : Prop
  | new (hasked : asked = some c') (hok : ok = true) (hattempts : attempts c' = 0)
      (hconsumed : consumedAt c' = none) (hfresh : ∀ c ∈ codes.rows, pk c ≠ pk c')
      (hnone : submitted = none)
  | kept (hmem : c' ∈ codes.rows) (hwrong : ∀ sub, submitted = some sub →
      sub.verdict maxAttempts codes ≠ some (.wrong c'))
  | counted {c : γ} {sub : Submission κ} (hmem : c ∈ codes.rows) (hsub : submitted = some sub)
      (hverdict : sub.verdict maxAttempts codes = some (.wrong c)) (hsame : SameCode c c')
      (hattempts : attempts c' = attempts c + 1) (hconsumed : consumedAt c' = consumedAt c)
  | consumed {c : γ} {sub : Submission κ} (hmem : c ∈ codes.rows) (hsub : submitted = some sub)
      (hverdict : sub.verdict maxAttempts codes = some (.right c)) (hsame : SameCode c c')
      (hattempts : attempts c' = attempts c) (hconsumed : consumedAt c' = some sub.consumedAt)

theorem FlowStep.rowAfter (h : FlowStep maxAttempts codes codes' ok asked submitted) {c' : γ}
    (hc' : c' ∈ codes'.rows) : RowAfter maxAttempts codes ok asked submitted c' := by
  cases h with
  | idle => exact .kept hc' fun sub hsub => by cases hsub
  | notIssued => exact .kept hc' fun sub hsub => by cases hsub
  | issued hinsert hattempts hconsumed =>
    rcases (Table.mem_insert hinsert c').mp hc' with hmem | rfl
    · exact .kept hmem fun sub hsub => by cases hsub
    · refine .new rfl rfl hattempts hconsumed (fun c hc hpk => ?_) rfl
      have hclash := (Table.insert_eq_some hinsert).2.2 c hc
      rw [Record.clash_of_pk c c' hpk] at hclash
      cases hclash
  | refused hverdict => exact .kept hc' fun sub hsub => by cases hsub; rw [hverdict]; simp
  | failed hverdict => exact .kept hc' fun sub hsub => by cases hsub; rw [hverdict]; simp
  | @wrong sub row hverdict =>
    have hrow : row ∈ codes.rows :=
      (Submission.target_mem (Submission.verdict_some hverdict).1).1
    rcases (codes.mem_update _ _ c').mp hc' with ⟨hmem, hne⟩ | ⟨c, hc, hpk, rfl⟩
    · refine .kept hmem fun sub' hsub' hw => hne ?_
      cases hsub'
      rw [hverdict] at hw
      cases hw
      rfl
    · cases codes.eq_of_pk hc hrow hpk
      exact .counted hrow rfl hverdict (.setAttempts _ _) (by simp) (by simp)
  | @accepted sub row _ hverdict =>
    have hrow : row ∈ codes.rows :=
      (Submission.target_mem (Submission.verdict_some hverdict).1).1
    rcases (codes.mem_update _ _ c').mp hc' with ⟨hmem, hne⟩ | ⟨c, hc, hpk, rfl⟩
    · refine .kept hmem fun sub' hsub' hw => ?_
      cases hsub'
      rw [hverdict] at hw
      cases hw
    · cases codes.eq_of_pk hc hrow hpk
      exact .consumed hrow rfl hverdict (.setConsumed _ _) (by simp) (by simp)

/-- No row is ever lost, and a consumed one stays consumed. -/
theorem FlowStep.kept (h : FlowStep maxAttempts codes codes' ok asked submitted) {c : γ}
    (hc : c ∈ codes.rows) :
    ∃ c' ∈ codes'.rows, SameCode c c' ∧ ((consumedAt c).isSome → (consumedAt c').isSome) := by
  have hupdate : ∀ (k : Uuid) (f : Patch γ), (∀ a, SameCode a (f.apply a)) →
      (∀ a, (consumedAt a).isSome → (consumedAt (f.apply a)).isSome) →
      ∃ c' ∈ (codes.update k f).rows, SameCode c c' ∧
        ((consumedAt c).isSome → (consumedAt c').isSome) := by
    intro k f hsame hconsumed
    by_cases hk : pk c = k
    · exact ⟨_, (codes.mem_update k f _).mpr (Or.inr ⟨c, hc, hk, rfl⟩), hsame c, hconsumed c⟩
    · exact ⟨c, (codes.mem_update k f c).mpr (Or.inl ⟨hc, hk⟩), .refl c, id⟩
  cases h with
  | issued hinsert => exact ⟨c, (Table.mem_insert hinsert c).mpr (Or.inl hc), .refl c, id⟩
  | wrong => exact hupdate _ _ (fun a => .setAttempts _ a) fun a ha => by simpa using ha
  | accepted => exact hupdate _ _ (fun a => .setConsumed _ a) fun a _ => by simp
  | _ => exact ⟨c, hc, .refl c, id⟩

/-- A code that is issued is stored. -/
theorem FlowStep.stored {row : γ}
    (h : FlowStep maxAttempts codes codes' true (some row) submitted) : row ∈ codes'.rows := by
  cases h with
  | issued hinsert => exact (Table.mem_insert hinsert row).mpr (Or.inr rfl)

/-- A successful verification has found the code right, and consumes its row. -/
theorem FlowStep.success {sub : Submission κ}
    (h : FlowStep maxAttempts codes codes' true asked (some sub)) :
    ∃ row, sub.verdict maxAttempts codes = some (.right row) ∧
      ∃ c' ∈ codes'.rows, pk c' = pk row ∧ (consumedAt c').isSome := by
  cases h with
  | @accepted _ row _ hverdict =>
    have hrow : row ∈ codes.rows :=
      (Submission.target_mem (Submission.verdict_some hverdict).1).1
    exact ⟨row, hverdict, _, (codes.mem_update _ _ _).mpr (Or.inr ⟨row, hrow, rfl, rfl⟩),
      (setConsumed sub.consumedAt).pk_apply row, by simp⟩

end

theorem FlowStep.of_eq {maxAttempts : Nat} {codes codes' : Table γ} {ok : Bool}
    (h : codes' = codes) :
    FlowStep maxAttempts codes codes' ok none (none : Option (Submission κ)) :=
  h ▸ .idle

end

/-- A flow of codes of the API. -/
structure Flow (p : Platform) (γ κ : Type) [Record γ] [OneTimeCode γ κ] [DecidableEq κ] where
  codes : Db → Table γ
  asked : Request × Draws → Db → Option γ
  submitted : Request × Draws → Db → Option (Submission κ)
  clock : ∀ e db sub, submitted e db = some sub → ∃ n, sub.now = e.2.now n
  step : ∀ e s, FlowStep p.settings.otpMaxAttempts (codes s.db) (codes ((Api p).step e s).2.db)
    ((Api p).step e s).1.isOk (asked e s.db) (submitted e s.db)

namespace Flow

variable {γ κ : Type} [Record γ] [OneTimeCode γ κ] [DecidableEq κ] {p : Platform}
  (F : Flow p γ κ) (v : ApiStep)

/-- The row that the step has issued. -/
def issued : Option γ := if v.out.isOk then F.asked v.event v.before.db else none

/-- The row that the code submitted in the step was meant for. -/
def target : Option γ := (F.submitted v.event v.before.db).bind fun sub =>
  sub.target (F.codes v.before.db)

/-- The step is a successful verification. -/
def Accepts : Prop := v.out.isOk = true ∧ (F.submitted v.event v.before.db).isSome

/-- The step submits a wrong code for the row with the id `k`. -/
def wrongFor (k : Uuid) (v : ApiStep) : Bool :=
  (F.submitted v.event v.before.db).any fun sub =>
    (sub.target (F.codes v.before.db)).any fun row => pk row == k && sub.hash != codeHash row

end Flow

/-! ## The OTP flow -/

/-- The row that a request for an OTP asks for. -/
def otpAsked (p : Platform) (e : Request × Draws) : Option OTPCode :=
  match e.1 with
  | .requestOtp phone => ((hashPhone p phone).map (newOtpCode p e.2.env)).toOption
  | _ => none

/-- What an OTP verification submits. -/
def otpSubmitted (p : Platform) (e : Request × Draws) : Option (Submission String) :=
  match e.1 with
  | .verifyOtp phone code =>
    ((hashPhone p phone).map fun phoneHash =>
      (⟨phoneHash, hashCode p code, e.2.now 0, e.2.place 0, e.2.now 1⟩ : Submission _)).toOption
  | _ => none

/-- The two OTP endpoints are the only ones that write the OTP codes. -/
theorem write_otpCodes {p : Platform} {env : Env} {db db' : Db} {req : Request} {out : Response}
    (h : Write p env db req out db') (hissue : ∀ phone, req ≠ .requestOtp phone)
    (hverify : ∀ phone code, req ≠ .verifyOtp phone code) : db'.otpCodes = db.otpCodes := by
  cases h with
  | otpIssued => exact absurd rfl (hissue _)
  | otpWrong => exact absurd rfl (hverify _ _)
  | otpAccepted => exact absurd rfl (hverify _ _)
  | _ => rfl

theorem handle_otpCodes {p : Platform} {env : Env} {req : Request} {s : Server}
    (hissue : ∀ phone, req ≠ .requestOtp phone)
    (hverify : ∀ phone code, req ≠ .verifyOtp phone code) :
    (handle p env req s).2.db.otpCodes = s.db.otpCodes := by
  exact handle_rel (R := fun db db' => db'.otpCodes = db.otpCodes) rfl
    fun hwrite => write_otpCodes hwrite hissue hverify

theorem requestOtp_step (p : Platform) (d : Draws) (phone : String) (s : Server) :
    FlowStep p.settings.otpMaxAttempts s.db.otpCodes
      (handle p d.env (.requestOtp phone) s).2.db.otpCodes
      (handle p d.env (.requestOtp phone) s).1.isOk (otpAsked p (.requestOtp phone, d)) none := by
  simp only [handle, otpAsked]
  cases hphone : hashPhone p phone with
  | error e =>
    have herr : requestOtp p d.env phone s.db = .error { status := 422, detail := e } := by
      unfold requestOtp orUnprocessable
      rw [hphone]
      rfl
    rw [herr]
    exact .idle
  | ok phoneHash =>
    cases hreq : requestOtp p d.env phone s.db with
    | error e => exact .notIssued
    | ok r =>
      obtain ⟨db', out⟩ := r
      cases requestOtp_write hreq with
      | otpIssued hphone' hlimit hinsert =>
        rw [hphone] at hphone'
        cases hphone'
        exact .issued hinsert rfl rfl

/-- The verdict of the submission is the one of the handler. -/
theorem judgeOtp_verdict (p : Platform) (d : Draws) (phoneHash code : String) (db : Db) :
    (judgeOtp p d.env phoneHash code db).toOption =
      (⟨phoneHash, hashCode p code, d.now 0, d.place 0, d.now 1⟩ : Submission String).verdict
        p.settings.otpMaxAttempts db.otpCodes :=
  judge_toOption _ _ _ _

/-- On a database that is up a wrong code is always counted. -/
theorem verifyOtp_wrong {p : Platform} {d : Draws} {phone phoneHash code : String} {db : Db}
    {row : OTPCode} (hphone : hashPhone p phone = .ok phoneHash)
    (hjudge : judgeOtp p d.env phoneHash code db = .ok (.wrong row)) :
    ∃ out, verifyOtp p d.env phone code db = .ok (countOtpAttempt row db, out) := by
  unfold verifyOtp
  rw [hphone]
  simp only [orUnprocessable, Except.mapError, ok_bind, hjudge, commit_env_some]
  exact ⟨_, rfl⟩

theorem verifyOtp_step (p : Platform) (d : Draws) (phone code : String) (s : Server) :
    FlowStep p.settings.otpMaxAttempts s.db.otpCodes
      (handle p d.env (.verifyOtp phone code) s).2.db.otpCodes
      (handle p d.env (.verifyOtp phone code) s).1.isOk none
      (otpSubmitted p (.verifyOtp phone code, d)) := by
  simp only [handle, otpSubmitted]
  cases hphone : hashPhone p phone with
  | error e =>
    have herr : verifyOtp p d.env phone code s.db = .error { status := 422, detail := e } := by
      unfold verifyOtp orUnprocessable
      rw [hphone]
      rfl
    rw [herr]
    exact .idle
  | ok phoneHash =>
    have hverdict := judgeOtp_verdict p d phoneHash code s.db
    cases hreq : verifyOtp p d.env phone code s.db with
    | error e =>
      cases hjudge : judgeOtp p d.env phoneHash code s.db with
      | error e => exact .refused (by rw [← hverdict, hjudge]; rfl)
      | ok v =>
        cases v with
        | wrong row =>
          obtain ⟨out, hout⟩ := verifyOtp_wrong hphone hjudge
          rw [hreq] at hout
          cases hout
        | right row =>
          rw [hjudge] at hverdict
          exact .failed hverdict.symm
    | ok r =>
      obtain ⟨db', out⟩ := r
      have hwrite := verifyOtp_write hreq
      show FlowStep _ _ db'.otpCodes (out.map Payload.verified).isOk _ _
      generalize out.map Payload.verified = resp at hwrite ⊢
      cases hwrite with
      | otpWrong hphone' hjudge =>
        rw [hphone] at hphone'
        cases hphone'
        exact .wrong (by rw [← hverdict, hjudge]; rfl)
      | otpAccepted hphone' hjudge hlogin =>
        rw [hphone] at hphone'
        cases hphone'
        exact .accepted (by rw [← hverdict, hjudge]; rfl)
      | reviewDecided hdecision => cases hdecision
      | layoffDecided hdecision => cases hdecision

/-- The OTPs of `app/routers/auth.py`, by phone hash. -/
def otpFlow (p : Platform) : Flow p OTPCode String where
  codes := Db.otpCodes
  asked e _ := otpAsked p e
  submitted e _ := otpSubmitted p e
  clock e db sub h := by
    obtain ⟨req, d⟩ := e
    cases req with
    | verifyOtp phone code =>
      simp only [otpSubmitted] at h
      cases hphone : hashPhone p phone with
      | error e => rw [hphone] at h; cases h
      | ok phoneHash => rw [hphone] at h; cases h; exact ⟨0, rfl⟩
    | _ => cases h
  step e s := by
    obtain ⟨req, d⟩ := e
    cases req with
    | requestOtp phone => exact requestOtp_step p d phone s
    | verifyOtp phone code => exact verifyOtp_step p d phone code s
    | _ => exact .of_eq (handle_otpCodes (fun _ h => by cases h) fun _ _ h => by cases h)

/-! ## The corporate-email flow -/

/-- The row that a request for an email code asks for, once the gate has let it through. -/
def emailAsked (p : Platform) (e : Request × Draws) (db : Db) : Option EmailVerificationCode :=
  match e.1 with
  | .requestEmailVerification email token =>
    match requireTier p e.2.env .phone token db, submittedEmailHash p email,
      splitEmailDomain (normalizeEmail p email) with
    | .ok user, .ok emailHash, .ok domain => some (newEmailCode p e.2.env user.id emailHash domain)
    | _, _, _ => none
  | _ => none

/-- What an email verification submits, once the gate has let it through. -/
def emailSubmitted (p : Platform) (e : Request × Draws) (db : Db) :
    Option (Submission (Uuid × String)) :=
  match e.1 with
  | .verifyEmail email code token =>
    match requireTier p e.2.env .phone token db, submittedEmailHash p email with
    | .ok user, .ok emailHash =>
      some ⟨(user.id, emailHash), hashCode p code, e.2.now 1, e.2.place 0, e.2.now 2⟩
    | _, _ => none
  | _ => none

theorem write_emailCodes {p : Platform} {env : Env} {db db' : Db} {req : Request} {out : Response}
    (h : Write p env db req out db')
    (hissue : ∀ email token, req ≠ .requestEmailVerification email token)
    (hverify : ∀ email code token, req ≠ .verifyEmail email code token) :
    db'.emailVerificationCodes = db.emailVerificationCodes := by
  cases h with
  | emailIssued => exact absurd rfl (hissue _ _)
  | emailWrong => exact absurd rfl (hverify _ _ _)
  | emailAccepted => exact absurd rfl (hverify _ _ _)
  | _ => rfl

theorem handle_emailCodes {p : Platform} {env : Env} {req : Request} {s : Server}
    (hissue : ∀ email token, req ≠ .requestEmailVerification email token)
    (hverify : ∀ email code token, req ≠ .verifyEmail email code token) :
    (handle p env req s).2.db.emailVerificationCodes = s.db.emailVerificationCodes := by
  exact handle_rel (R := fun db db' => db'.emailVerificationCodes = db.emailVerificationCodes) rfl
    fun hwrite => write_emailCodes hwrite hissue hverify

theorem requestEmail_step (p : Platform) (d : Draws) (email : String) (token : Option String)
    (s : Server) :
    FlowStep p.settings.otpMaxAttempts s.db.emailVerificationCodes
      (handle p d.env (.requestEmailVerification email token) s).2.db.emailVerificationCodes
      (handle p d.env (.requestEmailVerification email token) s).1.isOk
      (emailAsked p (.requestEmailVerification email token, d) s.db) none := by
  simp only [handle]
  cases hreq : requestEmailVerification p d.env email token s.db with
  | error e =>
    cases emailAsked p (.requestEmailVerification email token, d) s.db with
    | none => exact .idle
    | some row => exact .notIssued
  | ok r =>
    obtain ⟨db', out⟩ := r
    cases requestEmailVerification_write hreq with
    | emailIssued hgate hdomain hemail hlimit hinsert =>
      simp only [emailAsked, hgate, hemail, hdomain]
      exact .issued hinsert rfl rfl

theorem judgeEmail_verdict (p : Platform) (d : Draws) (userId : Uuid) (emailHash code : String)
    (db : Db) :
    (judgeEmail p d.env userId emailHash code db).toOption =
      (⟨(userId, emailHash), hashCode p code, d.now 1, d.place 0, d.now 2⟩ :
        Submission (Uuid × String)).verdict p.settings.otpMaxAttempts db.emailVerificationCodes :=
  judge_toOption _ _ _ _

/-- On a database that is up the commit never fails, whatever the verdict. -/
theorem verifyEmail_judged {p : Platform} {d : Draws} {email code emailHash : String}
    {token : Option String} {db : Db} {user : User} {v : Verdict EmailVerificationCode}
    (hgate : requireTier p d.env .phone token db = .ok user)
    (hemail : submittedEmailHash p email = .ok emailHash)
    (hjudge : judgeEmail p d.env user.id emailHash code db = .ok v) :
    ∃ r, verifyEmail p d.env email code token db = .ok r := by
  unfold verifyEmail
  rw [hgate]
  simp only [hemail, ok_bind, hjudge]
  cases v with
  | wrong row => exact ⟨_, rfl⟩
  | right row => exact ⟨_, rfl⟩

theorem verifyEmail_step (p : Platform) (d : Draws) (email code : String) (token : Option String)
    (s : Server) :
    FlowStep p.settings.otpMaxAttempts s.db.emailVerificationCodes
      (handle p d.env (.verifyEmail email code token) s).2.db.emailVerificationCodes
      (handle p d.env (.verifyEmail email code token) s).1.isOk none
      (emailSubmitted p (.verifyEmail email code token, d) s.db) := by
  simp only [handle]
  cases hreq : verifyEmail p d.env email code token s.db with
  | error e =>
    cases hgate : requireTier p d.env .phone token s.db with
    | error e => simp only [emailSubmitted, hgate]; exact .idle
    | ok user =>
    cases hemail : submittedEmailHash p email with
    | error e => simp only [emailSubmitted, hgate, hemail]; exact .idle
    | ok emailHash =>
    simp only [emailSubmitted, hgate, hemail]
    have hverdict := judgeEmail_verdict p d user.id emailHash code s.db
    cases hjudge : judgeEmail p d.env user.id emailHash code s.db with
    | error e => exact .refused (by rw [← hverdict, hjudge]; rfl)
    | ok v =>
      obtain ⟨r, hr⟩ := verifyEmail_judged hgate hemail hjudge
      rw [hreq] at hr
      cases hr
  | ok r =>
    obtain ⟨db', out⟩ := r
    have hwrite := verifyEmail_write hreq
    show FlowStep _ _ db'.emailVerificationCodes (out.map Payload.verified).isOk _ _
    generalize out.map Payload.verified = resp at hwrite ⊢
    cases hwrite with
    | emailWrong hgate hemail hjudge =>
      simp only [emailSubmitted, hgate, hemail]
      exact .wrong (by rw [← judgeEmail_verdict, hjudge]; rfl)
    | emailAccepted hgate hemail hjudge =>
      simp only [emailSubmitted, hgate, hemail]
      exact .accepted (by rw [← judgeEmail_verdict, hjudge]; rfl)
    | reviewDecided hdecision => cases hdecision
    | layoffDecided hdecision => cases hdecision

/-- The email codes of `app/routers/auth.py`, by user and email hash. -/
def emailFlow (p : Platform) : Flow p EmailVerificationCode (Uuid × String) where
  codes := Db.emailVerificationCodes
  asked := emailAsked p
  submitted := emailSubmitted p
  clock e db sub h := by
    obtain ⟨req, d⟩ := e
    cases req with
    | verifyEmail email code token =>
      simp only [emailSubmitted] at h
      split at h
      · cases h; exact ⟨1, rfl⟩
      · cases h
    | _ => cases h
  step e s := by
    obtain ⟨req, d⟩ := e
    cases req with
    | requestEmailVerification email token => exact requestEmail_step p d email token s
    | verifyEmail email code token => exact verifyEmail_step p d email code token s
    | _ => exact .of_eq (handle_emailCodes (fun _ _ h => by cases h) fun _ _ _ h => by cases h)

end LinkedOut
