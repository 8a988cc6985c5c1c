/-
  Concurrent verifications. A verification is a session of atomic steps: it selects the
  code row and compares the submitted code with it; an OTP that is right then selects
  the user; last it commits what it computed from the rows it has read, keyed on their
  primary keys alone.

  `guess_alone`: a session whose steps follow each other is the sequential handler.
  `guesses_bounded`: in every interleaving in which no session selects the code of a
  phone, or of a user and an email, while another on the same is between its select and
  its commit, no code row is compared with more codes than allowed, and none is accepted
  twice. `guesses_race`: four sessions that all select before one commits break both.
-/
import LinkedOut.Codes
import LinkedOut.Interleave
import LinkedOut.Effects

namespace LinkedOut

/-! ## The sessions -/

/-- A request to one of the two verification routes. -/
inductive VerifyCall where
  | otp (phone code : String)
  | email (address code : String) (token : Option String)

def VerifyCall.request : VerifyCall → Request
  | otp phone code => .verifyOtp phone code
  | email address code token => .verifyEmail address code token

/-- A row of one of the two code tables. -/
inductive CodeRow where
  | otp (id : Uuid)
  | email (id : Uuid)
  deriving DecidableEq

/-- What a code is issued for. -/
inductive CodeKey where
  | otp (phoneHash : String)
  | email (userId : Uuid) (emailHash : String)
  deriving DecidableEq

/-- What a session knows after its first step. -/
inductive Judged where
  | otp (phoneHash : String) (verdict : Verdict OTPCode)
  | email (user : User) (emailHash : String) (verdict : Verdict EmailVerificationCode)

/-- The reads of the request up to the comparison, in the handler's order. -/
def VerifyCall.select (p : Platform) (env : Env) (call : VerifyCall) (db : Db) :
    Except HttpException Judged :=
  match call with
  | otp phone code => do
    let phoneHash ← orUnprocessable (hashPhone p phone)
    let verdict ← judgeOtp p env phoneHash code db
    return .otp phoneHash verdict
  | email address code token => do
    let user ← requireTier p env .phone token db
    let emailHash ← submittedEmailHash p address
    let verdict ← judgeEmail p env user.id emailHash code db
    return .email user emailHash verdict

/-- Where a session stands. -/
inductive Guessing where
  | idle
  | judged (j : Judged)
  | userLoaded (phoneHash : String) (row : OTPCode) (user : Option User)
  | finished

/-- What is counted: a code is compared with a row, a request is answered with success on it. -/
inductive Guess where
  | compared (row : CodeRow)
  | accepted (row : CodeRow)
  deriving DecidableEq

def Judged.row : Judged → CodeRow
  | otp _ verdict => .otp verdict.row.id
  | email _ _ verdict => .email verdict.row.id

/-- The last step of a session: what it has flushed is committed, and the answer follows. -/
def commitGuess (d : Draws) (s : Server) (row : CodeRow) (flushed : Option (Db × Uuid))
    (answer : Uuid → Db → Except HttpException VerifyOut) : List Guess × Server × Guessing :=
  match commit d.env flushed internalServerError with
  | .error _ => ([], s, .finished)
  | .ok (db, userId) =>
    ((match answer userId db with | .error _ => [] | .ok _ => [.accepted row]),
      { s with db }, .finished)

/-- The next step of session `i`. -/
def guessStep {ι : Type} (p : Platform) (calls : ι → VerifyCall) (i : ι) (d : Draws) (s : Server) :
    Guessing → List Guess × Server × Guessing
  | .idle =>
    match (calls i).select p d.env s.db with
    | .error _ => ([], s, .finished)
    | .ok j => ([.compared j.row], s, .judged j)
  | .judged (.otp _ (.wrong row)) => ([], { s with db := countOtpAttempt row s.db }, .finished)
  | .judged (.otp phoneHash (.right row)) =>
    match loadUserByPhone phoneHash s.db with
    | .error _ => ([], s, .finished)
    | .ok user => ([], s, .userLoaded phoneHash row user)
  | .judged (.email _ _ (.wrong row)) =>
    ([], { s with db := countEmailAttempt row s.db }, .finished)
  | .judged (.email user _ (.right row)) =>
    commitGuess d s (.email row.id) (some (consumeEmail d.env user row s.db, user.id))
      (verified p d.env 3)
  | .userLoaded phoneHash row user =>
    commitGuess d s (.otp row.id) (consumeOtp d.env phoneHash row user s.db) (verified p d.env 2)
  | .finished => ([], s, .finished)

/-! ## A session alone is the handler -/

/-- A session that runs on its own: its steps one after the other, from the first. -/
def runAlone {ι : Type} (p : Platform) (calls : ι → VerifyCall) (i : ι) (d : Draws) (s : Server) :
    List Guess × Server :=
  let r := guessStep p calls i d s .idle
  let r' := guessStep p calls i d r.2.1 r.2.2
  let r'' := guessStep p calls i d r'.2.1 r'.2.2
  (r.1 ++ r'.1 ++ r''.1, r''.2.1)

/-- The last step leaves and answers what the handler does from there. -/
theorem commitGuess_answer (d : Draws) (s : Server) (row : CodeRow) (flushed : Option (Db × Uuid))
    (answer : Uuid → Db → Except HttpException VerifyOut) :
    let r := commitGuess d s row flushed answer
    let r' := answerVerify s (commit d.env flushed internalServerError >>= fun x =>
      .ok (x.1, answer x.2 x.1))
    r.2.1 = r'.2 ∧ ((∃ k, .accepted k ∈ r.1) ↔ ∃ a, r'.1 = .ok a) ∧ r.2.2 = .finished := by
  simp only [commitGuess]
  cases commit d.env flushed internalServerError with
  | error e => simp [answerVerify, bind, Except.bind]
  | ok x =>
    cases hans : answer x.2 x.1 <;> simp [answerVerify, bind, Except.bind, Except.map, hans]

theorem runAlone_eq {ι : Type} [DecidableEq ι] (p : Platform) (calls : ι → VerifyCall) (i : ι)
    (d : Draws) (s : Server) :
    runAlone p calls i d s =
      (observed (guessStep p calls) [(i, d), (i, d), (i, d)] ⟨s, fun _ => .idle⟩,
        ((interleave (guessStep p calls)).exec [(i, d), (i, d), (i, d)]
          ⟨s, fun _ => .idle⟩).shared) := by
  simp only [runAlone, observed, Machine.outputs, Machine.exec, interleave, Function.update_self,
    List.flatten_cons, List.flatten_nil, List.append_nil, List.append_assoc]

/-- The steps of a session, one after the other and with the same draws, leave what the
    handler leaves, and they accept a code when it does. -/
theorem guess_alone {ι : Type} (p : Platform) (calls : ι → VerifyCall) (i : ι)
    (d : Draws) (s : Server) :
    (runAlone p calls i d s).2 = (handle p d.env (calls i).request s).2 ∧
      ((∃ k, .accepted k ∈ (runAlone p calls i d s).1) ↔
        ∃ a, (handle p d.env (calls i).request s).1 = .ok a) := by
  simp only [runAlone, guessStep]
  cases hcall : calls i with
  | otp phone code =>
    simp only [VerifyCall.request, handle, verifyOtp, VerifyCall.select]
    cases orUnprocessable (hashPhone p phone) with
    | error e => simp [answerVerify, bind, Except.bind]
    | ok phoneHash =>
    simp only [ok_bind]
    cases judgeOtp p d.env phoneHash code s.db with
    | error e => simp [answerVerify, bind, Except.bind]
    | ok v =>
    simp only [ok_bind]
    cases v with
    | wrong row => simp [answerVerify, bind, Except.bind, Except.map, pure, Except.pure]
    | right row =>
    cases hload : loadUserByPhone phoneHash s.db with
    | error e => simp [answerVerify, bind, Except.bind, pure, Except.pure, hload]
    | ok user =>
    simp only [ok_bind, pure, Except.pure, hload]
    obtain ⟨hserver, hanswer, -⟩ := commitGuess_answer d s (.otp row.id)
      (consumeOtp d.env phoneHash row user s.db) (verified p d.env 2)
    exact ⟨hserver, by simpa using hanswer⟩
  | email address code token =>
    simp only [VerifyCall.request, handle, verifyEmail, VerifyCall.select]
    cases requireTier p d.env .phone token s.db with
    | error e => simp [answerVerify, bind, Except.bind]
    | ok user =>
    simp only [ok_bind]
    cases submittedEmailHash p address with
    | error e => simp [answerVerify, bind, Except.bind]
    | ok emailHash =>
    simp only [ok_bind]
    cases judgeEmail p d.env user.id emailHash code s.db with
    | error e => simp [answerVerify, bind, Except.bind]
    | ok v =>
    simp only [ok_bind]
    cases v with
    | wrong row => simp [answerVerify, bind, Except.bind, Except.map, pure, Except.pure]
    | right row =>
    simp only [pure, Except.pure]
    obtain ⟨hserver, hanswer, hover⟩ := commitGuess_answer d s (.email row.id)
      (some (consumeEmail d.env user row s.db, user.id)) (verified p d.env 3)
    rw [hover]
    exact ⟨hserver, by simpa [ok_bind] using hanswer⟩

/-! ## The codes as the sessions see them -/

/-- What matters of a stored code. -/
structure CodeState where
  key : CodeKey
  attempts : Nat
  consumed : Bool

def Db.codeState (db : Db) : CodeRow → Option CodeState
  | .otp id => (db.otpCodes.find? id).map fun c =>
    ⟨.otp c.phoneHash, c.attempts, c.consumedAt.isSome⟩
  | .email id => (db.emailVerificationCodes.find? id).map fun c =>
    ⟨.email c.userId c.emailHash, c.attempts, c.consumedAt.isSome⟩

/-- The row that a session has compared its code with, and what it has read of it. -/
structure Held where
  key : CodeKey
  row : CodeRow
  attempts : Nat

def Judged.held : Judged → Held
  | otp phoneHash verdict => ⟨.otp phoneHash, .otp verdict.row.id, verdict.row.attempts⟩
  | email user emailHash verdict =>
    ⟨.email user.id emailHash, .email verdict.row.id, verdict.row.attempts⟩

/-- What a session holds between its select and its commit. -/
def Guessing.held : Guessing → Option Held
  | idle => none
  | judged j => some j.held
  | userLoaded phoneHash row _ => some ⟨.otp phoneHash, .otp row.id, row.attempts⟩
  | finished => none

/-- All that a step can do to the codes: `h` and `h'` are what the session holds before and
    after it. -/
inductive GuessMove (maxAttempts : Nat) (codes : CodeRow → Option CodeState) :
    Option Held → Option Held → (CodeRow → Option CodeState) → List Guess → Prop
  | pause {h : Option Held} : GuessMove maxAttempts codes h h codes []
  | compare {h : Held} (hstored : codes h.row = some ⟨h.key, h.attempts, false⟩)
      (hattempts : h.attempts < maxAttempts) :
      GuessMove maxAttempts codes none (some h) codes [.compared h.row]
  | count {h : Held} :
      GuessMove maxAttempts codes (some h) none
        (Function.update codes h.row (some ⟨h.key, h.attempts + 1, false⟩)) []
  | consume {h : Held} {out : List Guess} (hout : out = [] ∨ out = [.accepted h.row]) :
      GuessMove maxAttempts codes (some h) none
        (Function.update codes h.row (some ⟨h.key, h.attempts, true⟩)) out

theorem codeState_otp {db : Db} (db' : Db) {k : Uuid} {f : Patch OTPCode} {c : OTPCode}
    (hfind : db.otpCodes.find? k = some c) (hcodes : db'.otpCodes = db.otpCodes.update k f)
    (hemail : db'.emailVerificationCodes = db.emailVerificationCodes) :
    db'.codeState = Function.update db.codeState (.otp k)
      (some ⟨.otp (f.apply c).phoneHash, (f.apply c).attempts, (f.apply c).consumedAt.isSome⟩) := by
  funext r
  by_cases hr : r = .otp k
  · rw [hr, Function.update_self, Db.codeState, hcodes, Table.find?_update_self _ _ hfind]
    rfl
  · rw [Function.update_of_ne hr]
    cases r with
    | otp id =>
      have hid : id ≠ k := fun h => hr (congrArg CodeRow.otp h)
      simp only [Db.codeState, hcodes, Table.find?_update_ne _ _ hid]
    | email id => simp only [Db.codeState, hemail]

theorem codeState_email {db : Db} (db' : Db) {k : Uuid} {f : Patch EmailVerificationCode}
    {c : EmailVerificationCode} (hfind : db.emailVerificationCodes.find? k = some c)
    (hcodes : db'.emailVerificationCodes = db.emailVerificationCodes.update k f)
    (hotp : db'.otpCodes = db.otpCodes) :
    db'.codeState = Function.update db.codeState (.email k)
      (some ⟨.email (f.apply c).userId (f.apply c).emailHash, (f.apply c).attempts,
        (f.apply c).consumedAt.isSome⟩) := by
  funext r
  by_cases hr : r = .email k
  · rw [hr, Function.update_self, Db.codeState, hcodes, Table.find?_update_self _ _ hfind]
    rfl
  · rw [Function.update_of_ne hr]
    cases r with
    | email id =>
      have hid : id ≠ k := fun h => hr (congrArg CodeRow.email h)
      simp only [Db.codeState, hcodes, Table.find?_update_ne _ _ hid]
    | otp id => simp only [Db.codeState, hotp]

/-- What a select compares its code with is stored, unconsumed and not locked. -/
theorem select_move {p : Platform} {env : Env} {call : VerifyCall} {db : Db} {j : Judged}
    (h : call.select p env db = .ok j) :
    db.codeState j.held.row = some ⟨j.held.key, j.held.attempts, false⟩ ∧
      j.held.attempts < p.settings.otpMaxAttempts ∧ j.row = j.held.row := by
  cases call with
  | otp phone code =>
    obtain ⟨phoneHash, -, h1⟩ := bind_ok h
    obtain ⟨v, hjudge, h2⟩ := bind_ok h1
    cases h2
    obtain ⟨hrow, -, hattempts, -⟩ := judge_ok hjudge
    obtain ⟨-, hkey, hconsumed, -⟩ := pending_some hrow
    have hfind := pending_find? hrow
    change v.row.phoneHash = phoneHash at hkey
    change v.row.consumedAt = none at hconsumed
    change db.otpCodes.find? v.row.id = some v.row at hfind
    refine ⟨?_, hattempts, rfl⟩
    simp only [Db.codeState, Judged.held, hfind, Option.map_some, hkey, hconsumed,
      Option.isSome_none]
  | email address code token =>
    obtain ⟨user, -, h1⟩ := bind_ok h
    obtain ⟨emailHash, -, h2⟩ := bind_ok h1
    obtain ⟨v, hjudge, h3⟩ := bind_ok h2
    cases h3
    obtain ⟨hrow, -, hattempts, -⟩ := judge_ok hjudge
    obtain ⟨-, hkey, hconsumed, -⟩ := pending_some hrow
    have hfind := pending_find? hrow
    change (v.row.userId, v.row.emailHash) = (user.id, emailHash) at hkey
    rw [Prod.mk.injEq] at hkey
    change v.row.consumedAt = none at hconsumed
    change db.emailVerificationCodes.find? v.row.id = some v.row at hfind
    refine ⟨?_, hattempts, rfl⟩
    simp only [Db.codeState, Judged.held, hfind, Option.map_some, hkey.1, hkey.2, hconsumed,
      Option.isSome_none]

/-- No two users share a phone, so their SELECT never fails. -/
theorem loadUserByPhone_total (phoneHash : String) (db : Db) :
    ∃ user, loadUserByPhone phoneHash db = .ok user := by
  unfold loadUserByPhone
  rw [scalarOneOrNone_rows db (.userByPhoneHash phoneHash) id]
  exact ⟨_, rfl⟩

/-- What the flush of a right OTP writes; it fails only when the id of the new user is taken,
    or the phone is. -/
theorem consumeOtp_some (env : Env) {phoneHash : String} (row : OTPCode) {user : Option User}
    {db : Db} (hphone : user = none → ∀ u ∈ db.users.rows, u.phoneHash ≠ phoneHash)
    (hid : user = none → ∀ u ∈ db.users.rows, u.id ≠ env.uuid 0) :
    ∃ db' userId, consumeOtp env phoneHash row user db = some (db', userId) ∧
      db'.otpCodes = db.otpCodes.update row.id (OTPCode.setConsumed (env.now 1)) ∧
      db'.emailVerificationCodes = db.emailVerificationCodes := by
  cases user with
  | none =>
    have hinsert : ∃ users, db.users.insert
        { id := env.uuid 0, phoneHash, emailDomainHash := none, verificationTier := .phone } =
          some users := by
      refine ⟨_, dif_pos ⟨rfl, fun u hu => ?_⟩⟩
      simp [clash, hphone rfl u hu, hid rfl u hu]
    obtain ⟨users, husers⟩ := hinsert
    simp only [consumeOtp, husers]
    exact ⟨_, _, rfl, rfl, rfl⟩
  | some user =>
    simp only [consumeOtp]
    split <;> exact ⟨_, _, rfl, rfl, rfl⟩

/-- The last step leaves what was flushed, and accepts the row at most. -/
theorem commitGuess_some (d : Draws) (s : Server) (row : CodeRow) (db : Db) (userId : Uuid)
    (answer : Uuid → Db → Except HttpException VerifyOut) :
    ∃ out, commitGuess d s row (some (db, userId)) answer = (out, { s with db }, .finished) ∧
      (out = [] ∨ out = [.accepted row]) := by
  simp only [commitGuess, commit_env_some]
  cases answer userId db with
  | error e => exact ⟨[], rfl, Or.inl rfl⟩
  | ok a => exact ⟨[.accepted row], rfl, Or.inr rfl⟩

/-- What a session holds is still stored as it was read. -/
def StoredAs (db : Db) (h : Held) : Prop :=
  db.codeState h.row = some ⟨h.key, h.attempts, false⟩

theorem storedAs_otp {db : Db} {phoneHash : String} {row : OTPCode}
    (h : StoredAs db ⟨.otp phoneHash, .otp row.id, row.attempts⟩) :
    ∃ c, db.otpCodes.find? row.id = some c ∧ c.phoneHash = phoneHash ∧
      c.attempts = row.attempts ∧ c.consumedAt = none := by
  obtain ⟨c, hfind, hc⟩ := Option.map_eq_some_iff.mp h
  simp only [CodeState.mk.injEq, CodeKey.otp.injEq, Option.isSome_eq_false_iff,
    Option.isNone_iff_eq_none] at hc
  exact ⟨c, hfind, hc⟩

theorem storedAs_email {db : Db} {userId : Uuid} {emailHash : String}
    {row : EmailVerificationCode}
    (h : StoredAs db ⟨.email userId emailHash, .email row.id, row.attempts⟩) :
    ∃ c, db.emailVerificationCodes.find? row.id = some c ∧ c.userId = userId ∧
      c.emailHash = emailHash ∧ c.attempts = row.attempts ∧ c.consumedAt = none := by
  obtain ⟨c, hfind, hc⟩ := Option.map_eq_some_iff.mp h
  simp only [CodeState.mk.injEq, CodeKey.email.injEq, Option.isSome_eq_false_iff,
    Option.isNone_iff_eq_none, and_assoc] at hc
  exact ⟨c, hfind, hc⟩

/-- Every step is a move, as long as what the session holds is stored as it was read and, where
    it creates a user, neither the phone nor the id drawn is taken. -/
theorem guess_move {ι : Type} (p : Platform) (calls : ι → VerifyCall) (i : ι) (d : Draws)
    (s : Server) (l : Guessing) (hstored : ∀ h, l.held = some h → StoredAs s.db h)
    (hnew : ∀ phoneHash row, l = .userLoaded phoneHash row none →
      (∀ u ∈ s.db.users.rows, u.phoneHash ≠ phoneHash) ∧ ∀ u ∈ s.db.users.rows, u.id ≠ d.uuid 0) :
    GuessMove p.settings.otpMaxAttempts s.db.codeState l.held (guessStep p calls i d s l).2.2.held
      (guessStep p calls i d s l).2.1.db.codeState (guessStep p calls i d s l).1 := by
  cases l with
  | idle =>
    simp only [guessStep]
    cases hselect : (calls i).select p d.env s.db with
    | error e => exact .pause
    | ok j =>
      obtain ⟨hrow, hattempts, heq⟩ := select_move hselect
      simp only [heq]
      exact .compare hrow hattempts
  | finished => exact .pause
  | judged j =>
    have hheld := hstored j.held rfl
    cases j with
    | otp phoneHash v =>
      obtain ⟨c, hfind, rfl, hattempts, hconsumed⟩ := storedAs_otp hheld
      cases v with
      | wrong row =>
        have hcodes := codeState_otp (countOtpAttempt row s.db) hfind rfl rfl
        simp only [OTPCode.setAttempts, hconsumed, Option.isSome_none] at hcodes
        show GuessMove _ _ _ _ (countOtpAttempt row s.db).codeState _
        rw [hcodes]
        exact .count
      | right row =>
        obtain ⟨user, huser⟩ := loadUserByPhone_total c.phoneHash s.db
        simp only [guessStep, huser]
        exact .pause
    | email user emailHash v =>
      obtain ⟨c, hfind, hid, rfl, hattempts, hconsumed⟩ := storedAs_email hheld
      cases v with
      | wrong row =>
        have hcodes := codeState_email (countEmailAttempt row s.db) hfind rfl rfl
        simp only [EmailVerificationCode.setAttempts, hconsumed, hid, Option.isSome_none] at hcodes
        show GuessMove _ _ _ _ (countEmailAttempt row s.db).codeState _
        rw [hcodes]
        exact .count
      | right row =>
        have hcodes := codeState_email (consumeEmail d.env user row s.db) hfind rfl rfl
        simp only [EmailVerificationCode.setConsumed, hattempts, hid, Option.isSome_some] at hcodes
        obtain ⟨out, hout, haccept⟩ := commitGuess_some d s (.email row.id)
          (consumeEmail d.env user row s.db) user.id (verified p d.env 3)
        simp only [guessStep, hout]
        rw [hcodes]
        exact .consume haccept
  | userLoaded phoneHash row user =>
    obtain ⟨c, hfind, rfl, hattempts, hconsumed⟩ := storedAs_otp (hstored _ rfl)
    obtain ⟨db', userId, hflush, hcodes', hemail⟩ := consumeOtp_some d.env row
      (fun hnone : user = none => (hnew c.phoneHash row (by rw [hnone])).1)
      (fun hnone => (hnew c.phoneHash row (by rw [hnone])).2)
    have hcodes := codeState_otp db' hfind hcodes' hemail
    simp only [OTPCode.setConsumed, hattempts, Option.isSome_some] at hcodes
    obtain ⟨out, hout, haccept⟩ := commitGuess_some d s (.otp row.id) db' userId
      (verified p d.env 2)
    simp only [guessStep, hflush, hout]
    rw [hcodes]
    exact .consume haccept

/-! ## All interleavings -/

/-- A session that has not begun selects no code of a phone, or of a user and an email, while
    another session is between its select and its commit on the same. -/
def Serialised {ι : Type} (p : Platform) (calls : ι → VerifyCall) (c : Conf ι Server Guessing)
    (e : ι × Draws) : Prop :=
  ∀ j, c.sess e.1 = .idle → (calls e.1).select p e.2.env c.shared.db = .ok j →
    ∀ i h, (c.sess i).held = some h → h.key ≠ j.held.key

/-- The id drawn for a new user is not the id of a stored one. -/
def FreshId {ι : Type} (c : Conf ι Server Guessing) (e : ι × Draws) : Prop :=
  ∀ phoneHash row, c.sess e.1 = .userLoaded phoneHash row none →
    ∀ u ∈ c.shared.db.users.rows, u.id ≠ e.2.uuid 0

/-- The invariant of a serialised run. While a session holds a row, the row is stored as it was
    read; while none does, its attempts count every code that was compared with it. -/
structure Counted {ι : Type} (maxAttempts : Nat) (obs : List Guess)
    (codes : CodeRow → Option CodeState) (held : ι → Option Held) : Prop where
  stored : ∀ i h, held i = some h →
    codes h.row = some ⟨h.key, h.attempts, false⟩ ∧ h.attempts < maxAttempts
  serial : ∀ i j h h', held i = some h → held j = some h' → h.key = h'.key → i = j
  busy : ∀ i h, held i = some h →
    obs.count (.compared h.row) ≤ h.attempts + 1 ∧ obs.count (.accepted h.row) = 0
  free : ∀ k st, codes k = some st → st.consumed = false → (∀ i h, held i = some h → h.row ≠ k) →
    obs.count (.compared k) ≤ st.attempts ∧ obs.count (.accepted k) = 0
  bound : ∀ k, obs.count (.compared k) ≤ maxAttempts ∧ obs.count (.accepted k) ≤ 1

section

variable {ι : Type} [DecidableEq ι] {maxAttempts : Nat} {obs : List Guess}
  {codes : CodeRow → Option CodeState} {held : ι → Option Held}

theorem count_compared (obs : List Guess) (r k : CodeRow) :
    (obs ++ [Guess.compared r]).count (Guess.compared k) =
        obs.count (Guess.compared k) + (if r = k then 1 else 0) ∧
      (obs ++ [Guess.compared r]).count (Guess.accepted k) = obs.count (Guess.accepted k) := by
  simp [List.count_append, List.count_singleton]

theorem count_accepted (obs : List Guess) (r k : CodeRow) :
    (obs ++ [Guess.accepted r]).count (Guess.accepted k) =
        obs.count (Guess.accepted k) + (if r = k then 1 else 0) ∧
      (obs ++ [Guess.accepted r]).count (Guess.compared k) = obs.count (Guess.compared k) := by
  simp [List.count_append, List.count_singleton]

theorem update_eq_some {κ α : Type} [DecidableEq κ] {f : κ → Option α} {i j : κ} {o : Option α}
    {a : α} : Function.update f i o j = some a ↔ (j = i ∧ o = some a) ∨ (j ≠ i ∧ f j = some a) := by
  by_cases hji : j = i
  · rw [hji, Function.update_self]
    simp
  · rw [Function.update_of_ne hji]
    simp [hji]

omit [DecidableEq ι] in
/-- No two sessions hold one row. -/
theorem Counted.of_row (hinv : Counted maxAttempts obs codes held) {i j : ι} {h h' : Held}
    (hi : held i = some h) (hj : held j = some h') (hrow : h.row = h'.row) : i = j := by
  have hs := (hinv.stored i h hi).1
  rw [hrow, (hinv.stored j h' hj).1, Option.some.injEq, CodeState.mk.injEq] at hs
  exact hinv.serial i j h h' hi hj hs.1.symm

/-- The session compares its code with a row that no other session holds. -/
theorem Counted.compare {i : ι} {h : Held} (hinv : Counted maxAttempts obs codes held)
    (hstored : codes h.row = some ⟨h.key, h.attempts, false⟩) (hattempts : h.attempts < maxAttempts)
    (hidle : held i = none) (hserial : ∀ j g, held j = some g → g.key ≠ h.key) :
    Counted maxAttempts (obs ++ [.compared h.row]) codes (Function.update held i (some h)) := by
  have hother : ∀ j g, held j = some g → h.row ≠ g.row := by
    intro j g hj hrow
    have hs := (hinv.stored j g hj).1
    rw [← hrow, hstored, Option.some.injEq, CodeState.mk.injEq] at hs
    exact hserial j g hj hs.1.symm
  obtain ⟨hcompared, haccepted⟩ := hinv.free h.row _ hstored rfl fun j g hj => (hother j g hj).symm
  change obs.count (.compared h.row) ≤ h.attempts at hcompared
  -- the sessions after the step: this one, and the others as before
  have hsess : ∀ j g, Function.update held i (some h) j = some g →
      (j = i ∧ g = h) ∨ (j ≠ i ∧ held j = some g) := by
    intro j g hj
    refine (update_eq_some.mp hj).imp_left (And.imp_right fun hg => ?_)
    exact (Option.some.inj hg).symm
  constructor
  case stored =>
    intro j g hj
    rcases hsess j g hj with ⟨-, rfl⟩ | ⟨-, hj⟩
    · exact ⟨hstored, hattempts⟩
    · exact hinv.stored j g hj
  case serial =>
    intro j j' g g' hj hj' hkey
    rcases hsess j g hj with ⟨hji, hg⟩ | ⟨-, hold⟩ <;>
      rcases hsess j' g' hj' with ⟨hji', hg'⟩ | ⟨-, hold'⟩
    · exact hji.trans hji'.symm
    · have hkey' : g'.key = h.key := hkey.symm.trans (congrArg Held.key hg)
      exact absurd hkey' (hserial j' g' hold')
    · have hkey' : g.key = h.key := hkey.trans (congrArg Held.key hg')
      exact absurd hkey' (hserial j g hold)
    · exact hinv.serial j j' g g' hold hold' hkey
  case busy =>
    intro j g hj
    rw [(count_compared obs h.row g.row).1, (count_compared obs h.row g.row).2]
    rcases hsess j g hj with ⟨-, rfl⟩ | ⟨-, hj⟩
    · rw [if_pos rfl]
      exact ⟨by omega, haccepted⟩
    · rw [if_neg (hother j g hj)]
      exact hinv.busy j g hj
  case free =>
    intro k st hk hst hfree
    have hne : h.row ≠ k := hfree i h (Function.update_self _ _ _)
    rw [(count_compared obs h.row k).1, (count_compared obs h.row k).2, if_neg hne]
    refine hinv.free k st hk hst fun j g hj => ?_
    by_cases hji : j = i
    · rw [hji, hidle] at hj
      cases hj
    · exact hfree j g ((Function.update_of_ne hji _ _).trans hj)
  case bound =>
    intro k
    have hbound := hinv.bound k
    rw [(count_compared obs h.row k).1, (count_compared obs h.row k).2]
    split
    · rename_i hk
      rw [hk] at hcompared
      omega
    · exact hbound

/-- The session commits on the row it holds. What it has compared is then counted on the row,
    or the row is consumed and accepted at most once. -/
theorem Counted.commit {i : ι} {h : Held} {st : CodeState} {out : List Guess}
    (hinv : Counted maxAttempts obs codes held) (hheld : held i = some h)
    (hout : out = [] ∨ st.consumed = true ∧ out = [.accepted h.row])
    (hcount : st.consumed = false → h.attempts + 1 ≤ st.attempts) :
    Counted maxAttempts (obs ++ out) (Function.update codes h.row (some st))
      (Function.update held i none) := by
  obtain ⟨hcompared, haccepted⟩ := hinv.busy i h hheld
  have hsess : ∀ j g, Function.update held i none j = some g → held j = some g ∧ h.row ≠ g.row := by
    intro j g hj
    rcases update_eq_some.mp hj with ⟨-, hnone⟩ | ⟨hji, hj⟩
    · cases hnone
    · exact ⟨hj, fun hrow => hji (hinv.of_row hj hheld hrow.symm)⟩
  -- only the row itself can be accepted
  have hobs : ∀ k, (obs ++ out).count (.compared k) = obs.count (.compared k) ∧
      (h.row ≠ k → (obs ++ out).count (.accepted k) = obs.count (.accepted k)) ∧
      (obs ++ out).count (.accepted k) ≤ obs.count (.accepted k) + 1 := by
    intro k
    rcases hout with rfl | ⟨-, rfl⟩
    · simp
    · rw [(count_accepted obs h.row k).1, (count_accepted obs h.row k).2]
      refine ⟨rfl, fun hne => by rw [if_neg hne, Nat.add_zero], ?_⟩
      split <;> omega
  constructor
  case stored =>
    intro j g hj
    obtain ⟨hj, hne⟩ := hsess j g hj
    rw [Function.update_of_ne hne.symm]
    exact hinv.stored j g hj
  case serial =>
    intro j j' g g' hj hj'
    exact hinv.serial j j' g g' (hsess j g hj).1 (hsess j' g' hj').1
  case busy =>
    intro j g hj
    obtain ⟨hj, hne⟩ := hsess j g hj
    rw [(hobs g.row).1, (hobs g.row).2.1 hne]
    exact hinv.busy j g hj
  case free =>
    intro k st' hk hst hfree
    rcases update_eq_some.mp hk with ⟨hkrow, hnew⟩ | ⟨hkrow, hk⟩
    · cases hnew
      rcases hout with rfl | ⟨hconsumed, -⟩
      · rw [hkrow, List.append_nil]
        exact ⟨hcompared.trans (hcount hst), haccepted⟩
      · rw [hst] at hconsumed
        cases hconsumed
    · rw [(hobs k).1, (hobs k).2.1 (Ne.symm hkrow)]
      refine hinv.free k st' hk hst fun j g hj => ?_
      by_cases hji : j = i
      · rw [hji, hheld] at hj
        cases hj
        exact Ne.symm hkrow
      · exact hfree j g ((Function.update_of_ne hji _ _).trans hj)
  case bound =>
    intro k
    rw [(hobs k).1]
    refine ⟨(hinv.bound k).1, ?_⟩
    by_cases hkrow : h.row = k
    · have hle := (hobs k).2.2
      rw [← hkrow, haccepted] at hle
      rw [← hkrow]
      exact hle
    · rw [(hobs k).2.1 hkrow]
      exact (hinv.bound k).2

/-- Every move of a serialised run keeps the count. -/
theorem Counted.move {i : ι} {h' : Option Held} {codes' : CodeRow → Option CodeState}
    {out : List Guess} (hinv : Counted maxAttempts obs codes held)
    (hmove : GuessMove maxAttempts codes (held i) h' codes' out)
    (hserial : held i = none → ∀ h, h' = some h → ∀ j g, held j = some g → g.key ≠ h.key) :
    Counted maxAttempts (obs ++ out) codes' (Function.update held i h') := by
  generalize hi : held i = h0 at hmove hserial
  cases hmove with
  | pause => rwa [← hi, Function.update_eq_self, List.append_nil]
  | compare hstored hattempts =>
    exact hinv.compare hstored hattempts hi (hserial rfl _ rfl)
  | count => exact hinv.commit hi (Or.inl rfl) fun _ => le_refl _
  | consume hout =>
    exact hinv.commit hi (hout.imp id fun h => ⟨rfl, h⟩) fun hst => by cases hst

end

theorem phoneHash_raiseToEmail {user u : User} {domainHash : String} {users : Table User}
    (hu : u ∈ (raiseToEmail user domainHash users).rows) :
    ∃ u0 ∈ users.rows, u0.phoneHash = u.phoneHash := by
  have hdomain : ∀ v ∈ (if user.emailDomainHash = some domainHash then users
      else users.update user.id (User.setDomainHash domainHash)).rows,
      ∃ u0 ∈ users.rows, u0.phoneHash = v.phoneHash := by
    intro v hv
    split at hv
    · exact ⟨v, hv, rfl⟩
    · exact users.exists_of_mem_update User.phoneHash (fun _ => rfl) hv
  unfold raiseToEmail at hu
  dsimp only at hu
  split at hu
  · obtain ⟨v, hv, hphone⟩ := Table.exists_of_mem_update _ User.phoneHash (fun _ => rfl) hu
    obtain ⟨u0, hu0, hphone0⟩ := hdomain v hv
    exact ⟨u0, hu0, hphone0.trans hphone⟩
  · exact hdomain u hu

/-- A user after a step has the phone of a user before it, or of the session that moves. -/
theorem guess_users {ι : Type} (p : Platform) (calls : ι → VerifyCall) (i : ι) (d : Draws)
    (s : Server) (l : Guessing) :
    ∀ u ∈ (guessStep p calls i d s l).2.1.db.users.rows,
      (∃ u0 ∈ s.db.users.rows, u0.phoneHash = u.phoneHash) ∨
        ∃ row user, l = .userLoaded u.phoneHash row user := by
  intro u hu
  cases l with
  | idle =>
    simp only [guessStep] at hu
    split at hu <;> exact Or.inl ⟨u, hu, rfl⟩
  | finished => exact Or.inl ⟨u, hu, rfl⟩
  | judged j =>
    cases j with
    | otp phoneHash v =>
      cases v with
      | wrong row => exact Or.inl ⟨u, hu, rfl⟩
      | right row =>
        simp only [guessStep] at hu
        split at hu <;> exact Or.inl ⟨u, hu, rfl⟩
    | email user emailHash v =>
      cases v with
      | wrong row => exact Or.inl ⟨u, hu, rfl⟩
      | right row =>
        obtain ⟨out, hout, -⟩ := commitGuess_some d s (.email row.id)
          (consumeEmail d.env user row s.db) user.id (verified p d.env 3)
        simp only [guessStep, hout] at hu
        exact Or.inl (phoneHash_raiseToEmail hu)
  | userLoaded phoneHash row user =>
    simp only [guessStep] at hu
    cases hflush : consumeOtp d.env phoneHash row user s.db with
    | none =>
      rw [hflush] at hu
      exact Or.inl ⟨u, hu, rfl⟩
    | some r =>
      obtain ⟨db', userId⟩ := r
      obtain ⟨out, hout, -⟩ := commitGuess_some d s (.otp row.id) db' userId
        (verified p d.env 2)
      rw [hflush, hout] at hu
      change u ∈ db'.users.rows at hu
      cases user with
      | none =>
        obtain ⟨users, hinsert, heq⟩ := Option.bind_eq_some_iff.mp hflush
        cases heq
        rcases (Table.mem_insert hinsert u).mp hu with hmem | rfl
        · exact Or.inl ⟨u, hmem, rfl⟩
        · exact Or.inr ⟨row, none, rfl⟩
      | some user =>
        simp only [consumeOtp] at hflush
        split at hflush
        · cases hflush
          exact Or.inl (s.db.users.exists_of_mem_update User.phoneHash (fun _ => rfl) hu)
        · cases hflush
          exact Or.inl ⟨u, hu, rfl⟩

structure GuessInv {ι : Type} (maxAttempts : Nat) (obs : List Guess)
    (c : Conf ι Server Guessing) : Prop where
  counted : Counted maxAttempts obs c.shared.db.codeState fun i => (c.sess i).held
  newcomer : ∀ i phoneHash row, c.sess i = .userLoaded phoneHash row none →
    ∀ u ∈ c.shared.db.users.rows, u.phoneHash ≠ phoneHash

/-- A session that finds no user has looked right before. -/
theorem userLoaded_none {ι : Type} {p : Platform} {calls : ι → VerifyCall} {i : ι} {d : Draws}
    {s : Server} {l : Guessing} {phoneHash : String} {row : OTPCode}
    (h : (guessStep p calls i d s l).2.2 = .userLoaded phoneHash row none) :
    (guessStep p calls i d s l).2.1 = s ∧ ∀ u ∈ s.db.users.rows, u.phoneHash ≠ phoneHash := by
  have hcommit : ∀ row' flushed answer,
      (commitGuess d s row' flushed answer).2.2 ≠ .userLoaded phoneHash row none := by
    intro row' flushed answer hc
    unfold commitGuess at hc
    split at hc <;> cases hc
  cases l with
  | idle =>
    simp only [guessStep] at h
    split at h <;> cases h
  | finished => cases h
  | judged j =>
    cases j with
    | otp phoneHash' v =>
      cases v with
      | wrong row => cases h
      | right row' =>
        simp only [guessStep] at h ⊢
        split at h
        · cases h
        · rename_i user huser
          cases h
          rcases loadUserByPhone_ok huser with ⟨-, hnew⟩ | ⟨u, hu, -⟩
          · exact ⟨rfl, hnew⟩
          · cases hu
    | email user emailHash v =>
      cases v with
      | wrong row => cases h
      | right row => exact absurd h (hcommit _ _ _)
  | userLoaded phoneHash' row' user => exact absurd h (hcommit _ _ _)

/-- One step of a serialised run. -/
theorem guess_step {ι : Type} [DecidableEq ι] (p : Platform) (calls : ι → VerifyCall)
    (obs : List Guess) (c : Conf ι Server Guessing) (i : ι) (d : Draws)
    (hserial : Serialised p calls c (i, d)) (hfresh : FreshId c (i, d))
    (hinv : GuessInv p.settings.otpMaxAttempts obs c) :
    GuessInv p.settings.otpMaxAttempts (obs ++ (guessStep p calls i d c.shared (c.sess i)).1)
      ((interleave (guessStep p calls)).step (i, d) c).2 := by
  constructor
  · have hmove := guess_move p calls i d c.shared (c.sess i)
      (fun h hh => (hinv.counted.stored i h hh).1)
      fun phoneHash row hl => ⟨hinv.newcomer i phoneHash row hl, hfresh phoneHash row hl⟩
    have hheld : (fun j => (((interleave (guessStep p calls)).step (i, d) c).2.sess j).held) =
        Function.update (fun j => (c.sess j).held) i
          (guessStep p calls i d c.shared (c.sess i)).2.2.held := by
      funext j
      by_cases hji : j = i
      · rw [hji, sess_self, Function.update_self]
      · rw [sess_ne _ _ _ hji, Function.update_of_ne hji]
    rw [hheld]
    refine hinv.counted.move hmove fun hnone h hh j g hj => ?_
    -- the session was idle: it is the select that makes it hold a row
    cases hi : c.sess i with
    | idle =>
      rw [hi] at hh
      simp only [guessStep] at hh
      split at hh
      · cases hh
      · rename_i judged hselect
        cases hh
        exact hserial judged hi hselect j g hj
    | finished => rw [hi] at hh; cases hh
    | judged judged => rw [hi] at hnone; cases hnone
    | userLoaded phoneHash row user => rw [hi] at hnone; cases hnone
  · intro j phoneHash row hj u hu
    by_cases hji : j = i
    · rw [hji, sess_self] at hj
      obtain ⟨hsame, hnew⟩ := userLoaded_none hj
      change u ∈ (guessStep p calls i d c.shared (c.sess i)).2.1.db.users.rows at hu
      rw [hsame] at hu
      exact hnew u hu
    · rw [sess_ne _ _ _ hji] at hj
      rcases guess_users p calls i d c.shared (c.sess i) u hu with
        ⟨u0, hu0, hphone⟩ | ⟨row', user, hi⟩
      · rw [← hphone]
        exact hinv.newcomer j phoneHash row hj u0 hu0
      · -- the other session would be on the same phone
        intro hphone
        refine hji (hinv.counted.serial j i _ _ (congrArg Guessing.held hj)
          (congrArg Guessing.held hi) ?_)
        rw [hphone]

/-- For any number of verification requests, in every interleaving that is serialised on each
    phone and on each user and email, and in which new users get ids not taken: no code row
    is compared with more codes than allowed, and on none is more than one request answered
    with success. -/
theorem guesses_bounded {ι : Type} [DecidableEq ι] (p : Platform) (calls : ι → VerifyCall)
    (sched : List (ι × Draws)) (s : Server)
    (hC : (interleave (guessStep p calls)).Along
      (fun c e => Serialised p calls c e ∧ FreshId c e) sched ⟨s, fun _ => .idle⟩) (k : CodeRow) :
    (observed (guessStep p calls) sched ⟨s, fun _ => .idle⟩).count (.compared k) ≤
        p.settings.otpMaxAttempts ∧
      (observed (guessStep p calls) sched ⟨s, fun _ => .idle⟩).count (.accepted k) ≤ 1 := by
  -- nothing is compared yet, and no session holds a row
  have hcounted : Counted p.settings.otpMaxAttempts [] s.db.codeState
      fun _ : ι => Guessing.idle.held := by
    constructor
    case stored => intro i h hh; cases hh
    case serial => intro i j h h' hh; cases hh
    case busy => intro i h hh; cases hh
    case free => simp
    case bound => simp
  have hstart : GuessInv p.settings.otpMaxAttempts [] ⟨s, fun _ : ι => .idle⟩ :=
    ⟨hcounted, fun i phoneHash row hl => by cases hl⟩
  have hend := observed_inv _ hstart
    (fun os c i d he hinv => guess_step p calls os c i d he.1 he.2 hinv) sched hC
  exact hend.counted.bound k

/-- The session has taken its first step. -/
def Guessing.begun : Guessing → Prop
  | idle => False
  | _ => True

/-- The session is between its select and its commit. -/
def Guessing.busy (l : Guessing) : Prop := l.held.isSome

instance : DecidablePred Guessing.begun := fun l => by
  cases l <;> unfold Guessing.begun <;> infer_instance

instance : DecidablePred Guessing.busy := fun _ => inferInstanceAs (Decidable (_ = true))

/-- Sessions one after the other are serialised, whatever they verify. -/
theorem serialised_of_alone {ι : Type} {p : Platform} {calls : ι → VerifyCall}
    {c : Conf ι Server Guessing} {e : ι × Draws} (h : Alone Guessing.begun Guessing.busy c e) :
    Serialised p calls c e := by
  intro j hidle _ i g hheld
  refine absurd ?_ (h (by rw [hidle]; exact id) i)
  unfold Guessing.busy
  rw [hheld]
  rfl

/-- An OTP for a phone without a user. -/
def otpServer : Server :=
  .start { smallDb with
    otpCodes := ⟨[⟨30, "+15551234567", "000000", 0, minutes 5, none, 0⟩], by decide⟩ }

/-- A wrong guess and a right one. -/
def twoGuesses : Bool → VerifyCall
  | true => .otp "+15551234567" "111111"
  | false => .otp "+15551234567" "000000"

/-- The right guess is selected after the wrong one is counted. -/
theorem guesses_in_turn :
    (observed (guessStep smallPlatform twoGuesses)
      [(true, drawsAt 0 50), (true, drawsAt 1 50), (false, drawsAt 2 51), (false, drawsAt 3 51),
        (false, drawsAt 4 51)] ⟨otpServer, fun _ => .idle⟩).count (.compared (.otp 30)) ≤ 3 ∧
    (observed (guessStep smallPlatform twoGuesses)
      [(true, drawsAt 0 50), (true, drawsAt 1 50), (false, drawsAt 2 51), (false, drawsAt 3 51),
        (false, drawsAt 4 51)] ⟨otpServer, fun _ => .idle⟩).count (.accepted (.otp 30)) ≤ 1 := by
  refine guesses_bounded smallPlatform twoGuesses _ otpServer ?_ (.otp 30)
  refine ⟨⟨serialised_of_alone (by unfold Alone; decide), ?_⟩,
    ⟨serialised_of_alone (by unfold Alone; decide), ?_⟩,
    ⟨serialised_of_alone (by unfold Alone; decide), ?_⟩,
    ⟨serialised_of_alone (by unfold Alone; decide), ?_⟩,
    ⟨serialised_of_alone (by unfold Alone; decide), ?_⟩, trivial⟩
  all_goals intro _ _ _; decide

/-- All four sessions select before one commits; then two of them go on to the end. -/
def fourSelects : List (Fin 4 × Draws) :=
  [(0, drawsAt 0 50), (1, drawsAt 1 51), (2, drawsAt 2 52), (3, drawsAt 3 53),
    (0, drawsAt 4 50), (0, drawsAt 5 50), (1, drawsAt 6 51), (1, drawsAt 7 51)]

example :
    let obs := observed (guessStep smallPlatform fun _ => .otp "+15551234567" "000000") fourSelects
      ⟨otpServer, fun _ => .idle⟩
    obs.count (.compared (.otp 30)) = 4 ∧ obs.count (.accepted (.otp 30)) = 2 := by decide

/-- The row is then compared with four codes, and two requests are answered with success. -/
theorem guesses_race :
    ¬ ∀ (p : Platform) (calls : Fin 4 → VerifyCall) (sched : List (Fin 4 × Draws)) (s : Server)
      (k : CodeRow),
      (observed (guessStep p calls) sched ⟨s, fun _ => .idle⟩).count (.compared k) ≤
          p.settings.otpMaxAttempts ∧
        (observed (guessStep p calls) sched ⟨s, fun _ => .idle⟩).count (.accepted k) ≤ 1 := by
  intro hall
  have hone := hall smallPlatform (fun _ => .otp "+15551234567" "000000") fourSelects otpServer
    (.otp 30)
  revert hone
  decide

end LinkedOut
