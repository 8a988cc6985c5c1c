/-
  The endpoints of the one-time codes serve boxes: one for each phone, and one for each user,
  with an address for each email.

  `otpBoxes` and `emailBoxes` are the two flows; each carries the proof that a request of its
  endpoints is an event of its owner's box, and that every other request leaves the boxes
  alone. `codes_are_boxes`: so every owner is answered as by a box that knows their own
  requests alone. `sent_code_accepted`: a code that was sent is accepted, whatever the rest of
  the world asks in between.
-/
import LinkedOut.Codes.Boxes
import LinkedOut.History
import LinkedOut.RateLimit

namespace LinkedOut

open OneTimeCode

/-! ## The two flows -/

namespace Flow

variable {γ κ : Type} [Record γ] [OneTimeCode γ κ] [DecidableEq κ] {p : Platform}
  (F : Flow p γ κ)

/-- The code asked for has an id that is not in use, and it is stamped later than every code
    of its key. -/
def Issues (s : Server) (e : Request × Draws) : Prop :=
  ∀ row ∈ F.asked e s.db, ∀ c ∈ (F.codes s.db).rows,
    pk c ≠ pk row ∧ (key c = key row → createdAt c < createdAt row)

instance (s : Server) (e : Request × Draws) : Decidable (F.Issues s e) :=
  inferInstanceAs (Decidable (∀ row ∈ F.asked e s.db, ∀ c ∈ (F.codes s.db).rows,
    pk c ≠ pk row ∧ (key c = key row → createdAt c < createdAt row)))

end Flow

/-- What the request draws from outside: ids that are not in use, and stamps in order. -/
def CleanDraws (p : Platform) (s : Server) (e : Request × Draws) : Prop :=
  (otpFlow p).Issues s e ∧ (emailFlow p).Issues s e ∧ FreshUserId s e

instance (p : Platform) (s : Server) (e : Request × Draws) : Decidable (CleanDraws p s e) :=
  inferInstanceAs (Decidable (_ ∧ _ ∧ ∀ u ∈ s.db.users.rows, u.id ≠ e.2.uuid 0))

def CodesInOrder (db : Db) : Prop :=
  InStampOrder db.otpCodes ∧ InStampOrder db.emailVerificationCodes

theorem codesInOrder_step {p : Platform} {s : Server} {e : Request × Draws}
    (hclean : CleanDraws p s e) (h : CodesInOrder s.db) :
    CodesInOrder ((Api p).step e s).2.db :=
  ⟨((otpFlow p).step e s).inStampOrder (fun row hrow c hc => (hclean.1 row hrow c hc).2) h.1,
    ((emailFlow p).step e s).inStampOrder (fun row hrow c hc => (hclean.2.1 row hrow c hc).2) h.2⟩

/-- The box of the owner answers the event as the API does, and the API leaves the other
    boxes alone. -/
def AnsweredByBox {ω ι : Type} [DecidableEq ω] [DecidableEq ι] (rules : BoxRules Time)
    (texts : BoxTexts) (boxes : Db → ω → CodeBox ι String Time) (owner : ω)
    (ev : BoxEvent ι String Time) (db : Db) (out : Response) (db' : Db) : Prop :=
  ((Box rules).step ev (boxes db owner)).1.render texts = out.bare ∧
    boxes db' = Function.update (boxes db) owner ((Box rules).step ev (boxes db owner)).2

/-- A flow whose endpoints serve the boxes of the owners `ω`: a request that concerns none
    leaves them all as they were, and one that concerns an owner is answered by the owner's
    box and leaves the others alone. -/
structure BoxFlow (p : Platform) (ω ι : Type) [DecidableEq ω] [DecidableEq ι] where
  rules : BoxRules Time
  texts : BoxTexts
  boxes : Db → ω → CodeBox ι String Time
  asked : Request × Draws → Db → Option (ω × BoxEvent ι String Time)
  idle : ∀ e s, asked e s.db = none → boxes ((Api p).step e s).2.db = boxes s.db
  step : ∀ e s owner ev, CleanDraws p s e → CodesInOrder s.db → asked e s.db = some (owner, ev) →
    AnsweredByBox rules texts boxes owner ev s.db ((Api p).step e s).1 ((Api p).step e s).2.db

/-- `enforce_rate_limit` and its translation. -/
theorem limit_cases {α : Type} (matching : List α) (createdAt : α → Time) (now : Time)
    (windowMinutes maxRequests maxAttempts : Nat) (texts : BoxTexts)
    (hwindow : texts.windowMinutes = windowMinutes) :
    (Full ⟨minutes windowMinutes, maxRequests, maxAttempts⟩ now (matching.map createdAt) ∧
      orTooManyRequests texts.limited
        (enforceRateLimit matching createdAt now windowMinutes maxRequests) =
          .error texts.tooManyRequests) ∨
    (¬ Full ⟨minutes windowMinutes, maxRequests, maxAttempts⟩ now (matching.map createdAt) ∧
      orTooManyRequests texts.limited
        (enforceRateLimit matching createdAt now windowMinutes maxRequests) = .ok ()) := by
  subst hwindow
  rw [enforceRateLimit_eq]
  by_cases hfull : maxRequests ≤ recent (now - minutes texts.windowMinutes) (matching.map createdAt)
  · exact Or.inl ⟨hfull, by rw [if_pos hfull]; rfl⟩
  · exact Or.inr ⟨hfull, by rw [if_neg hfull]; rfl⟩

/-! ## The boxes of the phones -/

def otpRules (p : Platform) : BoxRules Time :=
  ⟨minutes p.settings.otpRateLimitWindowMinutes, p.settings.otpRateLimitMaxRequests,
    p.settings.otpMaxAttempts⟩

def otpTexts (p : Platform) : BoxTexts where
  limited := "too many OTP requests for this phone number, try again later"
  missing := "no pending OTP for this phone"
  expired := "OTP expired"
  windowMinutes := p.settings.otpRateLimitWindowMinutes

/-- The box of a phone has one address. -/
def otpBox : Table OTPCode → String → CodeBox Unit String Time :=
  boxOf (Equiv.prodPUnit String).symm

/-- What a request asks of the box of a phone. -/
def otpEvent (p : Platform) (e : Request × Draws) : Option (String × BoxEvent Unit String Time) :=
  match e.1 with
  | .requestOtp phone =>
    ((hashPhone p phone).map fun phoneHash =>
      (phoneHash, BoxEvent.request () (e.2.now 0) (e.2.now 2)
        (hashCode p (generateNumericCode p.settings.otpLength e.2.random))
        (e.2.now 1 + minutes p.settings.otpExpireMinutes))).toOption
  | .verifyOtp phone code =>
    ((hashPhone p phone).map fun phoneHash =>
      (phoneHash, BoxEvent.submit () (e.2.now 0) (hashCode p code))).toOption
  | _ => none

/-- `request_otp`, with an id that is not in use: it is refused by the limit, or it stores the
    code. -/
theorem requestOtp_cases {p : Platform} {d : Draws} {phone phoneHash : String} {db : Db}
    (hphone : hashPhone p phone = .ok phoneHash) (hid : ∀ c ∈ db.otpCodes.rows, c.id ≠ d.uuid 0) :
    (Full (otpRules p) (d.now 0) (otpBox db.otpCodes phoneHash).stamps ∧
      requestOtp p d.env phone db = .error (otpTexts p).tooManyRequests) ∨
    (¬ Full (otpRules p) (d.now 0) (otpBox db.otpCodes phoneHash).stamps ∧
      ∃ otpCodes, db.otpCodes.insert (newOtpCode p d.env phoneHash) = some otpCodes ∧
        requestOtp p d.env phone db = .ok ({ db with otpCodes },
          { expiresInSeconds := p.settings.otpExpireMinutes * 60 })) := by
  unfold requestOtp
  rw [hphone]
  rcases limit_cases (db.otpCodes.select fun c => c.phoneHash == phoneHash) OTPCode.createdAt
    (d.now 0) _ _ p.settings.otpMaxAttempts (otpTexts p) rfl with ⟨hfull, hlimit⟩ | ⟨hfree, hlimit⟩
  · refine Or.inl ⟨hfull, ?_⟩
    simp only [orUnprocessable, Except.mapError, ok_bind]
    exact congrArg (· >>= _) hlimit
  · obtain ⟨otpCodes, hinsert⟩ : ∃ otpCodes,
        db.otpCodes.insert (newOtpCode p d.env phoneHash) = some otpCodes :=
      ⟨_, dif_pos ⟨rfl, fun c hc => beq_eq_false_iff_ne.mpr (hid c hc)⟩⟩
    refine Or.inr ⟨hfree, otpCodes, hinsert, ?_⟩
    simp only [orUnprocessable, Except.mapError, ok_bind, hinsert]
    exact congrArg (· >>= _) hlimit

/-- A login ends with the user's row, of the phone tier at least. -/
theorem Login.find? {env : Env} {phoneHash : String} {users users' : Table User} {userId : Uuid}
    (h : Login env phoneHash users users' userId) :
    ∃ user, users'.find? userId = some user ∧
      tierRank .phone ≤ tierRank user.verificationTier := by
  cases h with
  | signup _ hinsert => exact ⟨_, (Table.find?_insert hinsert _).trans (if_pos rfl), le_rfl⟩
  | @raise user huser =>
    exact ⟨_, users.find?_update_self _ ((users.find?_eq_some _ _).mpr ⟨huser, rfl⟩), le_rfl⟩
  | @again user huser _ htier =>
    refine ⟨user, (users.find?_eq_some _ _).mpr ⟨huser, rfl⟩, ?_⟩
    revert htier
    cases user.verificationTier <;> decide

/-- A right OTP is answered with the tokens of a user of the phone tier. -/
theorem verifyOtp_verified {p : Platform} {d : Draws} {phone phoneHash code : String}
    {db db' : Db} {row : OTPCode} {out : Except HttpException VerifyOut}
    (hphone : hashPhone p phone = .ok phoneHash)
    (hjudge : judgeOtp p d.env phoneHash code db = .ok (.right row))
    (h : verifyOtp p d.env phone code db = .ok (db', out)) :
    ∃ user, db'.users.find? user.id = some user ∧
      tierRank .phone ≤ tierRank user.verificationTier ∧ out = verified p d.env 2 user.id db' := by
  unfold verifyOtp at h
  rw [hphone] at h
  simp only [orUnprocessable, Except.mapError, ok_bind, hjudge] at h
  obtain ⟨user, huser, h⟩ := bind_ok h
  obtain ⟨⟨db₁, userId⟩, hcommit, h⟩ := bind_ok h
  cases h
  obtain ⟨users, hlogin, rfl⟩ := consumeOtp_login huser (commit_ok hcommit).1
  obtain ⟨u, hfind, hu⟩ := hlogin.find?
  have hid : u.id = userId := ((users.find?_eq_some _ _).mp hfind).2
  exact ⟨u, hid ▸ hfind, hu, by rw [hid]⟩

/-- The row of the user is there, so the tokens are minted. -/
theorem verified_eq {p : Platform} {env : Env} {i : Nat} {userId : Uuid} {db : Db} {user : User}
    (h : db.users.find? userId = some user) :
    verified p env i userId db = .ok
      { accessToken := createAccessToken p (env.now i) user.id user.verificationTier
        refreshToken := createRefreshToken p (env.now (i + 1)) user.id user.verificationTier
        userId := user.id
        verificationTier := user.verificationTier } := by
  unfold verified
  rw [h]

/-- `verify_otp`, with the id of a new user free: the verdict is committed and answered. -/
theorem verifyOtp_settled {p : Platform} {d : Draws} {phone phoneHash : String} {s : Server}
    (hphone : hashPhone p phone = .ok phoneHash) (hfresh : ∀ u ∈ s.db.users.rows, u.id ≠ d.uuid 0)
    (code : String) :
    (handle p d.env (.verifyOtp phone code) s).1.bare =
        verdictAnswer p.settings.otpMaxAttempts (judgeOtp p d.env phoneHash code s.db) ∧
      (handle p d.env (.verifyOtp phone code) s).2.db.otpCodes =
        settled (d.now 1) s.db.otpCodes (judgeOtp p d.env phoneHash code s.db) := by
  simp only [handle]
  cases hjudge : judgeOtp p d.env phoneHash code s.db with
  | error e =>
    have hout : verifyOtp p d.env phone code s.db = .error e := by
      unfold verifyOtp
      rw [hphone]
      simp only [orUnprocessable, Except.mapError, ok_bind, hjudge]
      rfl
    rw [hout]
    exact ⟨rfl, rfl⟩
  | ok v =>
    cases v with
    | wrong row =>
      have hout : verifyOtp p d.env phone code s.db = .ok (countOtpAttempt row s.db,
          .error (incorrectCode p.settings.otpMaxAttempts (row.attempts + 1))) := by
        unfold verifyOtp
        rw [hphone]
        simp only [orUnprocessable, Except.mapError, ok_bind, hjudge, commit_env_some]
        rfl
      rw [hout]
      exact ⟨rfl, rfl⟩
    | right row =>
      obtain ⟨db', out, hout, hcodes⟩ := verifyOtp_right hphone hjudge hfresh
      obtain ⟨user, hfind, -, rfl⟩ := verifyOtp_verified hphone hjudge hout
      rw [hout, verified_eq hfind]
      exact ⟨rfl, hcodes⟩

theorem otpEvent_none {p : Platform} {e : Request × Draws} (h : otpEvent p e = none) :
    otpAsked p e = none ∧ otpSubmitted p e = none := by
  obtain ⟨req, d⟩ := e
  cases req with
  | requestOtp phone =>
    refine ⟨?_, rfl⟩
    cases hphone : hashPhone p phone with
    | error e => simp only [otpAsked, hphone]; rfl
    | ok phoneHash => simp only [otpEvent, hphone] at h; cases h
  | verifyOtp phone code =>
    refine ⟨rfl, ?_⟩
    cases hphone : hashPhone p phone with
    | error e => simp only [otpSubmitted, hphone]; rfl
    | ok phoneHash => simp only [otpEvent, hphone] at h; cases h
  | _ => exact ⟨rfl, rfl⟩

theorem requestOtp_box {p : Platform} {d : Draws} {phone phoneHash : String} {s : Server}
    (hphone : hashPhone p phone = .ok phoneHash)
    (hid : ∀ c ∈ s.db.otpCodes.rows, c.id ≠ d.uuid 0) :
    AnsweredByBox (otpRules p) (otpTexts p) (fun db => otpBox db.otpCodes) phoneHash
      (.request () (d.now 0) (d.now 2)
        (hashCode p (generateNumericCode p.settings.otpLength d.random))
        (d.now 1 + minutes p.settings.otpExpireMinutes)) s.db
      (handle p d.env (.requestOtp phone) s).1 (handle p d.env (.requestOtp phone) s).2.db := by
  unfold AnsweredByBox
  simp only [handle]
  rcases requestOtp_cases hphone hid with ⟨hfull, hout⟩ | ⟨hfree, otpCodes, hinsert, hout⟩
  · have hbox := boxOf_limited hfull () (d.now 2)
      (hashCode p (generateNumericCode p.settings.otpLength d.random))
      (d.now 1 + minutes p.settings.otpExpireMinutes)
    rw [hout]
    refine ⟨?_, ?_⟩
    · exact congrArg (fun r => r.1.render (otpTexts p)) hbox
    · refine (Function.update_eq_self phoneHash _).symm.trans ?_
      exact congrArg (fun r => Function.update (otpBox s.db.otpCodes) phoneHash r.2) hbox.symm
  · obtain ⟨hsent, hafter⟩ := boxOf_sent (d.now 0) hinsert rfl rfl rfl hfree
    rw [hout]
    exact ⟨congrArg (BoxAnswer.render (otpTexts p)) hsent, hafter⟩

theorem verifyOtp_box {p : Platform} {d : Draws} {phone phoneHash code : String} {s : Server}
    (hphone : hashPhone p phone = .ok phoneHash) (horder : InStampOrder s.db.otpCodes)
    (hfresh : ∀ u ∈ s.db.users.rows, u.id ≠ d.uuid 0) :
    AnsweredByBox (otpRules p) (otpTexts p) (fun db => otpBox db.otpCodes) phoneHash
      (.submit () (d.now 0) (hashCode p code)) s.db
      (handle p d.env (.verifyOtp phone code) s).1
      (handle p d.env (.verifyOtp phone code) s).2.db := by
  obtain ⟨hout, hcodes⟩ := verifyOtp_settled hphone hfresh code
  obtain ⟨hanswer, hafter⟩ := boxOf_submitted (Equiv.prodPUnit String).symm horder
    (otpRules p) (otpTexts p) (d.place 0) (d.now 0) (d.now 1) (hashCode p code) phoneHash ()
  refine ⟨hanswer.trans hout.symm, ?_⟩
  exact (congrArg otpBox hcodes).trans hafter

/-- The endpoints of the OTPs. -/
def otpBoxes (p : Platform) : BoxFlow p String Unit where
  rules := otpRules p
  texts := otpTexts p
  boxes db := otpBox db.otpCodes
  asked e _ := otpEvent p e
  idle e s h := by
    obtain ⟨hasked, hsubmitted⟩ := otpEvent_none h
    have hstep := (otpFlow p).step e s
    change FlowStep _ _ _ _ (otpAsked p e) (otpSubmitted p e) at hstep
    rw [hasked, hsubmitted] at hstep
    exact congrArg otpBox hstep.eq_of_idle
  step e s owner ev hclean horder h := by
    obtain ⟨req, d⟩ := e
    cases req with
    | requestOtp phone =>
      cases hphone : hashPhone p phone with
      | error e => simp only [otpEvent, hphone] at h; cases h
      | ok phoneHash =>
        simp only [otpEvent, hphone] at h
        cases h
        refine requestOtp_box hphone fun c hc => (hclean.1 (newOtpCode p d.env owner) ?_ c hc).1
        change newOtpCode p d.env owner ∈ otpAsked p (.requestOtp phone, d)
        simp only [otpAsked, hphone]
        rfl
    | verifyOtp phone code =>
      cases hphone : hashPhone p phone with
      | error e => simp only [otpEvent, hphone] at h; cases h
      | ok phoneHash =>
        simp only [otpEvent, hphone] at h
        cases h
        exact verifyOtp_box hphone horder.1 hclean.2.2
    | _ => cases h

/-! ## The boxes of the users -/

def emailRules (p : Platform) : BoxRules Time :=
  ⟨minutes p.settings.emailRateLimitWindowMinutes, p.settings.emailRateLimitMaxRequests,
    p.settings.otpMaxAttempts⟩

def emailTexts (p : Platform) : BoxTexts where
  limited := "too many verification requests, try again later"
  missing := "no pending verification for this email"
  expired := "verification code expired"
  windowMinutes := p.settings.emailRateLimitWindowMinutes

/-- The addresses of the box of a user are the hashes of emails. -/
def emailBox : Table EmailVerificationCode → Uuid → CodeBox String String Time :=
  boxOf (Equiv.refl (Uuid × String))

/-- What a request asks of the box of a user, once the gate has let it through. -/
def emailEvent (p : Platform) (e : Request × Draws) (db : Db) :
    Option (Uuid × BoxEvent String String Time) :=
  match e.1 with
  | .requestEmailVerification email token =>
    match requireTier p e.2.env .phone token db, submittedEmailHash p email with
    | .ok user, .ok emailHash =>
      some (user.id, .request emailHash (e.2.now 1) (e.2.now 3)
        (hashCode p (generateNumericCode p.settings.emailCodeLength e.2.random))
        (e.2.now 2 + minutes p.settings.emailCodeExpireMinutes))
    | _, _ => none
  | .verifyEmail email code token =>
    match requireTier p e.2.env .phone token db, submittedEmailHash p email with
    | .ok user, .ok emailHash => some (user.id, .submit emailHash (e.2.now 1) (hashCode p code))
    | _, _ => none
  | _ => none

/-- `request_email_verification` behind the gate, with an id that is not in use. -/
theorem requestEmail_cases {p : Platform} {d : Draws} {email emailHash : String}
    {token : Option String} {db : Db} {user : User}
    (hgate : requireTier p d.env .phone token db = .ok user)
    (hemail : submittedEmailHash p email = .ok emailHash)
    (hid : ∀ c ∈ db.emailVerificationCodes.rows, c.id ≠ d.uuid 0) :
    (Full (emailRules p) (d.now 1) (emailBox db.emailVerificationCodes user.id).stamps ∧
      requestEmailVerification p d.env email token db = .error (emailTexts p).tooManyRequests) ∨
    (¬ Full (emailRules p) (d.now 1) (emailBox db.emailVerificationCodes user.id).stamps ∧
      ∃ domain emailVerificationCodes,
        db.emailVerificationCodes.insert (newEmailCode p d.env user.id emailHash domain) =
          some emailVerificationCodes ∧
        requestEmailVerification p d.env email token db = .ok ({ db with emailVerificationCodes },
          { expiresInSeconds := p.settings.emailCodeExpireMinutes * 60 })) := by
  obtain ⟨domain, hdomain, hhash⟩ := bind_ok hemail
  cases hhash
  unfold requestEmailVerification
  rw [hgate]
  rcases limit_cases (db.emailVerificationCodes.select fun c => c.userId == user.id)
    EmailVerificationCode.createdAt (d.now 1) _ _ p.settings.otpMaxAttempts (emailTexts p) rfl with
    ⟨hfull, hlimit⟩ | ⟨hfree, hlimit⟩
  · refine Or.inl ⟨hfull, ?_⟩
    simp only [hdomain, ok_bind]
    exact congrArg (· >>= _) hlimit
  · obtain ⟨codes, hinsert⟩ : ∃ codes, db.emailVerificationCodes.insert
        (newEmailCode p d.env user.id (hashEmail p (normalizeEmail p email)) domain) = some codes :=
      ⟨_, dif_pos ⟨rfl, fun c hc => beq_eq_false_iff_ne.mpr (hid c hc)⟩⟩
    refine Or.inr ⟨hfree, domain, codes, hinsert, ?_⟩
    simp only [hdomain, ok_bind, hinsert]
    exact congrArg (· >>= _) hlimit

/-- `verify_email` behind the gate: the verdict is committed and answered, and a right code
    with the tokens of the user. -/
theorem verifyEmail_settled {p : Platform} {d : Draws} {email emailHash : String}
    {token : Option String} {s : Server} {user : User}
    (hgate : requireTier p d.env .phone token s.db = .ok user)
    (hemail : submittedEmailHash p email = .ok emailHash) (code : String) :
    (handle p d.env (.verifyEmail email code token) s).1.bare =
        verdictAnswer p.settings.otpMaxAttempts (judgeEmail p d.env user.id emailHash code s.db) ∧
      (handle p d.env (.verifyEmail email code token) s).2.db.emailVerificationCodes =
        settled (d.now 2) s.db.emailVerificationCodes
          (judgeEmail p d.env user.id emailHash code s.db) := by
  simp only [handle, verifyEmail, hgate, hemail, ok_bind]
  cases hjudge : judgeEmail p d.env user.id emailHash code s.db with
  | error e => exact ⟨rfl, rfl⟩
  | ok v =>
    cases v with
    | wrong row => exact ⟨rfl, rfl⟩
    | right row =>
      have hlater : Table.Moved User.Later s.db.users
          (raiseToEmail user row.domainHash s.db.users) :=
        raiseToEmail_later (requireTier_ok hgate).1
      obtain ⟨raised, hfind, -⟩ := hlater.find? (fun h => h.id) (requireTier_ok hgate).1
      simp only [ok_bind, commit_env_some]
      change Response.bare (Except.map Payload.verified
        (verified p d.env 3 user.id (consumeEmail d.env user row s.db))) = _ ∧ _
      rw [verified_eq hfind]
      exact ⟨rfl, rfl⟩

theorem requestEmail_box {p : Platform} {d : Draws} {email emailHash : String}
    {token : Option String} {s : Server} {user : User}
    (hgate : requireTier p d.env .phone token s.db = .ok user)
    (hemail : submittedEmailHash p email = .ok emailHash)
    (hid : ∀ c ∈ s.db.emailVerificationCodes.rows, c.id ≠ d.uuid 0) :
    AnsweredByBox (emailRules p) (emailTexts p) (fun db => emailBox db.emailVerificationCodes)
      user.id (.request emailHash (d.now 1) (d.now 3)
        (hashCode p (generateNumericCode p.settings.emailCodeLength d.random))
        (d.now 2 + minutes p.settings.emailCodeExpireMinutes)) s.db
      (handle p d.env (.requestEmailVerification email token) s).1
      (handle p d.env (.requestEmailVerification email token) s).2.db := by
  unfold AnsweredByBox
  simp only [handle]
  rcases requestEmail_cases hgate hemail hid with
    ⟨hfull, hout⟩ | ⟨hfree, domain, codes, hinsert, hout⟩
  · have hbox := boxOf_limited hfull emailHash (d.now 3)
      (hashCode p (generateNumericCode p.settings.emailCodeLength d.random))
      (d.now 2 + minutes p.settings.emailCodeExpireMinutes)
    rw [hout]
    refine ⟨congrArg (fun r => r.1.render (emailTexts p)) hbox, ?_⟩
    refine (Function.update_eq_self user.id _).symm.trans ?_
    exact congrArg (fun r => Function.update (emailBox s.db.emailVerificationCodes) user.id r.2)
      hbox.symm
  · obtain ⟨hsent, hafter⟩ := boxOf_sent (d.now 1) hinsert rfl rfl rfl hfree
    rw [hout]
    exact ⟨congrArg (BoxAnswer.render (emailTexts p)) hsent, hafter⟩

theorem verifyEmail_box {p : Platform} {d : Draws} {email emailHash code : String}
    {token : Option String} {s : Server} {user : User}
    (hgate : requireTier p d.env .phone token s.db = .ok user)
    (hemail : submittedEmailHash p email = .ok emailHash)
    (horder : InStampOrder s.db.emailVerificationCodes) :
    AnsweredByBox (emailRules p) (emailTexts p) (fun db => emailBox db.emailVerificationCodes)
      user.id (.submit emailHash (d.now 1) (hashCode p code)) s.db
      (handle p d.env (.verifyEmail email code token) s).1
      (handle p d.env (.verifyEmail email code token) s).2.db := by
  obtain ⟨hout, hcodes⟩ := verifyEmail_settled hgate hemail code
  obtain ⟨hanswer, hafter⟩ := boxOf_submitted (Equiv.refl (Uuid × String)) horder
    (emailRules p) (emailTexts p) (d.place 0) (d.now 1) (d.now 2) (hashCode p code) user.id
    emailHash
  exact ⟨hanswer.trans hout.symm, (congrArg emailBox hcodes).trans hafter⟩

theorem emailEvent_none {p : Platform} {e : Request × Draws} {db : Db}
    (h : emailEvent p e db = none) : emailAsked p e db = none ∧ emailSubmitted p e db = none := by
  obtain ⟨req, d⟩ := e
  cases req with
  | requestEmailVerification email token =>
    refine ⟨?_, rfl⟩
    cases hgate : requireTier p d.env .phone token db with
    | error e => simp only [emailAsked, hgate]
    | ok user =>
      cases hemail : submittedEmailHash p email with
      | error e => simp only [emailAsked, hgate, hemail]
      | ok emailHash => simp only [emailEvent, hgate, hemail] at h; cases h
  | verifyEmail email code token =>
    refine ⟨rfl, ?_⟩
    cases hgate : requireTier p d.env .phone token db with
    | error e => simp only [emailSubmitted, hgate]
    | ok user =>
      cases hemail : submittedEmailHash p email with
      | error e => simp only [emailSubmitted, hgate, hemail]
      | ok emailHash => simp only [emailEvent, hgate, hemail] at h; cases h
  | _ => exact ⟨rfl, rfl⟩

/-- The endpoints of the corporate emails. -/
def emailBoxes (p : Platform) : BoxFlow p Uuid String where
  rules := emailRules p
  texts := emailTexts p
  boxes db := emailBox db.emailVerificationCodes
  asked := emailEvent p
  idle e s h := by
    obtain ⟨hasked, hsubmitted⟩ := emailEvent_none h
    have hstep := (emailFlow p).step e s
    change FlowStep _ _ _ _ (emailAsked p e s.db) (emailSubmitted p e s.db) at hstep
    rw [hasked, hsubmitted] at hstep
    exact congrArg emailBox hstep.eq_of_idle
  step e s owner ev hclean horder h := by
    obtain ⟨req, d⟩ := e
    cases req with
    | requestEmailVerification email token =>
      simp only [emailEvent] at h
      split at h
      · rename_i user emailHash hgate hemail
        cases h
        obtain ⟨domain, hdomain, hhash⟩ := bind_ok hemail
        refine requestEmail_box hgate hemail fun c hc =>
          (hclean.2.1 (newEmailCode p d.env user.id emailHash domain) ?_ c hc).1
        change _ ∈ emailAsked p (.requestEmailVerification email token, d) s.db
        simp only [emailAsked, hgate, hemail, orUnprocessable_ok hdomain]
        rfl
      · cases h
    | verifyEmail email code token =>
      simp only [emailEvent] at h
      split at h
      · rename_i user emailHash hgate hemail
        cases h
        exact verifyEmail_box hgate hemail horder.2
      · cases h
    | _ => cases h

/-! ## Whole runs -/

theorem codesInOrder_exec {p : Platform} {es : List (Request × Draws)} {s : Server}
    (horder : CodesInOrder s.db) (hclean : (Api p).Along (CleanDraws p) es s) :
    CodesInOrder ((Api p).exec es s).db :=
  (Api p).exec_inv (I := fun t => CodesInOrder t.db)
    (fun _ _ hclean horder => codesInOrder_step hclean horder) es s horder hclean

namespace BoxFlow

variable {p : Platform} {ω ι : Type} [DecidableEq ω] [DecidableEq ι] (F : BoxFlow p ω ι)

/-- What a request asks of the box of one owner. -/
def of (owner : ω) (s : Server) (e : Request × Draws) : Option (BoxEvent ι String Time) :=
  (F.asked e s.db).bind fun r => if r.1 = owner then some r.2 else none

/-- In the run the owner is answered as by a box that knows the owner's requests alone, and
    what is stored for the owner in the end is what that box holds. -/
def Serves (es : List (Request × Draws)) (s : Server) (owner : ω) : Prop :=
  ((Box F.rules).outputs (Machine.asked (F.of owner) ((Api p).trace es s))
      (F.boxes s.db owner)).map (BoxAnswer.render F.texts) =
    (Machine.answered (F.of owner) ((Api p).trace es s)).map Response.bare ∧
  (Box F.rules).exec (Machine.asked (F.of owner) ((Api p).trace es s)) (F.boxes s.db owner) =
    F.boxes ((Api p).exec es s).db owner

variable {F} {owner : ω} {s : Server} {e : Request × Draws}

theorem asked_of {ev : BoxEvent ι String Time} (h : F.of owner s e = some ev) :
    F.asked e s.db = some (owner, ev) := by
  obtain ⟨⟨o, ev'⟩, hasked, hown⟩ := Option.bind_eq_some_iff.mp h
  dsimp only at hown
  split at hown
  · rename_i ho
    cases hown
    rw [hasked, ho]
  · cases hown

theorem step_of_some {ev : BoxEvent ι String Time} (hclean : CleanDraws p s e)
    (horder : CodesInOrder s.db) (h : F.of owner s e = some ev) :
    ((Box F.rules).step ev (F.boxes s.db owner)).1.render F.texts = ((Api p).step e s).1.bare ∧
      ((Box F.rules).step ev (F.boxes s.db owner)).2 =
        F.boxes ((Api p).step e s).2.db owner := by
  obtain ⟨hanswer, hboxes⟩ := F.step e s owner ev hclean horder (asked_of h)
  exact ⟨hanswer, by rw [hboxes, Function.update_self]⟩

theorem step_of_none (hclean : CleanDraws p s e) (horder : CodesInOrder s.db)
    (h : F.of owner s e = none) : F.boxes ((Api p).step e s).2.db owner = F.boxes s.db owner := by
  cases hasked : F.asked e s.db with
  | none => rw [F.idle e s hasked]
  | some r =>
    obtain ⟨other, ev⟩ := r
    have hother : owner ≠ other := by
      rintro rfl
      simp [of, hasked] at h
    rw [(F.step e s other ev hclean horder hasked).2, Function.update_of_ne hother]

theorem serves (F : BoxFlow p ω ι) {es : List (Request × Draws)} {s : Server}
    (horder : CodesInOrder s.db) (hclean : (Api p).Along (CleanDraws p) es s) (owner : ω) :
    F.Serves es s owner :=
  (Api p).run_part (fun t => F.boxes t.db owner) (I := fun t => CodesInOrder t.db)
    (fun _ _ hclean horder => codesInOrder_step hclean horder)
    (fun _ _ hclean horder h => step_of_none hclean horder h)
    (fun _ _ _ hclean horder h => step_of_some hclean horder h) es s horder hclean

end BoxFlow

/-- In every run that draws unused ids and stamps the codes of a key in order, from a database
    whose codes are in order: every phone is answered by the OTP endpoints, and every user by
    the email endpoints, as by a box of their own. -/
theorem codes_are_boxes (p : Platform) (es : List (Request × Draws)) (s : Server)
    (horder : CodesInOrder s.db) (hclean : (Api p).Along (CleanDraws p) es s) :
    (∀ phoneHash, (otpBoxes p).Serves es s phoneHash) ∧
      ∀ userId, (emailBoxes p).Serves es s userId :=
  ⟨(otpBoxes p).serves horder hclean, (emailBoxes p).serves horder hclean⟩

/-- Two phones ask for a code each; one guesses, the other mistypes its code once. -/
def twoPhones : List (Request × Draws) :=
  [(.requestOtp "+15551234567", { drawsAt 0 30 with random := 1 }),
    (.requestOtp "+15557654321", { drawsAt 1 31 with random := 2 }),
    (.verifyOtp "+15557654321" "000001", drawsAt 2 32),
    (.verifyOtp "+15551234567" "000010", drawsAt 3 33),
    (.verifyOtp "+15551234567" "000001", drawsAt 4 34)]

theorem twoPhones_served :
    (Box (otpRules smallPlatform)).outputs
        (Machine.asked ((otpBoxes smallPlatform).of "+15551234567")
          ((Api smallPlatform).trace twoPhones (.start smallDb)))
        (otpBox smallDb.otpCodes "+15551234567") = [.sent, .wrong 2, .right] ∧
    (otpBoxes smallPlatform).Serves twoPhones (.start smallDb) "+15551234567" :=
  ⟨by decide, (codes_are_boxes smallPlatform twoPhones (.start smallDb)
    ⟨List.Pairwise.nil, List.Pairwise.nil⟩ (by decide)).1 "+15551234567"⟩

/-! ## A code that was sent -/

/-- The steps of the run after step `i` and before step `j`. -/
def between (p : Platform) (es : List (Request × Draws)) (s : Server) (i j : Nat) : List ApiStep :=
  (((Api p).trace es s).take j).drop (i + 1)

namespace BoxFlow

variable {p : Platform} {ω ι : Type} [DecidableEq ω] [DecidableEq ι] (F : BoxFlow p ω ι)

/-- The owner asks for no code at the address, and submits wrong ones there fewer times than
    allowed. -/
def Undisturbed (owner : ω) (address : ι) (secret : String) (tr : List ApiStep) : Prop :=
  (∀ ev ∈ Machine.asked (F.of owner) tr, ev.Spares address secret) ∧
    (Machine.asked (F.of owner) tr).countP (BoxEvent.submitsAt address) < F.rules.maxAttempts

/-- Whenever a code is sent in the run, its submission is accepted until it expires, unless its
    owner disturbs it in the meantime. -/
def AcceptsSent (es : List (Request × Draws)) (s : Server) : Prop :=
  ∀ (owner : ω) (address : ι) (i j : Nat) (e e' : Request × Draws) (now stamp expires now' : Time)
    (secret : String), i < j → es[i]? = some e → es[j]? = some e' →
    F.of owner ((Api p).exec (es.take i) s) e = some (.request address now stamp secret expires) →
    ((Api p).step e ((Api p).exec (es.take i) s)).1.isOk = true →
    F.Undisturbed owner address secret (between p es s i j) →
    F.of owner ((Api p).exec (es.take j) s) e' = some (.submit address now' secret) →
    now' ≤ expires →
    ((Api p).step e' ((Api p).exec (es.take j) s)).1.isOk = true

theorem isOk_bare (out : Response) : out.bare.isOk = out.isOk := by cases out <;> rfl

/-- A request that succeeds has put the code in the box. -/
theorem sent_box {rules : BoxRules Time} {texts : BoxTexts} {address : ι} {now stamp expires : Time}
    {secret : String} {box : CodeBox ι String Time}
    (hok : (((Box rules).step (.request address now stamp secret expires) box).1.render
      texts).isOk = true) :
    ((Box rules).step (.request address now stamp secret expires) box).2.codes address =
      ⟨secret, expires, 0⟩ :: box.codes address := by
  by_cases hfull : Full rules now box.stamps
  · have hstep : (Box rules).step (.request address now stamp secret expires) box =
        (.limited, box) := if_pos hfull
    rw [hstep] at hok
    cases hok
  · have hstep : (Box rules).step (.request address now stamp secret expires) box = (.sent, _) :=
      if_neg hfull
    rw [hstep]
    exact Function.update_self _ _ _

theorem acceptsSent {es : List (Request × Draws)} {s : Server} (horder : CodesInOrder s.db)
    (hclean : (Api p).Along (CleanDraws p) es s) : F.AcceptsSent es s := by
  intro owner address i j e e' now stamp expires now' secret hij he he' hrequest hsent
    hundisturbed hsubmit hnow
  obtain ⟨hspares, hfew⟩ := hundisturbed
  -- step `i` puts the code in the box
  have hcleanAt := ((Api p).along_iff_getElem? _ es s).mp hclean
  have horderAt : ∀ n, CodesInOrder ((Api p).exec (es.take n) s).db := fun n =>
    codesInOrder_exec horder ((Api p).along_take_le hclean n)
  obtain ⟨hanswer, hbox⟩ := step_of_some (hcleanAt i e he) (horderAt i) hrequest
  rw [← isOk_bare, ← hanswer] at hsent
  have hcodes := sent_box hsent
  rw [hbox, ← (Api p).exec_take_succ he] at hcodes
  -- the steps before `j` leave it there
  have htake : (es.take j).take (i + 1) = es.take (i + 1) := by
    rw [List.take_take, Nat.min_eq_left hij]
  have hbetween : between p es s i j =
      (Api p).trace ((es.take j).drop (i + 1)) ((Api p).exec (es.take (i + 1)) s) := by
    unfold between
    rw [Machine.trace_take, Machine.trace_drop, htake]
  have hlater : (Api p).exec ((es.take j).drop (i + 1)) ((Api p).exec (es.take (i + 1)) s) =
      (Api p).exec (es.take j) s := by
    rw [← Machine.exec_append, ← htake, List.take_append_drop]
  have hcleanBetween : (Api p).Along (CleanDraws p) ((es.take j).drop (i + 1))
      ((Api p).exec (es.take (i + 1)) s) := by
    have hdrop := (Api p).along_drop ((Api p).along_take_le hclean j) (i + 1)
    rwa [htake] at hdrop
  obtain ⟨-, hexec⟩ := F.serves (horderAt (i + 1)) hcleanBetween owner
  rw [← hbetween, hlater] at hexec
  -- step `j` finds it
  have hright := accepts_after F.rules hcodes _ hspares (by simpa using hfew) hnow
  rw [hexec] at hright
  obtain ⟨hanswer', -⟩ := step_of_some (hcleanAt j e' he') (horderAt j) hsubmit
  rw [hright] at hanswer'
  rw [← isOk_bare, ← hanswer']
  rfl

end BoxFlow

/-- A code that was sent is accepted: in every run as above, by the OTP endpoints as by the
    email endpoints, whatever others request between the sending and the submission. -/
theorem sent_code_accepted (p : Platform) (es : List (Request × Draws)) (s : Server)
    (horder : CodesInOrder s.db) (hclean : (Api p).Along (CleanDraws p) es s) :
    (otpBoxes p).AcceptsSent es s ∧ (emailBoxes p).AcceptsSent es s :=
  ⟨(otpBoxes p).acceptsSent horder hclean, (emailBoxes p).acceptsSent horder hclean⟩

theorem twoPhones_accepted :
    ((Api smallPlatform).step (.verifyOtp "+15551234567" "000001", drawsAt 4 34)
      ((Api smallPlatform).exec (twoPhones.take 4) (.start smallDb))).1.isOk = true :=
  (sent_code_accepted smallPlatform twoPhones (.start smallDb)
    ⟨List.Pairwise.nil, List.Pairwise.nil⟩ (by decide)).1 "+15551234567" () 0 4 _ _ 0 0
    (minutes 5) 4 "000001" (by decide) rfl rfl (by decide) (by decide) ⟨by decide, by decide⟩
    (by decide) (by decide)

end LinkedOut
