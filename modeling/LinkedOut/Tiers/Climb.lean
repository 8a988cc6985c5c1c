/-
  The ladder can be climbed, whatever the rest of the world does.

  `step_earned`: what a successful verification hands out are the tokens of a stored user, of
  the tier the verification proves at least. `exec_later`: the user stays, and never falls.
  So the access token opens every gate up to its tier until it expires, and with the codes of
  `acceptsSent` each rung leads to the next (`ladder_can_be_climbed`).
-/
import LinkedOut.Codes.Endpoints
import LinkedOut.Gates.TokenKinds
import LinkedOut.Ladder

namespace LinkedOut

/-- The tier that a verification proves. -/
def Request.earns : Request → Option VerificationTier
  | verifyOtp .. => some .phone
  | verifyEmail .. => some .email
  | _ => none

/-- When a verification mints its access token. -/
def mintedAt (e : Request × Draws) : Time :=
  match e.1 with
  | .verifyEmail .. => e.2.now 3
  | _ => e.2.now 2

/-- What a verification that leaves `db` hands out. -/
structure HandsOut (p : Platform) (e : Request × Draws) (db : Db) (out : VerifyOut)
    (user : User) : Prop where
  stored : db.users.find? user.id = some user
  userId : out.userId = user.id
  tier : out.verificationTier = user.verificationTier
  accessToken : out.accessToken =
    createAccessToken p (mintedAt e) user.id user.verificationTier
  proves : ∀ tier, e.1.earns = some tier → tierRank tier ≤ tierRank user.verificationTier

theorem answerVerify_ok {s : Server}
    {r : Except HttpException (Db × Except HttpException VerifyOut)}
    (h : (answerVerify s r).1.isOk = true) :
    ∃ db' out, r = .ok (db', .ok out) ∧
      answerVerify s r = (.ok (.verified out), { s with db := db' }) := by
  cases r with
  | error e => cases h
  | ok r =>
    obtain ⟨db', out⟩ := r
    cases out with
    | error e => cases h
    | ok out => exact ⟨db', out, rfl, rfl⟩

theorem verifyOtp_handsOut {p : Platform} {d : Draws} {phone code : String} {db db' : Db}
    {out : VerifyOut} (h : verifyOtp p d.env phone code db = .ok (db', .ok out)) :
    ∃ user, HandsOut p (.verifyOtp phone code, d) db' out user := by
  obtain ⟨phoneHash, hphone, hrest⟩ := bind_ok h
  obtain ⟨v, hjudge, hrest⟩ := bind_ok hrest
  cases v with
  | wrong row =>
    obtain ⟨_, -, hout⟩ := bind_ok hrest
    cases hout
  | right row =>
    obtain ⟨user, hfind, htier, hout⟩ := verifyOtp_verified (orUnprocessable_ok hphone) hjudge h
    rw [verified_eq hfind] at hout
    cases hout
    exact ⟨user, hfind, rfl, rfl, rfl, fun tier ht => by cases ht; exact htier⟩

theorem verifyEmail_handsOut {p : Platform} {d : Draws} {email code : String}
    {token : Option String} {db db' : Db} {user : User} {out : VerifyOut}
    (hgate : requireTier p d.env .phone token db = .ok user)
    (h : verifyEmail p d.env email code token db = .ok (db', .ok out)) :
    ∃ raised, raised.id = user.id ∧
      HandsOut p (.verifyEmail email code token, d) db' out raised := by
  obtain ⟨user', hgate', hrest⟩ := bind_ok h
  rw [hgate] at hgate'
  cases hgate'
  obtain ⟨emailHash, hemail, hrest⟩ := bind_ok hrest
  obtain ⟨v, hjudge, hrest⟩ := bind_ok hrest
  cases v with
  | wrong row =>
    obtain ⟨_, -, hout⟩ := bind_ok hrest
    cases hout
  | right row =>
    obtain ⟨hstored, hrank, -⟩ := requireTier_ok hgate
    have hlater : Table.Moved User.Later db.users (raiseToEmail user row.domainHash db.users) :=
      raiseToEmail_later hstored
    obtain ⟨raised, hfind, hraised⟩ := hlater.find? (fun h => h.id) hstored
    have hid : raised.id = user.id := hraised.id
    have htier : tierRank .email ≤ tierRank raised.verificationTier := by
      rcases mem_raiseToEmail hstored (((Table.find?_eq_some _ _ _).mp hfind).1) with
        ⟨-, hne⟩ | ⟨-, -, -, htier⟩
      · exact absurd hid hne
      · rw [htier]
        revert hrank
        cases user.verificationTier <;> decide
    simp only [commit_env_some, ok_bind] at hrest
    obtain ⟨rfl, hout⟩ := Prod.mk.inj (Except.ok.inj hrest)
    rw [verified_eq hfind] at hout
    cases hout
    exact ⟨raised, hid, hid ▸ hfind, rfl, rfl, rfl, fun tier ht => by cases ht; exact htier⟩

section

variable {p : Platform} {s : Server} {e : Request × Draws}

/-- A verification that succeeds hands out tokens. -/
theorem step_earned (hearns : e.1.earns ≠ none) (hok : ((Api p).step e s).1.isOk = true) :
    ∃ out user, ((Api p).step e s).1 = .ok (.verified out) ∧
      HandsOut p e ((Api p).step e s).2.db out user := by
  obtain ⟨req, d⟩ := e
  cases req with
  | verifyOtp phone code =>
    obtain ⟨db', out, hreq, hanswer⟩ := answerVerify_ok hok
    obtain ⟨user, hout⟩ := verifyOtp_handsOut hreq
    have hstep : (Api p).step (.verifyOtp phone code, d) s =
      (.ok (.verified out), { s with db := db' }) := hanswer
    rw [hstep]
    exact ⟨out, user, rfl, hout⟩
  | verifyEmail email code token =>
    obtain ⟨db', out, hreq, hanswer⟩ := answerVerify_ok hok
    obtain ⟨user, hgate, -⟩ := bind_ok hreq
    obtain ⟨raised, -, hout⟩ := verifyEmail_handsOut hgate hreq
    have hstep : (Api p).step (.verifyEmail email code token, d) s =
      (.ok (.verified out), { s with db := db' }) := hanswer
    rw [hstep]
    exact ⟨out, raised, rfl, hout⟩
  | _ => exact absurd rfl hearns

/-- The token that `e` minted has not expired when the next request reads the clock. -/
def Unexpired (p : Platform) (e : Request × Draws) (d : Draws) : Prop :=
  timestamp (d.now 0) ≤ timestamp (mintedAt e + minutes p.settings.jwtAccessTokenExpireMinutes)

/-- An access token opens the gates up to the stored tier of its user. -/
theorem requireTier_access (hjose : Jose p) {env : Env} {minted : Time} {userId : Uuid}
    {minimum tier : VerificationTier} {db : Db} {user : User}
    (hvalid : timestamp (env.now 0) ≤
      timestamp (minted + minutes p.settings.jwtAccessTokenExpireMinutes))
    (hfind : db.users.find? userId = some user)
    (hrank : tierRank minimum ≤ tierRank user.verificationTier) :
    requireTier p env minimum (some (createAccessToken p minted userId tier)) db = .ok user := by
  have hclaims : p.jwtDecode (env.now 0) (createAccessToken p minted userId tier) =
      .ok ((Mint.access userId tier).claims p minted) :=
    hjose.decode_encode _ _ _ (claims_exp (.access userId tier)) hvalid
  obtain ⟨payload, hdecode, hpayload⟩ :=
    map_ok.mp ((decode_minted .currentUser _ hclaims).mpr ⟨rfl, rfl⟩)
  have hsub : payload.sub = userId := by
    injection hpayload with hpayload
    rw [hpayload]
  have hsubject : Gate.currentUser.subject p env (some (createAccessToken p minted userId tier)) =
      .ok userId := by
    simp only [Gate.subject, authenticate, hdecode, Except.map, hsub]
  rw [requireTier_eq, hsubject, ok_bind]
  simp only [storedUser, scalarOneOrNone_pk, hfind, ok_bind, aboveTier, if_neg (not_lt.mpr hrank)]

end

/-! ## The rungs -/

section

variable (p : Platform) (es : List (Request × Draws)) (s : Server)

/-- Step `i` of the run is a verification that succeeds, and hands out `out`. -/
def Earned (i : Nat) (e : Request × Draws) (out : VerifyOut) : Prop :=
  es[i]? = some e ∧ e.1.earns ≠ none ∧
    ((Api p).step e ((Api p).exec (es.take i) s)).1 = .ok (.verified out)

/-- Until it expires, an access token that was handed out opens every gate up to its tier. -/
def OpensGates : Prop :=
  ∀ (i j : Nat) (e : Request × Draws) (d : Draws) (out : VerifyOut) (minimum : VerificationTier),
    Earned p es s i e out → i < j → Unexpired p e d →
    tierRank minimum ≤ tierRank out.verificationTier →
    ∃ user, user.id = out.userId ∧
      requireTier p d.env minimum (some out.accessToken) ((Api p).exec (es.take j) s).db = .ok user

/-- Whoever submits the OTP that the phone was sent logs in, at the phone tier at least. -/
def PhoneRung : Prop :=
  ∀ (i j : Nat) (phone phoneHash code : String) (d d' : Draws), i < j →
    es[i]? = some (.requestOtp phone, d) → es[j]? = some (.verifyOtp phone code, d') →
    hashPhone p phone = .ok phoneHash →
    code = generateNumericCode p.settings.otpLength d.random →
    ((Api p).step (.requestOtp phone, d) ((Api p).exec (es.take i) s)).1.isOk = true →
    d'.now 0 ≤ d.now 1 + minutes p.settings.otpExpireMinutes →
    (otpBoxes p).Undisturbed phoneHash () (hashCode p code) (between p es s i j) →
    ∃ out, Earned p es s j (.verifyOtp phone code, d') out ∧
      tierRank .phone ≤ tierRank out.verificationTier

/-- Whoever has logged in and submits the code that the email was sent is of the email tier. -/
def EmailRung : Prop :=
  ∀ (i₀ i j : Nat) (e₀ : Request × Draws) (email emailHash code : String) (d d' : Draws)
    (out : VerifyOut), Earned p es s i₀ e₀ out → i₀ < i → i < j →
    es[i]? = some (.requestEmailVerification email (some out.accessToken), d) →
    es[j]? = some (.verifyEmail email code (some out.accessToken), d') →
    Unexpired p e₀ d → Unexpired p e₀ d' →
    submittedEmailHash p email = .ok emailHash →
    code = generateNumericCode p.settings.emailCodeLength d.random →
    ((Api p).step (.requestEmailVerification email (some out.accessToken), d)
      ((Api p).exec (es.take i) s)).1.isOk = true →
    d'.now 1 ≤ d.now 2 + minutes p.settings.emailCodeExpireMinutes →
    (emailBoxes p).Undisturbed out.userId emailHash (hashCode p code) (between p es s i j) →
    ∃ out', Earned p es s j (.verifyEmail email code (some out.accessToken), d') out' ∧
      out'.userId = out.userId ∧ tierRank .email ≤ tierRank out'.verificationTier

variable {p es s}

theorem Earned.handsOut {i : Nat} {e : Request × Draws} {out : VerifyOut}
    (h : Earned p es s i e out) :
    ∃ user, HandsOut p e ((Api p).exec (es.take (i + 1)) s).db out user := by
  obtain ⟨he, hearns, hout⟩ := h
  obtain ⟨out', user, hout', hhands⟩ :=
    step_earned (s := (Api p).exec (es.take i) s) hearns (by rw [hout]; rfl)
  rw [hout] at hout'
  cases hout'
  rw [(Api p).exec_take_succ he]
  exact ⟨user, hhands⟩

theorem opensGates (hjose : Jose p) : OpensGates p es s := by
  intro i j e d out minimum hearned hij hvalid hrank
  obtain ⟨user, hhands⟩ := hearned.handsOut
  obtain ⟨fs, hfs⟩ := List.take_prefix_take_left (l := es) (Nat.succ_le_of_lt hij)
  have hlater : ((Api p).exec (es.take (i + 1)) s).db.Later ((Api p).exec (es.take j) s).db := by
    rw [← hfs, Machine.exec_append]
    exact exec_later p fs _
  obtain ⟨user', hfind, huser⟩ := hlater.users.find? (fun h => h.id) hhands.stored
  rw [hhands.tier] at hrank
  refine ⟨user', huser.id.trans hhands.userId.symm, ?_⟩
  rw [hhands.accessToken]
  exact requireTier_access hjose hvalid hfind (hrank.trans huser.tier)

/-- Whoever has logged in is of the phone tier. -/
theorem Earned.phone {i : Nat} {e : Request × Draws} {out : VerifyOut} (h : Earned p es s i e out) :
    tierRank .phone ≤ tierRank out.verificationTier := by
  obtain ⟨user, hhands⟩ := h.handsOut
  obtain ⟨tier, htier⟩ := Option.ne_none_iff_exists'.mp h.2.1
  rw [hhands.tier]
  refine le_trans ?_ (hhands.proves tier htier)
  obtain ⟨req, d⟩ := e
  cases req with
  | verifyOtp | verifyEmail => cases htier; decide
  | _ => cases htier

theorem phoneRung (horder : CodesInOrder s.db) (hclean : (Api p).Along (CleanDraws p) es s) :
    PhoneRung p es s := by
  intro i j phone phoneHash code d d' hij he he' hphone hcode hsent hnow hundisturbed
  have haccepts := (otpBoxes p).acceptsSent horder hclean phoneHash () i j _ _ (d.now 0) (d.now 2)
    (d.now 1 + minutes p.settings.otpExpireMinutes) (d'.now 0) (hashCode p code) hij he he'
  have hrequest : (otpBoxes p).of phoneHash ((Api p).exec (es.take i) s) (.requestOtp phone, d) =
      some (.request () (d.now 0) (d.now 2) (hashCode p code)
        (d.now 1 + minutes p.settings.otpExpireMinutes)) := by
    simp [BoxFlow.of, otpBoxes, otpEvent, hphone, hcode, Except.map, Except.toOption]
  have hsubmit : (otpBoxes p).of phoneHash ((Api p).exec (es.take j) s)
      (.verifyOtp phone code, d') = some (.submit () (d'.now 0) (hashCode p code)) := by
    simp [BoxFlow.of, otpBoxes, otpEvent, hphone, Except.map, Except.toOption]
  have hok := haccepts hrequest hsent hundisturbed hsubmit hnow
  have hearns : (Request.verifyOtp phone code).earns ≠ none := Option.some_ne_none _
  obtain ⟨out, user, hout, -⟩ := step_earned (e := (.verifyOtp phone code, d')) hearns hok
  exact ⟨out, ⟨he', hearns, hout⟩, Earned.phone ⟨he', hearns, hout⟩⟩

theorem emailRung (hjose : Jose p) (horder : CodesInOrder s.db)
    (hclean : (Api p).Along (CleanDraws p) es s) : EmailRung p es s := by
  intro i₀ i j e₀ email emailHash code d d' out hearned hi hij he he' hvalid hvalid' hemail hcode
    hsent hnow hundisturbed
  obtain ⟨user, hid, hgate⟩ := opensGates hjose i₀ i e₀ d out .phone hearned hi hvalid hearned.phone
  obtain ⟨user', hid', hgate'⟩ :=
    opensGates hjose i₀ j e₀ d' out .phone hearned (hi.trans hij) hvalid' hearned.phone
  have haccepts := (emailBoxes p).acceptsSent horder hclean out.userId emailHash i j _ _ (d.now 1)
    (d.now 3) (d.now 2 + minutes p.settings.emailCodeExpireMinutes) (d'.now 1) (hashCode p code)
    hij he he'
  have hrequest : (emailBoxes p).of out.userId ((Api p).exec (es.take i) s)
      (.requestEmailVerification email (some out.accessToken), d) =
        some (.request emailHash (d.now 1) (d.now 3) (hashCode p code)
          (d.now 2 + minutes p.settings.emailCodeExpireMinutes)) := by
    simp [BoxFlow.of, emailBoxes, emailEvent, hgate, hemail, hid, hcode]
  have hsubmit : (emailBoxes p).of out.userId ((Api p).exec (es.take j) s)
      (.verifyEmail email code (some out.accessToken), d') =
        some (.submit emailHash (d'.now 1) (hashCode p code)) := by
    simp [BoxFlow.of, emailBoxes, emailEvent, hgate', hemail, hid']
  have hok := haccepts hrequest hsent hundisturbed hsubmit hnow
  -- the user that logged in is the one that is raised
  obtain ⟨db', out', hreq, hanswer⟩ := answerVerify_ok hok
  obtain ⟨raised, hraised, hhands⟩ := verifyEmail_handsOut hgate' hreq
  refine ⟨out', ⟨he', Option.some_ne_none _, congrArg Prod.fst hanswer⟩,
    hhands.userId.trans (hraised.trans hid'), ?_⟩
  rw [hhands.tier]
  exact hhands.proves .email rfl

end

/-- In every run as above, with a signature that decodes what it encoded: the phone rung and
    the email rung can be taken, and what was earned opens its gates until the token expires,
    whatever others request in between. -/
theorem ladder_can_be_climbed (p : Platform) (hjose : Jose p) (es : List (Request × Draws))
    (s : Server) (horder : CodesInOrder s.db) (hclean : (Api p).Along (CleanDraws p) es s) :
    PhoneRung p es s ∧ EmailRung p es s ∧ OpensGates p es s :=
  ⟨phoneRung horder hclean, emailRung hjose horder hclean, opensGates hjose⟩

/-- A phone asks for a code and submits it. -/
def firstRung : List (Request × Draws) :=
  [(.requestOtp "+15551234567", { drawsAt 0 30 with random := 1 }),
    (.verifyOtp "+15551234567" "000001", drawsAt 1 31)]

/-- Its token opens the phone gate. -/
theorem firstRung_climbed :
    ∃ out, Earned unaryPlatform firstRung (.start smallDb) 1
        (.verifyOtp "+15551234567" "000001", drawsAt 1 31) out ∧
      ∃ user, user.id = out.userId ∧
        requireTier unaryPlatform (drawsAt 2 40).env .phone (some out.accessToken)
          ((Api unaryPlatform).exec (firstRung.take 2) (.start smallDb)).db = .ok user := by
  obtain ⟨hphone, -, hopens⟩ := ladder_can_be_climbed unaryPlatform unaryPlatform_jose firstRung
    (.start smallDb) ⟨List.Pairwise.nil, List.Pairwise.nil⟩ (by decide)
  obtain ⟨out, hearned, htier⟩ := hphone 0 1 "+15551234567" "+15551234567" "000001" _ _ (by decide)
    rfl rfl rfl (by decide) (by decide) (by decide) ⟨by decide, by decide⟩
  have hvalid : Unexpired unaryPlatform (.verifyOtp "+15551234567" "000001", drawsAt 1 31)
      (drawsAt 2 40) := by
    unfold Unexpired
    decide
  exact ⟨out, hearned, hopens 1 2 _ _ out .phone hearned (by decide) hvalid htier⟩

end LinkedOut
