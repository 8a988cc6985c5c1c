/-
  Hash and discard: what the OTP and the corporate-email endpoints store and answer
  depends on a phone, an email address or a code only through its keyed hash.

  Two runs, each under its own hash, take corresponding requests (`SameHashes`): the
  plaintexts may all differ, the results of the hashes and of the shape checks agree.
  From tables that agree (`SameStored`) every step gives the same response and tables
  that agree again (`step_congr`); `hash_and_discard` is the run.
-/
import LinkedOut.Api
import LinkedOut.Paired

namespace LinkedOut

/-! ## Corresponding runs -/

/-- The same deployment under another keyed hash. -/
def Platform.rekeyed (p : Platform) (hmac : String → String) : Platform := { p with hmac }

/-- The clock, the fresh ids and the order of unordered rows; not what a code is drawn from. -/
structure SameDraws (d d' : Draws) : Prop where
  now : d.now = d'.now
  uuid : d.uuid = d'.uuid
  place : d.place = d'.place

/-- Requests to the same endpoint whose plaintexts hash alike, or fail the same check. -/
inductive SameHashes (p q : Platform) : Request × Draws → Request × Draws → Prop
  | requestOtp {phone phone' : String} {d d' : Draws}
      (hphone : (hashPhone p phone).toOption = (hashPhone q phone').toOption)
      (hcode : hashCode p (generateNumericCode p.settings.otpLength d.random) =
        hashCode q (generateNumericCode q.settings.otpLength d'.random))
      (hdraws : SameDraws d d') :
      SameHashes p q (.requestOtp phone, d) (.requestOtp phone', d')
  | verifyOtp {phone phone' code code' : String} {d d' : Draws}
      (hphone : (hashPhone p phone).toOption = (hashPhone q phone').toOption)
      (hcode : hashCode p code = hashCode q code')
      (hdraws : SameDraws d d') :
      SameHashes p q (.verifyOtp phone code, d) (.verifyOtp phone' code', d')
  | requestEmailVerification {email email' : String} {token : Option String} {d d' : Draws}
      (hemail : (submittedEmailHash p email).toOption = (submittedEmailHash q email').toOption)
      (hdomain : (splitEmailDomain (normalizeEmail p email)).toOption.map (hashDomain p) =
        (splitEmailDomain (normalizeEmail q email')).toOption.map (hashDomain q))
      (hcode : hashCode p (generateNumericCode p.settings.emailCodeLength d.random) =
        hashCode q (generateNumericCode q.settings.emailCodeLength d'.random))
      (hdraws : SameDraws d d') :
      SameHashes p q (.requestEmailVerification email token, d)
        (.requestEmailVerification email' token, d')
  | verifyEmail {email email' code code' : String} {token : Option String} {d d' : Draws}
      (hemail : (submittedEmailHash p email).toOption = (submittedEmailHash q email').toOption)
      (hcode : hashCode p code = hashCode q code')
      (hdraws : SameDraws d d') :
      SameHashes p q (.verifyEmail email code token, d) (.verifyEmail email' code' token, d')

/-- The tables of the verification flows are the same. -/
structure SameStored (db db' : Db) : Prop where
  users : db.users = db'.users
  otpCodes : db.otpCodes = db'.otpCodes
  emailVerificationCodes : db.emailVerificationCodes = db'.emailVerificationCodes

/-! ## Handlers that do the same -/

/-- The same error, or the same answer and tables that agree. -/
abbrev SameOutcome {α : Type} (x y : Except HttpException (Db × α)) : Prop :=
  Paired (fun r r' => SameStored r.1 r'.1 ∧ r.2 = r'.2) x y

/-- All failing checks of a shape say the same. -/
theorem eq_of_toOption {ε α : Type} {x y : Except ε α} {e : ε}
    (hx : ∀ e', x = .error e' → e' = e) (hy : ∀ e', y = .error e' → e' = e)
    (h : x.toOption = y.toOption) : x = y := by
  cases x with
  | error a =>
    cases y with
    | error b => rw [hx a rfl, hy b rfl]
    | ok b => cases h
  | ok a =>
    cases y with
    | error b => cases h
    | ok b => exact congrArg _ (Option.some.inj h)

theorem hashPhone_error {p : Platform} {phone e : String} (h : hashPhone p phone = .error e) :
    e = "phone must be in E.164 format, e.g. +15551234567" := by
  unfold hashPhone normalizePhone at h
  dsimp only at h
  split at h
  · cases h
  · exact (Except.error.inj h).symm

theorem splitEmailDomain_error {email e : String} (h : splitEmailDomain email = .error e) :
    e = "not a valid email address" := by
  unfold splitEmailDomain at h
  split at h
  · exact (Except.error.inj h).symm
  · exact (Except.error.inj h).symm
  · cases h

theorem submittedEmailHash_error {p : Platform} {email : String} {e : HttpException}
    (h : submittedEmailHash p email = .error e) :
    e = { status := 422, detail := "not a valid email address" } := by
  unfold submittedEmailHash at h
  cases hsplit : splitEmailDomain (normalizeEmail p email) with
  | error e' =>
    simp only [hsplit, splitEmailDomain_error hsplit] at h
    exact (Except.error.inj h).symm
  | ok domain =>
    simp only [hsplit] at h
    cases h

section

variable {p : Platform} {hmac : String → String} {d d' : Draws} {db db' : Db}

theorem hashPhone_congr {phone phone' : String}
    (h : (hashPhone p phone).toOption = (hashPhone (p.rekeyed hmac) phone').toOption) :
    hashPhone p phone = hashPhone (p.rekeyed hmac) phone' :=
  eq_of_toOption (fun _ => hashPhone_error) (fun _ => hashPhone_error) h

theorem submittedEmailHash_congr {email email' : String}
    (h : (submittedEmailHash p email).toOption =
      (submittedEmailHash (p.rekeyed hmac) email').toOption) :
    submittedEmailHash p email = submittedEmailHash (p.rekeyed hmac) email' :=
  eq_of_toOption (fun _ => submittedEmailHash_error) (fun _ => submittedEmailHash_error) h

theorem SameDraws.env_now (h : SameDraws d d') : d.env.now = d'.env.now := h.now

theorem SameDraws.env_uuid (h : SameDraws d d') : d.env.uuid = d'.env.uuid := h.uuid

theorem SameDraws.env_place (h : SameDraws d d') : d.env.place = d'.env.place := h.place

/-- The gate reads the token, the clock and the users. -/
theorem requireTier_rekeyed (minimum : VerificationTier) (token : Option String)
    (hd : SameDraws d d') (hdb : SameStored db db') :
    requireTier p d.env minimum token db =
      requireTier (p.rekeyed hmac) d'.env minimum token db' := by
  simp only [requireTier, getCurrentUser, hd.env_now, Lookup.rows, hdb.users]
  rfl

theorem judgeOtp_congr {phoneHash code code' : String} (hd : SameDraws d d')
    (hdb : SameStored db db') (hcode : hashCode p code = hashCode (p.rekeyed hmac) code') :
    judgeOtp p d.env phoneHash code db =
      judgeOtp (p.rekeyed hmac) d'.env phoneHash code' db' := by
  simp only [judgeOtp, hd.env_now, hd.env_place, hcode, hdb.otpCodes]
  rfl

theorem judgeEmail_congr {userId : Uuid} {emailHash code code' : String} (hd : SameDraws d d')
    (hdb : SameStored db db') (hcode : hashCode p code = hashCode (p.rekeyed hmac) code') :
    judgeEmail p d.env userId emailHash code db =
      judgeEmail (p.rekeyed hmac) d'.env userId emailHash code' db' := by
  simp only [judgeEmail, hd.env_now, hd.env_place, hcode, hdb.emailVerificationCodes]
  rfl

theorem verified_congr {i : Nat} {userId : Uuid} (hd : SameDraws d d')
    (hdb : SameStored db db') :
    verified p d.env i userId db = verified (p.rekeyed hmac) d'.env i userId db' := by
  simp only [verified, hd.env_now, hdb.users]
  rfl

theorem newOtpCode_congr {phoneHash : String} (hd : SameDraws d d')
    (hcode : hashCode p (generateNumericCode p.settings.otpLength d.random) =
      hashCode (p.rekeyed hmac)
        (generateNumericCode (p.rekeyed hmac).settings.otpLength d'.random)) :
    newOtpCode p d.env phoneHash = newOtpCode (p.rekeyed hmac) d'.env phoneHash := by
  have hrandom : hashCode p (generateNumericCode p.settings.otpLength d.env.random) =
    hashCode (p.rekeyed hmac)
      (generateNumericCode (p.rekeyed hmac).settings.otpLength d'.env.random) := hcode
  simp only [newOtpCode, hd.env_now, hd.env_uuid, hrandom]
  rfl

/-! ## The four endpoints -/

theorem requestOtp_congr {phone phone' : String} (hd : SameDraws d d') (hdb : SameStored db db')
    (hphone : (hashPhone p phone).toOption = (hashPhone (p.rekeyed hmac) phone').toOption)
    (hcode : hashCode p (generateNumericCode p.settings.otpLength d.random) =
      hashCode (p.rekeyed hmac)
        (generateNumericCode (p.rekeyed hmac).settings.otpLength d'.random)) :
    SameOutcome (requestOtp p d.env phone db)
      (requestOtp (p.rekeyed hmac) d'.env phone' db') := by
  unfold requestOtp
  rw [hashPhone_congr hphone, hd.env_now, hdb.otpCodes]
  refine .bind_eq rfl fun phoneHash => .bind_eq rfl fun _ => .bind_eq ?_ fun otpCodes => ?_
  · rw [newOtpCode_congr hd hcode]
    rfl
  · refine .ok ⟨?_, rfl⟩
    exact ⟨hdb.users, rfl, hdb.emailVerificationCodes⟩

/-- The flush of a right OTP: both create or raise the same user, or both fail. -/
theorem consumeOtp_congr {α : Type} {phoneHash : String} {otpRow : OTPCode} {user : Option User}
    {f g : Db × Uuid → Except HttpException (Db × α)} (hd : SameDraws d d')
    (hdb : SameStored db db')
    (h : ∀ {db1 db1' : Db} (userId : Uuid), SameStored db1 db1' →
      SameOutcome (f (db1, userId)) (g (db1', userId))) :
    SameOutcome
      (commit d.env (consumeOtp d.env phoneHash otpRow user db) internalServerError >>= f)
      (commit d'.env (consumeOtp d'.env phoneHash otpRow user db') internalServerError >>= g) := by
  unfold consumeOtp
  simp only [hd.env_now, hd.env_uuid, hdb.otpCodes, hdb.users]
  cases user with
  | none =>
    cases db'.users.insert
        ⟨d'.env.uuid 0, phoneHash, none, VerificationTier.phone⟩ with
    | none => exact .error _
    | some users => exact h _ ⟨rfl, rfl, hdb.emailVerificationCodes⟩
  | some user =>
    dsimp only
    split
    · exact h _ ⟨rfl, rfl, hdb.emailVerificationCodes⟩
    · exact h _ ⟨rfl, rfl, hdb.emailVerificationCodes⟩

theorem verifyOtp_congr {phone phone' code code' : String} (hd : SameDraws d d')
    (hdb : SameStored db db')
    (hphone : (hashPhone p phone).toOption = (hashPhone (p.rekeyed hmac) phone').toOption)
    (hcode : hashCode p code = hashCode (p.rekeyed hmac) code') :
    SameOutcome (verifyOtp p d.env phone code db)
      (verifyOtp (p.rekeyed hmac) d'.env phone' code' db') := by
  unfold verifyOtp
  rw [hashPhone_congr hphone]
  refine .bind_eq rfl fun phoneHash => .bind_eq (judgeOtp_congr hd hdb hcode).symm fun v => ?_
  cases v with
  | wrong otpRow =>
    simp only [commit_env_some, ok_bind]
    refine .ok ⟨?_, rfl⟩
    refine ⟨hdb.users, ?_, hdb.emailVerificationCodes⟩
    simp only [countOtpAttempt, hdb.otpCodes]
  | right otpRow =>
    have huser : loadUserByPhone phoneHash db = loadUserByPhone phoneHash db' := by
      unfold loadUserByPhone
      rw [Lookup.rows, Lookup.rows, hdb.users]
    refine .bind_eq huser.symm fun user => consumeOtp_congr hd hdb fun userId hdb1 => ?_
    dsimp only
    rw [verified_congr hd hdb1]
    exact .ok ⟨hdb1, rfl⟩

theorem newEmailCode_congr {userId : Uuid} {emailHash domain domain' : String}
    (hd : SameDraws d d') (hdomain : hashDomain p domain = hashDomain (p.rekeyed hmac) domain')
    (hcode : hashCode p (generateNumericCode p.settings.emailCodeLength d.random) =
      hashCode (p.rekeyed hmac)
        (generateNumericCode (p.rekeyed hmac).settings.emailCodeLength d'.random)) :
    newEmailCode p d.env userId emailHash domain =
      newEmailCode (p.rekeyed hmac) d'.env userId emailHash domain' := by
  have hrandom : hashCode p (generateNumericCode p.settings.emailCodeLength d.env.random) =
    hashCode (p.rekeyed hmac)
      (generateNumericCode (p.rekeyed hmac).settings.emailCodeLength d'.env.random) := hcode
  simp only [newEmailCode, hd.env_now, hd.env_uuid, hdomain, hrandom]
  rfl

/-- An address that passes the shape check has a domain, and its hash is the address's. -/
theorem submittedEmailHash_ok {q : Platform} {email domain : String}
    (h : splitEmailDomain (normalizeEmail q email) = .ok domain) :
    submittedEmailHash q email = .ok (hashEmail q (normalizeEmail q email)) := by
  unfold submittedEmailHash
  simp only [h]
  rfl

theorem requestEmailVerification_congr {email email' : String} (token : Option String)
    (hd : SameDraws d d') (hdb : SameStored db db')
    (hemail : (submittedEmailHash p email).toOption =
      (submittedEmailHash (p.rekeyed hmac) email').toOption)
    (hdomain : (splitEmailDomain (normalizeEmail p email)).toOption.map (hashDomain p) =
      (splitEmailDomain (normalizeEmail (p.rekeyed hmac) email')).toOption.map
        (hashDomain (p.rekeyed hmac)))
    (hcode : hashCode p (generateNumericCode p.settings.emailCodeLength d.random) =
      hashCode (p.rekeyed hmac)
        (generateNumericCode (p.rekeyed hmac).settings.emailCodeLength d'.random)) :
    SameOutcome (requestEmailVerification p d.env email token db)
      (requestEmailVerification (p.rekeyed hmac) d'.env email' token db') := by
  unfold requestEmailVerification
  refine .bind_eq (requireTier_rekeyed .phone token hd hdb).symm fun user => ?_
  dsimp only
  -- both addresses have a domain, or both are refused with the same text
  cases hsplit : splitEmailDomain (normalizeEmail p email) with
  | error e =>
    cases hsplit' : splitEmailDomain (normalizeEmail (p.rekeyed hmac) email') with
    | error e' =>
      rw [splitEmailDomain_error hsplit, splitEmailDomain_error hsplit']
      exact .error _
    | ok domain' =>
      rw [hsplit, hsplit'] at hdomain
      cases hdomain
  | ok domain =>
    cases hsplit' : splitEmailDomain (normalizeEmail (p.rekeyed hmac) email') with
    | error e' =>
      rw [hsplit, hsplit'] at hdomain
      cases hdomain
    | ok domain' =>
      rw [hsplit, hsplit'] at hdomain
      rw [submittedEmailHash_ok hsplit, submittedEmailHash_ok hsplit'] at hemail
      have hdomains : hashDomain p domain = hashDomain (p.rekeyed hmac) domain' :=
        Option.some.inj hdomain
      have hhash : hashEmail p (normalizeEmail p email) =
          hashEmail (p.rekeyed hmac) (normalizeEmail (p.rekeyed hmac) email') :=
        Option.some.inj hemail
      have hok : ∀ domain : String, orUnprocessable (.ok domain) = .ok domain := fun _ => rfl
      simp only [hok, ok_bind]
      rw [hhash, hd.env_now, hdb.emailVerificationCodes, newEmailCode_congr hd hdomains hcode]
      refine .bind_eq rfl fun _ => .bind_eq rfl fun codes => ?_
      refine .ok ⟨?_, rfl⟩
      exact ⟨hdb.users, hdb.otpCodes, rfl⟩

theorem verifyEmail_congr {email email' code code' : String} (token : Option String)
    (hd : SameDraws d d') (hdb : SameStored db db')
    (hemail : (submittedEmailHash p email).toOption =
      (submittedEmailHash (p.rekeyed hmac) email').toOption)
    (hcode : hashCode p code = hashCode (p.rekeyed hmac) code') :
    SameOutcome (verifyEmail p d.env email code token db)
      (verifyEmail (p.rekeyed hmac) d'.env email' code' token db') := by
  unfold verifyEmail
  refine .bind_eq (requireTier_rekeyed .phone token hd hdb).symm fun user => ?_
  refine .bind_eq (submittedEmailHash_congr hemail).symm fun emailHash => ?_
  refine .bind_eq (judgeEmail_congr hd hdb hcode).symm fun v => ?_
  cases v with
  | wrong codeRow =>
    simp only [commit_env_some, ok_bind]
    refine .ok ⟨?_, rfl⟩
    refine ⟨hdb.users, hdb.otpCodes, ?_⟩
    simp only [countEmailAttempt, hdb.emailVerificationCodes]
  | right codeRow =>
    simp only [commit_env_some, ok_bind]
    have hdb1 : SameStored (consumeEmail d.env user codeRow db)
        (consumeEmail d'.env user codeRow db') := by
      constructor
      · simp only [consumeEmail, hdb.users]
      · exact hdb.otpCodes
      · simp only [consumeEmail, hdb.emailVerificationCodes, hd.env_now]
    rw [verified_congr hd hdb1]
    exact .ok ⟨hdb1, rfl⟩

/-! ## The runs -/

theorem answerCommit_congr {α : Type} {s s' : Server} {r r' : Except HttpException (Db × α)}
    (payload : α → Payload) (hs : SameStored s.db s'.db) (h : SameOutcome r r') :
    (answerCommit s r payload).1 = (answerCommit s' r' payload).1 ∧
      SameStored (answerCommit s r payload).2.db (answerCommit s' r' payload).2.db := by
  cases h with
  | error e => exact ⟨rfl, hs⟩
  | ok h => exact ⟨congrArg (fun out => Except.ok (payload out)) h.2, h.1⟩

theorem answerVerify_congr {s s' : Server}
    {r r' : Except HttpException (Db × Except HttpException VerifyOut)}
    (hs : SameStored s.db s'.db) (h : SameOutcome r r') :
    (answerVerify s r).1 = (answerVerify s' r').1 ∧
      SameStored (answerVerify s r).2.db (answerVerify s' r').2.db := by
  cases h with
  | error e => exact ⟨rfl, hs⟩
  | ok h => exact ⟨congrArg (Except.map Payload.verified) h.2, h.1⟩

/-- Corresponding requests on tables that agree: one response, and tables that agree. -/
theorem step_congr {e e' : Request × Draws} {s s' : Server}
    (he : SameHashes p (p.rekeyed hmac) e e') (hs : SameStored s.db s'.db) :
    ((Api p).step e s).1 = ((Api (p.rekeyed hmac)).step e' s').1 ∧
      SameStored ((Api p).step e s).2.db ((Api (p.rekeyed hmac)).step e' s').2.db := by
  cases he with
  | requestOtp hphone hcode hd =>
    exact answerCommit_congr _ hs (requestOtp_congr hd hs hphone hcode)
  | verifyOtp hphone hcode hd =>
    exact answerVerify_congr hs (verifyOtp_congr hd hs hphone hcode)
  | requestEmailVerification hemail hdomain hcode hd =>
    exact answerCommit_congr _ hs (requestEmailVerification_congr _ hd hs hemail hdomain hcode)
  | verifyEmail hemail hcode hd =>
    exact answerVerify_congr hs (verifyEmail_congr _ hd hs hemail hcode)

end

/-- Two runs under different keyed hashes, of requests whose plaintexts hash alike: the same
    responses, and after every step the same users, OTP codes and email codes. -/
theorem hash_and_discard (p : Platform) (hmac : String → String) {es es' : List (Request × Draws)}
    (hes : List.Forall₂ (SameHashes p (p.rekeyed hmac)) es es') {s s' : Server}
    (hs : SameStored s.db s'.db) :
    (Api p).outputs es s = (Api (p.rekeyed hmac)).outputs es' s' ∧
      ∀ n, SameStored ((Api p).exec (es.take n) s).db
        ((Api (p.rekeyed hmac)).exec (es'.take n) s').db :=
  (Api p).run_sim (R := fun (s s' : Server) => SameStored s.db s'.db) step_congr hes hs

/-- A hash that takes the second run's plaintexts to what the first run's hash to. -/
def secondHash (value : String) : String :=
  if value = "+15557654321" then "+15551234567"
  else if value = "bo@acme.com" then "al@acme.com"
  else if value = "000002" then "000001"
  else value

def firstPlaintexts : List (Request × Draws) :=
  [(.requestOtp "+15551234567", { drawsAt 0 30 with random := 1 }),
    (.verifyOtp "+15551234567" "000001", drawsAt 1 31),
    (.requestEmailVerification "al@acme.com" (some "alice"), { drawsAt 2 32 with random := 1 }),
    (.verifyEmail "al@acme.com" "000001" (some "alice"), drawsAt 3 33)]

def secondPlaintexts : List (Request × Draws) :=
  [(.requestOtp "+15557654321", { drawsAt 0 30 with random := 2 }),
    (.verifyOtp "+15557654321" "000002", drawsAt 1 31),
    (.requestEmailVerification "bo@acme.com" (some "alice"), { drawsAt 2 32 with random := 2 }),
    (.verifyEmail "bo@acme.com" "000002" (some "alice"), drawsAt 3 33)]

theorem plaintexts_discarded :
    ((Api smallPlatform).outputs firstPlaintexts (.start smallDb)).map Except.isOk =
        [true, true, true, true] ∧
      (Api smallPlatform).outputs firstPlaintexts (.start smallDb) =
        (Api (smallPlatform.rekeyed secondHash)).outputs secondPlaintexts (.start smallDb) := by
  have hemail : (submittedEmailHash smallPlatform "al@acme.com").toOption =
      (submittedEmailHash (smallPlatform.rekeyed secondHash) "bo@acme.com").toOption := by
    decide
  have hdomain :
      (splitEmailDomain (normalizeEmail smallPlatform "al@acme.com")).toOption.map
          (hashDomain smallPlatform) =
        (splitEmailDomain (normalizeEmail (smallPlatform.rekeyed secondHash)
          "bo@acme.com")).toOption.map (hashDomain (smallPlatform.rekeyed secondHash)) := by
    decide +kernel
  have hes : List.Forall₂ (SameHashes smallPlatform (smallPlatform.rekeyed secondHash))
      firstPlaintexts secondPlaintexts :=
    .cons (.requestOtp (by decide) (by decide) ⟨rfl, rfl, rfl⟩)
      (.cons (.verifyOtp (by decide) (by decide) ⟨rfl, rfl, rfl⟩)
        (.cons (.requestEmailVerification hemail hdomain (by decide) ⟨rfl, rfl, rfl⟩)
          (.cons (.verifyEmail hemail (by decide) ⟨rfl, rfl, rfl⟩) .nil)))
  exact ⟨by decide, (hash_and_discard smallPlatform secondHash hes ⟨rfl, rfl, rfl⟩).1⟩

end LinkedOut
