/-
  The four kinds of token never cross.

  Four encoders (`Mint`) and three decoders share one secret. An employer token carries
  every claim an admin payload needs, so the payload's shape alone does not separate the
  kinds: the type check does. `decode_minted` is the separation for one token, valid and
  not expired, at every gate; what python-jose is relied on for is `Jose`.
-/
import LinkedOut.Gates.Authority
import Mathlib.Tactic.DeriveEncodable

namespace LinkedOut

/-! ## Minting -/

/-- A call of one of the encoders. -/
inductive Mint where
  | access (userId : Uuid) (tier : VerificationTier)
  | refresh (userId : Uuid) (tier : VerificationTier)
  | employer (employerAccountId companyId : Uuid) (verified : Bool)
  | admin (adminId : Uuid)
  deriving DecidableEq, Repr

/-- The token minted at the time `now`. -/
def Mint.token (p : Platform) (now : Time) : Mint → String
  | .access userId tier => createAccessToken p now userId tier
  | .refresh userId tier => createRefreshToken p now userId tier
  | .employer employerAccountId companyId verified =>
    createEmployerToken p now employerAccountId companyId verified
  | .admin adminId => createAdminToken p now adminId

/-- Until when the token is meant to be valid. -/
def Mint.expires (p : Platform) (now : Time) : Mint → Time
  | .refresh .. => now + minutes p.settings.jwtRefreshTokenExpireMinutes
  | _ => now + minutes p.settings.jwtAccessTokenExpireMinutes

/-- The gate a token is for, of the three that decode one; a refresh token is for none. -/
def Mint.gate : Mint → Option Gate
  | .access .. => some .currentUser
  | .refresh .. => none
  | .employer .. => some .employerAccount
  | .admin .. => some .admin

/-! ## Decoding -/

/-- A decoded payload of one of the three kinds. -/
inductive Decoded where
  | user (payload : TokenPayload)
  | employer (payload : EmployerTokenPayload)
  | admin (payload : AdminTokenPayload)
  deriving DecidableEq, Repr

/-- The gate that decodes the token: `require_tier` leaves it to `get_current_user`. -/
def Gate.decoder : Gate → Gate
  | .tier _ => .currentUser
  | gate => gate

/-- The decoding step of a gate. -/
def Gate.decode (p : Platform) (now : Time) (token : String) : Gate → Except String Decoded
  | .currentUser | .tier _ => (decodeToken p now token .access).map .user
  | .employerAccount => (decodeEmployerToken p now token).map .employer
  | .admin => (decodeAdminToken p now token).map .admin

/-- A time without its fraction of a second. -/
def wholeSeconds (t : Time) : Time := fromTimestamp (timestamp t)

/-- What a token says to the gate it is for. -/
def Mint.payload (p : Platform) (now : Time) : Mint → Option Decoded
  | .access userId tier =>
    some (.user
      { sub := userId, tier, iat := wholeSeconds now,
        exp := wholeSeconds (now + minutes p.settings.jwtAccessTokenExpireMinutes),
        type := .access })
  | .refresh .. => none
  | .employer employerAccountId companyId verified =>
    some (.employer
      { sub := employerAccountId, companyId, verified, iat := wholeSeconds now,
        exp := wholeSeconds (now + minutes p.settings.jwtAccessTokenExpireMinutes),
        type := .employer })
  | .admin adminId =>
    some (.admin
      { sub := adminId, iat := wholeSeconds now,
        exp := wholeSeconds (now + minutes p.settings.jwtAccessTokenExpireMinutes),
        type := .admin })

/-- What is relied on in python-jose: under one secret, `decode` gives back the claims that
    were encoded until `exp`, and raises afterwards. Its clock counts whole seconds. -/
structure Jose (p : Platform) : Prop where
  decode_encode : ∀ now claims exp, claims.exp = some exp → timestamp now ≤ exp →
    p.jwtDecode now (p.jwtEncode claims) = .ok claims
  expired : ∀ now claims exp, claims.exp = some exp → exp < timestamp now →
    ∃ exc, p.jwtDecode now (p.jwtEncode claims) = .error exc

section

variable {p : Platform} {now minted : Time}

/-- The claims each encoder signs. -/
def Mint.claims (p : Platform) (now : Time) (mint : Mint) : Claims :=
  let times : Claims :=
    { iat := some (timestamp now), exp := some (timestamp (mint.expires p now)) }
  match mint with
  | .access userId tier => { times with sub := some userId, tier := some tier, type := some .access }
  | .refresh userId tier =>
    { times with sub := some userId, tier := some tier, type := some .refresh }
  | .employer employerAccountId companyId verified =>
    { times with
      sub := some employerAccountId, companyId := some companyId, verified := some verified
      type := some .employer }
  | .admin adminId => { times with sub := some adminId, type := some .admin }

theorem token_eq (mint : Mint) : mint.token p now = p.jwtEncode (mint.claims p now) := by
  cases mint <;> rfl

theorem claims_exp (mint : Mint) :
    (mint.claims p now).exp = some (timestamp (mint.expires p now)) := by
  cases mint <;> rfl

/-- What the encoders sign is well formed. -/
theorem claims_wellFormed (mint : Mint) : (mint.claims p now).WellFormed := by
  cases mint <;> exact ⟨rfl, rfl, rfl, rfl, rfl, rfl⟩

/-! ## Separation -/

theorem decodeAs_ok {α : Type} {token wrongType : String} {raw : Claims}
    {payload : Claims → Option α} {typeOf : α → TokenType} {expected : TokenType} {a : α}
    (hraw : p.jwtDecode now token = .ok raw) :
    decodeAs p now token payload typeOf expected wrongType = .ok a ↔
      payload raw = some a ∧ typeOf a = expected := by
  simp only [decodeAs, hraw]
  cases payload raw with
  | none => simp
  | some decoded =>
    by_cases htype : typeOf decoded = expected
    · simp only [ne_eq, htype, not_true_eq_false, if_false, Except.ok.injEq, Option.some.injEq]
      exact ⟨fun h => ⟨h, h ▸ htype⟩, fun h => h.1⟩
    · simp only [ne_eq, htype, not_false_eq_true, if_true, reduceCtorEq, Option.some.injEq,
        false_iff, not_and]
      exact fun h => h ▸ htype

/-- The token of `mint`, valid and not expired, at any gate: only the gate it is for decodes
    it, and finds what was minted. -/
theorem decode_minted {token : String} {mint : Mint} (gate : Gate) (d : Decoded)
    (hclaims : p.jwtDecode now token = .ok (mint.claims p minted)) :
    gate.decode p now token = .ok d ↔
      mint.gate = some gate.decoder ∧ mint.payload p minted = some d := by
  -- a payload is missing a claim, or has the type of another kind, or is the minted one
  cases gate with
  | currentUser | tier =>
    simp only [Gate.decode, decodeToken, map_ok, decodeAs_ok hclaims]
    cases mint <;> simp [Mint.claims, Claims.tokenPayload, Mint.gate, Gate.decoder, Mint.payload,
      Mint.expires, wholeSeconds]
  | employerAccount =>
    simp only [Gate.decode, decodeEmployerToken, map_ok, decodeAs_ok hclaims]
    cases mint <;> simp [Mint.claims, Claims.employerTokenPayload, Mint.gate, Gate.decoder,
      Mint.payload, Mint.expires, wholeSeconds]
  | admin =>
    simp only [Gate.decode, decodeAdminToken, map_ok, decodeAs_ok hclaims]
    cases mint <;> simp [Mint.claims, Claims.adminTokenPayload, Mint.gate, Gate.decoder,
      Mint.payload, Mint.expires, wholeSeconds]

theorem decode_error {token exc : String} (gate : Gate) (hexc : p.jwtDecode now token = .error exc)
    (d : Decoded) : gate.decode p now token ≠ .ok d := by
  cases gate <;>
    simp [Gate.decode, decodeToken, decodeEmployerToken, decodeAdminToken, decodeAs, hexc,
      Except.map]

theorem gate_payload {mint : Mint} {gate : Gate} (h : mint.gate = some gate) :
    ∃ d, mint.payload p minted = some d := by
  cases mint with
  | refresh => cases h
  | access | employer | admin => exact ⟨_, rfl⟩

/-- The decoding error of a token becomes a 401. -/
theorem subject_undecoded {env : Env} {gate : Gate} {token exc : String}
    (h : gate.decode p (env.now 0) token = .error exc) :
    ∃ e, gate.subject p env (some token) = .error e ∧ e.status = 401 := by
  cases gate with
  | currentUser | tier | employerAccount | admin =>
    simp only [Gate.subject, authenticate, map_error h]
    exact ⟨_, rfl, rfl⟩

/-- A token that a gate cannot decode is refused with a 401, whatever is stored. -/
theorem check_undecoded {env : Env} {gate : Gate} {token : String} (db : Db)
    (h : ∀ d, gate.decode p (env.now 0) token ≠ .ok d) :
    ∃ e, gate.check p env (some token) db = .error e ∧ e.status = 401 := by
  cases hdec : gate.decode p (env.now 0) token with
  | error exc =>
    obtain ⟨e, hsubject, hstatus⟩ := subject_undecoded hdec
    exact ⟨e, check_error db hsubject, hstatus⟩
  | ok d => exact absurd hdec (h d)

/-- Until it expires, a minted token is decoded by the gate it is for and by no other, a
    refresh token by none, and what is decoded is what was minted, times in whole seconds.
    Every other gate answers it with a 401, also when its id is stored there. -/
theorem token_kinds (hjose : Jose p) (mint : Mint) :
    (timestamp now ≤ timestamp (mint.expires p minted) → ∀ gate : Gate,
      ((∃ d, gate.decode p now (mint.token p minted) = .ok d) ↔ mint.gate = some gate.decoder) ∧
        ∀ d, gate.decode p now (mint.token p minted) = .ok d → mint.payload p minted = some d) ∧
      (timestamp (mint.expires p minted) < timestamp now →
        ∀ (gate : Gate) d, gate.decode p now (mint.token p minted) ≠ .ok d) ∧
      ∀ gate : Gate, mint.gate ≠ some gate.decoder → ∀ (env : Env) (db : Db), env.now 0 = now →
        ∃ e, gate.check p env (some (mint.token p minted)) db = .error e ∧ e.status = 401 := by
  have hvalid : timestamp now ≤ timestamp (mint.expires p minted) →
      ∀ (gate : Gate) d, gate.decode p now (mint.token p minted) = .ok d ↔
        mint.gate = some gate.decoder ∧ mint.payload p minted = some d := by
    intro hexp gate d
    refine decode_minted gate d ?_
    rw [token_eq]
    exact hjose.decode_encode now _ _ (claims_exp mint) hexp
  have hexpired : timestamp (mint.expires p minted) < timestamp now →
      ∀ (gate : Gate) d, gate.decode p now (mint.token p minted) ≠ .ok d := by
    intro hexp gate d hd
    obtain ⟨exc, hexc⟩ := hjose.expired now _ _ (claims_exp mint) hexp
    rw [← token_eq] at hexc
    exact absurd hd (decode_error gate hexc d)
  refine ⟨fun hexp gate => ⟨⟨?_, ?_⟩, ?_⟩, hexpired, ?_⟩
  · rintro ⟨d, hd⟩
    exact ((hvalid hexp gate d).mp hd).1
  · intro hgate
    obtain ⟨d, hd⟩ := gate_payload hgate
    exact ⟨d, (hvalid hexp gate d).mpr ⟨hgate, hd⟩⟩
  · exact fun d hd => ((hvalid hexp gate d).mp hd).2
  · rintro gate hgate env db rfl
    refine check_undecoded db fun d hd => ?_
    rcases le_or_gt (timestamp (env.now 0)) (timestamp (mint.expires p minted)) with hexp | hexp
    · exact hgate ((hvalid hexp gate d).mp hd).1
    · exact hexpired hexp gate d hd

end

/-! ## An instance -/

deriving instance Encodable for VerificationTier, TokenType, Claims

/-- Signs by counting: the token of the `n`-th claims is `n` letters long. -/
def unaryPlatform : Platform :=
  { smallPlatform with
    jwtEncode := fun claims => String.ofList (List.replicate (Encodable.encode claims) 'a')
    jwtDecode := fun now token =>
      match (Encodable.decode token.length : Option Claims) with
      | none => .error "Signature verification failed."
      | some claims =>
        if claims.exp.any fun exp => exp < timestamp now then .error "Signature has expired."
        else .ok claims }

theorem unaryPlatform_jose : Jose unaryPlatform where
  decode_encode now claims exp hexp hnow := by
    simp [unaryPlatform, hexp, Int.not_lt.mpr hnow]
  expired now claims exp hexp hnow := by
    simp [unaryPlatform, hexp, hnow]

/-- Employer account 9 has the id of an admin. -/
theorem employerToken_separate :
    (∀ gate : Gate, (∃ d, gate.decode unaryPlatform 60000000
        (createEmployerToken unaryPlatform 0 9 5 true) = .ok d) ↔
      Gate.employerAccount = gate.decoder) ∧
      ∃ e, Gate.admin.check unaryPlatform (drawsAt 60000000 20).env
        (some (createEmployerToken unaryPlatform 0 9 5 true)) smallDb = .error e ∧
        e.status = 401 := by
  obtain ⟨hvalid, -, hother⟩ := token_kinds unaryPlatform_jose (.employer 9 5 true)
  refine ⟨fun gate => ?_, hother .admin (by decide) (drawsAt 60000000 20).env smallDb rfl⟩
  exact ((hvalid (by decide) gate).1).trans ⟨Option.some.inj, congrArg some⟩

end LinkedOut
