/-
  `app/core/jwt.py` and `app/core/deps.py`: minting and decoding of tokens, and the
  three gates that load the caller's row.

  Each gate decodes the bearer token, takes only `sub` from it and decides on the row
  that is stored now. `getCurrentUser_ok`, `getCurrentEmployerAccount_ok` and
  `getCurrentAdmin_ok` say what has to hold when a gate lets a request through; the
  gates read the database and never write it.
-/
import LinkedOut.Lookups
import LinkedOut.Security

namespace LinkedOut

/-! ## app/core/jwt.py -/

structure TokenPayload where
  sub : Uuid
  tier : VerificationTier
  iat : Time
  exp : Time
  type : TokenType
  deriving DecidableEq, Repr

structure EmployerTokenPayload where
  sub : Uuid
  companyId : Uuid
  verified : Bool
  iat : Time
  exp : Time
  type : TokenType
  deriving DecidableEq, Repr

structure AdminTokenPayload where
  sub : Uuid
  iat : Time
  exp : Time
  type : TokenType
  deriving DecidableEq, Repr

/-- `int(t.timestamp())`, for a time since the epoch. -/
def timestamp (t : Time) : Int := t / 1000000

/-- `datetime.fromtimestamp(s, tz=UTC)`. -/
def fromTimestamp (s : Int) : Time := s * 1000000

def createToken (p : Platform) (now : Time) (userId : Uuid) (tier : VerificationTier)
    (tokenType : TokenType) (expiresDelta : Time) : String :=
  p.jwtEncode
    { sub := some userId, tier := some tier, iat := some (timestamp now),
      exp := some (timestamp (now + expiresDelta)), type := some tokenType }

def createAccessToken (p : Platform) (now : Time) (userId : Uuid) (tier : VerificationTier) :
    String :=
  createToken p now userId tier .access (minutes p.settings.jwtAccessTokenExpireMinutes)

def createRefreshToken (p : Platform) (now : Time) (userId : Uuid) (tier : VerificationTier) :
    String :=
  createToken p now userId tier .refresh (minutes p.settings.jwtRefreshTokenExpireMinutes)

def createEmployerToken (p : Platform) (now : Time) (employerAccountId companyId : Uuid)
    (verified : Bool) : String :=
  p.jwtEncode
    { sub := some employerAccountId, companyId := some companyId, verified := some verified,
      iat := some (timestamp now),
      exp := some (timestamp (now + minutes p.settings.jwtAccessTokenExpireMinutes)),
      type := some .employer }

def createAdminToken (p : Platform) (now : Time) (adminId : Uuid) : String :=
  p.jwtEncode
    { sub := some adminId, iat := some (timestamp now),
      exp := some (timestamp (now + minutes p.settings.jwtAccessTokenExpireMinutes)),
      type := some .admin }

/-- The `TokenPayload` of the claims; `none` is the `KeyError` or `ValueError`. -/
def Claims.tokenPayload (raw : Claims) : Option TokenPayload := do
  return { sub := ← raw.sub, tier := ← raw.tier, iat := fromTimestamp (← raw.iat),
           exp := fromTimestamp (← raw.exp), type := ← raw.type }

def Claims.employerTokenPayload (raw : Claims) : Option EmployerTokenPayload := do
  return { sub := ← raw.sub, companyId := ← raw.companyId, verified := ← raw.verified,
           iat := fromTimestamp (← raw.iat), exp := fromTimestamp (← raw.exp), type := ← raw.type }

def Claims.adminTokenPayload (raw : Claims) : Option AdminTokenPayload := do
  return { sub := ← raw.sub, iat := fromTimestamp (← raw.iat),
           exp := fromTimestamp (← raw.exp), type := ← raw.type }

def TokenType.value : TokenType → String
  | access => "access" | refresh => "refresh" | employer => "employer" | admin => "admin"

/-- Signature and expiry, then the payload's shape, then its type. -/
def decodeAs {α : Type} (p : Platform) (now : Time) (token : String)
    (payload : Claims → Option α) (typeOf : α → TokenType) (expected : TokenType)
    (wrongType : String) : Except String α :=
  match p.jwtDecode now token with
  | .error exc => .error exc
  | .ok raw =>
    match payload raw with
    | none => .error "malformed token payload"
    | some decoded => if typeOf decoded ≠ expected then .error wrongType else .ok decoded

/-- `decode_token` with an `expected_type`. -/
def decodeToken (p : Platform) (now : Time) (token : String) (expectedType : TokenType) :
    Except String TokenPayload :=
  decodeAs p now token Claims.tokenPayload TokenPayload.type expectedType
    s!"expected a {expectedType.value} token"

def decodeEmployerToken (p : Platform) (now : Time) (token : String) :
    Except String EmployerTokenPayload :=
  decodeAs p now token Claims.employerTokenPayload EmployerTokenPayload.type .employer
    "expected an employer token"

def decodeAdminToken (p : Platform) (now : Time) (token : String) :
    Except String AdminTokenPayload :=
  decodeAs p now token Claims.adminTokenPayload AdminTokenPayload.type .admin
    "expected an admin token"

/-! ## app/core/deps.py -/

/-- The ordinal rank of each tier. -/
def tierRank : VerificationTier → Nat
  | .unverified => 0 | .phone => 1 | .email => 2 | .document => 3

def bearerHeader : List (String × String) := [("WWW-Authenticate", "Bearer")]

/-- The part the gates share: the credentials and the decoding of the token. -/
def authenticate {α : Type} (token : Option String) (decode : String → Except String α) :
    Except HttpException α :=
  match token with
  | none => .error { status := 401, detail := "missing bearer token", headers := bearerHeader }
  | some credentials =>
    match decode credentials with
    | .error exc => .error { status := 401, detail := s!"invalid or expired token: {exc}",
                             headers := bearerHeader }
    | .ok payload => .ok payload

/-- The token is decoded at the request's first clock reading. -/
def getCurrentUser (p : Platform) (env : Env) (token : Option String) (db : Db) :
    Except HttpException User := do
  let payload ← authenticate token fun t => decodeToken p (env.now 0) t .access
  match ← scalarOneOrNone ((Lookup.userById payload.sub).rows db) with
  | none => .error { status := 401, detail := "user not found" }
  | some user => .ok user

def requireTier (p : Platform) (env : Env) (minimum : VerificationTier) (token : Option String)
    (db : Db) : Except HttpException User := do
  let user ← getCurrentUser p env token db
  if tierRank user.verificationTier < tierRank minimum then
    .error { status := 403,
             detail := s!"requires verification tier '{minimum.value}' or higher" }
  else .ok user

def getCurrentEmployerAccount (p : Platform) (env : Env) (token : Option String) (db : Db) :
    Except HttpException EmployerAccount := do
  let payload ← authenticate token (decodeEmployerToken p (env.now 0))
  match ← scalarOneOrNone ((Lookup.employerAccountById payload.sub).rows db) with
  | none => .error { status := 401, detail := "employer account not found" }
  | some account =>
    if account.verified then .ok account
    else .error { status := 403, detail := "employer account not verified" }

def getCurrentAdmin (p : Platform) (env : Env) (token : Option String) (db : Db) :
    Except HttpException AdminUser := do
  let payload ← authenticate token (decodeAdminToken p (env.now 0))
  match ← scalarOneOrNone ((Lookup.adminById payload.sub).rows db) with
  | none => .error { status := 401, detail := "admin account not found" }
  | some admin =>
    if admin.isActive then .ok admin
    else .error { status := 403, detail := "admin account deactivated" }

/-! ## What a gate that lets a request through has checked -/

theorem authenticate_ok {α : Type} {token : Option String} {decode : String → Except String α}
    {a : α} (h : authenticate token decode = .ok a) : ∃ t, token = some t ∧ decode t = .ok a := by
  unfold authenticate at h
  split at h
  · cases h
  · rename_i t
    split at h
    · cases h
    · rename_i payload hp
      cases h
      exact ⟨t, rfl, hp⟩

/-- A gate decodes the token, and then looks at the row with the primary key `sub`. -/
theorem load_ok {α β π : Type} [Record α] {token : Option String}
    {decode : String → Except String π} (sub : π → Uuid) {rows : Table α}
    {gate : Option α → Except HttpException β} {b : β}
    (h : (authenticate token decode >>= fun payload =>
      scalarOneOrNone (rows.select fun a => pk a == sub payload) >>= gate) = .ok b) :
    ∃ t payload, token = some t ∧ decode t = .ok payload ∧
      gate (rows.find? (sub payload)) = .ok b := by
  obtain ⟨payload, hauth, hrow⟩ := bind_ok h
  obtain ⟨t, ht, hdec⟩ := authenticate_ok hauth
  rw [scalarOneOrNone_pk] at hrow
  exact ⟨t, payload, ht, hdec, hrow⟩

/-- `token` is, at the time `now`, an access token of `user`. -/
def IsUserToken (p : Platform) (now : Time) (token : Option String) (userId : Uuid) : Prop :=
  ∃ t payload, token = some t ∧ decodeToken p now t .access = .ok payload ∧ payload.sub = userId

/-- `token` is, at the time `now`, an employer token of the account. -/
def IsEmployerToken (p : Platform) (now : Time) (token : Option String) (accountId : Uuid) :
    Prop :=
  ∃ t payload, token = some t ∧ decodeEmployerToken p now t = .ok payload ∧ payload.sub = accountId

/-- `token` is, at the time `now`, an admin token of the admin. -/
def IsAdminToken (p : Platform) (now : Time) (token : Option String) (adminId : Uuid) : Prop :=
  ∃ t payload, token = some t ∧ decodeAdminToken p now t = .ok payload ∧ payload.sub = adminId

theorem getCurrentUser_ok {p : Platform} {env : Env} {token : Option String} {db : Db} {user : User}
    (h : getCurrentUser p env token db = .ok user) :
    db.users.find? user.id = some user ∧ IsUserToken p (env.now 0) token user.id := by
  obtain ⟨t, payload, ht, hdec, hgate⟩ := load_ok TokenPayload.sub h
  split at hgate
  · cases hgate
  · rename_i u hu
    cases hgate
    have hid : user.id = payload.sub := ((db.users.find?_eq_some _ _).mp hu).2
    exact ⟨hid ▸ hu, t, payload, ht, hdec, hid.symm⟩

theorem requireTier_ok {p : Platform} {env : Env} {minimum : VerificationTier}
    {token : Option String} {db : Db} {user : User}
    (h : requireTier p env minimum token db = .ok user) :
    db.users.find? user.id = some user ∧ tierRank minimum ≤ tierRank user.verificationTier ∧
      IsUserToken p (env.now 0) token user.id := by
  obtain ⟨u, hu, h⟩ := bind_ok h
  split at h
  · cases h
  · rename_i hrank
    cases h
    obtain ⟨hfind, htok⟩ := getCurrentUser_ok hu
    exact ⟨hfind, by omega, htok⟩

theorem getCurrentEmployerAccount_ok {p : Platform} {env : Env} {token : Option String} {db : Db}
    {account : EmployerAccount} (h : getCurrentEmployerAccount p env token db = .ok account) :
    db.employerAccounts.find? account.id = some account ∧ account.verified = true ∧
      IsEmployerToken p (env.now 0) token account.id := by
  obtain ⟨t, payload, ht, hdec, hgate⟩ := load_ok EmployerTokenPayload.sub h
  split at hgate
  · cases hgate
  · rename_i a ha
    split at hgate
    · rename_i hverified
      cases hgate
      have hid : account.id = payload.sub := ((db.employerAccounts.find?_eq_some _ _).mp ha).2
      exact ⟨hid ▸ ha, hverified, t, payload, ht, hdec, hid.symm⟩
    · cases hgate

theorem getCurrentAdmin_ok {p : Platform} {env : Env} {token : Option String} {db : Db}
    {admin : AdminUser} (h : getCurrentAdmin p env token db = .ok admin) :
    db.adminUsers.find? admin.id = some admin ∧ admin.isActive = true ∧
      IsAdminToken p (env.now 0) token admin.id := by
  obtain ⟨t, payload, ht, hdec, hgate⟩ := load_ok AdminTokenPayload.sub h
  split at hgate
  · cases hgate
  · rename_i a ha
    split at hgate
    · rename_i hactive
      cases hgate
      have hid : admin.id = payload.sub := ((db.adminUsers.find?_eq_some _ _).mp ha).2
      exact ⟨hid ▸ ha, hactive, t, payload, ht, hdec, hid.symm⟩
    · cases hgate

end LinkedOut
