/-
  `app/routers/auth.py`: the three tiers of verification.

  The two verifications are cut where the source awaits a statement: `judgeOtp` and
  `judgeEmail` end with the comparison of the submitted code, and what is committed
  afterwards is written from the rows read before (`countAttempt`, `consumeOtp`,
  `consumeEmail`). A handler runs its pieces on one database; a concurrent session
  runs them on different ones.
-/
import LinkedOut.Codes
import LinkedOut.Tokens

namespace LinkedOut

/-! ## Tier 1: phone OTP -/

structure OTPRequestOut where
  message : String := "OTP sent"
  expiresInSeconds : Nat
  deriving DecidableEq, Repr

/-- `OTPVerifyOut` and `EmailVerifyOut`. -/
structure VerifyOut where
  accessToken : String
  refreshToken : String
  tokenType : String := "bearer"
  userId : Uuid
  verificationTier : VerificationTier
  deriving DecidableEq, Repr

/-- The row `request_otp` adds. -/
def newOtpCode (p : Platform) (env : Env) (phoneHash : String) : OTPCode where
  id := env.uuid 0
  phoneHash
  otpHash := hashCode p (generateNumericCode p.settings.otpLength env.random)
  attempts := 0
  expiresAt := env.now 1 + minutes p.settings.otpExpireMinutes
  consumedAt := none
  createdAt := env.now 2

/-- Clock: 0 the rate limit, 1 `expires_at`, 2 `created_at`. -/
def requestOtp (p : Platform) (env : Env) (phone : String) (db : Db) :
    Except HttpException (Db × OTPRequestOut) := do
  let phoneHash ← orUnprocessable (hashPhone p phone)
  orTooManyRequests "too many OTP requests for this phone number, try again later"
    (enforceRateLimit (db.otpCodes.select fun c => c.phoneHash == phoneHash) OTPCode.createdAt
      (env.now 0) p.settings.otpRateLimitWindowMinutes p.settings.otpRateLimitMaxRequests)
  let otpCodes ← commit env (db.otpCodes.insert (newOtpCode p env phoneHash)) internalServerError
  return ({ db with otpCodes }, { expiresInSeconds := p.settings.otpExpireMinutes * 60 })

/-- The SELECT of the code and the checks on it; the clock is read once. -/
def judgeOtp (p : Platform) (env : Env) (phoneHash code : String) (db : Db) :
    Except HttpException (Verdict OTPCode) :=
  judge p.settings.otpMaxAttempts (env.now 0) "no pending OTP for this phone" "OTP expired"
    (hashCode p code) (pending (env.place 0) db.otpCodes phoneHash)

/-- `otp_row.attempts += 1`. -/
def countOtpAttempt (otpRow : OTPCode) (db : Db) : Db :=
  { db with
    otpCodes := db.otpCodes.update otpRow.id (OTPCode.setAttempts (otpRow.attempts + 1)) }

/-- The SELECT of the user. -/
def loadUserByPhone (phoneHash : String) (db : Db) : Except HttpException (Option User) :=
  scalarOneOrNone ((Lookup.userByPhoneHash phoneHash).rows db)

/-- The flush of a right code: the row is consumed, and a user is created, raised from
    UNVERIFIED or left alone. Gives the user's id. -/
def consumeOtp (env : Env) (phoneHash : String) (otpRow : OTPCode) (user : Option User) (db : Db) :
    Option (Db × Uuid) :=
  let otpCodes := db.otpCodes.update otpRow.id (OTPCode.setConsumed (env.now 1))
  match user with
  | none => do
    let users ← db.users.insert
      { id := env.uuid 0, phoneHash, emailDomainHash := none, verificationTier := .phone }
    return ({ db with otpCodes, users }, env.uuid 0)
  | some user =>
    if user.verificationTier = .unverified then
      some ({ db with otpCodes, users := db.users.update user.id (User.setTier .phone) }, user.id)
    else some ({ db with otpCodes }, user.id)

/-- `db.refresh(user)` and the two tokens, minted at the clock readings `i` and `i + 1`. -/
def verified (p : Platform) (env : Env) (i : Nat) (userId : Uuid) (db : Db) :
    Except HttpException VerifyOut :=
  match db.users.find? userId with
  | none => .error internalServerError
  | some user => .ok {
      accessToken := createAccessToken p (env.now i) user.id user.verificationTier
      refreshToken := createRefreshToken p (env.now (i + 1)) user.id user.verificationTier
      userId := user.id
      verificationTier := user.verificationTier }

/-- Clock: 0 the expiry, 1 `consumed_at`, 2 and 3 the tokens. -/
def verifyOtp (p : Platform) (env : Env) (phone code : String) (db : Db) :
    Except HttpException (Db × Except HttpException VerifyOut) := do
  let phoneHash ← orUnprocessable (hashPhone p phone)
  match ← judgeOtp p env phoneHash code db with
  | .wrong otpRow =>
    let db' ← commit env (some (countOtpAttempt otpRow db)) internalServerError
    return (db', .error (incorrectCode p.settings.otpMaxAttempts (otpRow.attempts + 1)))
  | .right otpRow =>
    let user ← loadUserByPhone phoneHash db
    let (db', userId) ← commit env (consumeOtp env phoneHash otpRow user db) internalServerError
    return (db', verified p env 2 userId db')

/-! ## Tier 2: corporate email -/

structure EmailRequestOut where
  message : String := "verification code sent"
  expiresInSeconds : Nat
  deriving DecidableEq, Repr

/-- The row `request_email_verification` adds. -/
def newEmailCode (p : Platform) (env : Env) (userId : Uuid) (emailHash domain : String) :
    EmailVerificationCode where
  id := env.uuid 0
  userId
  emailHash
  domainHash := hashDomain p domain
  codeHash := hashCode p (generateNumericCode p.settings.emailCodeLength env.random)
  attempts := 0
  expiresAt := env.now 2 + minutes p.settings.emailCodeExpireMinutes
  consumedAt := none
  createdAt := env.now 3

/-- Clock: 0 the bearer token, 1 the rate limit, 2 `expires_at`, 3 `created_at`. -/
def requestEmailVerification (p : Platform) (env : Env) (email : String) (token : Option String)
    (db : Db) : Except HttpException (Db × EmailRequestOut) := do
  let user ← requireTier p env .phone token db
  let normalized := normalizeEmail p email
  let domain ← orUnprocessable (splitEmailDomain normalized)
  let emailHash := hashEmail p normalized
  orTooManyRequests "too many verification requests, try again later"
    (enforceRateLimit (db.emailVerificationCodes.select fun c => c.userId == user.id)
      EmailVerificationCode.createdAt (env.now 1) p.settings.emailRateLimitWindowMinutes
      p.settings.emailRateLimitMaxRequests)
  let emailVerificationCodes ←
    commit env (db.emailVerificationCodes.insert (newEmailCode p env user.id emailHash domain))
      internalServerError
  return ({ db with emailVerificationCodes },
    { expiresInSeconds := p.settings.emailCodeExpireMinutes * 60 })

/-- The shape check of the address, and its hash. -/
def submittedEmailHash (p : Platform) (email : String) : Except HttpException String := do
  let normalized := normalizeEmail p email
  let _ ← orUnprocessable (splitEmailDomain normalized)
  return hashEmail p normalized

/-- The SELECT of the code and the checks on it. -/
def judgeEmail (p : Platform) (env : Env) (userId : Uuid) (emailHash code : String) (db : Db) :
    Except HttpException (Verdict EmailVerificationCode) :=
  judge p.settings.otpMaxAttempts (env.now 1) "no pending verification for this email"
    "verification code expired" (hashCode p code)
    (pending (env.place 0) db.emailVerificationCodes (userId, emailHash))

/-- `code_row.attempts += 1`. -/
def countEmailAttempt (codeRow : EmailVerificationCode) (db : Db) : Db :=
  { db with
    emailVerificationCodes := db.emailVerificationCodes.update codeRow.id
      (EmailVerificationCode.setAttempts (codeRow.attempts + 1)) }

/-- The user row after a right code: only columns whose value changes are written. -/
def raiseToEmail (user : User) (domainHash : String) (users : Table User) : Table User :=
  let users :=
    if user.emailDomainHash = some domainHash then users
    else users.update user.id (User.setDomainHash domainHash)
  if user.verificationTier = .phone then users.update user.id (User.setTier .email) else users

/-- The flush of a right code. -/
def consumeEmail (env : Env) (user : User) (codeRow : EmailVerificationCode) (db : Db) : Db :=
  { db with
    emailVerificationCodes := db.emailVerificationCodes.update codeRow.id
      (EmailVerificationCode.setConsumed (env.now 2))
    users := raiseToEmail user codeRow.domainHash db.users }

/-- Clock: 0 the bearer token, 1 the expiry, 2 `consumed_at`, 3 and 4 the tokens. -/
def verifyEmail (p : Platform) (env : Env) (email code : String) (token : Option String)
    (db : Db) : Except HttpException (Db × Except HttpException VerifyOut) := do
  let user ← requireTier p env .phone token db
  let emailHash ← submittedEmailHash p email
  match ← judgeEmail p env user.id emailHash code db with
  | .wrong codeRow =>
    let db' ← commit env (some (countEmailAttempt codeRow db)) internalServerError
    return (db', .error (incorrectCode p.settings.otpMaxAttempts (codeRow.attempts + 1)))
  | .right codeRow =>
    let db' ← commit env (some (consumeEmail env user codeRow db)) internalServerError
    return (db', verified p env 3 user.id db')

/-! ## Tier 3: document upload -/

/-- `_MAX_DOCUMENT_BYTES`, 10 MiB. -/
def maxDocumentBytes : Nat := 10 * 1024 * 1024

structure DocumentUploadOut where
  message : String := "document queued for review"
  moderationId : Uuid
  docType : DocumentType
  status : String
  deriving DecidableEq, Repr

/-- `mkstemp` makes a file that was not there, or raises. -/
def mkstemp (env : Env) (files : List String) : Except HttpException (List String) :=
  if env.path ∈ files then .error internalServerError else .ok (env.path :: files)

/-- What is known before the file is written. -/
def acceptDocument (p : Platform) (env : Env) (content : List UInt8) (token : Option String)
    (db : Db) : Except HttpException User := do
  let user ← requireTier p env .email token db
  raiseIf content.isEmpty { status := 400, detail := "empty file" }
  raiseIf (decide (maxDocumentBytes < content.length))
    { status := 413, detail := "file too large" }
  return user

/-- The row `upload_document` adds. -/
def newDocument (p : Platform) (env : Env) (userId : Uuid) (docType : DocumentType)
    (content : List UInt8) : ModerationQueueItem where
  id := env.uuid 0
  userId
  docType
  contentHash := p.sha256 content
  ephemeralPath := some env.path
  status := .pending
  createdAt := env.now 1
  reviewedAt := none

/-- Clock: 0 the bearer token, 1 `created_at`. The file stays when the commit fails. -/
def uploadDocument (p : Platform) (env : Env) (docType : DocumentType) (content : List UInt8)
    (token : Option String) (db : Db) (files : List String) :
    List String × Except HttpException (Db × DocumentUploadOut) :=
  match acceptDocument p env content token db with
  | .error e => (files, .error e)
  | .ok user =>
    match mkstemp env files with
    | .error e => (files, .error e)
    | .ok files' =>
      let moderationRow := newDocument p env user.id docType content
      (files', do
        let moderationQueue ←
          commit env (db.moderationQueue.insert moderationRow) internalServerError
        return ({ db with moderationQueue },
          { moderationId := moderationRow.id, docType, status := moderationRow.status.value }))

structure CurrentUserOut where
  userId : Uuid
  verificationTier : String
  deriving DecidableEq, Repr

def readCurrentUser (p : Platform) (env : Env) (token : Option String) (db : Db) :
    Except HttpException CurrentUserOut := do
  let user ← getCurrentUser p env token db
  return { userId := user.id, verificationTier := user.verificationTier.value }

end LinkedOut
