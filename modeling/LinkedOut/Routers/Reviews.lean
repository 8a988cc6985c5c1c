/-
  `app/routers/reviews.py`, `app/routers/layoff_events.py` and `app/routers/employer.py`:
  reviews, corroborations, employer responses and layoff events, and the public lists
  of each.

  A handler that can lose a race against its own lookup (`existing`) answers the same
  409 when the commit fails.
-/
import LinkedOut.Tokens

namespace LinkedOut

def companyNotFound : HttpException := { status := 404, detail := "company not found" }

def reviewNotFound : HttpException := { status := 404, detail := "review not found" }

/-- `select(Company.id)`, and the 404. -/
def requireCompany (companyId : Uuid) (db : Db) : Except HttpException Unit := do
  match ← scalarOneOrNone ((Lookup.companyById companyId).rows db) with
  | none => .error companyNotFound
  | some _ => .ok ()

/-- The SELECT of a review by id with `.first()`, and the 404. -/
def requireReview (reviewId : Uuid) (db : Db) : Except HttpException Review :=
  match (db.reviews.select fun r => pk r == reviewId).head? with
  | none => .error reviewNotFound
  | some review => .ok review

/-- `existing is not None`. -/
def refuseExisting {α : Type} (existing : Lookup α) (conflict : HttpException) (db : Db) :
    Except HttpException Unit := do
  match ← scalarOneOrNone (existing.rows db) with
  | none => .ok ()
  | some _ => .error conflict

/-! ## Reviews -/

structure ReviewCreate where
  companyId : Uuid
  exitReason : ExitReason
  tenureBucket : TenureBucket
  department : String
  roleLevel : RoleLevel
  isCurrentEmployee : Bool
  prose : String
  deriving DecidableEq, Repr

def ReviewCreate.check (body : ReviewCreate) : Except HttpException Unit :=
  validate [("body.department", lengthIn 1 departmentMaxLen body.department),
    ("body.prose", lengthIn 1 proseMaxLen body.prose)]

/-- `ReviewCreateOut` and `LayoffEventCreateOut`. -/
structure CreateOut where
  id : Uuid
  status : ReviewStatus
  message : String
  deriving DecidableEq, Repr

def duplicateReview : HttpException :=
  { status := 409, detail := "you have already submitted a review for this company" }

/-- The row `submit_review` adds. -/
def newReview (p : Platform) (env : Env) (userId : Uuid) (body : ReviewCreate) : Review where
  id := env.uuid 0
  userId
  companyId := body.companyId
  exitReason := body.exitReason
  tenureBucket := body.tenureBucket
  department := body.department
  roleLevel := body.roleLevel
  isCurrentEmployee := body.isCurrentEmployee
  prose := body.prose
  status := .pending
  flaggedReason := p.scanForFlaggedContent [some body.department, some body.prose]
  createdAt := env.now 2

def Review.createOut (review : Review) : CreateOut where
  id := review.id
  status := review.status
  message := "review submitted and pending moderation"

/-- Clock: 0 the bearer token, 1 the rate limit, 2 `created_at`. -/
def submitReview (p : Platform) (env : Env) (body : ReviewCreate) (token : Option String)
    (db : Db) : Except HttpException (Db × CreateOut) := do
  let user ← requireTier p env .email token db
  body.check
  requireCompany body.companyId db
  orTooManyRequests "too many reviews submitted recently, try again later"
    (enforceRateLimit (db.reviews.select fun r => r.userId == user.id) Review.createdAt (env.now 1)
      p.settings.reviewRateLimitWindowMinutes p.settings.reviewRateLimitMaxRequests)
  refuseExisting (.reviewByAuthor user.id body.companyId) duplicateReview db
  let review := newReview p env user.id body
  let reviews ← commit env (db.reviews.insert review) duplicateReview
  return ({ db with reviews }, review.createOut)

/-- Where a submission stands between two of its statements: what it has read so far, and the
    clock reading of its count. -/
inductive ReviewSubmission where
  | received
  | author (user : User)
  | authorAtCompany (user : User)
  | authorInLimit (user : User) (checked : Time)
  | newAuthor (user : User) (checked : Time)

/-- `submit_review` cut where it awaits: a statement before the commit is `asked` and goes on
    with what it has read, the commit is `concluded` with the new row. -/
def submitReviewStep {β : Type} (p : Platform) (body : ReviewCreate) (token : Option String)
    (env : Env) (db : Db) (asked : Except HttpException ReviewSubmission → β)
    (concluded : Except HttpException (Db × Review) → β) : ReviewSubmission → β
  | .received => asked do
    let user ← requireTier p env .email token db
    body.check
    return .author user
  | .author user => asked do
    requireCompany body.companyId db
    return .authorAtCompany user
  | .authorAtCompany user => asked do
    orTooManyRequests "too many reviews submitted recently, try again later"
      (enforceRateLimit (db.reviews.select fun r => r.userId == user.id) Review.createdAt
        (env.now 1) p.settings.reviewRateLimitWindowMinutes p.settings.reviewRateLimitMaxRequests)
    return .authorInLimit user (env.now 1)
  | .authorInLimit user checked => asked do
    refuseExisting (.reviewByAuthor user.id body.companyId) duplicateReview db
    return .newAuthor user checked
  | .newAuthor user _ => concluded do
    let review := newReview p env user.id body
    let reviews ← commit env (db.reviews.insert review) duplicateReview
    return ({ db with reviews }, review)

/-- `ReviewRead`: every column but the author's id and the flag. -/
structure ReviewRead where
  id : Uuid
  companyId : Uuid
  exitReason : ExitReason
  tenureBucket : TenureBucket
  department : String
  roleLevel : RoleLevel
  isCurrentEmployee : Bool
  prose : String
  status : ReviewStatus
  createdAt : Time
  deriving DecidableEq, Repr

def Review.read (r : Review) : ReviewRead where
  id := r.id
  companyId := r.companyId
  exitReason := r.exitReason
  tenureBucket := r.tenureBucket
  department := r.department
  roleLevel := r.roleLevel
  isCurrentEmployee := r.isCurrentEmployee
  prose := r.prose
  status := r.status
  createdAt := r.createdAt

/-- A page of a list endpoint. -/
structure Paginated (α : Type) where
  items : List α
  total : Nat
  limit : Int
  offset : Int
  deriving DecidableEq, Repr

/-- One query for the count and one for the page of `rows`, which come `ordered`. -/
def paginate {α β : Type} (page : Page) (rows ordered : List α) (read : α → β) : Paginated β where
  items := (page.slice ordered).map read
  total := rows.length
  limit := page.limit
  offset := page.offset

def listCompanyReviews (env : Env) (companyId : Uuid) (page : Page) (db : Db) :
    Except HttpException (Paginated ReviewRead) := do
  page.check
  let rows := db.reviews.select fun r => r.companyId == companyId && r.status == .published
  return paginate page rows (orderDesc (fun r => env.place 0 r.id) Review.createdAt rows)
    Review.read

/-! ## Corroborations -/

structure CorroborationCreateOut where
  id : Uuid
  message : String := "corroboration recorded"
  deriving DecidableEq, Repr

/-- `CorroborationCreate`. -/
def checkComment (comment : Option String) : Except HttpException Unit :=
  validate [("body.comment",
    match comment with
    | none => true
    | some text => lengthIn 0 corroborationCommentMaxLen text)]

def alreadyCorroborated : HttpException :=
  { status := 409, detail := "you have already corroborated this review" }

/-- The row `corroborate_review` adds. -/
def newCorroboration (env : Env) (reviewId userId : Uuid) (comment : Option String) :
    Corroboration where
  id := env.uuid 0
  reviewId
  userId
  comment
  createdAt := env.now 1

/-- Clock: 0 the bearer token, 1 `created_at`. -/
def corroborateReview (p : Platform) (env : Env) (reviewId : Uuid) (comment : Option String)
    (token : Option String) (db : Db) : Except HttpException (Db × CorroborationCreateOut) := do
  let user ← requireTier p env .phone token db
  checkComment comment
  let review ← requireReview reviewId db
  raiseIf (review.userId == user.id)
    { status := 400, detail := "you cannot corroborate your own review" }
  refuseExisting (.corroborationBy reviewId user.id) alreadyCorroborated db
  let corroboration := newCorroboration env reviewId user.id comment
  let corroborations ← commit env (db.corroborations.insert corroboration) alreadyCorroborated
  return ({ db with corroborations }, { id := corroboration.id })

structure CorroborationRead where
  comment : Option String
  createdAt : Time
  deriving DecidableEq, Repr

def Corroboration.read (c : Corroboration) : CorroborationRead := ⟨c.comment, c.createdAt⟩

/-- The review only has to exist: its status is not looked at. -/
def listCorroborations (env : Env) (reviewId : Uuid) (page : Page) (db : Db) :
    Except HttpException (Paginated CorroborationRead) := do
  page.check
  match ← scalarOneOrNone ((Lookup.reviewById reviewId).rows db) with
  | none => .error reviewNotFound
  | some _ =>
    let rows := db.corroborations.select fun c => c.reviewId == reviewId
    return paginate page rows (orderDesc (fun c => env.place 0 c.id) Corroboration.createdAt rows)
      Corroboration.read

/-! ## Employer response -/

structure EmployerResponseRead where
  id : Uuid
  reviewId : Uuid
  responseText : String
  createdAt : Time
  deriving DecidableEq, Repr

def EmployerResponse.read (r : EmployerResponse) : EmployerResponseRead :=
  ⟨r.id, r.reviewId, r.responseText, r.createdAt⟩

def alreadyAnswered : HttpException :=
  { status := 409, detail := "this review already has a response" }

/-- The row `respond_to_review` adds. -/
def newResponse (env : Env) (reviewId accountId : Uuid) (responseText : String) :
    EmployerResponse where
  id := env.uuid 0
  reviewId
  employerAccountId := accountId
  responseText
  createdAt := env.now 1

/-- Clock: 0 the bearer token, 1 `created_at`. -/
def respondToReview (p : Platform) (env : Env) (reviewId : Uuid) (responseText : String)
    (token : Option String) (db : Db) : Except HttpException (Db × EmployerResponseRead) := do
  let account ← getCurrentEmployerAccount p env token db
  validate [("body.response_text", lengthIn 1 responseTextMaxLen responseText)]
  let review ← requireReview reviewId db
  raiseIf (review.companyId != account.companyId)
    { status := 403, detail := "you may only respond to reviews about your own company" }
  refuseExisting (.responseTo reviewId) alreadyAnswered db
  let response := newResponse env reviewId account.id responseText
  let employerResponses ← commit env (db.employerResponses.insert response) alreadyAnswered
  return ({ db with employerResponses }, response.read)

structure EmployerLoginOut where
  accessToken : String
  tokenType : String := "bearer"
  employerAccountId : Uuid
  companyId : Uuid
  deriving DecidableEq, Repr

def employerLogin (p : Platform) (env : Env) (email : String) (db : Db) :
    Except HttpException EmployerLoginOut := do
  let normalized := normalizeEmail p email
  let domain ← orUnprocessable (splitEmailDomain normalized)
  let domainHash := hashDomain p domain
  match ← scalarOneOrNone ((Lookup.verifiedAccountByDomain domainHash).rows db) with
  | none => .error { status := 404, detail := "no verified employer account for this domain" }
  | some account => .ok {
      accessToken :=
        createEmployerToken p (env.now 0) account.id account.companyId account.verified
      employerAccountId := account.id
      companyId := account.companyId }

/-! ## Layoff events -/

structure LayoffEventCreate where
  companyId : Uuid
  eventDate : Time
  department : Option String := none
  estimatedHeadcount : Option Int := none
  sourceUrl : Option String := none
  deriving DecidableEq, Repr

def LayoffEventCreate.check (body : LayoffEventCreate) : Except HttpException Unit :=
  validate [
    ("body.department",
      match body.department with
      | none => true
      | some text => lengthIn 0 departmentMaxLen text),
    ("body.estimated_headcount",
      match body.estimatedHeadcount with
      | none => true
      | some n => decide (0 ≤ n)),
    ("body.source_url",
      match body.sourceUrl with
      | none => true
      | some text => lengthIn 0 1000 text)]

/-- The row `submit_layoff_event` adds; a self-reported event has no source URL. -/
def newLayoffEvent (p : Platform) (env : Env) (userId : Uuid) (body : LayoffEventCreate) :
    LayoffEvent where
  id := env.uuid 0
  companyId := body.companyId
  eventDate := body.eventDate
  department := body.department
  estimatedHeadcount := body.estimatedHeadcount
  sourceType := .selfReported
  sourceUrl := none
  submittedByUserId := some userId
  status := .pending
  flaggedReason := p.scanForFlaggedContent [body.department]
  createdAt := env.now 1

/-- Clock: 0 the bearer token, 1 `created_at`. -/
def submitLayoffEvent (p : Platform) (env : Env) (body : LayoffEventCreate)
    (token : Option String) (db : Db) : Except HttpException (Db × CreateOut) := do
  let user ← requireTier p env .email token db
  body.check
  requireCompany body.companyId db
  let event := newLayoffEvent p env user.id body
  let layoffEvents ← commit env (db.layoffEvents.insert event) internalServerError
  return ({ db with layoffEvents },
    { id := event.id, status := event.status
      message := "layoff event submitted and pending moderation" })

/-- `LayoffEventRead`: every column but the submitter's id and the flag. -/
structure LayoffEventRead where
  id : Uuid
  companyId : Uuid
  eventDate : Time
  department : Option String
  estimatedHeadcount : Option Int
  sourceType : LayoffSourceType
  sourceUrl : Option String
  status : ReviewStatus
  createdAt : Time
  deriving DecidableEq, Repr

def LayoffEvent.read (e : LayoffEvent) : LayoffEventRead where
  id := e.id
  companyId := e.companyId
  eventDate := e.eventDate
  department := e.department
  estimatedHeadcount := e.estimatedHeadcount
  sourceType := e.sourceType
  sourceUrl := e.sourceUrl
  status := e.status
  createdAt := e.createdAt

def listCompanyLayoffEvents (env : Env) (companyId : Uuid) (page : Page) (db : Db) :
    Except HttpException (Paginated LayoffEventRead) := do
  page.check
  let rows := db.layoffEvents.select fun e => e.companyId == companyId && e.status == .published
  return paginate page rows (orderDesc (fun e => env.place 0 e.id) LayoffEvent.eventDate rows)
    LayoffEvent.read

end LinkedOut
