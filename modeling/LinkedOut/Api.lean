/-
  The whole API as a machine: a request is served on the committed database, the
  ephemeral files and the two caches, and gives a response and the state it leaves.
  `Api` runs requests one at a time.

  The gate of a route runs before its body is validated, as FastAPI resolves
  dependencies first; a path or a body that does not parse never reaches a handler.
-/
import LinkedOut.Machine
import LinkedOut.Routers.Auth
import LinkedOut.Routers.Admin
import LinkedOut.Routers.Companies

namespace LinkedOut

/-- One constructor a route; `token` is the bearer credential, when there is one. -/
inductive Request where
  | health
  | requestOtp (phone : String)
  | verifyOtp (phone code : String)
  | requestEmailVerification (email : String) (token : Option String)
  | verifyEmail (email code : String) (token : Option String)
  | uploadDocument (docType : DocumentType) (content : List UInt8) (token : Option String)
  | readCurrentUser (token : Option String)
  | submitReview (body : ReviewCreate) (token : Option String)
  | listCompanyReviews (companyId : Uuid) (page : Page)
  | corroborateReview (reviewId : Uuid) (comment : Option String) (token : Option String)
  | listCorroborations (reviewId : Uuid) (page : Page)
  | respondToReview (reviewId : Uuid) (responseText : String) (token : Option String)
  | submitLayoffEvent (body : LayoffEventCreate) (token : Option String)
  | listCompanyLayoffEvents (companyId : Uuid) (page : Page)
  | employerLogin (email : String)
  | getCompanyStats (companyId : Uuid)
  | getLayoffTimeline (companyId : Uuid)
  | adminLogin (email password : String)
  | getModerationQueue (page : Page) (token : Option String)
  | approveModerationItem (itemType : ModeratedItemType) (itemId : Uuid) (token : Option String)
  | rejectModerationItem (itemType : ModeratedItemType) (itemId : Uuid) (reason : String)
      (token : Option String)
  | getDocumentQueue (page : Page) (token : Option String)
  | approveDocument (itemId : Uuid) (token : Option String)
  | rejectDocument (itemId : Uuid) (reason : String) (token : Option String)
  | listGrievances (page : Page) (token : Option String)
  | listTakedownLog (page : Page)
  | createTakedownLogEntry (body : TakedownLogEntryCreate) (token : Option String)
  | submitGrievance (body : GrievanceComplaintCreate)
  deriving DecidableEq

/-- The response models. -/
inductive Payload where
  | health (out : Health)
  | otpRequest (out : OTPRequestOut)
  | verified (out : VerifyOut)
  | emailRequest (out : EmailRequestOut)
  | documentUpload (out : DocumentUploadOut)
  | currentUser (out : CurrentUserOut)
  | created (out : CreateOut)
  | reviews (out : Paginated ReviewRead)
  | corroborated (out : CorroborationCreateOut)
  | corroborations (out : Paginated CorroborationRead)
  | employerResponse (out : EmployerResponseRead)
  | layoffEvents (out : Paginated LayoffEventRead)
  | employerLogin (out : EmployerLoginOut)
  | companyStats (out : CompanyStats)
  | layoffTimeline (out : LayoffTimeline)
  | adminLogin (out : AdminLoginOut)
  | moderationQueue (out : Paginated ModerationQueueEntry)
  | moderationAction (out : ModerationActionOut)
  | documentQueue (out : Paginated DocumentQueueEntry)
  | documentAction (out : DocumentModerationActionOut)
  | grievances (out : Paginated GrievanceComplaintAdminRead)
  | takedownLog (out : Paginated TakedownLogEntry)
  | takedownEntry (out : TakedownLogEntry)
  | grievance (out : GrievanceComplaintOut)
  deriving DecidableEq

abbrev Response := Except HttpException Payload

/-- `status_code` of the route's decorator. -/
def Payload.statusCode : Payload → Nat
  | created _ | corroborated _ | employerResponse _ | takedownEntry _ | grievance _ => 201
  | _ => 200

def Response.statusCode : Response → Nat
  | .error e => e.status
  | .ok payload => payload.statusCode

/-- The database, the ephemeral files on disk and the two in-process caches. -/
structure Server where
  db : Db
  files : List String
  statsCache : TTLCache Uuid CompanyStats
  timelineCache : TTLCache Uuid LayoffTimeline

/-- A process just started on a database. -/
def Server.start (db : Db) : Server := ⟨db, [], .empty, .empty⟩

/-- A handler that only reads. -/
def answer {α : Type} (s : Server) (r : Except HttpException α) (payload : α → Payload) :
    Response × Server :=
  (r.map payload, s)

/-- A handler that commits once, or raises before it has committed. -/
def answerCommit {α : Type} (s : Server) (r : Except HttpException (Db × α))
    (payload : α → Payload) : Response × Server :=
  match r with
  | .error e => (.error e, s)
  | .ok (db, a) => (.ok (payload a), { s with db })

/-- A verification: what it commits may still be answered with an error. -/
def answerVerify (s : Server) (r : Except HttpException (Db × Except HttpException VerifyOut)) :
    Response × Server :=
  match r with
  | .error e => (.error e, s)
  | .ok (db, out) => (out.map .verified, { s with db })

/-- A document handler: the file is touched also when the commit fails. -/
def answerFiles {α : Type} (s : Server) (r : List String × Except HttpException (Db × α))
    (payload : α → Payload) : Response × Server :=
  answerCommit { s with files := r.1 } r.2 payload

/-- The routes. -/
def handle (p : Platform) (env : Env) (req : Request) (s : Server) : Response × Server :=
  match req with
  | .health => (.ok (.health health), s)
  | .requestOtp phone => answerCommit s (requestOtp p env phone s.db) .otpRequest
  | .verifyOtp phone code => answerVerify s (verifyOtp p env phone code s.db)
  | .requestEmailVerification email token =>
    answerCommit s (requestEmailVerification p env email token s.db) .emailRequest
  | .verifyEmail email code token => answerVerify s (verifyEmail p env email code token s.db)
  | .uploadDocument docType content token =>
    answerFiles s (uploadDocument p env docType content token s.db s.files) .documentUpload
  | .readCurrentUser token => answer s (readCurrentUser p env token s.db) .currentUser
  | .submitReview body token => answerCommit s (submitReview p env body token s.db) .created
  | .listCompanyReviews companyId page =>
    answer s (listCompanyReviews env companyId page s.db) .reviews
  | .corroborateReview reviewId comment token =>
    answerCommit s (corroborateReview p env reviewId comment token s.db) .corroborated
  | .listCorroborations reviewId page =>
    answer s (listCorroborations env reviewId page s.db) .corroborations
  | .respondToReview reviewId responseText token =>
    answerCommit s (respondToReview p env reviewId responseText token s.db) .employerResponse
  | .submitLayoffEvent body token =>
    answerCommit s (submitLayoffEvent p env body token s.db) .created
  | .listCompanyLayoffEvents companyId page =>
    answer s (listCompanyLayoffEvents env companyId page s.db) .layoffEvents
  | .employerLogin email => answer s (employerLogin p env email s.db) .employerLogin
  | .getCompanyStats companyId =>
    let r := getCompanyStats p env companyId s.db s.statsCache
    (r.1.map .companyStats, { s with statsCache := r.2 })
  | .getLayoffTimeline companyId =>
    let r := getLayoffTimeline p env companyId s.db s.timelineCache
    (r.1.map .layoffTimeline, { s with timelineCache := r.2 })
  | .adminLogin email password => answer s (adminLogin p env email password s.db) .adminLogin
  | .getModerationQueue page token =>
    answer s (getModerationQueue p env page token s.db) .moderationQueue
  | .approveModerationItem itemType itemId token =>
    answerCommit s (approveModerationItem p env itemType itemId token s.db) .moderationAction
  | .rejectModerationItem itemType itemId reason token =>
    answerCommit s (rejectModerationItem p env itemType itemId reason token s.db) .moderationAction
  | .getDocumentQueue page token =>
    answer s (getDocumentQueue p env page token s.db) .documentQueue
  | .approveDocument itemId token =>
    answerFiles s (approveDocument p env itemId token s.db s.files) .documentAction
  | .rejectDocument itemId reason token =>
    answerFiles s (rejectDocument p env itemId reason token s.db s.files) .documentAction
  | .listGrievances page token => answer s (listGrievances p env page token s.db) .grievances
  | .listTakedownLog page => answer s (listTakedownLog env page s.db) .takedownLog
  | .createTakedownLogEntry body token =>
    answerCommit s (createTakedownLogEntry p env body token s.db) .takedownEntry
  | .submitGrievance body => answerCommit s (submitGrievance p env body s.db) .grievance

/-- The API serving one request at a time, each with what it draws. -/
def Api (p : Platform) : Machine (Request × Draws) Server Response where
  step e s := handle p e.2.env e.1 s

/-- One request of a run of the API. -/
abbrev ApiStep := Served (Request × Draws) Server Response

/-! ## A small deployment

  One company with its employer account, two users at the email tier and one admin, each
  with a token; for the instances that follow the theorems. -/

/-- A platform that signs the claims on its key ring, each under its name. -/
def keyringPlatform (keyring : List (String × Claims)) : Platform where
  settings := {}
  hmac := id
  sha256 content := toString content.length
  pbkdf2 password _ _ := password.toUTF8.toList
  jwtEncode claims := ((keyring.find? fun k => k.2 = claims).map Prod.fst).getD ""
  jwtDecode now token :=
    match keyring.find? fun k => k.1 = token with
    | none => .error "Signature verification failed."
    | some (_, claims) =>
      if claims.exp.any fun exp => fromTimestamp exp < now then .error "Signature has expired."
      else .ok claims
  lower := id
  roundedRatio a b := mkRat ((200 * a + b) / (2 * b)) 100
  scanForFlaggedContent _ := none

def userClaims (id : Uuid) : Claims :=
  { sub := some id, tier := some .email, iat := some 0, exp := some 86400, type := some .access }

def employerClaims (id companyId : Uuid) : Claims :=
  { sub := some id, companyId := some companyId, verified := some true, iat := some 0,
    exp := some 86400, type := some .employer }

def adminClaims (id : Uuid) : Claims :=
  { sub := some id, iat := some 0, exp := some 86400, type := some .admin }

def smallPlatform : Platform :=
  keyringPlatform [("alice", userClaims 1), ("bob", userClaims 2), ("hr", employerClaims 7 5),
    ("root", adminClaims 9), ("ruth", adminClaims 10)]

def alice : User := ⟨1, "+1", some "acme.com", .email⟩

def bob : User := ⟨2, "+2", some "acme.com", .email⟩

def smallDb : Db :=
  { Db.empty with
    companies := ⟨[⟨5, ["acme.com"]⟩], by decide⟩
    users := ⟨[alice, bob], by decide⟩
    employerAccounts := ⟨[⟨7, 5, "acme.com", true⟩], by decide⟩
    adminUsers := ⟨[⟨9, "root@linkedout", "", true⟩, ⟨10, "ruth@linkedout", "", true⟩], by decide⟩ }

/-- Every clock reads `t`, and the ids drawn are `id`, `id + 1`, … -/
def drawsAt (t : Time) (id : Uuid) : Draws := { now := fun _ => t, uuid := fun i => id + i }

def smallReview : ReviewCreate := ⟨5, .culture, .oneTo3yr, "engineering", .ic, true, "long hours"⟩

def smallLayoff : LayoffEventCreate := { companyId := 5, eventDate := 0 }

end LinkedOut
