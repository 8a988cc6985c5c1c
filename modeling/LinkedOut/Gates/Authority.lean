/-
  Authority comes from the row that is stored now, not from the token.

  A route declares one gate (`Request.gate`). Of the decoded token a gate uses `sub`
  alone (`Gate.subject`): `check_congr` and `handle_congr` show that two tokens with the
  same subject at every gate get the same answer and leave the same state, on every
  route and from every state. Two well-formed tokens of one type and one `sub` are such
  a pair whatever else they say (`subject_congr`), and what lets a request through is
  the stored row (`Gate.Admits`).
-/
import LinkedOut.Api

namespace LinkedOut

/-! ## The gates and their routes -/

/-- The dependencies of `app/core/deps.py` that a route can declare. -/
inductive Gate where
  | currentUser
  | tier (minimum : VerificationTier)
  | employerAccount
  | admin
  deriving DecidableEq, Repr

/-- The type of token a gate takes. -/
def Gate.tokenType : Gate → TokenType
  | .currentUser | .tier _ => .access
  | .employerAccount => .employer
  | .admin => .admin

/-- The gate alone, without the route behind it. -/
def Gate.check (p : Platform) (env : Env) (token : Option String) (db : Db) :
    Gate → Except HttpException Unit
  | .currentUser => (getCurrentUser p env token db).map fun _ => ()
  | .tier minimum => (requireTier p env minimum token db).map fun _ => ()
  | .employerAccount => (getCurrentEmployerAccount p env token db).map fun _ => ()
  | .admin => (getCurrentAdmin p env token db).map fun _ => ()

/-- The gate in front of each route; the others take no token. -/
def Request.gate : Request → Option Gate
  | .requestEmailVerification .. | .verifyEmail .. | .corroborateReview .. => some (.tier .phone)
  | .uploadDocument .. | .submitReview .. | .submitLayoffEvent .. => some (.tier .email)
  | .readCurrentUser .. => some .currentUser
  | .respondToReview .. => some .employerAccount
  | .getModerationQueue .. | .approveModerationItem .. | .rejectModerationItem ..
  | .getDocumentQueue .. | .approveDocument .. | .rejectDocument ..
  | .listGrievances .. | .createTakedownLogEntry .. => some .admin
  | _ => none

/-- The same request with another bearer token. -/
def Request.withToken (token : Option String) : Request → Request
  | .requestEmailVerification email _ => .requestEmailVerification email token
  | .verifyEmail email code _ => .verifyEmail email code token
  | .uploadDocument docType content _ => .uploadDocument docType content token
  | .readCurrentUser _ => .readCurrentUser token
  | .submitReview body _ => .submitReview body token
  | .corroborateReview reviewId comment _ => .corroborateReview reviewId comment token
  | .respondToReview reviewId responseText _ => .respondToReview reviewId responseText token
  | .submitLayoffEvent body _ => .submitLayoffEvent body token
  | .getModerationQueue page _ => .getModerationQueue page token
  | .approveModerationItem itemType itemId _ => .approveModerationItem itemType itemId token
  | .rejectModerationItem itemType itemId reason _ =>
    .rejectModerationItem itemType itemId reason token
  | .getDocumentQueue page _ => .getDocumentQueue page token
  | .approveDocument itemId _ => .approveDocument itemId token
  | .rejectDocument itemId reason _ => .rejectDocument itemId reason token
  | .listGrievances page _ => .listGrievances page token
  | .createTakedownLogEntry body _ => .createTakedownLogEntry body token
  | req => req

/-- What the stored rows say about `id` at a gate. -/
def Gate.Admits (id : Uuid) (db : Db) : Gate → Prop
  | .currentUser => ∃ user, db.users.find? id = some user
  | .tier minimum =>
    ∃ user, db.users.find? id = some user ∧ tierRank minimum ≤ tierRank user.verificationTier
  | .employerAccount =>
    ∃ account, db.employerAccounts.find? id = some account ∧ account.verified = true
  | .admin => ∃ admin, db.adminUsers.find? id = some admin ∧ admin.isActive = true

/-- The claims of a token of its type: those its encoder writes, and no others. -/
def Claims.WellFormed (raw : Claims) : Prop :=
  raw.sub.isSome ∧ raw.iat.isSome ∧ raw.exp.isSome ∧
    match raw.type with
    | some .access | some .refresh => raw.tier.isSome ∧ raw.companyId = none ∧ raw.verified = none
    | some .employer => raw.tier = none ∧ raw.companyId.isSome ∧ raw.verified.isSome
    | some .admin => raw.tier = none ∧ raw.companyId = none ∧ raw.verified = none
    | none => False

/-- The same claims are there, and `sub` and `type` say the same. -/
structure Claims.SameShape (raw raw' : Claims) : Prop where
  sub : raw.sub = raw'.sub
  type : raw.type = raw'.type
  tier : raw.tier.isSome = raw'.tier.isSome
  companyId : raw.companyId.isSome = raw'.companyId.isSome
  verified : raw.verified.isSome = raw'.verified.isSome
  iat : raw.iat.isSome = raw'.iat.isSome
  exp : raw.exp.isSome = raw'.exp.isSome

/-- The type of a well-formed token says which claims there are. -/
theorem Claims.WellFormed.sameShape {raw raw' : Claims} (h : raw.WellFormed) (h' : raw'.WellFormed)
    (hsub : raw.sub = raw'.sub) (htype : raw.type = raw'.type) : raw.SameShape raw' := by
  obtain ⟨-, hiat, hexp, hclaims⟩ := h
  obtain ⟨-, hiat', hexp', hclaims'⟩ := h'
  have hmissing : raw.tier.isSome = raw'.tier.isSome ∧
      raw.companyId.isSome = raw'.companyId.isSome ∧
      raw.verified.isSome = raw'.verified.isSome := by
    rw [← htype] at hclaims'
    cases htok : raw.type with
    | none =>
      rw [htok] at hclaims
      exact hclaims.elim
    | some tokenType =>
      rw [htok] at hclaims hclaims'
      cases tokenType with
      | access | refresh | employer | admin =>
        obtain ⟨htier, hcompany, hverified⟩ := hclaims
        obtain ⟨htier', hcompany', hverified'⟩ := hclaims'
        simp only [htier, htier', hcompany, hcompany', hverified, hverified', and_self]
  exact ⟨hsub, htype, hmissing.1, hmissing.2.1, hmissing.2.2, hiat.trans hiat'.symm,
    hexp.trans hexp'.symm⟩

/-! ## What a gate takes from the token -/

/-- Whose token it is, or how the gate refuses it. -/
def Gate.subject (p : Platform) (env : Env) (token : Option String) :
    Gate → Except HttpException Uuid
  | .currentUser | .tier _ =>
    (authenticate token fun t => decodeToken p (env.now 0) t .access).map TokenPayload.sub
  | .employerAccount =>
    (authenticate token (decodeEmployerToken p (env.now 0))).map EmployerTokenPayload.sub
  | .admin => (authenticate token (decodeAdminToken p (env.now 0))).map AdminTokenPayload.sub

/-- The rows the gates decide on, by the subject alone. -/
def storedUser (db : Db) (id : Uuid) : Except HttpException User := do
  match ← scalarOneOrNone ((Lookup.userById id).rows db) with
  | none => .error { status := 401, detail := "user not found" }
  | some user => .ok user

/-- `require_tier`'s comparison. -/
def aboveTier (minimum : VerificationTier) (user : User) : Except HttpException User :=
  if tierRank user.verificationTier < tierRank minimum then
    .error { status := 403,
             detail := s!"requires verification tier '{minimum.value}' or higher" }
  else .ok user

def storedEmployerAccount (db : Db) (id : Uuid) : Except HttpException EmployerAccount := do
  match ← scalarOneOrNone ((Lookup.employerAccountById id).rows db) with
  | none => .error { status := 401, detail := "employer account not found" }
  | some account =>
    if account.verified then .ok account
    else .error { status := 403, detail := "employer account not verified" }

def storedAdmin (db : Db) (id : Uuid) : Except HttpException AdminUser := do
  match ← scalarOneOrNone ((Lookup.adminById id).rows db) with
  | none => .error { status := 401, detail := "admin account not found" }
  | some admin =>
    if admin.isActive then .ok admin
    else .error { status := 403, detail := "admin account deactivated" }

theorem map_error {ε α β : Type} {x : Except ε α} {f : α → β} {e : ε} (h : x.map f = .error e) :
    x = .error e := by
  cases x with
  | error e' => exact congrArg Except.error (Except.error.inj h)
  | ok a => cases h

theorem map_bind {ε α β γ : Type} (x : Except ε α) (sub : α → β) (f : β → Except ε γ) :
    (x.map sub >>= f) = (x >>= fun a => f (sub a)) := by
  cases x <;> rfl

section

variable {p : Platform} {env : Env} {token token' : Option String}

theorem getCurrentUser_eq (db : Db) :
    getCurrentUser p env token db = (Gate.currentUser.subject p env token >>= storedUser db) :=
  (map_bind (authenticate token fun t => decodeToken p (env.now 0) t .access) TokenPayload.sub
    (storedUser db)).symm

theorem requireTier_eq (minimum : VerificationTier) (db : Db) :
    requireTier p env minimum token db =
      (Gate.currentUser.subject p env token >>= fun id =>
        storedUser db id >>= aboveTier minimum) := by
  have hgate : requireTier p env minimum token db =
      (getCurrentUser p env token db >>= aboveTier minimum) := rfl
  rw [hgate, getCurrentUser_eq]
  cases Gate.currentUser.subject p env token <;> rfl

theorem getCurrentEmployerAccount_eq (db : Db) :
    getCurrentEmployerAccount p env token db =
      (Gate.employerAccount.subject p env token >>= storedEmployerAccount db) :=
  (map_bind (authenticate token (decodeEmployerToken p (env.now 0))) EmployerTokenPayload.sub
    (storedEmployerAccount db)).symm

theorem getCurrentAdmin_eq (db : Db) :
    getCurrentAdmin p env token db = (Gate.admin.subject p env token >>= storedAdmin db) :=
  (map_bind (authenticate token (decodeAdminToken p (env.now 0))) AdminTokenPayload.sub
    (storedAdmin db)).symm

/-- A gate that cannot say whose token it is raises, whatever is stored. -/
theorem check_error {gate : Gate} {e : HttpException} (db : Db)
    (h : gate.subject p env token = .error e) : gate.check p env token db = .error e := by
  cases gate with
  | currentUser =>
    rw [Gate.check, getCurrentUser_eq, h]
    rfl
  | tier minimum =>
    have huser : Gate.currentUser.subject p env token = .error e := h
    rw [Gate.check, requireTier_eq, huser]
    rfl
  | employerAccount =>
    rw [Gate.check, getCurrentEmployerAccount_eq, h]
    rfl
  | admin =>
    rw [Gate.check, getCurrentAdmin_eq, h]
    rfl

/-- Tokens with the same subject at every gate cannot be told apart by any route. -/
theorem handle_congr (req : Request) (s : Server)
    (h : ∀ gate : Gate, gate.subject p env token = gate.subject p env token') :
    handle p env (req.withToken token) s = handle p env (req.withToken token') s := by
  have huser : ∀ db, getCurrentUser p env token db = getCurrentUser p env token' db :=
    fun db => by rw [getCurrentUser_eq, getCurrentUser_eq, h]
  have htier : ∀ minimum db,
      requireTier p env minimum token db = requireTier p env minimum token' db :=
    fun minimum db => by rw [requireTier_eq, requireTier_eq, h .currentUser]
  have hemployer : ∀ db,
      getCurrentEmployerAccount p env token db = getCurrentEmployerAccount p env token' db :=
    fun db => by rw [getCurrentEmployerAccount_eq, getCurrentEmployerAccount_eq, h]
  have hadmin : ∀ db, getCurrentAdmin p env token db = getCurrentAdmin p env token' db :=
    fun db => by rw [getCurrentAdmin_eq, getCurrentAdmin_eq, h]
  cases req with
  | requestEmailVerification =>
    simp only [Request.withToken, handle, requestEmailVerification, htier]
  | verifyEmail => simp only [Request.withToken, handle, verifyEmail, htier]
  | uploadDocument => simp only [Request.withToken, handle, uploadDocument, acceptDocument, htier]
  | readCurrentUser => simp only [Request.withToken, handle, readCurrentUser, huser]
  | submitReview => simp only [Request.withToken, handle, submitReview, htier]
  | corroborateReview => simp only [Request.withToken, handle, corroborateReview, htier]
  | respondToReview => simp only [Request.withToken, handle, respondToReview, hemployer]
  | submitLayoffEvent => simp only [Request.withToken, handle, submitLayoffEvent, htier]
  | getModerationQueue => simp only [Request.withToken, handle, getModerationQueue, hadmin]
  | approveModerationItem =>
    simp only [Request.withToken, handle, approveModerationItem, decideModerationItem, hadmin]
  | rejectModerationItem =>
    simp only [Request.withToken, handle, rejectModerationItem, decideModerationItem, hadmin]
  | getDocumentQueue => simp only [Request.withToken, handle, getDocumentQueue, hadmin]
  | approveDocument =>
    simp only [Request.withToken, handle, approveDocument, loadForApproval, hadmin]
  | rejectDocument =>
    simp only [Request.withToken, handle, rejectDocument, loadForRejection, hadmin]
  | listGrievances => simp only [Request.withToken, handle, listGrievances, hadmin]
  | createTakedownLogEntry =>
    simp only [Request.withToken, handle, createTakedownLogEntry, hadmin]
  | _ => rfl

/-- A gate that raises is the whole answer of its route: nothing is read or written
    behind it. -/
theorem handle_refused {req : Request} {gate : Gate} {s : Server} {e : HttpException}
    (hgate : req.gate = some gate) (h : gate.check p env token s.db = .error e) :
    handle p env (req.withToken token) s = (.error e, s) := by
  -- every handler starts with its gate, so its error is what the handler's bind returns
  cases req <;> cases hgate <;>
    simp only [Request.withToken, handle, requestEmailVerification, verifyEmail, uploadDocument,
      acceptDocument, readCurrentUser, submitReview, corroborateReview, respondToReview,
      submitLayoffEvent, getModerationQueue, approveModerationItem, rejectModerationItem,
      decideModerationItem, getDocumentQueue, approveDocument, loadForApproval, rejectDocument,
      loadForRejection, listGrievances, createTakedownLogEntry, map_error h] <;>
    rfl

end

/-! ## Well-formed tokens of one type and one subject -/

section

variable {p : Platform} {env : Env} {t t' : String} {raw raw' : Claims} {id : Uuid}

/-- A claim that is only looked for. -/
theorem bind_of_isSome {α β : Type} {x y : Option α} (h : x.isSome = y.isSome) (k : Option β) :
    (x.bind fun _ => k) = y.bind fun _ => k := by
  cases x <;> cases y <;> first | rfl | cases h

/-! What a gate reads of each payload: the other claims have to be there. -/

theorem tokenPayload_subject (raw : Claims) :
    raw.tokenPayload.map (fun a => (a.sub, a.type)) =
      raw.sub.bind fun sub => raw.tier.bind fun _ => raw.iat.bind fun _ => raw.exp.bind fun _ =>
        raw.type.bind fun type => some (sub, type) := by
  simp [Claims.tokenPayload, Option.map_bind]

theorem employerTokenPayload_subject (raw : Claims) :
    raw.employerTokenPayload.map (fun a => (a.sub, a.type)) =
      raw.sub.bind fun sub => raw.companyId.bind fun _ => raw.verified.bind fun _ =>
        raw.iat.bind fun _ => raw.exp.bind fun _ => raw.type.bind fun type => some (sub, type) := by
  simp [Claims.employerTokenPayload, Option.map_bind]

theorem adminTokenPayload_subject (raw : Claims) :
    raw.adminTokenPayload.map (fun a => (a.sub, a.type)) =
      raw.sub.bind fun sub => raw.iat.bind fun _ => raw.exp.bind fun _ =>
        raw.type.bind fun type => some (sub, type) := by
  simp [Claims.adminTokenPayload, Option.map_bind]

theorem authenticate_map_congr {α : Type} {payload : Claims → Option α} {typeOf : α → TokenType}
    {expected : TokenType} {wrongType : String} {sub : α → Uuid}
    (ht : p.jwtDecode (env.now 0) t = .ok raw) (ht' : p.jwtDecode (env.now 0) t' = .ok raw')
    (h : (payload raw).map (fun a => (sub a, typeOf a)) =
      (payload raw').map fun a => (sub a, typeOf a)) :
    (authenticate (some t)
        (decodeAs p (env.now 0) · payload typeOf expected wrongType)).map sub =
      (authenticate (some t')
        (decodeAs p (env.now 0) · payload typeOf expected wrongType)).map sub := by
  simp only [authenticate, decodeAs, ht, ht']
  cases hp : payload raw with
  | none =>
    cases hp' : payload raw' with
    | none => rfl
    | some a' => simp [hp, hp'] at h
  | some a =>
    cases hp' : payload raw' with
    | none => simp [hp, hp'] at h
    | some a' =>
      simp only [hp, hp', Option.map_some, Option.some.injEq, Prod.mk.injEq] at h
      by_cases htype : typeOf a' = expected
      · simp [h.2, htype, Except.map, h.1]
      · simp [h.2, htype, Except.map]

/-- The subject depends on which claims there are, and on `sub` and `type`. -/
theorem subject_congr (gate : Gate)
    (ht : p.jwtDecode (env.now 0) t = .ok raw) (ht' : p.jwtDecode (env.now 0) t' = .ok raw')
    (h : raw.SameShape raw') :
    gate.subject p env (some t) = gate.subject p env (some t') := by
  have huser : Gate.currentUser.subject p env (some t) =
      Gate.currentUser.subject p env (some t') := by
    refine authenticate_map_congr ht ht' ?_
    rw [tokenPayload_subject, tokenPayload_subject, h.sub, h.type]
    simp only [bind_of_isSome h.tier, bind_of_isSome h.iat, bind_of_isSome h.exp]
  cases gate with
  | currentUser => exact huser
  | tier minimum => exact huser
  | employerAccount =>
    refine authenticate_map_congr ht ht' ?_
    rw [employerTokenPayload_subject, employerTokenPayload_subject, h.sub, h.type]
    simp only [bind_of_isSome h.companyId, bind_of_isSome h.verified, bind_of_isSome h.iat,
      bind_of_isSome h.exp]
  | admin =>
    refine authenticate_map_congr ht ht' ?_
    rw [adminTokenPayload_subject, adminTokenPayload_subject, h.sub, h.type]
    simp only [bind_of_isSome h.iat, bind_of_isSome h.exp]

/-- A well-formed token that has not expired passes the decoding of its gate. -/
theorem subject_ok {gate : Gate} (ht : p.jwtDecode (env.now 0) t = .ok raw)
    (hraw : raw.WellFormed) (hsub : raw.sub = some id) (htype : raw.type = some gate.tokenType) :
    gate.subject p env (some t) = .ok id := by
  obtain ⟨sub, tier, companyId, verified, iat, exp, type⟩ := raw
  obtain ⟨-, hi, he, hclaims⟩ := hraw
  obtain ⟨iat, rfl⟩ := Option.isSome_iff_exists.mp hi
  obtain ⟨exp, rfl⟩ := Option.isSome_iff_exists.mp he
  cases hsub
  cases htype
  cases gate with
  | currentUser | tier =>
    obtain ⟨tier, rfl⟩ := Option.isSome_iff_exists.mp hclaims.1
    simp only [Gate.subject, authenticate, decodeToken, decodeAs, ht]
    rfl
  | employerAccount =>
    obtain ⟨-, hcompany, hverified⟩ := hclaims
    obtain ⟨companyId, rfl⟩ := Option.isSome_iff_exists.mp hcompany
    obtain ⟨verified, rfl⟩ := Option.isSome_iff_exists.mp hverified
    simp only [Gate.subject, authenticate, decodeEmployerToken, decodeAs, ht]
    rfl
  | admin =>
    simp only [Gate.subject, authenticate, decodeAdminToken, decodeAs, ht]
    rfl

/-- Past the decoding, a gate passes exactly when the row that is stored now admits `id`. -/
theorem check_iff (gate : Gate) (db : Db) (hsub : gate.subject p env (some t) = .ok id) :
    gate.check p env (some t) db = .ok () ↔ gate.Admits id db := by
  cases gate with
  | currentUser =>
    simp only [Gate.check, getCurrentUser_eq, hsub, ok_bind, storedUser, scalarOneOrNone_pk,
      Gate.Admits]
    cases db.users.find? id with
    | none => simp [Except.map]
    | some user => simp [Except.map]
  | tier minimum =>
    have huser : Gate.currentUser.subject p env (some t) = .ok id := hsub
    simp only [Gate.check, requireTier_eq, huser, ok_bind, storedUser, scalarOneOrNone_pk,
      Gate.Admits]
    cases db.users.find? id with
    | none => simp [Except.map, bind, Except.bind]
    | some user =>
      by_cases hrank : tierRank user.verificationTier < tierRank minimum
      · simp [ok_bind, aboveTier, hrank, Except.map]
      · simp [ok_bind, aboveTier, hrank, Except.map, Nat.not_lt.mp hrank]
  | employerAccount =>
    simp only [Gate.check, getCurrentEmployerAccount_eq, hsub, ok_bind, storedEmployerAccount,
      scalarOneOrNone_pk, Gate.Admits]
    cases db.employerAccounts.find? id with
    | none => simp [Except.map]
    | some account => by_cases h : account.verified <;> simp [Except.map, h]
  | admin =>
    simp only [Gate.check, getCurrentAdmin_eq, hsub, ok_bind, storedAdmin, scalarOneOrNone_pk,
      Gate.Admits]
    cases db.adminUsers.find? id with
    | none => simp [Except.map]
    | some admin => by_cases h : admin.isActive <;> simp [Except.map, h]

/-- Two valid, well-formed tokens of one type and one `sub`, whatever tier, times, company or
    flag they carry: every request is answered alike and leaves the same state. Their gate
    lets the request through exactly when the row stored now admits `sub`; else the route is
    refused and changes nothing. -/
theorem authority_from_row (ht : p.jwtDecode (env.now 0) t = .ok raw)
    (ht' : p.jwtDecode (env.now 0) t' = .ok raw') (hraw : raw.WellFormed)
    (hraw' : raw'.WellFormed) (hsub : raw.sub = some id) (hsub' : raw'.sub = some id)
    (htype : raw.type = raw'.type) :
    (∀ (req : Request) s,
        handle p env (req.withToken (some t)) s = handle p env (req.withToken (some t')) s) ∧
      ∀ gate : Gate, raw.type = some gate.tokenType →
        (∀ db, gate.check p env (some t) db = .ok () ↔ gate.Admits id db) ∧
        ∀ req : Request, req.gate = some gate → ∀ s, ¬ gate.Admits id s.db →
          ∃ e, handle p env (req.withToken (some t)) s = (.error e, s) := by
  refine ⟨fun req s => ?_, fun gate hgate => ?_⟩
  · exact handle_congr req s fun gate =>
      subject_congr gate ht ht' (hraw.sameShape hraw' (hsub.trans hsub'.symm) htype)
  · have hiff := fun db => check_iff gate db (subject_ok ht hraw hsub hgate)
    refine ⟨hiff, fun req hreq s hadmits => ?_⟩
    cases hcheck : gate.check p env (some t) s.db with
    | error e => exact ⟨e, handle_refused hreq hcheck⟩
    | ok u => exact absurd ((hiff s.db).mp hcheck) hadmits

end

/-- Alice's row is at the email tier; one of her tokens says document. -/
def staleClaims : Claims := { userClaims 1 with tier := some .document, iat := some (-60) }

def reissuedPlatform : Platform := keyringPlatform [("stale", staleClaims), ("alice", userClaims 1)]

theorem staleToken_ignored :
    (∀ (req : Request) s,
        handle reissuedPlatform (drawsAt 0 20).env (req.withToken (some "stale")) s =
          handle reissuedPlatform (drawsAt 0 20).env (req.withToken (some "alice")) s) ∧
      (Gate.tier .email).check reissuedPlatform (drawsAt 0 20).env (some "stale") smallDb = .ok () ∧
      (Gate.tier .document).check reissuedPlatform (drawsAt 0 20).env (some "stale") smallDb ≠
        .ok () := by
  have hstale : reissuedPlatform.jwtDecode ((drawsAt 0 20).env.now 0) "stale" =
      .ok staleClaims := by
    decide
  have halice : reissuedPlatform.jwtDecode ((drawsAt 0 20).env.now 0) "alice" =
      .ok (userClaims 1) := by
    decide
  have hrow : smallDb.users.find? 1 = some alice := by decide
  obtain ⟨hsame, hgate⟩ := authority_from_row hstale halice ⟨rfl, rfl, rfl, rfl, rfl, rfl⟩
    ⟨rfl, rfl, rfl, rfl, rfl, rfl⟩ rfl rfl rfl
  refine ⟨hsame, ((hgate (.tier .email) rfl).1 smallDb).mpr ⟨alice, hrow, by decide⟩, ?_⟩
  intro hcheck
  obtain ⟨user, huser, hrank⟩ := ((hgate (.tier .document) rfl).1 smallDb).mp hcheck
  cases hrow.symm.trans huser
  exact absurd hrank (by decide)

end LinkedOut
