/-
  `MultipleResultsFound` in the whole API.

  `Single` says of a computation that it does not raise it. Every handler is taken apart
  along its statements: a lookup raises it exactly when it selects more rows than one, and
  nothing else does. `lookups_safe_iff`: in every state of the schema all lookups select one
  row at most, and no request is answered with `MultipleResultsFound`, exactly when no two
  verified employer accounts share a domain hash. `shared_domain_breaks` is a state where two
  do.
-/
import LinkedOut.Api

namespace LinkedOut

/-- The computation does not raise `MultipleResultsFound`. -/
def Single {α : Type} (x : Except HttpException α) : Prop := x ≠ .error multipleResultsFound

section

variable {α β γ : Type} {x : Except HttpException α}

theorem single_ok (a : α) : Single (.ok a : Except HttpException α) := fun h => by cases h

theorem single_error {e : HttpException} (h : e ≠ multipleResultsFound) :
    Single (.error e : Except HttpException α) := fun heq => h (Except.error.inj heq)

/-- The exception of a computation ends the one that runs it. -/
theorem Single.raised {e : HttpException} (hx : Single x) (he : x = .error e) :
    Single (.error e : Except HttpException β) :=
  single_error fun heq => hx (he.trans (congrArg Except.error heq))

/-- The only other exception that is answered with a 500. -/
theorem single_internal : Single (.error internalServerError : Except HttpException α) :=
  single_error (by decide)

theorem single_status {status : Nat} {detail : String} {headers : List (String × String)}
    (h : status ≠ 500) : Single (.error ⟨status, detail, headers⟩ : Except HttpException α) :=
  single_error fun heq => h (congrArg HttpException.status heq)

theorem Single.bind {f : α → Except HttpException β} (hx : Single x) (hf : ∀ a, Single (f a)) :
    Single (x >>= f) := by
  cases x with
  | error e => exact hx.raised rfl
  | ok a => exact hf a

/-- What is done with the result may depend on what it was computed from. -/
theorem Single.bind_bind {f : α → Except HttpException β} {g : β → Except HttpException γ}
    (hx : Single x) (hf : ∀ a, Single (f a >>= g)) : Single ((x >>= f) >>= g) := by
  rw [bind_assoc]
  exact hx.bind hf

theorem Single.map {f : α → β} (hx : Single x) : Single (x.map f) := by
  cases x with
  | error e => exact hx.raised rfl
  | ok a => exact single_ok _

theorem single_orUnprocessable (r : Except String α) : Single (orUnprocessable r) := by
  cases r with
  | error e => exact single_status (by decide)
  | ok a => exact single_ok a

theorem single_orTooManyRequests (detail : String) (r : Except RateLimitExceeded Unit) :
    Single (orTooManyRequests detail r) := by
  cases r with
  | error e => exact single_status (by decide)
  | ok a => exact single_ok a

theorem single_raiseIf {c : Bool} {e : HttpException} (h : Single (.error e : Except _ Unit)) :
    Single (raiseIf c e) := by
  unfold raiseIf
  split
  · exact h
  · exact single_ok ()

theorem single_validate (checks : List (String × Bool)) : Single (validate checks) :=
  single_raiseIf (single_status (by decide))

theorem single_commit {env : Env} {flushed : Option α} {onFailure : HttpException}
    (h : onFailure ≠ multipleResultsFound) : Single (commit env flushed onFailure) := by
  unfold commit
  split
  · exact single_error h
  · split
    · exact single_error h
    · exact single_ok _

/-- A lookup raises it when it selects more than one row, and only then. -/
theorem single_lookup_iff (db : Db) (l : Lookup α) :
    Single (scalarOneOrNone (l.rows db)) ↔ (l.rows db).length ≤ 1 := by
  match l.rows db with
  | [] => exact iff_of_true (single_ok _) (Nat.zero_le 1)
  | [a] => exact iff_of_true (single_ok _) (Nat.le_refl 1)
  | _ :: _ :: _ => exact iff_of_false (fun h => h rfl) (by simp)

/-- A lookup that a constraint backs. -/
theorem Single.lookup {db : Db} {l : Lookup α} {f : Option α → Except HttpException β}
    (hl : ¬ l.ByDomain) (hf : ∀ row, Single (f row)) : Single (scalarOneOrNone (l.rows db) >>= f) :=
  ((single_lookup_iff db l).mpr (length_rows_le db l hl)).bind hf

end

/-! ## What the handlers share -/

section

variable {p : Platform} {env : Env} {db : Db} {token : Option String}

theorem single_authenticate {α : Type} (decode : String → Except String α) :
    Single (authenticate token decode) := by
  unfold authenticate
  split
  · exact single_status (by decide)
  · split
    · exact single_status (by decide)
    · exact single_ok _

theorem single_getCurrentUser : Single (getCurrentUser p env token db) := by
  refine (single_authenticate _).bind fun payload => .lookup id fun row => ?_
  cases row with
  | none => exact single_status (by decide)
  | some user => exact single_ok user

theorem single_requireTier (minimum : VerificationTier) :
    Single (requireTier p env minimum token db) := by
  refine single_getCurrentUser.bind fun user => ?_
  split
  · exact single_status (by decide)
  · exact single_ok user

theorem single_getCurrentEmployerAccount : Single (getCurrentEmployerAccount p env token db) := by
  refine (single_authenticate _).bind fun payload => .lookup id fun row => ?_
  cases row with
  | none => exact single_status (by decide)
  | some account =>
    dsimp only
    split
    · exact single_ok account
    · exact single_status (by decide)

theorem single_getCurrentAdmin : Single (getCurrentAdmin p env token db) := by
  refine (single_authenticate _).bind fun payload => .lookup id fun row => ?_
  cases row with
  | none => exact single_status (by decide)
  | some admin =>
    dsimp only
    split
    · exact single_ok admin
    · exact single_status (by decide)

theorem single_requireCompany (companyId : Uuid) : Single (requireCompany companyId db) := by
  refine .lookup id fun row => ?_
  cases row with
  | none => exact single_status (by decide)
  | some company => exact single_ok ()

theorem single_requireReview (reviewId : Uuid) : Single (requireReview reviewId db) := by
  unfold requireReview
  split
  · exact single_status (by decide)
  · exact single_ok _

theorem single_refuseExisting {α : Type} {existing : Lookup α} {conflict : HttpException}
    (hl : ¬ existing.ByDomain) (h : conflict ≠ multipleResultsFound) :
    Single (refuseExisting existing conflict db) := by
  refine .lookup hl fun row => ?_
  cases row with
  | none => exact single_ok ()
  | some a => exact single_error h

theorem single_judge {γ κ : Type} [Record γ] [OneTimeCode γ κ] {maxAttempts : Nat} {now : Time}
    {missing expired submittedHash : String} {row : Option γ} :
    Single (judge maxAttempts now missing expired submittedHash row) := by
  unfold judge
  split
  · exact single_status (by decide)
  · split
    · exact single_status (by decide)
    · split
      · exact single_status (by decide)
      · split
        · exact single_ok _
        · exact single_ok _

theorem single_verified (i : Nat) (userId : Uuid) : Single (verified p env i userId db) := by
  unfold verified
  split
  · exact single_internal
  · exact single_ok _

theorem single_loadPending {α : Type} {itemType : ModeratedItemType} {status : α → ReviewStatus}
    {row : Option α} : Single (loadPending itemType status row) := by
  unfold loadPending
  split
  · exact single_status (by decide)
  · split
    · exact single_status (by decide)
    · exact single_ok _

theorem single_loadItem (itemType : ModeratedItemType) (itemId : Uuid) :
    Single (loadItem itemType itemId db) := by
  unfold loadItem
  split
  · exact .lookup id fun row => single_loadPending.bind fun _ => single_ok _
  · exact .lookup id fun row => single_loadPending.bind fun _ => single_ok _

theorem single_loadDocumentItem (itemId : Uuid) : Single (loadDocumentItem itemId db) := by
  refine .lookup id fun row => ?_
  cases row with
  | none => exact single_status (by decide)
  | some item =>
    dsimp only
    split
    · exact single_status (by decide)
    · exact single_ok item

theorem single_loadOwner (item : ModerationQueueItem) : Single (loadOwner item db) := by
  refine .lookup id fun row => ?_
  cases row with
  | none => exact single_status (by decide)
  | some user => exact single_ok user

theorem single_verifyPassword (password storedHash : String) :
    Single (verifyPassword p password storedHash) := by
  unfold verifyPassword
  split
  · split
    · exact single_ok _
    · split
      · split
        · exact single_internal
        · exact single_ok _
      · exact single_ok _
  · exact single_ok _

theorem single_computeCompanyStats (view : Nat → Db) (companyId : Uuid) :
    Single (computeCompanyStats p view companyId) := by
  unfold computeCompanyStats
  dsimp only
  split
  · exact single_ok _
  · split
    · exact single_internal
    · split
      · exact single_internal
      · exact single_ok _

/-- The two cached endpoints. -/
theorem single_cachedByCompany {α : Type} {compute : Except HttpException α}
    (h : Single compute) (companyId : Uuid) (cache : TTLCache Uuid α) :
    Single (cachedByCompany p env compute companyId db cache).1 := by
  have hcompany : Single (requireCompany companyId db) := single_requireCompany companyId
  unfold cachedByCompany
  split
  · rename_i e he
    exact hcompany.raised he
  · split
    · exact single_ok _
    · split
      · exact h.raised rfl
      · exact single_ok _

end

/-! ## The handlers -/

section

variable {p : Platform} {env : Env} {s : Server}

theorem single_answerCommit {α : Type} {r : Except HttpException (Db × α)} {payload : α → Payload}
    (h : Single r) : Single (answerCommit s r payload).1 := by
  cases r with
  | error e => exact h.raised rfl
  | ok a => exact single_ok _

/-- The answer of a verification, as what follows its commit. -/
theorem answerVerify_fst (r : Except HttpException (Db × Except HttpException VerifyOut)) :
    (answerVerify s r).1 = r >>= fun x => x.2.map .verified := by
  cases r <;> rfl

theorem single_requestOtp (phone : String) : Single (requestOtp p env phone s.db) :=
  (single_orUnprocessable _).bind fun _ => (single_orTooManyRequests _ _).bind fun _ =>
    (single_commit (by decide)).bind fun _ => single_ok _

theorem single_verifyOtp (phone code : String) :
    Single (answerVerify s (verifyOtp p env phone code s.db)).1 := by
  rw [answerVerify_fst]
  refine (single_orUnprocessable _).bind_bind fun phoneHash => single_judge.bind_bind fun v => ?_
  cases v with
  | wrong otpRow =>
    exact (single_commit (by decide)).bind_bind fun _ => single_status (by decide)
  | right otpRow =>
    refine .bind_bind ((single_lookup_iff s.db (.userByPhoneHash phoneHash)).mpr
      (length_rows_le s.db _ id)) fun user => ?_
    exact (single_commit (by decide)).bind_bind fun _ => (single_verified 2 _).map

theorem single_requestEmailVerification (email : String) (token : Option String) :
    Single (requestEmailVerification p env email token s.db) :=
  (single_requireTier .phone).bind fun _ => (single_orUnprocessable _).bind fun _ =>
    (single_orTooManyRequests _ _).bind fun _ =>
      (single_commit (by decide)).bind fun _ => single_ok _

theorem single_verifyEmail (email code : String) (token : Option String) :
    Single (answerVerify s (verifyEmail p env email code token s.db)).1 := by
  rw [answerVerify_fst]
  refine (single_requireTier .phone).bind_bind fun user => .bind_bind ?_ fun emailHash =>
    single_judge.bind_bind fun v => ?_
  · exact (single_orUnprocessable _).bind fun _ => single_ok _
  · cases v with
    | wrong codeRow =>
      exact (single_commit (by decide)).bind_bind fun _ => single_status (by decide)
    | right codeRow =>
      exact (single_commit (by decide)).bind_bind fun _ => (single_verified 3 _).map

theorem single_uploadDocument (docType : DocumentType) (content : List UInt8)
    (token : Option String) :
    Single (uploadDocument p env docType content token s.db s.files).2 := by
  have haccept : Single (acceptDocument p env content token s.db) :=
    (single_requireTier .email).bind fun _ =>
      (single_raiseIf (single_status (by decide))).bind fun _ =>
        (single_raiseIf (single_status (by decide))).bind fun _ => single_ok _
  unfold uploadDocument
  split
  · rename_i e he
    exact haccept.raised he
  · split
    · rename_i e he
      unfold mkstemp at he
      split at he
      · cases he
        exact single_internal
      · cases he
    · exact (single_commit (by decide)).bind fun _ => single_ok _

theorem single_submitReview (body : ReviewCreate) (token : Option String) :
    Single (submitReview p env body token s.db) :=
  (single_requireTier .email).bind fun _ => (single_validate _).bind fun _ =>
    (single_requireCompany _).bind fun _ => (single_orTooManyRequests _ _).bind fun _ =>
      (single_refuseExisting id (by decide)).bind fun _ =>
        (single_commit (by decide)).bind fun _ => single_ok _

theorem single_corroborateReview (reviewId : Uuid) (comment token : Option String) :
    Single (corroborateReview p env reviewId comment token s.db) :=
  (single_requireTier .phone).bind fun _ => (single_validate _).bind fun _ =>
    (single_requireReview _).bind fun _ =>
      (single_raiseIf (single_status (by decide))).bind fun _ =>
        (single_refuseExisting id (by decide)).bind fun _ =>
          (single_commit (by decide)).bind fun _ => single_ok _

theorem single_listCorroborations (reviewId : Uuid) (page : Page) :
    Single (listCorroborations env reviewId page s.db) := by
  refine (single_validate _).bind fun _ => .lookup id fun row => ?_
  cases row with
  | none => exact single_status (by decide)
  | some review => exact single_ok _

theorem single_respondToReview (reviewId : Uuid) (responseText : String)
    (token : Option String) : Single (respondToReview p env reviewId responseText token s.db) :=
  single_getCurrentEmployerAccount.bind fun _ => (single_validate _).bind fun _ =>
    (single_requireReview _).bind fun _ =>
      (single_raiseIf (single_status (by decide))).bind fun _ =>
        (single_refuseExisting id (by decide)).bind fun _ =>
          (single_commit (by decide)).bind fun _ => single_ok _

theorem single_submitLayoffEvent (body : LayoffEventCreate) (token : Option String) :
    Single (submitLayoffEvent p env body token s.db) :=
  (single_requireTier .email).bind fun _ => (single_validate _).bind fun _ =>
    (single_requireCompany _).bind fun _ => (single_commit (by decide)).bind fun _ => single_ok _

theorem single_adminLogin (email password : String) :
    Single (adminLogin p env email password s.db) := by
  refine (single_validate _).bind fun _ => (single_raiseIf single_internal).bind fun _ =>
    .lookup id fun row => ?_
  cases row with
  | none => exact single_status (by decide)
  | some admin =>
    dsimp only
    split
    · exact single_status (by decide)
    · refine (single_verifyPassword _ _).bind fun accepted => ?_
      split
      · exact single_ok _
      · exact single_status (by decide)

/-- A list behind the admin gate. -/
theorem single_adminList {α : Type} {page : Page} {token : Option String} (a : α) :
    Single (getCurrentAdmin p env token s.db >>= fun _ => page.check >>= fun _ => .ok a) :=
  single_getCurrentAdmin.bind fun _ => (single_validate _).bind fun _ => single_ok a

theorem single_decideModerationItem (itemType : ModeratedItemType) (itemId : Uuid)
    (decision : Decision) {check : Except HttpException Unit} (hcheck : Single check)
    (token : Option String) :
    Single (decideModerationItem p env itemType itemId decision check token s.db) :=
  single_getCurrentAdmin.bind fun _ => hcheck.bind fun _ => (single_loadItem _ _).bind fun _ =>
    (single_commit (by decide)).bind fun _ => single_ok _

theorem single_approveDocument (itemId : Uuid) (token : Option String) :
    Single (approveDocument p env itemId token s.db s.files).2 := by
  have hload : Single (loadForApproval p env itemId token s.db) :=
    single_getCurrentAdmin.bind fun _ => (single_loadDocumentItem _).bind fun _ =>
      (single_loadOwner _).bind fun _ => single_ok _
  unfold approveDocument
  split
  · rename_i e he
    exact hload.raised he
  · exact (single_commit (by decide)).bind fun _ => single_ok _

theorem single_rejectDocument (itemId : Uuid) (reason : String) (token : Option String) :
    Single (rejectDocument p env itemId reason token s.db s.files).2 := by
  have hload : Single (loadForRejection p env itemId reason token s.db) :=
    single_getCurrentAdmin.bind fun _ => (single_validate _).bind fun _ =>
      (single_loadDocumentItem _).bind fun _ => single_ok _
  unfold rejectDocument
  split
  · rename_i e he
    exact hload.raised he
  · exact (single_commit (by decide)).bind fun _ => single_ok _

theorem single_submitGrievance (body : GrievanceComplaintCreate) :
    Single (submitGrievance p env body s.db) :=
  (single_validate _).bind fun _ => (single_raiseIf single_internal).bind fun _ =>
    (single_orTooManyRequests _ _).bind fun _ =>
      (single_commit (by decide)).bind fun _ => single_ok _

/-- A login raises it exactly when the lookup of the address's domain does. -/
theorem single_employerLogin_iff (email : String) (db : Db) :
    Single (employerLogin p env email db) ↔
      ∀ domain, splitEmailDomain (normalizeEmail p email) = .ok domain →
        ((Lookup.verifiedAccountByDomain (hashDomain p domain)).rows db).length ≤ 1 := by
  unfold employerLogin
  dsimp only
  cases hsplit : splitEmailDomain (normalizeEmail p email) with
  | error e =>
    exact iff_of_true (single_status (by decide)) fun domain h => by cases h
  | ok domain =>
    have hok : orUnprocessable (.ok domain : Except String String) = .ok domain := rfl
    rw [hok, ok_bind]
    constructor
    · rintro h _ ⟨⟩
      refine (single_lookup_iff db _).mp fun hraises => h ?_
      rw [hraises]
      rfl
    · intro h
      refine ((single_lookup_iff db _).mpr (h domain rfl)).bind fun row => ?_
      cases row with
      | none => exact single_status (by decide)
      | some account => exact single_ok _

/-- No request raises it when no two verified accounts share a domain hash. -/
theorem handle_single (req : Request) (h : OneVerifiedAccountPerDomain s.db) :
    Single (handle p env req s).1 := by
  cases req with
  | health => exact single_ok _
  | requestOtp phone => exact single_answerCommit (single_requestOtp phone)
  | verifyOtp phone code => exact single_verifyOtp phone code
  | requestEmailVerification email token =>
    exact single_answerCommit (single_requestEmailVerification email token)
  | verifyEmail email code token => exact single_verifyEmail email code token
  | uploadDocument docType content token =>
    exact single_answerCommit (single_uploadDocument docType content token)
  | readCurrentUser token => exact (single_getCurrentUser.bind fun _ => single_ok _).map
  | submitReview body token => exact single_answerCommit (single_submitReview body token)
  | listCompanyReviews companyId page => exact ((single_validate _).bind fun _ => single_ok _).map
  | corroborateReview reviewId comment token =>
    exact single_answerCommit (single_corroborateReview reviewId comment token)
  | listCorroborations reviewId page => exact (single_listCorroborations reviewId page).map
  | respondToReview reviewId responseText token =>
    exact single_answerCommit (single_respondToReview reviewId responseText token)
  | submitLayoffEvent body token => exact single_answerCommit (single_submitLayoffEvent body token)
  | listCompanyLayoffEvents companyId page =>
    exact ((single_validate _).bind fun _ => single_ok _).map
  | employerLogin email =>
    exact ((single_employerLogin_iff email s.db).mpr fun domain _ =>
      (length_rows_domain_iff s.db).mpr h _).map
  | getCompanyStats companyId =>
    exact (single_cachedByCompany (single_computeCompanyStats _ _) companyId _).map
  | getLayoffTimeline companyId => exact (single_cachedByCompany (single_ok _) companyId _).map
  | adminLogin email password => exact (single_adminLogin email password).map
  | getModerationQueue page token => exact (single_adminList _).map
  | approveModerationItem itemType itemId token =>
    exact single_answerCommit (single_decideModerationItem itemType itemId _ (single_ok ()) token)
  | rejectModerationItem itemType itemId reason token =>
    exact single_answerCommit
      (single_decideModerationItem itemType itemId _ (single_validate _) token)
  | getDocumentQueue page token => exact (single_adminList _).map
  | approveDocument itemId token => exact single_answerCommit (single_approveDocument itemId token)
  | rejectDocument itemId reason token =>
    exact single_answerCommit (single_rejectDocument itemId reason token)
  | listGrievances page token => exact (single_adminList _).map
  | listTakedownLog page => exact ((single_validate _).bind fun _ => single_ok _).map
  | createTakedownLogEntry body token =>
    exact single_answerCommit (single_getCurrentAdmin.bind fun _ =>
      (single_validate _).bind fun _ => (single_commit (by decide)).bind fun _ => single_ok _)
  | submitGrievance body => exact single_answerCommit (single_submitGrievance body)

end

/-- In every state of the schema: all lookups select one row at most, and no request is
    answered with `MultipleResultsFound`, exactly when no two verified employer accounts share
    a domain hash. -/
theorem lookups_safe_iff (db : Db) :
    ((∀ (α : Type) (l : Lookup α), (l.rows db).length ≤ 1) ↔ OneVerifiedAccountPerDomain db) ∧
      ((∀ (p : Platform) (env : Env) (req : Request) (s : Server), s.db = db →
          (handle p env req s).1 ≠ .error multipleResultsFound) ↔
        OneVerifiedAccountPerDomain db) := by
  constructor
  · rw [← length_rows_domain_iff]
    refine ⟨fun hall h => hall _ _, fun hdomain α l => ?_⟩
    by_cases hl : l.ByDomain
    · cases l with
      | verifiedAccountByDomain h => exact hdomain h
      | _ => exact hl.elim
    · exact length_rows_le db l hl
  · refine ⟨fun hall => ?_, fun hone p env req s hs => handle_single req (hs ▸ hone)⟩
    rw [← length_rows_domain_iff]
    intro h
    -- under a hash that is constantly `h` every address asks for this domain
    let q : Platform := { smallPlatform with hmac := fun _ => h }
    have hdomain : splitEmailDomain (normalizeEmail q "hr@acme.com") = .ok "acme.com" :=
      (by decide +kernel : splitEmailDomain (normalizeEmail smallPlatform "hr@acme.com") =
        .ok "acme.com")
    have hlogin : Single (employerLogin q (drawsAt 0 0).env "hr@acme.com" db) := fun hraises =>
      hall q (drawsAt 0 0).env (.employerLogin "hr@acme.com") (.start db) rfl
        (congrArg (Except.map Payload.employerLogin) hraises)
    exact (single_employerLogin_iff "hr@acme.com" db).mp hlogin "acme.com" hdomain

/-- Two companies, each with a verified account for the domain they share. -/
def sharedDomainDb : Db :=
  { smallDb with
    companies := ⟨[⟨5, ["acme.com"]⟩, ⟨6, ["acme.com"]⟩], by decide⟩
    employerAccounts := ⟨[⟨7, 5, "acme.com", true⟩, ⟨8, 6, "acme.com", true⟩], by decide⟩ }

/-- Nobody at that domain can log in. -/
theorem shared_domain_breaks :
    ¬ ∀ (db : Db), (∀ (α : Type) (l : Lookup α), (l.rows db).length ≤ 1) ∧
      ∀ (env : Env) (req : Request), (handle smallPlatform env req (.start db)).1 ≠
        .error multipleResultsFound := by
  intro hall
  refine (hall sharedDomainDb).2 (drawsAt 0 0).env (.employerLogin "hr@acme.com") ?_
  decide +kernel

end LinkedOut
