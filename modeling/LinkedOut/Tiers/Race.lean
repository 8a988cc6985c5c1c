/-
  Concurrent requests that read a user's tier: OTP and email verifications, document
  uploads and document decisions. Each is a session of atomic steps, one for every row it
  reads (the caller, the code, the document, the owner) and a last one for the commit,
  which writes what was computed from those reads, keyed on the primary keys alone.

  `climb_alone`: a session whose steps follow each other is the sequential handler.
  `step_keepsTiers_iff`: a step lowers a tier exactly when it is `Overtaken`, a commit of
  the tier PHONE or EMAIL that was computed before the user went further.
  `tiers_kept_iff`: so in an interleaving no tier ever goes down if and only if no step is
  overtaken. `promotion_lost`: it happens.
-/
import LinkedOut.Interleave
import LinkedOut.Ladder

namespace LinkedOut

/-! ## The sessions -/

/-- A request that decides from a tier it reads. -/
inductive TierCall where
  | verifyOtp (phone code : String)
  | verifyEmail (email code : String) (token : Option String)
  | uploadDocument (docType : DocumentType) (content : List UInt8) (token : Option String)
  | approveDocument (itemId : Uuid) (token : Option String)
  | rejectDocument (itemId : Uuid) (reason : String) (token : Option String)

def TierCall.request : TierCall → Request
  | verifyOtp phone code => .verifyOtp phone code
  | verifyEmail email code token => .verifyEmail email code token
  | uploadDocument docType content token => .uploadDocument docType content token
  | approveDocument itemId token => .approveDocument itemId token
  | rejectDocument itemId reason token => .rejectDocument itemId reason token

/-- Where a session stands, with the rows it has read. -/
inductive Climbing where
  | idle
  | otpJudged (phoneHash : String) (verdict : Verdict OTPCode)
  | otpUser (phoneHash : String) (row : OTPCode) (user : Option User)
  | emailUser (user : User)
  | emailJudged (user : User) (verdict : Verdict EmailVerificationCode)
  | uploader (user : User)
  | approver (adminId : Uuid) (item : ModerationQueueItem)
  | approval (adminId : Uuid) (item : ModerationQueueItem) (user : User)
  | rejection (adminId : Uuid) (item : ModerationQueueItem) (reason : String)
  | finished

/-- A step that reads: the session goes on, or its request is refused. -/
def reads (s : Server) (r : Except HttpException Climbing) : List Empty × Server × Climbing :=
  match r with
  | .error _ => ([], s, .finished)
  | .ok l => ([], s, l)

/-- A step that commits what the session has flushed, and ends it. -/
def commits (d : Draws) (s : Server) (flushed : Option Db) : List Empty × Server × Climbing :=
  match commit d.env flushed internalServerError with
  | .error _ => ([], s, .finished)
  | .ok db => ([], { s with db }, .finished)

/-- The next step of session `i`. -/
def climbStep {ι : Type} (p : Platform) (calls : ι → TierCall) (i : ι) (d : Draws) (s : Server) :
    Climbing → List Empty × Server × Climbing
  | .idle =>
    match calls i with
    | .verifyOtp phone code => reads s do
      let phoneHash ← orUnprocessable (hashPhone p phone)
      let verdict ← judgeOtp p d.env phoneHash code s.db
      return .otpJudged phoneHash verdict
    | .verifyEmail _ _ token => reads s do
      let user ← requireTier p d.env .phone token s.db
      return .emailUser user
    | .uploadDocument _ content token => reads s do
      let user ← acceptDocument p d.env content token s.db
      return .uploader user
    | .approveDocument itemId token => reads s do
      let admin ← getCurrentAdmin p d.env token s.db
      let item ← loadDocumentItem itemId s.db
      return .approver admin.id item
    | .rejectDocument itemId reason token => reads s do
      let (admin, item) ← loadForRejection p d.env itemId reason token s.db
      return .rejection admin.id item reason
  | .otpJudged _ (.wrong row) => commits d s (some (countOtpAttempt row s.db))
  | .otpJudged phoneHash (.right row) => reads s do
    let user ← loadUserByPhone phoneHash s.db
    return .otpUser phoneHash row user
  | .otpUser phoneHash row user =>
    commits d s ((consumeOtp d.env phoneHash row user s.db).map Prod.fst)
  | .emailUser user =>
    match calls i with
    | .verifyEmail email code _ => reads s do
      let emailHash ← submittedEmailHash p email
      let verdict ← judgeEmail p d.env user.id emailHash code s.db
      return .emailJudged user verdict
    | _ => ([], s, .finished)
  | .emailJudged _ (.wrong row) => commits d s (some (countEmailAttempt row s.db))
  | .emailJudged user (.right row) => commits d s (some (consumeEmail d.env user row s.db))
  | .uploader user =>
    match calls i, mkstemp d.env s.files with
    | .uploadDocument docType content _, .ok files =>
      commits d { s with files }
        ((s.db.moderationQueue.insert (newDocument p d.env user.id docType content)).map
          fun moderationQueue => { s.db with moderationQueue })
    | _, _ => ([], s, .finished)
  | .approver adminId item => reads s do
    let user ← loadOwner item s.db
    return .approval adminId item user
  | .approval adminId item user =>
    commits d { s with files := deleteEphemeralFile item.ephemeralPath s.files }
      (flushApproval d.env adminId item.id user s.db)
  | .rejection adminId item reason =>
    commits d { s with files := deleteEphemeralFile item.ephemeralPath s.files }
      (flushDocument d.env adminId item.id .rejected .reject (some reason) s.db)
  | .finished => ([], s, .finished)

/-! ## A session alone is the handler -/

/-- The server after a session has run on its own, from its first step to its last. -/
def climbAlone {ι : Type} (p : Platform) (calls : ι → TierCall) (i : ι) (d : Draws) (s : Server) :
    Server :=
  let r := climbStep p calls i d s .idle
  let r' := climbStep p calls i d r.2.1 r.2.2
  (climbStep p calls i d r'.2.1 r'.2.2).2.1

theorem climbAlone_eq {ι : Type} [DecidableEq ι] (p : Platform) (calls : ι → TierCall) (i : ι)
    (d : Draws) (s : Server) :
    climbAlone p calls i d s =
      ((interleave (climbStep p calls)).exec [(i, d), (i, d), (i, d)]
        ⟨s, fun _ => .idle⟩).shared := by
  simp only [climbAlone, Machine.exec, interleave, Function.update_self]

theorem verifyOtp_alone {ι : Type} (p : Platform) (calls : ι → TierCall) (i : ι) (d : Draws)
    (s : Server) {phone code : String} (hcall : calls i = .verifyOtp phone code) :
    climbAlone p calls i d s = (handle p d.env (.verifyOtp phone code) s).2 := by
  simp only [climbAlone, climbStep, hcall, handle, verifyOtp]
  cases orUnprocessable (hashPhone p phone) with
  | error e => rfl
  | ok phoneHash =>
    simp only [ok_bind]
    cases judgeOtp p d.env phoneHash code s.db with
    | error e => rfl
    | ok v =>
      simp only [ok_bind]
      cases v with
      | wrong row => rfl
      | right row =>
        simp only [pure, Except.pure, reads]
        cases loadUserByPhone phoneHash s.db with
        | error e => rfl
        | ok user =>
          simp only [ok_bind]
          cases consumeOtp d.env phoneHash row user s.db <;> rfl

theorem verifyEmail_alone {ι : Type} (p : Platform) (calls : ι → TierCall) (i : ι) (d : Draws)
    (s : Server) {email code : String} {token : Option String}
    (hcall : calls i = .verifyEmail email code token) :
    climbAlone p calls i d s = (handle p d.env (.verifyEmail email code token) s).2 := by
  simp only [climbAlone, climbStep, hcall, handle, verifyEmail]
  cases requireTier p d.env .phone token s.db with
  | error e => rfl
  | ok user =>
    simp only [ok_bind, pure, Except.pure, reads]
    cases submittedEmailHash p email with
    | error e => rfl
    | ok emailHash =>
      simp only [ok_bind]
      cases judgeEmail p d.env user.id emailHash code s.db with
      | error e => rfl
      | ok v => cases v <;> rfl

theorem uploadDocument_alone {ι : Type} (p : Platform) (calls : ι → TierCall) (i : ι) (d : Draws)
    (s : Server) {docType : DocumentType} {content : List UInt8} {token : Option String}
    (hcall : calls i = .uploadDocument docType content token) :
    climbAlone p calls i d s = (handle p d.env (.uploadDocument docType content token) s).2 := by
  simp only [climbAlone, climbStep, hcall, handle, uploadDocument]
  cases acceptDocument p d.env content token s.db with
  | error e => rfl
  | ok user =>
    simp only [ok_bind, pure, Except.pure, reads]
    cases mkstemp d.env s.files with
    | error e => rfl
    | ok files =>
      simp only
      cases s.db.moderationQueue.insert (newDocument p d.env user.id docType content) <;> rfl

theorem approveDocument_alone {ι : Type} (p : Platform) (calls : ι → TierCall) (i : ι) (d : Draws)
    (s : Server) {itemId : Uuid} {token : Option String}
    (hcall : calls i = .approveDocument itemId token) :
    climbAlone p calls i d s = (handle p d.env (.approveDocument itemId token) s).2 := by
  simp only [climbAlone, climbStep, hcall, handle, approveDocument, loadForApproval]
  cases getCurrentAdmin p d.env token s.db with
  | error e => rfl
  | ok admin =>
    simp only [ok_bind]
    cases loadDocumentItem itemId s.db with
    | error e => rfl
    | ok item =>
      simp only [ok_bind, pure, Except.pure, reads]
      cases loadOwner item s.db with
      | error e => rfl
      | ok user =>
        simp only [ok_bind]
        cases flushApproval d.env admin.id item.id user s.db <;> rfl

theorem rejectDocument_alone {ι : Type} (p : Platform) (calls : ι → TierCall) (i : ι) (d : Draws)
    (s : Server) {itemId : Uuid} {reason : String} {token : Option String}
    (hcall : calls i = .rejectDocument itemId reason token) :
    climbAlone p calls i d s = (handle p d.env (.rejectDocument itemId reason token) s).2 := by
  simp only [climbAlone, climbStep, hcall, handle, rejectDocument]
  cases loadForRejection p d.env itemId reason token s.db with
  | error e => rfl
  | ok r =>
    obtain ⟨admin, item⟩ := r
    simp only [ok_bind, pure, Except.pure, reads]
    cases flushDocument d.env admin.id item.id .rejected .reject (some reason) s.db <;> rfl

/-- The steps of a session, one after the other and with the same draws, leave what the
    handler leaves. -/
theorem climb_alone {ι : Type} (p : Platform) (calls : ι → TierCall) (i : ι) (d : Draws)
    (s : Server) : climbAlone p calls i d s = (handle p d.env (calls i).request s).2 := by
  cases hcall : calls i with
  | verifyOtp phone code => exact verifyOtp_alone p calls i d s hcall
  | verifyEmail email code token => exact verifyEmail_alone p calls i d s hcall
  | uploadDocument docType content token => exact uploadDocument_alone p calls i d s hcall
  | approveDocument itemId token => exact approveDocument_alone p calls i d s hcall
  | rejectDocument itemId reason token => exact rejectDocument_alone p calls i d s hcall

/-! ## What a commit does to the tiers -/

/-- The stored row, if there is one, is at no higher a tier than `tier`. -/
def AtMost (users : Table User) (id : Uuid) (tier : VerificationTier) : Prop :=
  ∀ u, users.find? id = some u → tierRank u.verificationTier ≤ tierRank tier

instance (users : Table User) (id : Uuid) (tier : VerificationTier) :
    Decidable (AtMost users id tier) :=
  match h : users.find? id with
  | none => isTrue fun u hu => by rw [h] at hu; cases hu
  | some u =>
    decidable_of_iff (tierRank u.verificationTier ≤ tierRank tier)
      ⟨fun hle v hv => by rw [h] at hv; cases hv; exact hle, fun hall => hall u h⟩

theorem keepsTiers_of_eq {users users' : Table User} (h : users' = users) :
    KeepsTiers users users' := h ▸ .refl users

/-- Writing a tier keeps the tiers exactly when the row was not further. -/
theorem keepsTiers_setTier_iff (users : Table User) (id : Uuid) (tier : VerificationTier) :
    KeepsTiers users (users.update id (User.setTier tier)) ↔ AtMost users id tier := by
  constructor
  · intro h u hu
    obtain ⟨hmem, hid⟩ := (users.find?_eq_some id u).mp hu
    obtain ⟨u', hu', hid', hrank⟩ := h u hmem
    rcases (Table.mem_update_of_find? hu _ u').mp hu' with ⟨-, hne⟩ | rfl
    · exact absurd (hid'.trans hid) hne
    · exact hrank
  · intro h u hu
    by_cases hid : u.id = id
    · have hfind : users.find? id = some u := (users.find?_eq_some id u).mpr ⟨hu, hid⟩
      exact ⟨_, (Table.mem_update_of_find? hfind _ _).mpr (Or.inr rfl), rfl, h u hfind⟩
    · exact ⟨u, (users.mem_update id _ u).mpr (Or.inl ⟨hu, hid⟩), rfl, le_rfl⟩

/-- The domain hash is no tier. -/
theorem find?_setDomainHash_tier (users : Table User) (id k : Uuid) (domainHash : String) :
    ((users.update k (User.setDomainHash domainHash)).find? id).map User.verificationTier =
      (users.find? id).map User.verificationTier := by
  rw [Table.find?_update]
  split
  · cases users.find? id <;> rfl
  · rfl

theorem atMost_congr {users users' : Table User} {id : Uuid} {tier : VerificationTier}
    (h : (users'.find? id).map User.verificationTier =
      (users.find? id).map User.verificationTier) :
    AtMost users' id tier ↔ AtMost users id tier := by
  have hone : ∀ t t' : Table User, (t'.find? id).map User.verificationTier =
      (t.find? id).map User.verificationTier → AtMost t id tier → AtMost t' id tier := by
    intro t t' ht hle u hu
    rw [hu, Option.map_some] at ht
    obtain ⟨v, hv, htier⟩ := Option.map_eq_some_iff.mp ht.symm
    rw [← htier]
    exact hle v hv
  exact ⟨hone users' users h.symm, hone users users' h⟩

theorem keepsTiers_setDomainHash (users : Table User) (id : Uuid) (domainHash : String) :
    KeepsTiers users (users.update id (User.setDomainHash domainHash)) ∧
      KeepsTiers (users.update id (User.setDomainHash domainHash)) users := by
  constructor
  · intro u hu
    by_cases hid : u.id = id
    · exact ⟨_, (users.mem_update id _ _).mpr (Or.inr ⟨u, hu, hid, rfl⟩), rfl, le_rfl⟩
    · exact ⟨u, (users.mem_update id _ u).mpr (Or.inl ⟨hu, hid⟩), rfl, le_rfl⟩
  · intro u' hu'
    rcases (users.mem_update id _ u').mp hu' with ⟨hu, -⟩ | ⟨u, hu, -, rfl⟩
    · exact ⟨u', hu, rfl, le_rfl⟩
    · exact ⟨u, hu, rfl, le_rfl⟩

/-- A right email code keeps the tiers unless it raises a user it has read at PHONE who is
    past EMAIL by now. -/
theorem keepsTiers_raiseToEmail_iff (users : Table User) (user : User) (domainHash : String) :
    KeepsTiers users (raiseToEmail user domainHash users) ↔
      (user.verificationTier = .phone → AtMost users user.id .email) := by
  obtain ⟨users1, hdef, hfind, hkeeps, hback⟩ :
      ∃ users1, users1 = (if user.emailDomainHash = some domainHash then users
          else users.update user.id (User.setDomainHash domainHash)) ∧
        (users1.find? user.id).map User.verificationTier =
          (users.find? user.id).map User.verificationTier ∧
        KeepsTiers users users1 ∧ KeepsTiers users1 users := by
    by_cases hsame : user.emailDomainHash = some domainHash
    · exact ⟨users, (if_pos hsame).symm, rfl, .refl users, .refl users⟩
    · obtain ⟨hkeeps, hback⟩ := keepsTiers_setDomainHash users user.id domainHash
      exact ⟨_, (if_neg hsame).symm, find?_setDomainHash_tier users _ _ _, hkeeps, hback⟩
  have hraise : raiseToEmail user domainHash users =
      if user.verificationTier = .phone then users1.update user.id (User.setTier .email)
      else users1 := by
    rw [hdef]
    rfl
  rw [hraise]
  by_cases htier : user.verificationTier = .phone
  · rw [if_pos htier]
    have hiff := (keepsTiers_setTier_iff users1 user.id .email).trans (atMost_congr hfind)
    constructor
    · intro h _
      exact hiff.mp (hback.trans h)
    · intro h
      exact hkeeps.trans (hiff.mpr (h htier))
  · rw [if_neg htier]
    exact ⟨fun _ h => absurd h htier, fun _ => hkeeps⟩

/-! ## One step -/

/-- The session is about to commit a tier that it has computed from an older one: PHONE from
    UNVERIFIED, or EMAIL from PHONE, and the stored user is further by now. -/
def Overtaken {ι : Type} (c : Conf ι Server Climbing) (e : ι × Draws) : Prop :=
  match c.sess e.1 with
  | .otpUser _ _ (some user) =>
    user.verificationTier = .unverified ∧ ¬ AtMost c.shared.db.users user.id .phone
  | .emailJudged user (.right _) =>
    user.verificationTier = .phone ∧ ¬ AtMost c.shared.db.users user.id .email
  | _ => False

theorem commits_some (d : Draws) (s : Server) (db : Db) :
    (commits d s (some db)).2.1.db = db := rfl

theorem reads_server (s : Server) (r : Except HttpException Climbing) : (reads s r).2.1 = s := by
  cases r <;> rfl

/-- The flush of a right OTP keeps the tiers unless it raises a user it has read at
    UNVERIFIED who is past PHONE by now. -/
theorem keepsTiers_consumeOtp_iff (d : Draws) (s : Server) (phoneHash : String) (row : OTPCode)
    (user : User) :
    KeepsTiers s.db.users
        (commits d s ((consumeOtp d.env phoneHash row (some user) s.db).map Prod.fst)).2.1.db.users ↔
      (user.verificationTier = .unverified → AtMost s.db.users user.id .phone) := by
  unfold consumeOtp
  by_cases htier : user.verificationTier = .unverified
  · simp only [if_pos htier, Option.map_some, commits_some]
    have hiff := keepsTiers_setTier_iff s.db.users user.id .phone
    exact ⟨fun h _ => hiff.mp h, fun h => hiff.mpr (h htier)⟩
  · simp only [if_neg htier, Option.map_some, commits_some]
    exact ⟨fun _ h => absurd h htier, fun _ => .refl _⟩

theorem keepsTiers_newUser (d : Draws) (s : Server) (phoneHash : String) (row : OTPCode) :
    KeepsTiers s.db.users
      (commits d s ((consumeOtp d.env phoneHash row none s.db).map Prod.fst)).2.1.db.users := by
  cases hflush : consumeOtp d.env phoneHash row none s.db with
  | none => exact .refl _
  | some r =>
    obtain ⟨users, hinsert, heq⟩ := Option.bind_eq_some_iff.mp hflush
    cases heq
    exact fun u hu => ⟨u, (Table.mem_insert hinsert u).mpr (Or.inl hu), rfl, le_rfl⟩

theorem atMost_document (users : Table User) (id : Uuid) : AtMost users id .document := by
  intro u _
  cases u.verificationTier <;> decide

/-- An approval writes the top tier or none. -/
theorem keepsTiers_flushApproval (d : Draws) (s : Server) (adminId itemId : Uuid) (user : User) :
    KeepsTiers s.db.users
      (commits d s (flushApproval d.env adminId itemId user s.db)).2.1.db.users := by
  cases hflush : flushApproval d.env adminId itemId user s.db with
  | none => exact .refl _
  | some db =>
    obtain ⟨db1, hdocument, heq⟩ := Option.bind_eq_some_iff.mp hflush
    obtain ⟨log, -, rfl⟩ := flushDocument_some hdocument
    rw [commits_some]
    split at heq
    · cases heq
      exact .refl _
    · cases heq
      exact (keepsTiers_setTier_iff _ _ _).mpr (atMost_document _ _)

theorem users_flushDocument (d : Draws) (s : Server) (adminId itemId : Uuid)
    (status : ModerationStatus) (action : ModerationAction) (reason : Option String) :
    (commits d s (flushDocument d.env adminId itemId status action reason s.db)).2.1.db.users =
      s.db.users := by
  cases hflush : flushDocument d.env adminId itemId status action reason s.db with
  | none => rfl
  | some db =>
    obtain ⟨log, -, rfl⟩ := flushDocument_some hflush
    rfl

/-- A step lowers a tier exactly when its session is overtaken. -/
theorem step_keepsTiers_iff {ι : Type} [DecidableEq ι] (p : Platform) (calls : ι → TierCall)
    (c : Conf ι Server Climbing) (e : ι × Draws) :
    KeepsTiers c.shared.db.users
        ((interleave (climbStep p calls)).step e c).2.shared.db.users ↔ ¬ Overtaken c e := by
  obtain ⟨i, d⟩ := e
  show KeepsTiers c.shared.db.users (climbStep p calls i d c.shared (c.sess i)).2.1.db.users ↔ _
  -- the steps that leave the users alone are not overtaken
  have hsame : ∀ {l : Climbing}, c.sess i = l → ¬ Overtaken c (i, d) →
      (climbStep p calls i d c.shared l).2.1.db.users = c.shared.db.users →
      (KeepsTiers c.shared.db.users (climbStep p calls i d c.shared l).2.1.db.users ↔
        ¬ Overtaken c (i, d)) :=
    fun _ hnot husers => ⟨fun _ => hnot, fun _ => keepsTiers_of_eq husers⟩
  cases hi : c.sess i with
  | idle =>
    refine hsame hi (by simp [Overtaken, hi]) ?_
    simp only [climbStep]
    split <;> rw [reads_server]
  | otpJudged phoneHash v =>
    refine hsame hi (by simp [Overtaken, hi]) ?_
    cases v with
    | wrong row => rfl
    | right row => simp only [climbStep, reads_server]
  | otpUser phoneHash row user =>
    cases user with
    | none =>
      have hnot : ¬ Overtaken c (i, d) := by simp [Overtaken, hi]
      exact ⟨fun _ => hnot, fun _ => keepsTiers_newUser d c.shared phoneHash row⟩
    | some user =>
      have hover : Overtaken c (i, d) ↔ user.verificationTier = .unverified ∧
          ¬ AtMost c.shared.db.users user.id .phone := by simp only [Overtaken, hi]
      rw [hover, not_and_not_right]
      exact keepsTiers_consumeOtp_iff d c.shared phoneHash row user
  | emailUser user =>
    refine hsame hi (by simp [Overtaken, hi]) ?_
    simp only [climbStep]
    split
    · rw [reads_server]
    · rfl
  | emailJudged user v =>
    cases v with
    | wrong row => exact hsame hi (by simp [Overtaken, hi]) rfl
    | right row =>
      have hover : Overtaken c (i, d) ↔ user.verificationTier = .phone ∧
          ¬ AtMost c.shared.db.users user.id .email := by simp only [Overtaken, hi]
      rw [hover, not_and_not_right]
      exact keepsTiers_raiseToEmail_iff c.shared.db.users user row.domainHash
  | uploader user =>
    refine hsame hi (by simp [Overtaken, hi]) ?_
    simp only [climbStep]
    split
    · cases c.shared.db.moderationQueue.insert _ <;> rfl
    · rfl
  | approver adminId item =>
    refine hsame hi (by simp [Overtaken, hi]) ?_
    simp only [climbStep, reads_server]
  | approval adminId item user =>
    have hnot : ¬ Overtaken c (i, d) := by simp [Overtaken, hi]
    exact ⟨fun _ => hnot, fun _ => keepsTiers_flushApproval d
      { c.shared with files := deleteEphemeralFile item.ephemeralPath c.shared.files } adminId
      item.id user⟩
  | rejection adminId item reason =>
    refine hsame hi (by simp [Overtaken, hi]) ?_
    exact users_flushDocument d
      { c.shared with files := deleteEphemeralFile item.ephemeralPath c.shared.files } adminId
      item.id .rejected .reject (some reason)
  | finished => exact hsame hi (by simp [Overtaken, hi]) rfl

/-! ## All interleavings -/

/-- The users after the first `n` steps. -/
def usersAfter {ι : Type} [DecidableEq ι] (p : Platform) (calls : ι → TierCall)
    (sched : List (ι × Draws)) (s : Server) (n : Nat) : Table User :=
  ((interleave (climbStep p calls)).exec (sched.take n) ⟨s, fun _ => .idle⟩).shared.db.users

/-- In an interleaving of any number of these requests no tier ever goes down if and only if
    no session is overtaken. -/
theorem tiers_kept_iff {ι : Type} [DecidableEq ι] (p : Platform) (calls : ι → TierCall)
    (sched : List (ι × Draws)) (s : Server) :
    (∀ i j, i ≤ j → KeepsTiers (usersAfter p calls sched s i) (usersAfter p calls sched s j)) ↔
      (interleave (climbStep p calls)).Along (fun c e => ¬ Overtaken c e) sched
        ⟨s, fun _ => .idle⟩ := by
  rw [Machine.along_iff_getElem?]
  constructor
  · intro h n e he
    have hstep := h n (n + 1) (Nat.le_succ n)
    unfold usersAfter at hstep
    rw [Machine.exec_take_succ _ he] at hstep
    exact (step_keepsTiers_iff p calls _ e).mp hstep
  · intro h i j hij
    refine (interleave (climbStep p calls)).exec_take_rel
      (R := fun c c' => KeepsTiers c.shared.db.users c'.shared.db.users) (fun _ => .refl _)
      KeepsTiers.trans (fun n e he => ?_) hij
    exact (step_keepsTiers_iff p calls _ e).mpr (h n e he)

/-- Alice is at the phone tier, with a code at each of two addresses. -/
def twoCodesServer : Server :=
  .start { smallDb with
    users := ⟨[{ alice with emailDomainHash := none, verificationTier := .phone }], by decide⟩
    emailVerificationCodes :=
      ⟨[⟨30, 1, "al@acme.com", "acme.com", "000000", 0, minutes 5, none, 0⟩,
        ⟨31, 1, "al@beta.com", "beta.com", "000000", 0, minutes 5, none, 0⟩], by decide⟩ }

/-- She verifies both addresses and uploads a document, which is approved. -/
def climbingCalls : Nat → TierCall
  | 0 => .verifyEmail "al@acme.com" "000000" (some "alice")
  | 1 => .verifyEmail "al@beta.com" "000000" (some "alice")
  | 2 => .uploadDocument .payslip [1] (some "alice")
  | _ => .approveDocument 60 (some "root")

/-- The first verification has read her at PHONE before the others begin, and commits last. -/
def lostPromotion : List (Nat × Draws) :=
  [(0, drawsAt 0 50), (1, drawsAt 1 51), (1, drawsAt 2 51), (1, drawsAt 3 51), (2, drawsAt 4 60),
    (2, drawsAt 5 60), (3, drawsAt 6 70), (3, drawsAt 7 70), (3, drawsAt 8 70), (0, drawsAt 9 50),
    (0, drawsAt 10 50)]

example :
    (usersAfter smallPlatform climbingCalls lostPromotion twoCodesServer 9).rows.map
        User.verificationTier = [.document] ∧
      (usersAfter smallPlatform climbingCalls lostPromotion twoCodesServer 11).rows.map
        User.verificationTier = [.email] := by decide

/-- She is raised to DOCUMENT and falls back to EMAIL. -/
theorem promotion_lost :
    ¬ ∀ (p : Platform) (calls : Nat → TierCall) (sched : List (Nat × Draws)) (s : Server)
      (i j : Nat), i ≤ j →
      KeepsTiers (usersAfter p calls sched s i) (usersAfter p calls sched s j) := by
  intro hall
  have hfall := hall smallPlatform climbingCalls lostPromotion twoCodesServer 9 11 (by decide)
  revert hfall
  unfold KeepsTiers
  decide

end LinkedOut
