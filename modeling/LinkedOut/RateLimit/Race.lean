/-
  Concurrent requests under the four limits. `enforce_rate_limit` only counts; nothing holds
  the count until the commit. Each limited request is a session with a step for the gate, one
  for the count and one for the commit; any other request is one step.

  `limited_alone`: a session whose steps follow each other is the sequential handler.
  `limits_race`: with at most `C` sessions of a key between their count and their commit,
  every window has `max_requests + C - 1` rows of the key at most, whatever the order of the
  steps; with one at a time that is `max_requests`. `limits_race_tight`: for OTPs the bound is
  reached, with any `C`.
-/
import Mathlib.Order.Interval.Finset.Nat
import LinkedOut.Interleave
import LinkedOut.RateLimit
import LinkedOut.SlidingWindow.Concurrent

namespace LinkedOut

/-! ## The sessions -/

/-- The requests that a limit is on. -/
def Request.limited : Request → Bool
  | requestOtp _ | requestEmailVerification _ _ | submitReview _ _ | submitGrievance _ => true
  | _ => false

/-- One of the four limited requests, or any request that is none of them. -/
inductive LimitedCall where
  | requestOtp (phone : String)
  | requestEmailVerification (email : String) (token : Option String)
  | submitReview (body : ReviewCreate) (token : Option String)
  | submitGrievance (body : GrievanceComplaintCreate)
  | other (req : Request) (hreq : req.limited = false)

def LimitedCall.request : LimitedCall → Request
  | requestOtp phone => .requestOtp phone
  | requestEmailVerification email token => .requestEmailVerification email token
  | submitReview body token => .submitReview body token
  | submitGrievance body => .submitGrievance body
  | other req _ => req

/-- Where a session stands. `checked` is the clock reading of its count. -/
inductive Limited where
  | idle
  | phoneInLimit (phoneHash : String) (checked : Time)
  | requester (user : User) (emailHash domain : String)
  | requesterInLimit (user : User) (emailHash domain : String) (checked : Time)
  | submission (l : ReviewSubmission)
  | complainantInLimit (body : GrievanceComplaintCreate) (checked : Time)
  | finished

/-- The key under which the session has been let in, until its commit. -/
def Limited.underWay : Limited → Option (LimitKey × Time)
  | phoneInLimit phoneHash checked => some (.otp phoneHash, checked)
  | requesterInLimit user _ _ checked => some (.email user.id, checked)
  | submission (.authorInLimit user checked) | submission (.newAuthor user checked) =>
    some (.review user.id, checked)
  | complainantInLimit body checked => some (.grievance body.complainantContact, checked)
  | _ => none

/-- When the session has been let in under the key `k`. -/
def Limited.checkedFor (k : LimitKey) (l : Limited) : Option Time :=
  l.underWay.bind fun u => if u.1 = k then some u.2 else none

/-- A statement before the commit: the session goes on, or its request is refused. -/
def asks (s : Server) (r : Except HttpException Limited) : List Response × Server × Limited :=
  match r with
  | .error e => ([.error e], s, .finished)
  | .ok l => ([], s, l)

/-- The commit, and the answer. -/
def concludes (s : Server) (r : Except HttpException (Db × Payload)) :
    List Response × Server × Limited :=
  match r with
  | .error e => ([.error e], s, .finished)
  | .ok (db, payload) => ([.ok payload], { s with db }, .finished)

/-- The statements of `request_otp`: the count, then the commit of the new OTP. -/
def requestOtpStep (p : Platform) (phone : String) (env : Env) (s : Server) :
    Limited → List Response × Server × Limited
  | .idle => asks s do
    let phoneHash ← orUnprocessable (hashPhone p phone)
    orTooManyRequests "too many OTP requests for this phone number, try again later"
      (enforceRateLimit (s.db.otpCodes.select fun c => c.phoneHash == phoneHash) OTPCode.createdAt
        (env.now 0) p.settings.otpRateLimitWindowMinutes p.settings.otpRateLimitMaxRequests)
    return .phoneInLimit phoneHash (env.now 0)
  | .phoneInLimit phoneHash _ => concludes s do
    let otpCodes ← commit env (s.db.otpCodes.insert (newOtpCode p env phoneHash))
      internalServerError
    return ({ s.db with otpCodes },
      .otpRequest { expiresInSeconds := p.settings.otpExpireMinutes * 60 })
  | _ => ([], s, .finished)

/-- The statements of `request_email_verification`: the user, the count, then the commit of
    the new code. -/
def requestEmailStep (p : Platform) (email : String) (token : Option String) (env : Env)
    (s : Server) : Limited → List Response × Server × Limited
  | .idle => asks s do
    let user ← requireTier p env .phone token s.db
    let normalized := normalizeEmail p email
    let domain ← orUnprocessable (splitEmailDomain normalized)
    return .requester user (hashEmail p normalized) domain
  | .requester user emailHash domain => asks s do
    orTooManyRequests "too many verification requests, try again later"
      (enforceRateLimit (s.db.emailVerificationCodes.select fun c => c.userId == user.id)
        EmailVerificationCode.createdAt (env.now 1) p.settings.emailRateLimitWindowMinutes
        p.settings.emailRateLimitMaxRequests)
    return .requesterInLimit user emailHash domain (env.now 1)
  | .requesterInLimit user emailHash domain _ => concludes s do
    let emailVerificationCodes ← commit env
      (s.db.emailVerificationCodes.insert (newEmailCode p env user.id emailHash domain))
      internalServerError
    return ({ s.db with emailVerificationCodes },
      .emailRequest { expiresInSeconds := p.settings.emailCodeExpireMinutes * 60 })
  | _ => ([], s, .finished)

/-- The statements of `submit_review`. -/
def submissionStep (p : Platform) (body : ReviewCreate) (token : Option String) (env : Env)
    (s : Server) : Limited → List Response × Server × Limited
  | .idle => statement .received
  | .submission l => statement l
  | _ => ([], s, .finished)
where
  statement : ReviewSubmission → List Response × Server × Limited :=
    submitReviewStep p body token env s.db (fun r => asks s (r.map .submission))
      fun r => concludes s (r.map (Prod.map id fun review => .created review.createOut))

/-- The statements of `submit_grievance`: the count, then the commit of the complaint. -/
def submitGrievanceStep (p : Platform) (body : GrievanceComplaintCreate) (env : Env)
    (s : Server) : Limited → List Response × Server × Limited
  | .idle => asks s do
    body.check
    raiseIf (!storable body.complainantContact) internalServerError
    orTooManyRequests "too many grievance submissions recently, try again later"
      (enforceRateLimit
        (s.db.grievanceComplaints.select fun c => c.complainantContact == body.complainantContact)
        GrievanceComplaint.createdAt (env.now 0) p.settings.grievanceRateLimitWindowMinutes
        p.settings.grievanceRateLimitMaxRequests)
    return .complainantInLimit body (env.now 0)
  | .complainantInLimit body _ => concludes s do
    let complaint := newComplaint env body
    let grievanceComplaints ← commit env (s.db.grievanceComplaints.insert complaint)
      internalServerError
    return ({ s.db with grievanceComplaints },
      .grievance { id := complaint.id, status := complaint.status
                   slaDeadline := complaint.slaDeadline })
  | _ => ([], s, .finished)

/-- A request that no limit is on is one step. -/
def unlimitedStep (p : Platform) (req : Request) (env : Env) (s : Server) :
    Limited → List Response × Server × Limited
  | .idle => ([(handle p env req s).1], (handle p env req s).2, .finished)
  | _ => ([], s, .finished)

/-- The next step of session `i`. -/
def limitedStep {ι : Type} (p : Platform) (calls : ι → LimitedCall) (i : ι) (env : Env)
    (s : Server) (l : Limited) : List Response × Server × Limited :=
  match calls i with
  | .requestOtp phone => requestOtpStep p phone env s l
  | .requestEmailVerification email token => requestEmailStep p email token env s l
  | .submitReview body token => submissionStep p body token env s l
  | .submitGrievance body => submitGrievanceStep p body env s l
  | .other req _ => unlimitedStep p req env s l

/-! ## A session alone is the handler -/

section

variable {ι : Type} {p : Platform} {calls : ι → LimitedCall} {i : ι} {env : Env} {s : Server}
  {l : Limited} {n : Nat}

theorem limitedStep_finished (p : Platform) (calls : ι → LimitedCall) (i : ι) (env : Env)
    (s : Server) : limitedStep p calls i env s .finished = ([], s, .finished) := by
  unfold limitedStep
  cases calls i <;> rfl

theorem moves_limited_finished :
    moves (limitedStep p calls) i env n s .finished = ([], s, .finished) := by
  induction n with
  | zero => rfl
  | succ n ih =>
    rw [moves, limitedStep_finished]
    simp only [ih, List.nil_append]

/-- The run answers what the handler answers, and leaves what it leaves. -/
def Answers (r : Response × Server) (run : List Response × Server × Limited) : Prop :=
  run = ([r.1], r.2, .finished)

/-- The rest of the handler and where a session goes: both are refused, or the session's
    further moves answer as the rest does. -/
inductive Leads (p : Platform) (calls : ι → LimitedCall) (i : ι) (env : Env) (s : Server)
    (n : Nat) {δ : Type} (payload : δ → Payload) :
    Except HttpException (Db × δ) → Except HttpException Limited → Prop
  | error (e : HttpException) : Leads p calls i env s n payload (.error e) (.error e)
  | ok {rest : Except HttpException (Db × δ)} {l : Limited}
      (h : Answers (answerCommit s rest payload) (moves (limitedStep p calls) i env n s l)) :
      Leads p calls i env s n payload rest (.ok l)

theorem Leads.bind {α δ : Type} {payload : δ → Payload} {x : Except HttpException α}
    {f : α → Except HttpException (Db × δ)} {g : α → Except HttpException Limited}
    (h : ∀ a, Leads p calls i env s n payload (f a) (g a)) :
    Leads p calls i env s n payload (x >>= f) (x >>= g) := by
  cases x with
  | error e => exact .error e
  | ok a => exact h a

/-- The same, where what is read is wrapped into the session's state afterwards. -/
theorem Leads.bind_map {α β δ : Type} {payload : δ → Payload} {x : Except HttpException α}
    {f : α → Except HttpException (Db × δ)} {g : α → Except HttpException β} {next : β → Limited}
    (h : ∀ a, Leads p calls i env s n payload (f a) ((g a).map next)) :
    Leads p calls i env s n payload (x >>= f) ((x >>= g).map next) := by
  cases x with
  | error e => exact .error e
  | ok a => exact h a

theorem Answers.last {r : Response × Server}
    (h : limitedStep p calls i env s l = ([r.1], r.2, .finished)) :
    Answers r (moves (limitedStep p calls) i env (n + 1) s l) := by
  unfold Answers
  rw [moves, h]
  simp only [moves_limited_finished, List.append_nil]

theorem Answers.asks {δ : Type} {payload : δ → Payload} {rest : Except HttpException (Db × δ)}
    {r : Except HttpException Limited} (h : limitedStep p calls i env s l = asks s r)
    (hleads : Leads p calls i env s n payload rest r) :
    Answers (answerCommit s rest payload) (moves (limitedStep p calls) i env (n + 1) s l) := by
  cases hleads with
  | error e => exact .last h
  | ok hrest =>
    rw [moves, h]
    exact hrest

theorem Answers.concludes {α δ : Type} {payload : δ → Payload} {x : Except HttpException α}
    {db : α → Db} {out : α → δ}
    (h : limitedStep p calls i env s l =
      concludes s (x >>= fun a => .ok (db a, payload (out a)))) :
    Answers (answerCommit s (x >>= fun a => .ok (db a, out a)) payload)
      (moves (limitedStep p calls) i env (n + 1) s l) := by
  cases x with
  | error e => exact .last h
  | ok a => exact .last h

/-- Five moves in a row answer as the handler, and leave what it leaves. -/
theorem limited_alone (p : Platform) (calls : ι → LimitedCall) (i : ι) (env : Env) (s : Server) :
    Answers (handle p env (calls i).request s)
      (moves (limitedStep p calls) i env 5 s .idle) := by
  cases hcall : calls i with
  | requestOtp phone =>
    have hstep : ∀ l, limitedStep p calls i env s l = requestOtpStep p phone env s l := by
      intro l
      rw [limitedStep, hcall]
    refine Answers.asks (hstep _) (.bind fun phoneHash => .bind fun _ => .ok ?_)
    exact Answers.concludes (hstep _)
  | requestEmailVerification email token =>
    have hstep : ∀ l, limitedStep p calls i env s l = requestEmailStep p email token env s l := by
      intro l
      rw [limitedStep, hcall]
    refine Answers.asks (hstep _) (.bind fun user => .bind fun domain => .ok ?_)
    refine Answers.asks (hstep _) (.bind fun _ => .ok ?_)
    exact Answers.concludes (hstep _)
  | submitReview body token =>
    have hstep : ∀ l, limitedStep p calls i env s l = submissionStep p body token env s l := by
      intro l
      rw [limitedStep, hcall]
    refine Answers.asks (hstep _) (.bind_map fun user => .bind_map fun _ => .ok ?_)
    refine Answers.asks (hstep _) (.bind_map fun _ => .ok ?_)
    refine Answers.asks (hstep _) (.bind_map fun _ => .ok ?_)
    refine Answers.asks (hstep _) (.bind_map fun _ => .ok ?_)
    exact Answers.concludes ((hstep _).trans (congrArg (concludes s) (bind_map _ _ _)))
  | submitGrievance body =>
    have hstep : ∀ l, limitedStep p calls i env s l = submitGrievanceStep p body env s l := by
      intro l
      rw [limitedStep, hcall]
    refine Answers.asks (hstep _) (.bind fun _ => .bind fun _ => .bind fun _ => .ok ?_)
    exact Answers.concludes (hstep _)
  | other req hreq =>
    have hstep : limitedStep p calls i env s .idle = unlimitedStep p req env s .idle := by
      rw [limitedStep, hcall]
    exact Answers.last hstep

end

/-! ## One step -/

/-- All that a step can do to the rows of the key and to whether its session is under way. -/
inductive LimitStep (p : Platform) (k : LimitKey) (env : Env) (stamps : List Time) :
    Option Time → List Time → Option Time → Prop
  | quiet {checked checked' : Option Time} (h : checked' = checked ∨ checked' = none) :
      LimitStep p k env stamps checked stamps checked'
  | admitted {checked : Option Time} {c : Time}
      (h : recent (c - k.window p) stamps < k.maxRequests p) :
      LimitStep p k env stamps checked stamps (some c)
  | stored {c : Time} :
      LimitStep p k env stamps (some c) (stamps ++ [env.now k.stampedAt]) none

section

variable {p : Platform} {env : Env} {s : Server} {k : LimitKey} {l : Limited}

theorem Limited.checkedFor_of_underWay {k' : LimitKey} {c : Time}
    (h : l.underWay = some (k', c)) : l.checkedFor k = if k' = k then some c else none := by
  unfold checkedFor
  rw [h]
  rfl

/-- What a statement before the commit can do. -/
theorem asks_step {r : Except HttpException Limited}
    (h : ∀ l', r = .ok l' → LimitStep p k env (k.stamps s.db) (l.checkedFor k)
      (k.stamps s.db) (l'.checkedFor k)) :
    LimitStep p k env (k.stamps s.db) (l.checkedFor k) (k.stamps (asks s r).2.1.db)
      ((asks s r).2.2.checkedFor k) := by
  cases r with
  | error e => exact .quiet (Or.inr rfl)
  | ok l' => exact h l' rfl

/-- Who passes the check is let in under its key. -/
theorem admitted_step {j : LimitKey} {c : Time} {l' : Limited}
    (hlimit : j.enforce p s.db c = .ok ()) (h : l'.underWay = some (j, c)) :
    LimitStep p k env (k.stamps s.db) (l.checkedFor k) (k.stamps s.db) (l'.checkedFor k) := by
  rw [Limited.checkedFor_of_underWay h]
  split
  · rename_i hk
    subst hk
    exact .admitted ((LimitKey.enforce_ok_iff _ _ _ _).mp hlimit)
  · exact .quiet (Or.inr rfl)

/-- The rows of every key after an insert. -/
theorem stamps_insert_self {α κ : Type} [Record α] [DecidableEq κ] {t u : Table α} {a : α}
    (h : t.insert a = some u) (column : α → κ) (createdAt : α → Time) (key : κ) :
    (u.select fun b => column b == key).map createdAt =
      (t.select fun b => column b == key).map createdAt ++
        if column a = key then [createdAt a] else [] := by
  rw [Table.select_insert h, List.map_append]
  by_cases hkey : column a = key
  · simp [hkey]
  · simp [hkey]

/-- The commit stores the row of the session's own key, or none. -/
theorem concludes_step {j : LimitKey} {c : Time} {r : Except HttpException (Db × Payload)}
    (h : l.underWay = some (j, c))
    (hstamps : ∀ db' payload, r = .ok (db', payload) → k.stamps db' = k.stamps s.db ++
      if j = k then [env.now k.stampedAt] else []) :
    LimitStep p k env (k.stamps s.db) (l.checkedFor k) (k.stamps (concludes s r).2.1.db)
      ((concludes s r).2.2.checkedFor k) := by
  cases r with
  | error e => exact .quiet (Or.inr rfl)
  | ok r =>
    obtain ⟨db', payload⟩ := r
    have hdb := hstamps db' payload rfl
    show LimitStep p k env _ _ (k.stamps db') none
    rw [Limited.checkedFor_of_underWay h, hdb]
    split
    · exact .stored
    · rw [List.append_nil]
      exact .quiet (Or.inr rfl)

theorem requestOtpStep_step (phone : String) :
    LimitStep p k env (k.stamps s.db) (l.checkedFor k)
      (k.stamps (requestOtpStep p phone env s l).2.1.db)
      ((requestOtpStep p phone env s l).2.2.checkedFor k) := by
  cases l with
  | idle =>
    refine asks_step (l := .idle) fun l' hl' => ?_
    obtain ⟨phoneHash, -, h⟩ := bind_ok hl'
    obtain ⟨_, hlimit, h'⟩ := bind_ok h
    cases h'
    exact admitted_step (j := .otp phoneHash) (orTooManyRequests_ok hlimit) rfl
  | phoneInLimit phoneHash c =>
    refine concludes_step (j := .otp phoneHash) (l := .phoneInLimit phoneHash c) rfl
      fun db' payload hdb' => ?_
    obtain ⟨otpCodes, hcommit, h⟩ := bind_ok hdb'
    cases h
    cases k with
    | otp phoneHash' =>
      have hstamps := stamps_insert_self (commit_ok hcommit).1 OTPCode.phoneHash OTPCode.createdAt
        phoneHash'
      simp only [LimitKey.stamps, LimitKey.otp.injEq]
      exact hstamps
    | _ => simp [LimitKey.stamps]
  | _ => exact .quiet (Or.inr rfl)

theorem requestEmailStep_step (email : String) (token : Option String) :
    LimitStep p k env (k.stamps s.db) (l.checkedFor k)
      (k.stamps (requestEmailStep p email token env s l).2.1.db)
      ((requestEmailStep p email token env s l).2.2.checkedFor k) := by
  cases l with
  | idle =>
    refine asks_step (l := .idle) fun l' hl' => ?_
    obtain ⟨user, -, h⟩ := bind_ok hl'
    obtain ⟨domain, -, h'⟩ := bind_ok h
    cases h'
    exact .quiet (Or.inr rfl)
  | requester user emailHash domain =>
    refine asks_step (l := .requester user emailHash domain) fun l' hl' => ?_
    obtain ⟨_, hlimit, h⟩ := bind_ok hl'
    cases h
    exact admitted_step (j := .email user.id) (orTooManyRequests_ok hlimit) rfl
  | requesterInLimit user emailHash domain c =>
    refine concludes_step (j := .email user.id) (l := .requesterInLimit user emailHash domain c)
      rfl fun db' payload hdb' => ?_
    obtain ⟨emailVerificationCodes, hcommit, h⟩ := bind_ok hdb'
    cases h
    cases k with
    | email userId =>
      have hstamps := stamps_insert_self (commit_ok hcommit).1 EmailVerificationCode.userId
        EmailVerificationCode.createdAt userId
      simp only [LimitKey.stamps, LimitKey.email.injEq]
      exact hstamps
    | _ => simp [LimitKey.stamps]
  | _ => exact .quiet (Or.inr rfl)

/-- The statements of a submission. -/
theorem submission_statement_step {env : Env} (body : ReviewCreate) (token : Option String)
    (l : Limited) (sub : ReviewSubmission)
    (hl : l.checkedFor k = (Limited.submission sub).checkedFor k) :
    LimitStep p k env (k.stamps s.db) (l.checkedFor k)
      (k.stamps (submissionStep.statement p body token env s sub).2.1.db)
      ((submissionStep.statement p body token env s sub).2.2.checkedFor k) := by
  cases sub with
  | received =>
    refine asks_step (l := l) fun l' hl' => ?_
    obtain ⟨_, hnext, rfl⟩ := map_ok.mp hl'
    obtain ⟨user, -, h⟩ := bind_ok hnext
    obtain ⟨_, -, h'⟩ := bind_ok h
    cases h'
    exact .quiet (Or.inr rfl)
  | author user =>
    refine asks_step (l := l) fun l' hl' => ?_
    obtain ⟨_, hnext, rfl⟩ := map_ok.mp hl'
    obtain ⟨_, -, h⟩ := bind_ok hnext
    cases h
    exact .quiet (Or.inr rfl)
  | authorAtCompany user =>
    refine asks_step (l := l) fun l' hl' => ?_
    obtain ⟨_, hnext, rfl⟩ := map_ok.mp hl'
    obtain ⟨_, hlimit, h⟩ := bind_ok hnext
    cases h
    exact admitted_step (j := .review user.id) (orTooManyRequests_ok hlimit) rfl
  | authorInLimit user c =>
    refine asks_step (l := l) fun l' hl' => ?_
    obtain ⟨_, hnext, rfl⟩ := map_ok.mp hl'
    obtain ⟨_, -, h⟩ := bind_ok hnext
    cases h
    exact .quiet (Or.inl hl.symm)
  | newAuthor user c =>
    rw [hl]
    refine concludes_step (j := .review user.id) (l := .submission (.newAuthor user c)) rfl
      fun db' payload hdb' => ?_
    obtain ⟨⟨db'', review⟩, hstored, heq⟩ := map_ok.mp hdb'
    obtain ⟨reviews, hcommit, h⟩ := bind_ok hstored
    cases h
    cases heq
    cases k with
    | review userId =>
      have hstamps := stamps_insert_self (commit_ok hcommit).1 Review.userId Review.createdAt userId
      simp only [LimitKey.stamps, LimitKey.review.injEq]
      exact hstamps
    | _ => simp [LimitKey.stamps]

theorem submissionStep_step (body : ReviewCreate) (token : Option String) :
    LimitStep p k env (k.stamps s.db) (l.checkedFor k)
      (k.stamps (submissionStep p body token env s l).2.1.db)
      ((submissionStep p body token env s l).2.2.checkedFor k) := by
  cases l with
  | idle => exact submission_statement_step body token .idle .received rfl
  | submission sub => exact submission_statement_step body token (.submission sub) sub rfl
  | _ => exact .quiet (Or.inr rfl)

theorem submitGrievanceStep_step (body : GrievanceComplaintCreate) :
    LimitStep p k env (k.stamps s.db) (l.checkedFor k)
      (k.stamps (submitGrievanceStep p body env s l).2.1.db)
      ((submitGrievanceStep p body env s l).2.2.checkedFor k) := by
  cases l with
  | idle =>
    refine asks_step (l := .idle) fun l' hl' => ?_
    obtain ⟨_, -, h⟩ := bind_ok hl'
    obtain ⟨_, -, h'⟩ := bind_ok h
    obtain ⟨_, hlimit, h''⟩ := bind_ok h'
    cases h''
    exact admitted_step (j := .grievance body.complainantContact) (orTooManyRequests_ok hlimit) rfl
  | complainantInLimit body c =>
    refine concludes_step (j := .grievance body.complainantContact)
      (l := .complainantInLimit body c) rfl fun db' payload hdb' => ?_
    obtain ⟨grievanceComplaints, hcommit, h⟩ := bind_ok hdb'
    cases h
    cases k with
    | grievance contact =>
      have hstamps := stamps_insert_self (commit_ok hcommit).1
        GrievanceComplaint.complainantContact GrievanceComplaint.createdAt contact
      simp only [LimitKey.stamps, LimitKey.grievance.injEq]
      exact hstamps
    | _ => simp [LimitKey.stamps]
  | _ => exact .quiet (Or.inr rfl)

/-- A request that no limit is on stores no row of a key. -/
theorem write_stamps_unlimited {db db' : Db} {req : Request} {out : Response}
    (h : Write p env db req out db') (hreq : req.limited = false) : k.stamps db' = k.stamps db := by
  cases h with
  | otpIssued => cases hreq
  | emailIssued => cases hreq
  | reviewSubmitted => cases hreq
  | grievanceSubmitted => cases hreq
  | otpWrong | otpAccepted =>
    cases k with
    | otp => exact Table.map_select_update _ _ _ (fun _ => rfl) fun _ => rfl
    | _ => rfl
  | emailWrong | emailAccepted =>
    cases k with
    | email => exact Table.map_select_update _ _ _ (fun _ => rfl) fun _ => rfl
    | _ => rfl
  | reviewDecided =>
    cases k with
    | review => exact Table.map_select_update _ _ _ (fun _ => rfl) fun _ => rfl
    | _ => rfl
  | _ => cases k <;> rfl

theorem unlimitedStep_step {req : Request} (hreq : req.limited = false) :
    LimitStep p k env (k.stamps s.db) (l.checkedFor k)
      (k.stamps (unlimitedStep p req env s l).2.1.db)
      ((unlimitedStep p req env s l).2.2.checkedFor k) := by
  cases l with
  | idle =>
    have hsame : k.stamps (handle p env req s).2.db = k.stamps s.db :=
      handle_rel (R := fun db db' => k.stamps db' = k.stamps db) rfl
        fun hwrite => write_stamps_unlimited hwrite hreq
    show LimitStep p k env _ _ (k.stamps (handle p env req s).2.db) _
    rw [hsame]
    exact .quiet (Or.inr rfl)
  | _ => exact .quiet (Or.inr rfl)

theorem limitedStep_step {ι : Type} (calls : ι → LimitedCall) (i : ι) :
    LimitStep p k env (k.stamps s.db) (l.checkedFor k)
      (k.stamps (limitedStep p calls i env s l).2.1.db)
      ((limitedStep p calls i env s l).2.2.checkedFor k) := by
  unfold limitedStep
  cases calls i with
  | requestOtp phone => exact requestOtpStep_step phone
  | requestEmailVerification email token => exact requestEmailStep_step email token
  | submitReview body token => exact submissionStep_step body token
  | submitGrievance body => exact submitGrievanceStep_step body
  | other req hreq => exact unlimitedStep_step hreq

end

/-! ## Every interleaving -/

section

variable {ι : Type} [DecidableEq ι] {p : Platform} {k : LimitKey} {C : Nat}

/-- When each session has been let in under the key `k`. -/
def checkedFor (k : LimitKey) (c : Conf ι Server Limited) (i : ι) : Option Time :=
  (c.sess i).checkedFor k

/-- The session stamps its row no earlier than it was let in, and the step leaves at most `C`
    sessions of the key under way. -/
def InLimit (p : Platform) (calls : ι → LimitedCall) (k : LimitKey) (C : Nat)
    (c : Conf ι Server Limited) (e : ι × Env) : Prop :=
  (∀ t ∈ checkedFor k c e.1, t ≤ e.2.now k.stampedAt) ∧
    AtMostUnderWay C (checkedFor k ((interleave (limitedStep p calls)).step e c).2)

instance [Fintype ι] (calls : ι → LimitedCall) (c : Conf ι Server Limited) (e : ι × Env) :
    Decidable (InLimit p calls k C c e) :=
  inferInstanceAs (Decidable (_ ∧ _))

theorem spacedWith_step (calls : ι → LimitedCall) {c : Conf ι Server Limited} {e : ι × Env}
    (hin : InLimit p calls k C c e)
    (h : SpacedWith (k.window p) (k.maxRequests p + C - 1) (k.stamps c.shared.db)
      (checkedFor k c)) :
    let c' := ((interleave (limitedStep p calls)).step e c).2
    SpacedWith (k.window p) (k.maxRequests p + C - 1) (k.stamps c'.shared.db)
      (checkedFor k c') := by
  obtain ⟨i, env⟩ := e
  intro c'
  have hother : ∀ j, j ≠ i → checkedFor k c' j = checkedFor k c j := by
    intro j hj
    exact congrArg (Limited.checkedFor k) (sess_ne _ c env hj)
  have hself : checkedFor k c' i =
      (limitedStep p calls i env c.shared (c.sess i)).2.2.checkedFor k :=
    congrArg (Limited.checkedFor k) (sess_self _ c i env)
  have hstep : LimitStep p k env (k.stamps c.shared.db) ((c.sess i).checkedFor k) _ _ :=
    limitedStep_step calls i
  rw [← hself] at hstep
  change LimitStep p k env _ (checkedFor k c i) (k.stamps c'.shared.db) _ at hstep
  generalize hbefore : checkedFor k c i = before at hstep
  generalize hafter : checkedFor k c' i = after at hstep
  generalize k.stamps c'.shared.db = stamps' at hstep ⊢
  cases hstep with
  | quiet hquiet =>
    refine h.mono fun j t hj => ?_
    by_cases hji : j = i
    · subst hji
      rw [hafter] at hj
      rcases hquiet with rfl | rfl
      · rw [hbefore, hj]
      · cases hj
    · rw [← hother j hji, hj]
  | admitted hadmits => exact h.admit hadmits hafter hother hin.2
  | stored => exact h.store hbefore (hin.1 _ hbefore) hafter hother

/-- In every interleaving in which at most `C` sessions of the key are between their count and
    their commit, and none stamps its row earlier than its count: no closed window ever has
    more than `max_requests + C - 1` rows of the key. -/
theorem limits_race (p : Platform) (calls : ι → LimitedCall) (k : LimitKey) (hC : 1 ≤ C)
    (s : Server) (hs : Spaced (k.window p) (k.maxRequests p) (k.stamps s.db))
    (sched : List (ι × Env))
    (hsched : (interleave (limitedStep p calls)).Along (InLimit p calls k C) sched
      ⟨s, fun _ => .idle⟩) (n : Nat) (a : Time) :
    inInterval a (a + k.window p)
        (k.stamps ((interleave (limitedStep p calls)).exec (sched.take n)
          ⟨s, fun _ => .idle⟩).shared.db) ≤ k.maxRequests p + C - 1 := by
  have hstart : SpacedWith (k.window p) (k.maxRequests p + C - 1) (k.stamps s.db)
      (checkedFor k (⟨s, fun _ => .idle⟩ : Conf ι Server Limited)) := by
    refine Spaced.with_none (fun a => (hs a).trans ?_) fun _ => rfl
    omega
  have hrun := (interleave (limitedStep p calls)).exec_inv
    (I := fun c => SpacedWith (k.window p) (k.maxRequests p + C - 1) (k.stamps c.shared.db)
      (checkedFor k c))
    (fun c e hin h => spacedWith_step calls hin h) (sched.take n) ⟨s, fun _ => .idle⟩ hstart
    ((interleave (limitedStep p calls)).along_take_le hsched n)
  exact hrun.spaced a

end

/-- Six requests for an OTP for one phone. Four are served one after the other; the last two
    are both let in before either of them is stored. -/
def racingOtps (_ : Fin 6) : LimitedCall := .requestOtp "+15551234567"

def racingOtpsSchedule : List (Fin 6 × Env) :=
  [(0, (drawsAt 0 60).env), (0, (drawsAt 0 60).env), (1, (drawsAt 0 61).env),
    (1, (drawsAt 0 61).env), (2, (drawsAt 0 62).env), (2, (drawsAt 0 62).env),
    (3, (drawsAt 0 63).env), (3, (drawsAt 0 63).env), (4, (drawsAt 0 64).env),
    (5, (drawsAt 0 65).env), (4, (drawsAt 0 64).env), (5, (drawsAt 0 65).env)]

/-- One row more than the limit of five. -/
theorem racingOtps_overshoot :
    inInterval 0 0 ((LimitKey.otp "+15551234567").stamps
        ((interleave (limitedStep smallPlatform racingOtps)).exec (racingOtpsSchedule.take 12)
          ⟨.start smallDb, fun _ => .idle⟩).shared.db) = 6 ∧
      inInterval 0 (0 + (LimitKey.otp "+15551234567").window smallPlatform)
        ((LimitKey.otp "+15551234567").stamps
          ((interleave (limitedStep smallPlatform racingOtps)).exec (racingOtpsSchedule.take 12)
            ⟨.start smallDb, fun _ => .idle⟩).shared.db) ≤ 6 :=
  ⟨by decide, limits_race smallPlatform racingOtps (.otp "+15551234567") (C := 2) (by decide)
    (.start smallDb) (.nil _ _) racingOtpsSchedule (by decide) 12 0⟩

/-! ## The bound is reached -/

section

variable {p : Platform} {phone phoneHash : String} {C n m : Nat}

/-- Any number of requests for an OTP for one phone. -/
def sameOtp (phone : String) (_ : Nat) : LimitedCall := .requestOtp phone

/-- The draws of the request `i`, all at the time 0. -/
def burstEnv (i : Nat) : Env := (drawsAt 0 i).env

/-- The first `n` requests are answered, and the next `m` are under way. -/
def burstSess (phoneHash : String) (n m i : Nat) : Limited :=
  if i < n then .finished else if i < n + m then .phoneInLimit phoneHash 0 else .idle

/-- A run from the empty store, with at most `C` under way, that has come so far. -/
def BurstTo (p : Platform) (phone phoneHash : String) (C n m : Nat) : Prop :=
  ∃ sched : List (Nat × Env),
    let run := interleave (limitedStep p (sameOtp phone))
    let start : Conf Nat Server Limited := ⟨.start .empty, fun _ => .idle⟩
    run.Along (InLimit p (sameOtp phone) (.otp phoneHash) C) sched start ∧
      (run.exec sched start).shared.db.otpCodes.rows =
        (List.range n).map (fun i => newOtpCode p (burstEnv i) phoneHash) ∧
      (run.exec sched start).sess = burstSess phoneHash n m

theorem burst_underWay (h : m ≤ C) :
    AtMostUnderWay C fun i => (burstSess phoneHash n m i).checkedFor (.otp phoneHash) := by
  intro J hJ
  have hsub : J ⊆ Finset.Ico n (n + m) := by
    intro i hi
    have hsome : ((burstSess phoneHash n m i).checkedFor (.otp phoneHash)).isSome := hJ i hi
    unfold burstSess at hsome
    rw [Finset.mem_Ico]
    by_contra hout
    split at hsome
    · cases hsome
    · split at hsome
      · omega
      · cases hsome
  calc J.card ≤ (Finset.Ico n (n + m)).card := Finset.card_le_card hsub
    _ = m := by simp
    _ ≤ C := h

theorem update_burst_counted : Function.update (burstSess phoneHash n m) (n + m)
    (.phoneInLimit phoneHash 0) = burstSess phoneHash n (m + 1) := by
  funext i
  unfold burstSess
  by_cases hi : i = n + m
  · subst hi
    rw [Function.update_self, if_neg (by omega), if_pos (by omega)]
  · rw [Function.update_of_ne hi]
    split
    · rfl
    · by_cases hlt : i < n + m
      · rw [if_pos hlt, if_pos (by omega)]
      · rw [if_neg hlt, if_neg (by omega)]

theorem update_burst_stored : Function.update (burstSess phoneHash n (m + 1)) n .finished =
    burstSess phoneHash (n + 1) m := by
  funext i
  unfold burstSess
  by_cases hi : i = n
  · subst hi
    rw [Function.update_self, if_pos (by omega)]
  · rw [Function.update_of_ne hi]
    by_cases hlt : i < n
    · rw [if_pos hlt, if_pos (by omega)]
    · have hlt' : ¬ i < n + 1 := by omega
      rw [if_neg hlt, if_neg hlt', Nat.add_right_comm n 1 m, Nat.add_assoc n m 1]

theorem burst_stamps {db : Db} (hrows : db.otpCodes.rows =
    (List.range n).map fun i => newOtpCode p (burstEnv i) phoneHash) :
    (LimitKey.otp phoneHash).stamps db = List.replicate n 0 := by
  have hall : ∀ c ∈ db.otpCodes.rows, c.phoneHash = phoneHash ∧ c.createdAt = 0 := by
    rw [hrows]
    intro c hc
    obtain ⟨i, -, rfl⟩ := List.mem_map.mp hc
    exact ⟨rfl, rfl⟩
  have hselect : (db.otpCodes.select fun c => c.phoneHash == phoneHash) = db.otpCodes.rows :=
    List.filter_eq_self.mpr fun c hc => beq_iff_eq.mpr (hall c hc).1
  refine List.eq_replicate_iff.mpr ⟨?_, fun t ht => ?_⟩
  · show ((db.otpCodes.select fun c => c.phoneHash == phoneHash).map OTPCode.createdAt).length = n
    rw [hselect, hrows, List.length_map, List.length_map, List.length_range]
  · obtain ⟨c, hc, rfl⟩ := List.mem_map.mp ht
    exact (hall c ((db.otpCodes.mem_select _ c).mp hc).1).2

/-- A step that is allowed takes the run further. -/
theorem BurstTo.step {n' m' : Nat} {e : Env} {i : Nat}
    (h : BurstTo p phone phoneHash C n m)
    (hstep : ∀ s : Server, s.db.otpCodes.rows =
        (List.range n).map (fun i => newOtpCode p (burstEnv i) phoneHash) →
      ∃ s' l', (limitedStep p (sameOtp phone) i e s (burstSess phoneHash n m i)).2 = (s', l') ∧
        s'.db.otpCodes.rows =
          (List.range n').map (fun i => newOtpCode p (burstEnv i) phoneHash) ∧
        Function.update (burstSess phoneHash n m) i l' = burstSess phoneHash n' m')
    (hclock : ∀ t ∈ (burstSess phoneHash n m i).checkedFor (.otp phoneHash), t ≤ e.now 2)
    (hm : m' ≤ C) : BurstTo p phone phoneHash C n' m' := by
  obtain ⟨sched, halong, hrows, hsess⟩ := h
  obtain ⟨s', l', hnext, hrows', hsess'⟩ := hstep _ hrows
  have hsess'' : ((interleave (limitedStep p (sameOtp phone))).step (i, e)
      ((interleave (limitedStep p (sameOtp phone))).exec sched
        ⟨.start .empty, fun _ => .idle⟩)).2.sess = burstSess phoneHash n' m' := by
    rw [← hsess']
    show Function.update _ i _ = _
    rw [hsess, hnext]
  refine ⟨sched ++ [(i, e)], ((interleave _).along_snoc _ _ _ _).mpr ⟨halong, ?_, ?_⟩, ?_, ?_⟩
  · intro t ht
    refine hclock t ?_
    rw [← hsess]
    exact ht
  · have hcap : AtMostUnderWay C fun i => (burstSess phoneHash n' m' i).checkedFor
        (.otp phoneHash) := burst_underWay hm
    rw [← hsess''] at hcap
    exact hcap
  · rw [Machine.exec_snoc]
    show (limitedStep _ _ i e _ _).2.1.db.otpCodes.rows = _
    rw [hsess, hnext]
    exact hrows'
  · rw [Machine.exec_snoc]
    exact hsess''

/-- One more request is let in. -/
theorem BurstTo.count (h : BurstTo p phone phoneHash C n m)
    (hphone : hashPhone p phone = .ok phoneHash)
    (hn : n < (LimitKey.otp phoneHash).maxRequests p) (hm : m < C) :
    BurstTo p phone phoneHash C n (m + 1) := by
  have hidle : burstSess phoneHash n m (n + m) = .idle := by
    unfold burstSess
    rw [if_neg (by omega), if_neg (by omega)]
  refine h.step (i := n + m) (e := burstEnv (n + m)) (fun s hrows => ?_) ?_ hm
  · have hlimit : (LimitKey.otp phoneHash).enforce p s.db 0 = .ok () := by
      rw [LimitKey.enforce_ok_iff, burst_stamps hrows]
      refine lt_of_le_of_lt List.countP_le_length ?_
      rwa [List.length_replicate]
    refine ⟨s, .phoneInLimit phoneHash 0, ?_, hrows, update_burst_counted⟩
    rw [hidle]
    show (requestOtpStep p phone (burstEnv (n + m)) s .idle).2 = _
    unfold requestOtpStep
    rw [hphone]
    have hchecked : enforceRateLimit (s.db.otpCodes.select fun c => c.phoneHash == phoneHash)
        OTPCode.createdAt ((burstEnv (n + m)).now 0) p.settings.otpRateLimitWindowMinutes
        p.settings.otpRateLimitMaxRequests = .ok () := hlimit
    simp only [orUnprocessable, Except.mapError, ok_bind, hchecked, orTooManyRequests]
    rfl
  · rw [hidle]
    intro t ht
    cases ht

/-- The first request under way is answered. -/
theorem BurstTo.store (h : BurstTo p phone phoneHash C n (m + 1)) (hm : m ≤ C) :
    BurstTo p phone phoneHash C (n + 1) m := by
  have hunder : burstSess phoneHash n (m + 1) n = .phoneInLimit phoneHash 0 := by
    unfold burstSess
    rw [if_neg (by omega), if_pos (by omega)]
  refine h.step (i := n) (e := burstEnv n) (fun s hrows => ?_) ?_ hm
  · have hfresh : ∀ c ∈ s.db.otpCodes.rows,
        clash c (newOtpCode p (burstEnv n) phoneHash) = false := by
      rw [hrows]
      intro c hc
      obtain ⟨i, hi, rfl⟩ := List.mem_map.mp hc
      have hne : i + 0 ≠ n + 0 := (List.mem_range.mp hi).ne
      exact beq_false_of_ne hne
    obtain ⟨u, hu⟩ : ∃ u, s.db.otpCodes.insert (newOtpCode p (burstEnv n) phoneHash) = some u := by
      unfold Table.insert
      rw [dif_pos ⟨rfl, hfresh⟩]
      exact ⟨_, rfl⟩
    refine ⟨{ s with db := { s.db with otpCodes := u } }, .finished, ?_, ?_, update_burst_stored⟩
    · rw [hunder]
      show (requestOtpStep p phone (burstEnv n) s (.phoneInLimit phoneHash 0)).2 = _
      simp only [requestOtpStep]
      rw [hu]
      rfl
    · show u.rows = _
      rw [(Table.insert_eq_some hu).1, hrows, List.range_succ, List.map_append]
      rfl
  · rw [hunder, Limited.checkedFor_of_underWay rfl, if_pos rfl]
    intro t ht
    cases ht
    exact le_rfl

/-- One request after the other, while the limit allows it. -/
theorem burstTo_full (hphone : hashPhone p phone = .ok phoneHash) (hC : 1 ≤ C)
    (hn : n < (LimitKey.otp phoneHash).maxRequests p) : BurstTo p phone phoneHash C n 0 := by
  induction n with
  | zero =>
    refine ⟨[], trivial, rfl, ?_⟩
    funext i
    simp [Machine.exec, burstSess]
  | succ n ih =>
    have hbefore := ih (by omega)
    exact (hbefore.count hphone (by omega) hC).store (Nat.zero_le C)

/-- For OTPs the bound is reached: with any number `C` of requests for one phone allowed under
    way, some run from the empty store has `max_requests + C - 1` rows at one instant. -/
theorem limits_race_tight (p : Platform) {phone phoneHash : String} {C : Nat}
    (hphone : hashPhone p phone = .ok phoneHash)
    (hmax : 1 ≤ (LimitKey.otp phoneHash).maxRequests p) (hC : 1 ≤ C) :
    ∃ sched : List (Nat × Env),
      let run := interleave (limitedStep p (sameOtp phone))
      let start : Conf Nat Server Limited := ⟨.start .empty, fun _ => .idle⟩
      run.Along (InLimit p (sameOtp phone) (.otp phoneHash) C) sched start ∧
        inInterval 0 0 ((LimitKey.otp phoneHash).stamps (run.exec sched start).shared.db) =
          (LimitKey.otp phoneHash).maxRequests p + C - 1 := by
  have hfull : BurstTo p phone phoneHash C ((LimitKey.otp phoneHash).maxRequests p - 1) 0 :=
    burstTo_full hphone hC (by omega)
  -- `C` requests are let in before any of them is stored
  have hcounted : ∀ m, m ≤ C →
      BurstTo p phone phoneHash C ((LimitKey.otp phoneHash).maxRequests p - 1) m := by
    intro m
    induction m with
    | zero => exact fun _ => hfull
    | succ m ih => exact fun hm => (ih (by omega)).count hphone (by omega) hm
  have hstored : ∀ m, m ≤ C →
      BurstTo p phone phoneHash C ((LimitKey.otp phoneHash).maxRequests p - 1 + m) (C - m) := by
    intro m
    induction m with
    | zero => exact fun _ => hcounted C le_rfl
    | succ m ih =>
      intro hm
      have hbefore := ih (by omega)
      rw [show C - m = C - (m + 1) + 1 by omega] at hbefore
      exact hbefore.store (by omega)
  obtain ⟨sched, halong, hrows, -⟩ := hstored C le_rfl
  refine ⟨sched, halong, ?_⟩
  show inInterval 0 0 ((LimitKey.otp phoneHash).stamps _) = _
  rw [burst_stamps hrows]
  unfold inInterval
  rw [List.countP_replicate, if_pos (by decide)]
  omega

theorem limits_race_tight_three :
    1 ≤ (LimitKey.otp "+15551234567").maxRequests smallPlatform ∧
      ∃ sched : List (Nat × Env),
        let run := interleave (limitedStep smallPlatform (sameOtp "+15551234567"))
        let start : Conf Nat Server Limited := ⟨.start .empty, fun _ => .idle⟩
        run.Along (InLimit smallPlatform (sameOtp "+15551234567") (.otp "+15551234567") 3) sched
            start ∧
          inInterval 0 0 ((LimitKey.otp "+15551234567").stamps
            (run.exec sched start).shared.db) = 7 :=
  ⟨by decide, limits_race_tight smallPlatform (by decide) (by decide) (by decide)⟩

end

end LinkedOut
