/-
  What one request can write: one constructor a transaction, with everything the handler
  has checked before it commits.

  `handle_cases`: a request leaves the database as it was, or it commits exactly one
  `Write`; and a request that is answered with success is a read or has committed one.
  Every invariant of the API is proved from this, by cases on the `Write`.
-/
import LinkedOut.Api

namespace LinkedOut

/-- The requests that write nothing to the database. -/
def Request.isRead : Request → Bool
  | health | readCurrentUser _ | listCompanyReviews _ _ | listCorroborations _ _
  | listCompanyLayoffEvents _ _ | employerLogin _ | getCompanyStats _ | getLayoffTimeline _
  | adminLogin _ _ | getModerationQueue _ _ | getDocumentQueue _ _ | listGrievances _ _
  | listTakedownLog _ => true
  | _ => false

/-- What an approve or a reject request on the moderation queue asks for. -/
def Request.decision : Request → Option (ModeratedItemType × Uuid × Decision × Option String)
  | approveModerationItem itemType itemId token => some (itemType, itemId, approval, token)
  | rejectModerationItem itemType itemId reason token =>
    some (itemType, itemId, rejection reason, token)
  | _ => none

/-- The two decisions the routes can make; a rejection has a reason. -/
def Decision.Valid (d : Decision) : Prop :=
  d = approval ∨ ∃ reason, 1 ≤ reason.length ∧ d = rejection reason

/-- The users after a right OTP: one is created, raised, or left alone. -/
inductive Login (env : Env) (phoneHash : String) (users : Table User) : Table User → Uuid → Prop
  | signup {users' : Table User} (hnew : ∀ u ∈ users.rows, u.phoneHash ≠ phoneHash)
      (hinsert : users.insert ⟨env.uuid 0, phoneHash, none, .phone⟩ = some users') :
      Login env phoneHash users users' (env.uuid 0)
  | raise {user : User} (huser : user ∈ users.rows) (hphone : user.phoneHash = phoneHash)
      (htier : user.verificationTier = .unverified) :
      Login env phoneHash users (users.update user.id (User.setTier .phone)) user.id
  | again {user : User} (huser : user ∈ users.rows) (hphone : user.phoneHash = phoneHash)
      (htier : user.verificationTier ≠ .unverified) :
      Login env phoneHash users users user.id

/-- One committed transaction. -/
inductive Write (p : Platform) (env : Env) (db : Db) : Request → Response → Db → Prop
  | otpIssued {phone phoneHash : String} {otpCodes : Table OTPCode} {out : OTPRequestOut}
      (hphone : hashPhone p phone = .ok phoneHash)
      (hlimit : enforceRateLimit (db.otpCodes.select fun c => c.phoneHash == phoneHash)
        OTPCode.createdAt (env.now 0) p.settings.otpRateLimitWindowMinutes
        p.settings.otpRateLimitMaxRequests = .ok ())
      (hinsert : db.otpCodes.insert (newOtpCode p env phoneHash) = some otpCodes) :
      Write p env db (.requestOtp phone) (.ok (.otpRequest out)) { db with otpCodes }
  | otpWrong {phone code phoneHash : String} {row : OTPCode} {e : HttpException}
      (hphone : hashPhone p phone = .ok phoneHash)
      (hjudge : judgeOtp p env phoneHash code db = .ok (.wrong row)) :
      Write p env db (.verifyOtp phone code) (.error e) (countOtpAttempt row db)
  | otpAccepted {phone code phoneHash : String} {row : OTPCode} {users : Table User}
      {userId : Uuid} {out : Response}
      (hphone : hashPhone p phone = .ok phoneHash)
      (hjudge : judgeOtp p env phoneHash code db = .ok (.right row))
      (hlogin : Login env phoneHash db.users users userId) :
      Write p env db (.verifyOtp phone code) out
        { db with
          otpCodes := db.otpCodes.update row.id (OTPCode.setConsumed (env.now 1))
          users }
  | emailIssued {email emailHash domain : String} {token : Option String} {user : User}
      {emailVerificationCodes : Table EmailVerificationCode} {out : EmailRequestOut}
      (hgate : requireTier p env .phone token db = .ok user)
      (hdomain : splitEmailDomain (normalizeEmail p email) = .ok domain)
      (hemail : submittedEmailHash p email = .ok emailHash)
      (hlimit : enforceRateLimit (db.emailVerificationCodes.select fun c => c.userId == user.id)
        EmailVerificationCode.createdAt (env.now 1) p.settings.emailRateLimitWindowMinutes
        p.settings.emailRateLimitMaxRequests = .ok ())
      (hinsert : db.emailVerificationCodes.insert (newEmailCode p env user.id emailHash domain) =
        some emailVerificationCodes) :
      Write p env db (.requestEmailVerification email token) (.ok (.emailRequest out))
        { db with emailVerificationCodes }
  | emailWrong {email code emailHash : String} {token : Option String} {user : User}
      {row : EmailVerificationCode} {e : HttpException}
      (hgate : requireTier p env .phone token db = .ok user)
      (hemail : submittedEmailHash p email = .ok emailHash)
      (hjudge : judgeEmail p env user.id emailHash code db = .ok (.wrong row)) :
      Write p env db (.verifyEmail email code token) (.error e) (countEmailAttempt row db)
  | emailAccepted {email code emailHash : String} {token : Option String} {user : User}
      {row : EmailVerificationCode} {out : Response}
      (hgate : requireTier p env .phone token db = .ok user)
      (hemail : submittedEmailHash p email = .ok emailHash)
      (hjudge : judgeEmail p env user.id emailHash code db = .ok (.right row)) :
      Write p env db (.verifyEmail email code token) out (consumeEmail env user row db)
  | documentUploaded {docType : DocumentType} {content : List UInt8} {token : Option String}
      {user : User} {moderationQueue : Table ModerationQueueItem} {out : DocumentUploadOut}
      (hgate : requireTier p env .email token db = .ok user)
      (hinsert : db.moderationQueue.insert (newDocument p env user.id docType content) =
        some moderationQueue) :
      Write p env db (.uploadDocument docType content token) (.ok (.documentUpload out))
        { db with moderationQueue }
  | reviewSubmitted {body : ReviewCreate} {token : Option String} {user : User}
      {reviews : Table Review} {out : CreateOut}
      (hgate : requireTier p env .email token db = .ok user)
      (hcheck : body.check = .ok ())
      (hcompany : requireCompany body.companyId db = .ok ())
      (hlimit : enforceRateLimit (db.reviews.select fun r => r.userId == user.id) Review.createdAt
        (env.now 1) p.settings.reviewRateLimitWindowMinutes
        p.settings.reviewRateLimitMaxRequests = .ok ())
      (hinsert : db.reviews.insert (newReview p env user.id body) = some reviews) :
      Write p env db (.submitReview body token) (.ok (.created out)) { db with reviews }
  | reviewCorroborated {reviewId : Uuid} {comment token : Option String} {user : User}
      {review : Review} {corroborations : Table Corroboration} {out : CorroborationCreateOut}
      (hgate : requireTier p env .phone token db = .ok user)
      (hreview : requireReview reviewId db = .ok review)
      (hother : review.userId ≠ user.id)
      (hinsert : db.corroborations.insert (newCorroboration env reviewId user.id comment) =
        some corroborations) :
      Write p env db (.corroborateReview reviewId comment token) (.ok (.corroborated out))
        { db with corroborations }
  | reviewAnswered {reviewId : Uuid} {responseText : String} {token : Option String}
      {account : EmployerAccount} {review : Review} {employerResponses : Table EmployerResponse}
      {out : EmployerResponseRead}
      (hgate : getCurrentEmployerAccount p env token db = .ok account)
      (hreview : requireReview reviewId db = .ok review)
      (hcompany : review.companyId = account.companyId)
      (hinsert : db.employerResponses.insert (newResponse env reviewId account.id responseText) =
        some employerResponses) :
      Write p env db (.respondToReview reviewId responseText token) (.ok (.employerResponse out))
        { db with employerResponses }
  | layoffSubmitted {body : LayoffEventCreate} {token : Option String} {user : User}
      {layoffEvents : Table LayoffEvent} {out : CreateOut}
      (hgate : requireTier p env .email token db = .ok user)
      (hcheck : body.check = .ok ())
      (hcompany : requireCompany body.companyId db = .ok ())
      (hinsert : db.layoffEvents.insert (newLayoffEvent p env user.id body) = some layoffEvents) :
      Write p env db (.submitLayoffEvent body token) (.ok (.created out)) { db with layoffEvents }
  | reviewDecided {req : Request} {itemId : Uuid} {decision : Decision} {token : Option String}
      {admin : AdminUser} {review : Review} {moderationAuditLog : Table ModerationAuditLogEntry}
      {out : ModerationActionOut}
      (hreq : req.decision = some (.review, itemId, decision, token))
      (hvalid : decision.Valid)
      (hadmin : getCurrentAdmin p env token db = .ok admin)
      (hitem : db.reviews.find? itemId = some review)
      (hpending : review.status = .pending)
      (hinsert : db.moderationAuditLog.insert
        (newAuditEntry env 1 admin.id .review itemId decision.action decision.reason) =
          some moderationAuditLog) :
      Write p env db req (.ok (.moderationAction out))
        { db with
          reviews := db.reviews.update itemId (Review.setStatus decision.status)
          moderationAuditLog }
  | layoffDecided {req : Request} {itemType : ModeratedItemType} {itemId : Uuid}
      {decision : Decision} {token : Option String} {admin : AdminUser} {event : LayoffEvent}
      {moderationAuditLog : Table ModerationAuditLogEntry} {out : ModerationActionOut}
      (hreq : req.decision = some (itemType, itemId, decision, token))
      (htype : itemType ≠ .review)
      (hvalid : decision.Valid)
      (hadmin : getCurrentAdmin p env token db = .ok admin)
      (hitem : db.layoffEvents.find? itemId = some event)
      (hpending : event.status = .pending)
      (hinsert : db.moderationAuditLog.insert
        (newAuditEntry env 1 admin.id itemType itemId decision.action decision.reason) =
          some moderationAuditLog) :
      Write p env db req (.ok (.moderationAction out))
        { db with
          layoffEvents := db.layoffEvents.update itemId (LayoffEvent.setStatus decision.status)
          moderationAuditLog }
  | documentApproved {itemId : Uuid} {token : Option String} {admin : AdminUser}
      {item : ModerationQueueItem} {user : User}
      {moderationAuditLog : Table ModerationAuditLogEntry} {out : DocumentModerationActionOut}
      (hadmin : getCurrentAdmin p env token db = .ok admin)
      (hitem : db.moderationQueue.find? itemId = some item)
      (hpending : item.status = .pending)
      (huser : db.users.find? item.userId = some user)
      (hinsert : db.moderationAuditLog.insert
        (newAuditEntry env 2 admin.id .document itemId .approve none) = some moderationAuditLog) :
      Write p env db (.approveDocument itemId token) (.ok (.documentAction out))
        { db with
          moderationQueue := db.moderationQueue.update itemId
            (ModerationQueueItem.setDecision .approved (env.now 1))
          users := db.users.update user.id (User.setTier .document)
          moderationAuditLog }
  | documentRejected {itemId : Uuid} {reason : String} {token : Option String}
      {admin : AdminUser} {item : ModerationQueueItem}
      {moderationAuditLog : Table ModerationAuditLogEntry} {out : DocumentModerationActionOut}
      (hadmin : getCurrentAdmin p env token db = .ok admin)
      (hreason : 1 ≤ reason.length)
      (hitem : db.moderationQueue.find? itemId = some item)
      (hpending : item.status = .pending)
      (hinsert : db.moderationAuditLog.insert
        (newAuditEntry env 2 admin.id .document itemId .reject (some reason)) =
          some moderationAuditLog) :
      Write p env db (.rejectDocument itemId reason token) (.ok (.documentAction out))
        { db with
          moderationQueue := db.moderationQueue.update itemId
            (ModerationQueueItem.setDecision .rejected (env.now 1))
          moderationAuditLog }
  | takedownLogged {body : TakedownLogEntryCreate} {token : Option String} {admin : AdminUser}
      {takedownLogEntries : Table TakedownLogEntry} {out : TakedownLogEntry}
      (hadmin : getCurrentAdmin p env token db = .ok admin)
      (hinsert : db.takedownLogEntries.insert (newTakedownLogEntry env body) =
        some takedownLogEntries) :
      Write p env db (.createTakedownLogEntry body token) (.ok (.takedownEntry out))
        { db with takedownLogEntries }
  | grievanceSubmitted {body : GrievanceComplaintCreate}
      {grievanceComplaints : Table GrievanceComplaint} {out : GrievanceComplaintOut}
      (hlimit : enforceRateLimit
        (db.grievanceComplaints.select fun c => c.complainantContact == body.complainantContact)
        GrievanceComplaint.createdAt (env.now 0) p.settings.grievanceRateLimitWindowMinutes
        p.settings.grievanceRateLimitMaxRequests = .ok ())
      (hinsert : db.grievanceComplaints.insert (newComplaint env body) =
        some grievanceComplaints) :
      Write p env db (.submitGrievance body) (.ok (.grievance out)) { db with grievanceComplaints }

/-! ## The lookups -/

theorem loadPending_ok {α : Type} {itemType : ModeratedItemType} {status : α → ReviewStatus}
    {row : Option α} {a : α} (h : loadPending itemType status row = .ok a) :
    row = some a ∧ status a = .pending := by
  unfold loadPending at h
  split at h
  · cases h
  · split at h
    · cases h
    · rename_i hs
      cases h
      exact ⟨rfl, not_not.mp hs⟩

/-- What `_load_item` loads is pending, and it is a review only for the item type REVIEW. -/
theorem loadItem_ok {itemType : ModeratedItemType} {itemId : Uuid} {db : Db}
    {item : ModeratedItem} (h : loadItem itemType itemId db = .ok item) :
    (itemType = .review ∧ ∃ r, item = .review r ∧ db.reviews.find? itemId = some r ∧
      r.status = .pending) ∨
    (itemType ≠ .review ∧ ∃ e, item = .layoffEvent e ∧ db.layoffEvents.find? itemId = some e ∧
      e.status = .pending) := by
  unfold loadItem at h
  split at h
  · rename_i ht
    obtain ⟨row, hrow, h1⟩ := bind_ok h
    obtain ⟨r, hr, h2⟩ := bind_ok h1
    rw [scalarOneOrNone_pk] at hrow
    obtain ⟨rfl, hp⟩ := loadPending_ok hr
    cases h2
    exact Or.inl ⟨ht, r, rfl, Except.ok.inj hrow, hp⟩
  · rename_i ht
    obtain ⟨row, hrow, h1⟩ := bind_ok h
    obtain ⟨e, he, h2⟩ := bind_ok h1
    rw [scalarOneOrNone_pk] at hrow
    obtain ⟨rfl, hp⟩ := loadPending_ok he
    cases h2
    exact Or.inr ⟨ht, e, rfl, Except.ok.inj hrow, hp⟩

theorem loadDocumentItem_ok {itemId : Uuid} {db : Db} {item : ModerationQueueItem}
    (h : loadDocumentItem itemId db = .ok item) :
    db.moderationQueue.find? itemId = some item ∧ item.status = .pending := by
  unfold loadDocumentItem at h
  rw [scalarOneOrNone_pk] at h
  cases hf : db.moderationQueue.find? itemId with
  | none => rw [hf] at h; cases h
  | some i =>
    rw [hf] at h
    by_cases hs : i.status = .pending
    · have : i = item := by simpa [bind, Except.bind, hs] using h
      exact ⟨by rw [this], this ▸ hs⟩
    · simp [bind, Except.bind, hs] at h

theorem loadOwner_ok {item : ModerationQueueItem} {db : Db} {user : User}
    (h : loadOwner item db = .ok user) : db.users.find? item.userId = some user := by
  unfold loadOwner at h
  rw [scalarOneOrNone_pk] at h
  cases hf : db.users.find? item.userId with
  | none => rw [hf] at h; cases h
  | some u => rw [hf] at h; cases h; rfl

theorem loadUserByPhone_ok {phoneHash : String} {db : Db} {user : Option User}
    (h : loadUserByPhone phoneHash db = .ok user) :
    (user = none ∧ ∀ u ∈ db.users.rows, u.phoneHash ≠ phoneHash) ∨
      ∃ u, user = some u ∧ u ∈ db.users.rows ∧ u.phoneHash = phoneHash := by
  unfold loadUserByPhone at h
  cases user with
  | none =>
    have hnil : (db.users.select fun u => u.phoneHash == phoneHash) = [] := scalarOneOrNone_none h
    refine Or.inl ⟨rfl, fun u hu hp => ?_⟩
    have hmem := (db.users.mem_select (fun u => u.phoneHash == phoneHash) u).mpr ⟨hu, by simp [hp]⟩
    rw [hnil] at hmem
    cases hmem
  | some u =>
    have hone : (db.users.select fun u => u.phoneHash == phoneHash) = [u] := scalarOneOrNone_some h
    have hmem : u ∈ db.users.select fun u => u.phoneHash == phoneHash := by
      rw [hone]; exact List.mem_singleton_self u
    obtain ⟨hu, hp⟩ := (db.users.mem_select _ u).mp hmem
    exact Or.inr ⟨u, rfl, hu, by simpa using hp⟩

/-! ## The handlers -/

theorem requestOtp_write {p : Platform} {env : Env} {phone : String} {db db' : Db}
    {out : OTPRequestOut} (h : requestOtp p env phone db = .ok (db', out)) :
    Write p env db (.requestOtp phone) (.ok (.otpRequest out)) db' := by
  obtain ⟨phoneHash, hphone, h1⟩ := bind_ok h
  obtain ⟨_, hlimit, h2⟩ := bind_ok h1
  obtain ⟨otpCodes, hcommit, h3⟩ := bind_ok h2
  cases h3
  exact .otpIssued (orUnprocessable_ok hphone) (orTooManyRequests_ok hlimit) (commit_ok hcommit).1

theorem consumeOtp_login {env : Env} {phoneHash : String} {row : OTPCode} {user : Option User}
    {db db' : Db} {userId : Uuid} (huser : loadUserByPhone phoneHash db = .ok user)
    (h : consumeOtp env phoneHash row user db = some (db', userId)) :
    ∃ users, Login env phoneHash db.users users userId ∧
      db' = { db with
        otpCodes := db.otpCodes.update row.id (OTPCode.setConsumed (env.now 1))
        users } := by
  rcases loadUserByPhone_ok huser with ⟨rfl, hnew⟩ | ⟨u, rfl, hu, hp⟩
  · obtain ⟨users, hins, heq⟩ := Option.bind_eq_some_iff.mp h
    cases heq
    exact ⟨users, .signup hnew hins, rfl⟩
  · unfold consumeOtp at h
    dsimp only at h
    split at h
    · rename_i ht
      cases h
      exact ⟨_, .raise hu hp ht, rfl⟩
    · rename_i ht
      cases h
      exact ⟨_, .again hu hp ht, rfl⟩

theorem verifyOtp_write {p : Platform} {env : Env} {phone code : String} {db db' : Db}
    {out : Except HttpException VerifyOut} (h : verifyOtp p env phone code db = .ok (db', out)) :
    Write p env db (.verifyOtp phone code) (out.map .verified) db' := by
  obtain ⟨phoneHash, hphone, h1⟩ := bind_ok h
  obtain ⟨v, hjudge, h2⟩ := bind_ok h1
  cases v with
  | wrong row =>
    obtain ⟨db1, hcommit, h3⟩ := bind_ok h2
    cases h3
    cases (commit_ok hcommit).1
    exact .otpWrong (orUnprocessable_ok hphone) hjudge
  | right row =>
    obtain ⟨user, huser, h3⟩ := bind_ok h2
    obtain ⟨⟨db1, userId⟩, hcommit, h4⟩ := bind_ok h3
    cases h4
    obtain ⟨users, hlogin, rfl⟩ := consumeOtp_login huser (commit_ok hcommit).1
    exact .otpAccepted (orUnprocessable_ok hphone) hjudge hlogin

theorem requestEmailVerification_write {p : Platform} {env : Env} {email : String}
    {token : Option String} {db db' : Db} {out : EmailRequestOut}
    (h : requestEmailVerification p env email token db = .ok (db', out)) :
    Write p env db (.requestEmailVerification email token) (.ok (.emailRequest out)) db' := by
  obtain ⟨user, hgate, h1⟩ := bind_ok h
  obtain ⟨domain, hdomain, h2⟩ := bind_ok h1
  obtain ⟨_, hlimit, h3⟩ := bind_ok h2
  obtain ⟨codes, hcommit, h4⟩ := bind_ok h3
  cases h4
  refine .emailIssued hgate (orUnprocessable_ok hdomain) ?_ (orTooManyRequests_ok hlimit)
    (commit_ok hcommit).1
  unfold submittedEmailHash
  dsimp only
  rw [hdomain]; rfl

theorem verifyEmail_write {p : Platform} {env : Env} {email code : String}
    {token : Option String} {db db' : Db} {out : Except HttpException VerifyOut}
    (h : verifyEmail p env email code token db = .ok (db', out)) :
    Write p env db (.verifyEmail email code token) (out.map .verified) db' := by
  obtain ⟨user, hgate, h1⟩ := bind_ok h
  obtain ⟨emailHash, hemail, h2⟩ := bind_ok h1
  obtain ⟨v, hjudge, h3⟩ := bind_ok h2
  cases v with
  | wrong row =>
    obtain ⟨db1, hcommit, h4⟩ := bind_ok h3
    cases h4
    cases (commit_ok hcommit).1
    exact .emailWrong hgate hemail hjudge
  | right row =>
    obtain ⟨db1, hcommit, h4⟩ := bind_ok h3
    cases h4
    cases (commit_ok hcommit).1
    exact .emailAccepted hgate hemail hjudge

theorem acceptDocument_ok {p : Platform} {env : Env} {content : List UInt8}
    {token : Option String} {db : Db} {user : User}
    (h : acceptDocument p env content token db = .ok user) :
    requireTier p env .email token db = .ok user := by
  obtain ⟨u, hgate, h1⟩ := bind_ok h
  obtain ⟨_, _, h2⟩ := bind_ok h1
  obtain ⟨_, _, h3⟩ := bind_ok h2
  cases h3
  exact hgate

theorem uploadDocument_write {p : Platform} {env : Env} {docType : DocumentType}
    {content : List UInt8} {token : Option String} {db db' : Db} {files : List String}
    {out : DocumentUploadOut}
    (h : (uploadDocument p env docType content token db files).2 = .ok (db', out)) :
    Write p env db (.uploadDocument docType content token) (.ok (.documentUpload out)) db' := by
  unfold uploadDocument at h
  split at h
  · cases h
  · rename_i user hgate
    split at h
    · cases h
    · obtain ⟨queue, hcommit, h1⟩ := bind_ok h
      cases h1
      exact .documentUploaded (acceptDocument_ok hgate) (commit_ok hcommit).1

theorem submitReview_write {p : Platform} {env : Env} {body : ReviewCreate}
    {token : Option String} {db db' : Db} {out : CreateOut}
    (h : submitReview p env body token db = .ok (db', out)) :
    Write p env db (.submitReview body token) (.ok (.created out)) db' := by
  obtain ⟨user, hgate, h1⟩ := bind_ok h
  obtain ⟨_, hcheck, h2⟩ := bind_ok h1
  obtain ⟨_, hcompany, h3⟩ := bind_ok h2
  obtain ⟨_, hlimit, h4⟩ := bind_ok h3
  obtain ⟨_, _, h5⟩ := bind_ok h4
  obtain ⟨reviews, hcommit, h6⟩ := bind_ok h5
  cases h6
  exact .reviewSubmitted hgate hcheck hcompany (orTooManyRequests_ok hlimit) (commit_ok hcommit).1

theorem corroborateReview_write {p : Platform} {env : Env} {reviewId : Uuid}
    {comment token : Option String} {db db' : Db} {out : CorroborationCreateOut}
    (h : corroborateReview p env reviewId comment token db = .ok (db', out)) :
    Write p env db (.corroborateReview reviewId comment token) (.ok (.corroborated out)) db' := by
  obtain ⟨user, hgate, h1⟩ := bind_ok h
  obtain ⟨_, _, h2⟩ := bind_ok h1
  obtain ⟨review, hreview, h3⟩ := bind_ok h2
  obtain ⟨_, hother, h4⟩ := bind_ok h3
  obtain ⟨_, _, h5⟩ := bind_ok h4
  obtain ⟨corroborations, hcommit, h6⟩ := bind_ok h5
  cases h6
  exact .reviewCorroborated hgate hreview (by simpa using raiseIf_ok hother) (commit_ok hcommit).1

theorem respondToReview_write {p : Platform} {env : Env} {reviewId : Uuid}
    {responseText : String} {token : Option String} {db db' : Db} {out : EmployerResponseRead}
    (h : respondToReview p env reviewId responseText token db = .ok (db', out)) :
    Write p env db (.respondToReview reviewId responseText token) (.ok (.employerResponse out))
      db' := by
  obtain ⟨account, hgate, h1⟩ := bind_ok h
  obtain ⟨_, _, h2⟩ := bind_ok h1
  obtain ⟨review, hreview, h3⟩ := bind_ok h2
  obtain ⟨_, hcompany, h4⟩ := bind_ok h3
  obtain ⟨_, _, h5⟩ := bind_ok h4
  obtain ⟨responses, hcommit, h6⟩ := bind_ok h5
  cases h6
  exact .reviewAnswered hgate hreview (by simpa using raiseIf_ok hcompany) (commit_ok hcommit).1

theorem submitLayoffEvent_write {p : Platform} {env : Env} {body : LayoffEventCreate}
    {token : Option String} {db db' : Db} {out : CreateOut}
    (h : submitLayoffEvent p env body token db = .ok (db', out)) :
    Write p env db (.submitLayoffEvent body token) (.ok (.created out)) db' := by
  obtain ⟨user, hgate, h1⟩ := bind_ok h
  obtain ⟨_, hcheck, h2⟩ := bind_ok h1
  obtain ⟨_, hcompany, h3⟩ := bind_ok h2
  obtain ⟨events, hcommit, h4⟩ := bind_ok h3
  cases h4
  exact .layoffSubmitted hgate hcheck hcompany (commit_ok hcommit).1

theorem flushDecision_some {env : Env} {adminId : Uuid} {itemType : ModeratedItemType}
    {itemId : Uuid} {item : ModeratedItem} {decision : Decision} {db db' : Db}
    (h : flushDecision env adminId itemType itemId item decision db = some db') :
    ∃ log, db.moderationAuditLog.insert
        (newAuditEntry env 1 adminId itemType itemId decision.action decision.reason) = some log ∧
      db' = writeItem item decision.status log db := by
  obtain ⟨log, hins, heq⟩ := Option.bind_eq_some_iff.mp h
  cases heq
  exact ⟨log, hins, rfl⟩

theorem decideModerationItem_write {p : Platform} {env : Env} {itemType : ModeratedItemType}
    {itemId : Uuid} {decision : Decision} {check : Except HttpException Unit}
    {token : Option String} {db db' : Db} {out : ModerationActionOut} {req : Request}
    (hreq : req.decision = some (itemType, itemId, decision, token))
    (hvalid : check = .ok () → decision.Valid)
    (h : decideModerationItem p env itemType itemId decision check token db = .ok (db', out)) :
    Write p env db req (.ok (.moderationAction out)) db' := by
  obtain ⟨admin, hadmin, h1⟩ := bind_ok h
  obtain ⟨_, hcheck, h2⟩ := bind_ok h1
  obtain ⟨item, hload, h3⟩ := bind_ok h2
  obtain ⟨db1, hcommit, h4⟩ := bind_ok h3
  cases h4
  obtain ⟨log, hins, rfl⟩ := flushDecision_some (commit_ok hcommit).1
  rcases loadItem_ok hload with ⟨rfl, r, rfl, hr, hp⟩ | ⟨ht, e, rfl, he, hp⟩
  · have hid : r.id = itemId := ((db.reviews.find?_eq_some _ _).mp hr).2
    simp only [writeItem, hid]
    exact .reviewDecided hreq (hvalid hcheck) hadmin hr hp hins
  · have hid : e.id = itemId := ((db.layoffEvents.find?_eq_some _ _).mp he).2
    simp only [writeItem, hid]
    exact .layoffDecided hreq ht (hvalid hcheck) hadmin he hp hins

theorem checkReason_ok {reason : String} {u : Unit} (h : checkReason reason = .ok u) :
    1 ≤ reason.length := by
  simpa using validate_ok h _ List.mem_cons_self

theorem flushDocument_some {env : Env} {adminId itemId : Uuid} {status : ModerationStatus}
    {action : ModerationAction} {reason : Option String} {db db' : Db}
    (h : flushDocument env adminId itemId status action reason db = some db') :
    ∃ log, db.moderationAuditLog.insert
        (newAuditEntry env 2 adminId .document itemId action reason) = some log ∧
      db' = { db with
        moderationQueue := db.moderationQueue.update itemId
          (ModerationQueueItem.setDecision status (env.now 1))
        moderationAuditLog := log } := by
  obtain ⟨log, hins, heq⟩ := Option.bind_eq_some_iff.mp h
  cases heq
  exact ⟨log, hins, rfl⟩

/-- Raising a user who is at the top already writes nothing new. -/
theorem setTier_of_document {users : Table User} {id : Uuid} {user : User}
    (huser : users.find? id = some user) (htier : user.verificationTier = .document) :
    users.update user.id (User.setTier .document) = users := by
  have hid : user.id = id := ((users.find?_eq_some _ _).mp huser).2
  refine users.update_of_fixed (hid ▸ huser) ?_
  cases user
  cases htier
  rfl

theorem approveDocument_write {p : Platform} {env : Env} {itemId : Uuid} {token : Option String}
    {db db' : Db} {files : List String} {out : DocumentModerationActionOut}
    (h : (approveDocument p env itemId token db files).2 = .ok (db', out)) :
    Write p env db (.approveDocument itemId token) (.ok (.documentAction out)) db' := by
  unfold approveDocument at h
  split at h
  · cases h
  · rename_i admin item user hload
    obtain ⟨admin', hadmin, h1⟩ := bind_ok hload
    obtain ⟨item', hitem, h2⟩ := bind_ok h1
    obtain ⟨user', huser, h3⟩ := bind_ok h2
    cases h3
    obtain ⟨db1, hcommit, h4⟩ := bind_ok h
    cases h4
    obtain ⟨hfind, hpending⟩ := loadDocumentItem_ok hitem
    have hid : item.id = itemId := ((db.moderationQueue.find?_eq_some _ _).mp hfind).2
    obtain ⟨db2, hflush, heq⟩ := Option.bind_eq_some_iff.mp (commit_ok hcommit).1
    obtain ⟨log, hins, rfl⟩ := flushDocument_some hflush
    rw [hid] at hins heq
    have hwrite : Write p env db (.approveDocument itemId token)
        (.ok (.documentAction ⟨itemId, user.id, .approved, .approve⟩)) _ :=
      .documentApproved hadmin hfind hpending (loadOwner_ok huser) hins
    split at heq
    · rename_i htier
      rw [setTier_of_document (loadOwner_ok huser) htier] at hwrite
      cases heq
      exact hwrite
    · cases heq
      exact hwrite

theorem rejectDocument_write {p : Platform} {env : Env} {itemId : Uuid} {reason : String}
    {token : Option String} {db db' : Db} {files : List String}
    {out : DocumentModerationActionOut}
    (h : (rejectDocument p env itemId reason token db files).2 = .ok (db', out)) :
    Write p env db (.rejectDocument itemId reason token) (.ok (.documentAction out)) db' := by
  unfold rejectDocument at h
  split at h
  · cases h
  · rename_i admin item hload
    obtain ⟨admin', hadmin, h1⟩ := bind_ok hload
    obtain ⟨_, hreason, h2⟩ := bind_ok h1
    obtain ⟨item', hitem, h3⟩ := bind_ok h2
    cases h3
    obtain ⟨db1, hcommit, h4⟩ := bind_ok h
    cases h4
    obtain ⟨hfind, hpending⟩ := loadDocumentItem_ok hitem
    have hid : item.id = itemId := ((db.moderationQueue.find?_eq_some _ _).mp hfind).2
    obtain ⟨log, hins, rfl⟩ := flushDocument_some (commit_ok hcommit).1
    rw [hid] at hins ⊢
    exact .documentRejected hadmin (checkReason_ok hreason) hfind hpending hins

theorem createTakedownLogEntry_write {p : Platform} {env : Env} {body : TakedownLogEntryCreate}
    {token : Option String} {db db' : Db} {out : TakedownLogEntry}
    (h : createTakedownLogEntry p env body token db = .ok (db', out)) :
    Write p env db (.createTakedownLogEntry body token) (.ok (.takedownEntry out)) db' := by
  obtain ⟨admin, hadmin, h1⟩ := bind_ok h
  obtain ⟨_, _, h2⟩ := bind_ok h1
  obtain ⟨entries, hcommit, h3⟩ := bind_ok h2
  cases h3
  exact .takedownLogged hadmin (commit_ok hcommit).1

theorem submitGrievance_write {p : Platform} {env : Env} {body : GrievanceComplaintCreate}
    {db db' : Db} {out : GrievanceComplaintOut}
    (h : submitGrievance p env body db = .ok (db', out)) :
    Write p env db (.submitGrievance body) (.ok (.grievance out)) db' := by
  obtain ⟨_, _, h1⟩ := bind_ok h
  obtain ⟨_, _, h2⟩ := bind_ok h1
  obtain ⟨_, hlimit, h3⟩ := bind_ok h2
  obtain ⟨complaints, hcommit, h4⟩ := bind_ok h3
  cases h4
  exact .grievanceSubmitted (orTooManyRequests_ok hlimit) (commit_ok hcommit).1

/-! ## One request -/

/-- What a request does to the database and what it answers. -/
def Committed (p : Platform) (env : Env) (db : Db) (req : Request) (r : Response × Server) : Prop :=
  (r.2.db = db ∧ ∀ a, r.1 = .ok a → req.isRead = true) ∨ Write p env db req r.1 r.2.db

theorem answerCommit_committed {α : Type} {p : Platform} {env : Env} {req : Request} {s : Server}
    {r : Except HttpException (Db × α)} {payload : α → Payload}
    (hwrite : ∀ db' a, r = .ok (db', a) → Write p env s.db req (.ok (payload a)) db') :
    Committed p env s.db req (answerCommit s r payload) := by
  match r with
  | .error e => exact Or.inl ⟨rfl, fun a ha => by cases ha⟩
  | .ok (db', a) => exact Or.inr (hwrite db' a rfl)

theorem answerVerify_committed {p : Platform} {env : Env} {req : Request} {s : Server}
    {r : Except HttpException (Db × Except HttpException VerifyOut)}
    (hwrite : ∀ db' a, r = .ok (db', a) → Write p env s.db req (a.map .verified) db') :
    Committed p env s.db req (answerVerify s r) := by
  match r with
  | .error e => exact Or.inl ⟨rfl, fun a ha => by cases ha⟩
  | .ok (db', a) => exact Or.inr (hwrite db' a rfl)

theorem answerFiles_committed {α : Type} {p : Platform} {env : Env} {req : Request} {s : Server}
    {r : List String × Except HttpException (Db × α)} {payload : α → Payload}
    (hwrite : ∀ db' a, r.2 = .ok (db', a) → Write p env s.db req (.ok (payload a)) db') :
    Committed p env s.db req (answerFiles s r payload) :=
  answerCommit_committed (s := { s with files := r.1 }) hwrite

/-- A request leaves the database as it was or commits one `Write`, and only reads succeed
    without one. -/
theorem handle_cases (p : Platform) (env : Env) (req : Request) (s : Server) :
    Committed p env s.db req (handle p env req s) := by
  cases req with
  | requestOtp => exact answerCommit_committed fun _ _ => requestOtp_write
  | verifyOtp => exact answerVerify_committed fun _ _ => verifyOtp_write
  | requestEmailVerification =>
    exact answerCommit_committed fun _ _ => requestEmailVerification_write
  | verifyEmail => exact answerVerify_committed fun _ _ => verifyEmail_write
  | uploadDocument => exact answerFiles_committed fun _ _ => uploadDocument_write
  | submitReview => exact answerCommit_committed fun _ _ => submitReview_write
  | corroborateReview => exact answerCommit_committed fun _ _ => corroborateReview_write
  | respondToReview => exact answerCommit_committed fun _ _ => respondToReview_write
  | submitLayoffEvent => exact answerCommit_committed fun _ _ => submitLayoffEvent_write
  | approveModerationItem =>
    exact answerCommit_committed fun _ _ h =>
      decideModerationItem_write rfl (fun _ => Or.inl rfl) h
  | rejectModerationItem _ _ reason =>
    exact answerCommit_committed fun _ _ h =>
      decideModerationItem_write rfl (fun hc => Or.inr ⟨reason, checkReason_ok hc, rfl⟩) h
  | approveDocument => exact answerFiles_committed fun _ _ => approveDocument_write
  | rejectDocument => exact answerFiles_committed fun _ _ => rejectDocument_write
  | createTakedownLogEntry => exact answerCommit_committed fun _ _ => createTakedownLogEntry_write
  | submitGrievance => exact answerCommit_committed fun _ _ => submitGrievance_write
  | _ => exact Or.inl ⟨rfl, fun _ _ => rfl⟩

/-- What relates a database to itself and to what each `Write` makes of it relates the
    databases around every request. -/
theorem handle_rel {p : Platform} {env : Env} {req : Request} {s : Server} {R : Db → Db → Prop}
    (hrefl : R s.db s.db)
    (hwrite : ∀ {db'}, Write p env s.db req (handle p env req s).1 db' → R s.db db') :
    R s.db (handle p env req s).2.db := by
  rcases handle_cases p env req s with ⟨hdb, -⟩ | h
  · rw [hdb]
    exact hrefl
  · exact hwrite h

end LinkedOut
