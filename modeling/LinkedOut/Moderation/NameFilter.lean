/-
  The name filter is advisory: what it says of a submission decides where the moderation
  queue lists it, and nothing else.

  `Server.unflagged` erases the stored reasons. Erasing after a request was served is the
  same as serving it on the erased state with the filter off, but for the page of the
  queue (`handle_unflagged`); so two deployments that differ in the filter stay the same
  but for the reasons, whatever is requested (`name_filter_advisory`). A reason has to be
  a text the column can hold: under a filter that says NUL the submission is refused
  (`unstorable_reason_breaks`).
-/
import LinkedOut.Paired
import LinkedOut.Privacy.PublicReads

namespace LinkedOut

/-! ## Erasing the reasons -/

/-- The same deployment with another name filter. -/
def Platform.scanningWith (p : Platform) (scan : List (Option String) → Option String) :
    Platform :=
  { p with scanForFlaggedContent := scan }

/-- The filter switched off. -/
def Platform.unscanned (p : Platform) : Platform := p.scanningWith fun _ => none

/-- What the filter gives as a reason fits the column `flagged_reason`. -/
def Platform.StorableReasons (p : Platform) : Prop :=
  ∀ fields, nullable storable (p.scanForFlaggedContent fields) = true

def Review.unflag : Patch Review where
  apply r := { r with flaggedReason := none }
  pk_apply _ := rfl
  clash_apply _ _ := rfl

def LayoffEvent.unflag : Patch LayoffEvent where
  apply e := { e with flaggedReason := none }
  pk_apply _ := rfl
  clash_apply _ _ := rfl

/-- The database with every `flagged_reason` erased. -/
def Db.unflagged (db : Db) : Db :=
  { db with
    reviews := db.reviews.updateAll Review.unflag
    layoffEvents := db.layoffEvents.updateAll LayoffEvent.unflag }

def Server.unflagged (s : Server) : Server := { s with db := s.db.unflagged }

def ModerationQueueEntry.unflagged (entry : ModerationQueueEntry) : ModerationQueueEntry :=
  { entry with flaggedReason := none }

/-- The same response, or two pages of the moderation queue that show as many of as many
    items. -/
inductive SameButQueue : Response → Response → Prop
  | same (r : Response) : SameButQueue r r
  | queue {out out' : Paginated ModerationQueueEntry} (total : out.total = out'.total)
      (limit : out.limit = out'.limit) (offset : out.offset = out'.offset)
      (length : out.items.length = out'.items.length) :
      SameButQueue (.ok (.moderationQueue out)) (.ok (.moderationQueue out'))

theorem SameButQueue.symm {r r' : Response} (h : SameButQueue r r') : SameButQueue r' r := by
  cases h with
  | same => exact .same r
  | queue total limit offset length =>
    exact .queue total.symm limit.symm offset.symm length.symm

theorem SameButQueue.trans {r r' r'' : Response} (h : SameButQueue r r')
    (h' : SameButQueue r' r'') : SameButQueue r r'' := by
  cases h with
  | same => exact h'
  | queue total limit offset length =>
    cases h' with
    | same => exact .queue total limit offset length
    | queue total' limit' offset' length' =>
      exact .queue (total.trans total') (limit.trans limit') (offset.trans offset')
        (length.trans length')

theorem SameButQueue.statusCode {r r' : Response} (h : SameButQueue r r') :
    Response.statusCode r = Response.statusCode r' := by
  cases h with
  | same => rfl
  | queue => rfl

/-! ## Handlers that do the same on the erased database -/

/-- The same error, or the same answer and the erased database. -/
abbrev Unflags {α : Type} :
    Except HttpException (Db × α) → Except HttpException (Db × α) → Prop :=
  Paired fun r r' => r' = (r.1.unflagged, r.2)

section

variable {α β : Type}

/-- A handler's last step: the commit, and the answer. -/
theorem commit_unflags {env : Env} {flushed flushed' : Option Db} {e : HttpException}
    (hflushed : flushed' = flushed.map Db.unflagged) (a : α) :
    Unflags (commit env flushed e >>= fun db' => .ok (db', a))
      (commit env flushed' e >>= fun db' => .ok (db', a)) := by
  subst hflushed
  exact .bind_map _ (commit_map env _ flushed e) fun _ => .ok rfl

theorem refuseExisting_map {f : β → β} {existing : Lookup β} {db db' : Db}
    (h : existing.rows db' = (existing.rows db).map f) (conflict : HttpException) :
    refuseExisting existing conflict db' = refuseExisting existing conflict db := by
  unfold refuseExisting
  rw [h]
  match existing.rows db with
  | [] => rfl
  | [b] => rfl
  | _ :: _ :: _ => rfl

end

/-! ## The verification flows -/

section

variable {α : Type} (p : Platform) (env : Env) (db : Db)

theorem requestOtp_unflagged (phone : String) :
    Unflags (requestOtp p env phone db) (requestOtp p.unscanned env phone db.unflagged) := by
  unfold requestOtp
  exact .bind_eq rfl fun _ => .bind_eq rfl fun _ => .bind_eq rfl fun _ => .ok rfl

theorem consumeOtp_unflagged (phoneHash : String) (otpRow : OTPCode) (user : Option User) :
    consumeOtp env phoneHash otpRow user db.unflagged =
      (consumeOtp env phoneHash otpRow user db).map (Prod.map Db.unflagged id) := by
  unfold consumeOtp
  cases user with
  | none =>
    show (db.users.insert _ >>= _) = Option.map _ (db.users.insert _ >>= _)
    cases db.users.insert ⟨env.uuid 0, phoneHash, none, .phone⟩ with
    | none => rfl
    | some users => rfl
  | some user =>
    dsimp only
    split
    · rfl
    · rfl

theorem verifyOtp_unflagged (phone code : String) :
    Unflags (verifyOtp p env phone code db)
      (verifyOtp p.unscanned env phone code db.unflagged) := by
  unfold verifyOtp
  refine .bind_eq rfl fun phoneHash => .bind_eq rfl fun verdict => ?_
  cases verdict with
  | wrong otpRow => exact commit_unflags rfl _
  | right otpRow =>
    refine .bind_eq rfl fun user => ?_
    refine .bind_map (Prod.map Db.unflagged id) ?_ fun b => .ok rfl
    rw [consumeOtp_unflagged]
    exact commit_map env _ _ _

theorem requestEmailVerification_unflagged (email : String) (token : Option String) :
    Unflags (requestEmailVerification p env email token db)
      (requestEmailVerification p.unscanned env email token db.unflagged) := by
  unfold requestEmailVerification
  refine .bind_eq rfl fun _ => .bind_eq rfl fun _ => ?_
  exact .bind_eq rfl fun _ => .bind_eq rfl fun _ => .ok rfl

theorem verifyEmail_unflagged (email code : String) (token : Option String) :
    Unflags (verifyEmail p env email code token db)
      (verifyEmail p.unscanned env email code token db.unflagged) := by
  unfold verifyEmail
  refine .bind_eq rfl fun user => .bind_eq rfl fun emailHash => .bind_eq rfl fun verdict => ?_
  cases verdict with
  | wrong codeRow => exact commit_unflags rfl _
  | right codeRow =>
    have hcommit := commit_map env Db.unflagged (some (consumeEmail env user codeRow db))
      internalServerError
    exact .bind_map Db.unflagged hcommit fun db' => .ok rfl

/-! ## The documents -/

theorem uploadDocument_unflagged (docType : DocumentType) (content : List UInt8)
    (token : Option String) (files : List String) :
    (uploadDocument p.unscanned env docType content token db.unflagged files).1 =
        (uploadDocument p env docType content token db files).1 ∧
      Unflags (uploadDocument p env docType content token db files).2
        (uploadDocument p.unscanned env docType content token db.unflagged files).2 := by
  have haccept : acceptDocument p.unscanned env content token db.unflagged =
    acceptDocument p env content token db := rfl
  unfold uploadDocument
  rw [haccept]
  cases acceptDocument p env content token db with
  | error e => exact ⟨rfl, .error e⟩
  | ok user =>
    dsimp only
    cases mkstemp env files with
    | error e => exact ⟨rfl, .error e⟩
    | ok files' => exact ⟨rfl, .bind_eq rfl fun _ => .ok rfl⟩

theorem flushDocument_unflagged (adminId itemId : Uuid) (status : ModerationStatus)
    (action : ModerationAction) (reason : Option String) :
    flushDocument env adminId itemId status action reason db.unflagged =
      (flushDocument env adminId itemId status action reason db).map Db.unflagged := by
  unfold flushDocument
  show (db.moderationAuditLog.insert _ >>= _) =
    Option.map _ (db.moderationAuditLog.insert _ >>= _)
  cases db.moderationAuditLog.insert
      (newAuditEntry env 2 adminId .document itemId action reason) with
  | none => rfl
  | some log => rfl

theorem flushApproval_unflagged (adminId itemId : Uuid) (user : User) :
    flushApproval env adminId itemId user db.unflagged =
      (flushApproval env adminId itemId user db).map Db.unflagged := by
  unfold flushApproval
  rw [flushDocument_unflagged]
  cases flushDocument env adminId itemId .approved .approve none db with
  | none => rfl
  | some db' =>
    show some _ = some _
    split
    · rfl
    · rfl

theorem approveDocument_unflagged (itemId : Uuid) (token : Option String) (files : List String) :
    (approveDocument p.unscanned env itemId token db.unflagged files).1 =
        (approveDocument p env itemId token db files).1 ∧
      Unflags (approveDocument p env itemId token db files).2
        (approveDocument p.unscanned env itemId token db.unflagged files).2 := by
  have hload : loadForApproval p.unscanned env itemId token db.unflagged =
    loadForApproval p env itemId token db := rfl
  unfold approveDocument
  rw [hload]
  cases loadForApproval p env itemId token db with
  | error e => exact ⟨rfl, .error e⟩
  | ok found => exact ⟨rfl, commit_unflags (flushApproval_unflagged env db _ _ _) _⟩

theorem rejectDocument_unflagged (itemId : Uuid) (reason : String) (token : Option String)
    (files : List String) :
    (rejectDocument p.unscanned env itemId reason token db.unflagged files).1 =
        (rejectDocument p env itemId reason token db files).1 ∧
      Unflags (rejectDocument p env itemId reason token db files).2
        (rejectDocument p.unscanned env itemId reason token db.unflagged files).2 := by
  have hload : loadForRejection p.unscanned env itemId reason token db.unflagged =
    loadForRejection p env itemId reason token db := rfl
  unfold rejectDocument
  rw [hload]
  cases loadForRejection p env itemId reason token db with
  | error e => exact ⟨rfl, .error e⟩
  | ok found => exact ⟨rfl, commit_unflags (flushDocument_unflagged env db _ _ _ _ _) _⟩

/-! ## Admin login, grievances and takedowns -/

theorem verifyPassword_unscanned (password storedHash : String) :
    verifyPassword p.unscanned password storedHash = verifyPassword p password storedHash := by
  have hpbkdf2 : p.unscanned.pbkdf2 = p.pbkdf2 := rfl
  unfold verifyPassword
  rw [hpbkdf2]

theorem adminLogin_unflagged (email password : String) :
    adminLogin p.unscanned env email password db.unflagged =
      adminLogin p env email password db := by
  simp only [adminLogin, verifyPassword_unscanned]
  rfl

theorem createTakedownLogEntry_unflagged (body : TakedownLogEntryCreate) (token : Option String) :
    Unflags (createTakedownLogEntry p env body token db)
      (createTakedownLogEntry p.unscanned env body token db.unflagged) := by
  unfold createTakedownLogEntry
  exact .bind_eq rfl fun _ => .bind_eq rfl fun _ => .bind_eq rfl fun _ => .ok rfl

theorem submitGrievance_unflagged (body : GrievanceComplaintCreate) :
    Unflags (submitGrievance p env body db)
      (submitGrievance p.unscanned env body db.unflagged) := by
  unfold submitGrievance
  refine .bind_eq rfl fun _ => .bind_eq rfl fun _ => ?_
  exact .bind_eq rfl fun _ => .bind_eq rfl fun _ => .ok rfl

/-! ## The content -/

theorem requireReview_unflagged (reviewId : Uuid) :
    requireReview reviewId db.unflagged =
      (requireReview reviewId db).map Review.unflag.apply := by
  have hselect : db.unflagged.reviews.select (fun r => pk r == reviewId) =
      (db.reviews.select fun r => pk r == reviewId).map Review.unflag.apply :=
    db.reviews.select_updateAll Review.unflag fun _ => rfl
  unfold requireReview
  rw [hselect, List.head?_map]
  cases (db.reviews.select fun r => pk r == reviewId).head? with
  | none => rfl
  | some review => rfl

theorem corroborateReview_unflagged (reviewId : Uuid) (comment token : Option String) :
    Unflags (corroborateReview p env reviewId comment token db)
      (corroborateReview p.unscanned env reviewId comment token db.unflagged) := by
  unfold corroborateReview
  refine .bind_eq rfl fun user => .bind_eq rfl fun _ => ?_
  refine .bind_map Review.unflag.apply (requireReview_unflagged db reviewId) fun review => ?_
  exact .bind_eq rfl fun _ => .bind_eq rfl fun _ => .bind_eq rfl fun _ => .ok rfl

theorem respondToReview_unflagged (reviewId : Uuid) (responseText : String)
    (token : Option String) :
    Unflags (respondToReview p env reviewId responseText token db)
      (respondToReview p.unscanned env reviewId responseText token db.unflagged) := by
  unfold respondToReview
  refine .bind_eq rfl fun account => .bind_eq rfl fun _ => ?_
  refine .bind_map Review.unflag.apply (requireReview_unflagged db reviewId) fun review => ?_
  exact .bind_eq rfl fun _ => .bind_eq rfl fun _ => .bind_eq rfl fun _ => .ok rfl

/-- A review with a storable reason is stored exactly when it is without it. -/
theorem insertReview_unflagged (r : Review) (hr : nullable storable r.flaggedReason = true) :
    db.unflagged.reviews.insert (Review.unflag.apply r) =
      (db.reviews.insert r).map fun t => t.updateAll Review.unflag := by
  refine db.reviews.insert_updateAll Review.unflag ?_
  show (_ && nullable storable none) = (_ && nullable storable r.flaggedReason)
  rw [hr]
  rfl

theorem insertLayoffEvent_unflagged (e : LayoffEvent)
    (he : nullable storable e.flaggedReason = true) :
    db.unflagged.layoffEvents.insert (LayoffEvent.unflag.apply e) =
      (db.layoffEvents.insert e).map fun t => t.updateAll LayoffEvent.unflag := by
  refine db.layoffEvents.insert_updateAll LayoffEvent.unflag ?_
  show (_ && nullable storable none) = (_ && nullable storable e.flaggedReason)
  rw [he]
  rfl

theorem submitReview_unflagged (hp : p.StorableReasons) (body : ReviewCreate)
    (token : Option String) :
    Unflags (submitReview p env body token db)
      (submitReview p.unscanned env body token db.unflagged) := by
  have hselect : ∀ q : Review → Bool, (∀ r, q (Review.unflag.apply r) = q r) →
      db.unflagged.reviews.select q = (db.reviews.select q).map Review.unflag.apply :=
    fun q hq => db.reviews.select_updateAll Review.unflag hq
  unfold submitReview
  refine .bind_eq rfl fun user => .bind_eq rfl fun _ => .bind_eq rfl fun _ => .bind_eq ?_ fun _ =>
    .bind_eq ?_ fun _ => ?_
  · rw [hselect _ fun _ => rfl, enforceRateLimit_map Review.unflag.apply _ fun _ => rfl]
    rfl
  · have hexisting : (Lookup.reviewByAuthor user.id body.companyId).rows db.unflagged =
        ((Lookup.reviewByAuthor user.id body.companyId).rows db).map Review.unflag.apply :=
      hselect _ fun _ => rfl
    exact refuseExisting_map hexisting duplicateReview
  · have hcommit := commit_map env (fun t : Table Review => t.updateAll Review.unflag)
      (db.reviews.insert (newReview p env user.id body)) duplicateReview
    rw [← insertReview_unflagged db _ (hp _)] at hcommit
    exact .bind_map _ hcommit fun reviews => .ok rfl

theorem submitLayoffEvent_unflagged (hp : p.StorableReasons) (body : LayoffEventCreate)
    (token : Option String) :
    Unflags (submitLayoffEvent p env body token db)
      (submitLayoffEvent p.unscanned env body token db.unflagged) := by
  unfold submitLayoffEvent
  refine .bind_eq rfl fun user => .bind_eq rfl fun _ => .bind_eq rfl fun _ => ?_
  have hcommit := commit_map env (fun t : Table LayoffEvent => t.updateAll LayoffEvent.unflag)
    (db.layoffEvents.insert (newLayoffEvent p env user.id body)) internalServerError
  rw [← insertLayoffEvent_unflagged db _ (hp _)] at hcommit
  exact .bind_map _ hcommit fun layoffEvents => .ok rfl

/-! ## Decisions -/

def ModeratedItem.unflagged : ModeratedItem → ModeratedItem
  | .review row => .review (Review.unflag.apply row)
  | .layoffEvent row => .layoffEvent (LayoffEvent.unflag.apply row)

/-- Whether an item is pending does not hang on its reason. -/
theorem loadPending_map (itemType : ModeratedItemType) (f : α → α) (status : α → ReviewStatus)
    (hf : ∀ a, status (f a) = status a) (row : Option α) :
    loadPending itemType status (row.map f) = (loadPending itemType status row).map f := by
  cases row with
  | none => rfl
  | some item =>
    simp only [Option.map_some, loadPending, hf]
    split
    · rfl
    · rfl

theorem loadItem_unflagged (itemType : ModeratedItemType) (itemId : Uuid) :
    loadItem itemType itemId db.unflagged =
      (loadItem itemType itemId db).map ModeratedItem.unflagged := by
  have hreview : db.unflagged.reviews.find? itemId =
      (db.reviews.find? itemId).map Review.unflag.apply :=
    db.reviews.find?_updateAll Review.unflag itemId
  have hevent : db.unflagged.layoffEvents.find? itemId =
      (db.layoffEvents.find? itemId).map LayoffEvent.unflag.apply :=
    db.layoffEvents.find?_updateAll LayoffEvent.unflag itemId
  unfold loadItem
  simp only [scalarOneOrNone_pk, ok_bind, hreview, hevent]
  split
  · rw [loadPending_map itemType Review.unflag.apply _ fun _ => rfl]
    cases loadPending itemType Review.status (db.reviews.find? itemId) with
    | error e => rfl
    | ok row => rfl
  · rw [loadPending_map itemType LayoffEvent.unflag.apply _ fun _ => rfl]
    cases loadPending itemType LayoffEvent.status (db.layoffEvents.find? itemId) with
    | error e => rfl
    | ok row => rfl

theorem writeItem_unflagged (item : ModeratedItem) (status : ReviewStatus)
    (log : Table ModerationAuditLogEntry) :
    writeItem item.unflagged status log db.unflagged =
      (writeItem item status log db).unflagged := by
  cases item with
  | review row =>
    have hupdate := db.reviews.update_updateAll row.id Review.unflag (Review.setStatus status)
      fun _ => rfl
    exact congrArg (fun t => { db.unflagged with reviews := t, moderationAuditLog := log }) hupdate
  | layoffEvent row =>
    have hupdate := db.layoffEvents.update_updateAll row.id LayoffEvent.unflag
      (LayoffEvent.setStatus status) fun _ => rfl
    exact congrArg (fun t => { db.unflagged with layoffEvents := t, moderationAuditLog := log })
      hupdate

theorem flushDecision_unflagged (adminId : Uuid) (itemType : ModeratedItemType) (itemId : Uuid)
    (item : ModeratedItem) (decision : Decision) :
    flushDecision env adminId itemType itemId item.unflagged decision db.unflagged =
      (flushDecision env adminId itemType itemId item decision db).map Db.unflagged := by
  unfold flushDecision
  show (db.moderationAuditLog.insert _ >>= _) =
    Option.map _ (db.moderationAuditLog.insert _ >>= _)
  cases db.moderationAuditLog.insert
      (newAuditEntry env 1 adminId itemType itemId decision.action decision.reason) with
  | none => rfl
  | some log => exact congrArg some (writeItem_unflagged db item decision.status log)

theorem decideModerationItem_unflagged (itemType : ModeratedItemType) (itemId : Uuid)
    (decision : Decision) (check : Except HttpException Unit) (token : Option String) :
    Unflags (decideModerationItem p env itemType itemId decision check token db)
      (decideModerationItem p.unscanned env itemType itemId decision check token db.unflagged) := by
  unfold decideModerationItem
  refine .bind_eq rfl fun admin => .bind_eq rfl fun _ => ?_
  refine .bind_map ModeratedItem.unflagged (loadItem_unflagged db itemType itemId) fun item => ?_
  exact commit_unflags (flushDecision_unflagged env db admin.id itemType itemId item decision) _

/-! ## The queue -/

/-- The same items wait, in whatever order and whatever the reasons. -/
theorem mergedQueue_unflagged (place : Nat → Uuid → Nat) :
    (mergedQueue place db.unflagged).Perm
      ((mergedQueue place db).map ModerationQueueEntry.unflagged) := by
  have hreviews : (db.unflagged.reviews.select fun r => r.status == .pending) =
      (db.reviews.select fun r => r.status == .pending).map Review.unflag.apply :=
    db.reviews.select_updateAll Review.unflag fun _ => rfl
  have hevents : (db.unflagged.layoffEvents.select fun e => e.status == .pending) =
      (db.layoffEvents.select fun e => e.status == .pending).map LayoffEvent.unflag.apply :=
    db.layoffEvents.select_updateAll LayoffEvent.unflag fun _ => rfl
  unfold mergedQueue
  rw [hreviews, hevents]
  refine (List.perm_insertionSort _ _).trans
    (.trans (.of_eq ?_) ((List.perm_insertionSort _ _).symm.map _))
  rw [← map_orderAsc (fun r : Review => place 0 r.id) (fun _ => 0) Review.unflag.apply _ _
      (fun _ => rfl) fun _ => rfl,
    ← map_orderAsc (fun e : LayoffEvent => place 1 e.id) (fun _ => 0) LayoffEvent.unflag.apply _ _
      (fun _ => rfl) fun _ => rfl,
    List.map_append, List.map_map, List.map_map, List.map_map, List.map_map]
  rfl

theorem length_slice_congr {l l' : List α} (page : Page) (h : l.length = l'.length) :
    (page.slice l).length = (page.slice l').length := by
  unfold Page.slice
  rw [List.length_take, List.length_take, List.length_drop, List.length_drop, h]

theorem getModerationQueue_unflagged (page : Page) (token : Option String) :
    SameButQueue ((getModerationQueue p env page token db).map .moderationQueue)
      ((getModerationQueue p.unscanned env page token db.unflagged).map .moderationQueue) := by
  have hgate : getCurrentAdmin p.unscanned env token db.unflagged =
    getCurrentAdmin p env token db := rfl
  have hlength : (mergedQueue env.place db).length =
      (mergedQueue env.place db.unflagged).length := by
    rw [(mergedQueue_unflagged db env.place).length_eq, List.length_map]
  unfold getModerationQueue
  rw [hgate]
  cases getCurrentAdmin p env token db with
  | error e => exact .same _
  | ok admin =>
    cases page.check with
    | error e => exact .same _
    | ok u =>
      refine .queue hlength rfl rfl ?_
      show ((page.slice (mergedQueue env.place db)).map id).length =
        ((page.slice (mergedQueue env.place db.unflagged)).map id).length
      rw [List.length_map, List.length_map, length_slice_congr page hlength]

/-! ## The public lists and aggregations -/

theorem publishedReviews_unflagged (companyId : Uuid) :
    publishedReviews db.unflagged companyId =
      (publishedReviews db companyId).map Review.unflag.apply :=
  db.reviews.select_updateAll Review.unflag fun _ => rfl

theorem publishedLayoffEvents_unflagged (companyId : Uuid) :
    publishedLayoffEvents db.unflagged companyId =
      (publishedLayoffEvents db companyId).map LayoffEvent.unflag.apply :=
  db.layoffEvents.select_updateAll LayoffEvent.unflag fun _ => rfl

theorem corroborationTotal_unflagged (companyId : Uuid) :
    corroborationTotal db companyId = corroborationTotal db.unflagged companyId := by
  rw [corroborationTotal_eq_sum, corroborationTotal_eq_sum, publishedReviews_unflagged,
    List.map_map]
  rfl

theorem sameStatsRows_unflagged (companyId : Uuid) : SameStatsRows db db.unflagged companyId where
  reviews := by
    rw [publishedReviews_unflagged, List.map_map]
    exact .refl _
  corroborations := corroborationTotal_unflagged db companyId
  layoffEvents := by
    rw [publishedLayoffEvents_unflagged, List.map_map]
    exact .refl _

/-- No query of a public GET looks at a reason, and no response model shows one. -/
theorem sameRows_unflagged (place : Uuid → Nat) (g : PublicGet) :
    g.SameRows place db db.unflagged := by
  cases g with
  | listCompanyReviews companyId page =>
    show (orderDesc _ _ _).map _ = (orderDesc _ _ _).map _
    rw [publishedReviews_unflagged, ← map_orderDesc (fun r : Review => place r.id) Review.createdAt
      Review.unflag.apply _ _ (fun _ => rfl) fun _ => rfl, List.map_map]
    rfl
  | listCorroborations reviewId page =>
    refine ⟨?_, rfl⟩
    show _ = ((db.reviews.updateAll Review.unflag).find? reviewId).isSome
    rw [Table.find?_updateAll, Option.isSome_map]
  | listCompanyLayoffEvents companyId page =>
    show (orderDesc _ _ _).map _ = (orderDesc _ _ _).map _
    rw [publishedLayoffEvents_unflagged, ← map_orderDesc (fun e : LayoffEvent => place e.id)
      LayoffEvent.eventDate LayoffEvent.unflag.apply _ _ (fun _ => rfl) fun _ => rfl, List.map_map]
    rfl
  | getCompanyStats companyId => exact ⟨rfl, sameStatsRows_unflagged db companyId⟩
  | getLayoffTimeline companyId =>
    refine ⟨rfl, ?_⟩
    show (orderAsc _ _ _).map _ = (orderAsc _ _ _).map _
    rw [publishedLayoffEvents_unflagged, ← map_orderAsc (fun e : LayoffEvent => place e.id)
      LayoffEvent.eventDate LayoffEvent.unflag.apply _ _ (fun _ => rfl) fun _ => rfl, List.map_map]
    rfl
  | listTakedownLog page => exact rfl

end

/-! ## One request -/

/-- The same response up to the queue, and the erased state. -/
def ServedUnflagged (r r' : Response × Server) : Prop :=
  SameButQueue r.1 r'.1 ∧ r'.2 = r.2.unflagged

section

variable {α : Type} (s : Server)

theorem answer_unflagged {r r' : Except HttpException α} (payload : α → Payload) (h : r' = r) :
    ServedUnflagged (answer s r payload) (answer s.unflagged r' payload) := by
  subst h
  exact ⟨.same _, rfl⟩

theorem answerCommit_unflagged {r r' : Except HttpException (Db × α)} (payload : α → Payload)
    (h : Unflags r r') : ServedUnflagged (answerCommit s r payload)
      (answerCommit s.unflagged r' payload) := by
  cases h with
  | error e => exact ⟨.same _, rfl⟩
  | ok h => subst h; exact ⟨.same _, rfl⟩

theorem answerVerify_unflagged {r r' : Except HttpException (Db × Except HttpException VerifyOut)}
    (h : Unflags r r') : ServedUnflagged (answerVerify s r) (answerVerify s.unflagged r') := by
  cases h with
  | error e => exact ⟨.same _, rfl⟩
  | ok h => subst h; exact ⟨.same _, rfl⟩

theorem answerFiles_unflagged {r r' : List String × Except HttpException (Db × α)}
    (payload : α → Payload) (h : r'.1 = r.1 ∧ Unflags r.2 r'.2) :
    ServedUnflagged (answerFiles s r payload) (answerFiles s.unflagged r' payload) := by
  unfold answerFiles
  rw [h.1]
  exact answerCommit_unflagged { s with files := r.1 } payload h.2

/-- A public GET shows no reason. -/
theorem publicGet_unflagged (p : Platform) (env : Env) (g : PublicGet) :
    handle p.unscanned env g.request s.unflagged =
      ((handle p env g.request s).1, (handle p env g.request s).2.unflagged) := by
  have hrows : g.SameRows (env.place 0) s.db s.unflagged.db :=
    sameRows_unflagged s.db (env.place 0) g
  have hcache : s.statsCache = s.unflagged.statsCache := rfl
  have hcache' : s.timelineCache = s.unflagged.timelineCache := rfl
  obtain ⟨hout, hstats, htimeline⟩ := publicGet_congr p env g hrows hcache hcache'
  have hscan : handle p.unscanned env g.request s.unflagged =
      handle p env g.request s.unflagged := by
    cases g <;> rfl
  have hframe : ∀ t : Server, (handle p env g.request t).2 =
      ⟨t.db, t.files, (handle p env g.request t).2.statsCache,
        (handle p env g.request t).2.timelineCache⟩ := by
    intro t
    cases g <;> rfl
  rw [hscan]
  refine Prod.ext hout.symm ?_
  rw [hframe s.unflagged, hframe s, ← hstats, ← htimeline]
  rfl

theorem publicGet_served (p : Platform) (env : Env) (g : PublicGet) :
    ServedUnflagged (handle p env g.request s) (handle p.unscanned env g.request s.unflagged) := by
  rw [publicGet_unflagged]
  exact ⟨.same _, rfl⟩

/-- Serving a request and erasing the reasons is erasing them and serving it unscanned. -/
theorem handle_unflagged {p : Platform} (hp : p.StorableReasons) (env : Env) (req : Request) :
    ServedUnflagged (handle p env req s) (handle p.unscanned env req s.unflagged) := by
  cases req with
  | health => exact ⟨.same _, rfl⟩
  | requestOtp phone => exact answerCommit_unflagged s _ (requestOtp_unflagged p env s.db phone)
  | verifyOtp phone code =>
    exact answerVerify_unflagged s (verifyOtp_unflagged p env s.db phone code)
  | requestEmailVerification email token =>
    exact answerCommit_unflagged s _ (requestEmailVerification_unflagged p env s.db email token)
  | verifyEmail email code token =>
    exact answerVerify_unflagged s (verifyEmail_unflagged p env s.db email code token)
  | uploadDocument docType content token =>
    exact answerFiles_unflagged s _
      (uploadDocument_unflagged p env s.db docType content token s.files)
  | readCurrentUser token => exact answer_unflagged s _ rfl
  | submitReview body token =>
    exact answerCommit_unflagged s _ (submitReview_unflagged p env s.db hp body token)
  | listCompanyReviews companyId page =>
    exact publicGet_served s p env (.listCompanyReviews companyId page)
  | corroborateReview reviewId comment token =>
    exact answerCommit_unflagged s _ (corroborateReview_unflagged p env s.db reviewId comment token)
  | listCorroborations reviewId page =>
    exact publicGet_served s p env (.listCorroborations reviewId page)
  | respondToReview reviewId responseText token =>
    exact answerCommit_unflagged s _
      (respondToReview_unflagged p env s.db reviewId responseText token)
  | submitLayoffEvent body token =>
    exact answerCommit_unflagged s _ (submitLayoffEvent_unflagged p env s.db hp body token)
  | listCompanyLayoffEvents companyId page =>
    exact publicGet_served s p env (.listCompanyLayoffEvents companyId page)
  | employerLogin email => exact answer_unflagged s _ rfl
  | getCompanyStats companyId => exact publicGet_served s p env (.getCompanyStats companyId)
  | getLayoffTimeline companyId => exact publicGet_served s p env (.getLayoffTimeline companyId)
  | adminLogin email password =>
    exact answer_unflagged s _ (adminLogin_unflagged p env s.db email password)
  | getModerationQueue page token =>
    exact ⟨getModerationQueue_unflagged p env s.db page token, rfl⟩
  | approveModerationItem itemType itemId token =>
    exact answerCommit_unflagged s _
      (decideModerationItem_unflagged p env s.db itemType itemId _ _ token)
  | rejectModerationItem itemType itemId reason token =>
    exact answerCommit_unflagged s _
      (decideModerationItem_unflagged p env s.db itemType itemId _ _ token)
  | getDocumentQueue page token => exact answer_unflagged s _ rfl
  | approveDocument itemId token =>
    exact answerFiles_unflagged s _ (approveDocument_unflagged p env s.db itemId token s.files)
  | rejectDocument itemId reason token =>
    exact answerFiles_unflagged s _
      (rejectDocument_unflagged p env s.db itemId reason token s.files)
  | listGrievances page token => exact answer_unflagged s _ rfl
  | listTakedownLog page => exact publicGet_served s p env (.listTakedownLog page)
  | createTakedownLogEntry body token =>
    exact answerCommit_unflagged s _ (createTakedownLogEntry_unflagged p env s.db body token)
  | submitGrievance body =>
    exact answerCommit_unflagged s _ (submitGrievance_unflagged p env s.db body)

end

/-! ## Runs -/

/-- Two deployments that differ in the filter, as everything but the stored reasons shows
    them: the statuses of the content, the audit log, the public GETs, and what waits in the
    queue. -/
structure SameButReasons (p q : Platform) (s s' : Server) : Prop where
  state : s.unflagged = s'.unflagged
  reviews : (s.db.reviews.rows.map fun r => (r.id, r.status)) =
    s'.db.reviews.rows.map fun r => (r.id, r.status)
  layoffEvents : (s.db.layoffEvents.rows.map fun e => (e.id, e.status)) =
    s'.db.layoffEvents.rows.map fun e => (e.id, e.status)
  auditLog : s.db.moderationAuditLog = s'.db.moderationAuditLog
  publicGets : ∀ (env : Env) (g : PublicGet),
    (handle p env g.request s).1 = (handle q env g.request s').1
  queue : ∀ place, ((mergedQueue place s.db).map ModerationQueueEntry.unflagged).Perm
    ((mergedQueue place s'.db).map ModerationQueueEntry.unflagged)

/-- All of it follows from the erased states. -/
theorem sameButReasons_of_unflagged {p q : Platform} (hpq : p.unscanned = q.unscanned)
    {s s' : Server} (h : s.unflagged = s'.unflagged) : SameButReasons p q s s' := by
  have hdb : s.db.unflagged = s'.db.unflagged := congrArg Server.db h
  have hreviews : ∀ db : Db, (db.unflagged.reviews.rows.map fun r => (r.id, r.status)) =
      db.reviews.rows.map fun r => (r.id, r.status) :=
    fun db => db.reviews.map_rows_updateAll Review.unflag fun _ => rfl
  have hevents : ∀ db : Db, (db.unflagged.layoffEvents.rows.map fun e => (e.id, e.status)) =
      db.layoffEvents.rows.map fun e => (e.id, e.status) :=
    fun db => db.layoffEvents.map_rows_updateAll LayoffEvent.unflag fun _ => rfl
  constructor
  case state => exact h
  case reviews => rw [← hreviews, hdb, hreviews]
  case layoffEvents => rw [← hevents, hdb, hevents]
  case auditLog =>
    have hlog := congrArg Db.moderationAuditLog hdb
    exact hlog
  case publicGets =>
    intro env g
    have hout := congrArg Prod.fst (publicGet_unflagged s p env g)
    rw [hpq, h, publicGet_unflagged s' q env g] at hout
    exact hout.symm
  case queue =>
    intro place
    have hperm := mergedQueue_unflagged s.db place
    rw [hdb] at hperm
    exact hperm.symm.trans (mergedQueue_unflagged s'.db place)

/-- One request under two filters, on states that differ in the reasons. -/
theorem step_rescanned {p q : Platform} (hpq : p.unscanned = q.unscanned) (hp : p.StorableReasons)
    (hq : q.StorableReasons) (e : Request × Draws) {s s' : Server}
    (h : s.unflagged = s'.unflagged) :
    SameButQueue ((Api p).step e s).1 ((Api q).step e s').1 ∧
      ((Api p).step e s).2.unflagged = ((Api q).step e s').2.unflagged := by
  obtain ⟨hout, hstate⟩ := handle_unflagged s hp e.2.env e.1
  obtain ⟨hout', hstate'⟩ := handle_unflagged s' hq e.2.env e.1
  rw [hpq, h] at hout hstate
  exact ⟨hout.trans hout'.symm, hstate.symm.trans hstate'⟩

/-- Another name filter, as long as its reasons can be stored: request by request the same
    response but for the page of the queue, the same status codes, and after every request
    the same state but for the reasons. -/
theorem name_filter_advisory (p : Platform) (scan : List (Option String) → Option String)
    (hp : p.StorableReasons) (hscan : (p.scanningWith scan).StorableReasons)
    (es : List (Request × Draws)) (s : Server) :
    List.Forall₂ SameButQueue ((Api p).outputs es s)
        ((Api (p.scanningWith scan)).outputs es s) ∧
      ((Api p).outputs es s).map Response.statusCode =
        ((Api (p.scanningWith scan)).outputs es s).map Response.statusCode ∧
      ∀ n, SameButReasons p (p.scanningWith scan) ((Api p).exec (es.take n) s)
        ((Api (p.scanningWith scan)).exec (es.take n) s) := by
  have hpq : p.unscanned = (p.scanningWith scan).unscanned := rfl
  obtain ⟨houts, hstates⟩ := (Api p).run_forall₂ (N := Api (p.scanningWith scan))
    (R := fun s s' => s.unflagged = s'.unflagged) (P := Eq) (Q := SameButQueue)
    (fun {e e' s s'} he h => by
      subst he
      exact step_rescanned hpq hp hscan e h)
    (List.forall₂_refl es) (s := s) (t := s) rfl
  refine ⟨houts, ?_, fun n => sameButReasons_of_unflagged hpq (hstates n)⟩
  refine List.forall₂_eq_eq_eq ▸ ?_
  exact List.forall₂_map_left_iff.mpr
    (List.forall₂_map_right_iff.mpr (houts.imp fun _ _ h => h.statusCode))

/-- A filter that finds a name in everything. -/
def flagEverything (_ : List (Option String)) : Option String :=
  some "possible personal name detected"

/-- A review is submitted, listed, approved and read. -/
def moderatedRun : List (Request × Draws) :=
  [(.submitReview smallReview (some "alice"), drawsAt 0 20),
    (.getModerationQueue {} (some "root"), drawsAt 1 30),
    (.approveModerationItem .review 20 (some "root"), drawsAt 2 31),
    (.listCompanyReviews 5 {}, drawsAt 3 40)]

theorem moderatedRun_rescanned :
    ((Api smallPlatform).outputs moderatedRun (.start smallDb)).map Response.statusCode =
        [201, 200, 200, 200] ∧
      ((Api smallPlatform).outputs moderatedRun (.start smallDb)).map Response.statusCode =
        ((Api (smallPlatform.scanningWith flagEverything)).outputs moderatedRun
          (.start smallDb)).map Response.statusCode :=
  have hreason : nullable storable (some "possible personal name detected") = true := by decide
  ⟨by decide, (name_filter_advisory smallPlatform flagEverything (fun _ => rfl)
    (fun _ => hreason) moderatedRun (.start smallDb)).2.1⟩

/-- A reason that is no text to the database: the flagged review is refused with a 409. -/
theorem unstorable_reason_breaks :
    ¬ ∀ (p : Platform) (scan : List (Option String) → Option String), p.StorableReasons →
      ∀ (es : List (Request × Draws)) (s : Server),
        ((Api p).outputs es s).map Response.statusCode =
          ((Api (p.scanningWith scan)).outputs es s).map Response.statusCode := by
  intro hall
  have hcodes := hall smallPlatform (fun _ => some (String.singleton (Char.ofNat 0)))
    (fun _ => rfl) moderatedRun (.start smallDb)
  revert hcodes
  decide

end LinkedOut
