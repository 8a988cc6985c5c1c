/-
  What is published stays published. Nothing in the API takes a row back, so what the
  public endpoints and the aggregation engine read of a company only grows.

  * `published_only_grows`: over every run, the published rows of a company, their
    corroborations and `last_updated` only go up, and a company that has had full
    statistics is never again answered with insufficient data.
  * `approved_review_stays_public`: a review that is posted and approved is on a page of
    the public list, as it was posted, after every run.
-/
import Mathlib.Algebra.Order.Group.Nat
import LinkedOut.History
import LinkedOut.Stats
import LinkedOut.Moderation.Gate

namespace LinkedOut

/-! ## What a later database has published -/

section

variable {db db' : Db} {companyId : Uuid}

theorem publishedReviews_later (h : db.Later db') :
    (publishedReviews db companyId).Sublist (publishedReviews db' companyId) := by
  refine h.reviews.select_sublist fun hlater hp => hlater.decided ?_
  simp only [Bool.and_eq_true, beq_iff_eq] at hp
  rw [hp.2]
  decide

theorem publishedLayoffEvents_later (h : db.Later db') :
    (publishedLayoffEvents db companyId).Sublist (publishedLayoffEvents db' companyId) := by
  refine h.layoffEvents.select_sublist fun hlater hp => hlater.decided ?_
  simp only [Bool.and_eq_true, beq_iff_eq] at hp
  rw [hp.2]
  decide

theorem countPublishedReviews_later (h : db.Later db') :
    countPublishedReviews db companyId ≤ countPublishedReviews db' companyId :=
  (publishedReviews_later h).length_le

/-- Each published review keeps its corroborations, and may have more. -/
theorem corroborationTotal_later (h : db.Later db') :
    corroborationTotal db companyId ≤ corroborationTotal db' companyId := by
  have hone : ∀ r : Review, (db.corroborations.select fun c => c.reviewId == r.id).length ≤
      (db'.corroborations.select fun c => c.reviewId == r.id).length :=
    fun r => (h.corroborations.sublist.filter _).length_le
  rw [corroborationTotal_eq_sum, corroborationTotal_eq_sum]
  have hrows : ((publishedReviews db companyId).map fun r =>
      (db.corroborations.select fun c => c.reviewId == r.id).length).sum ≤
        ((publishedReviews db companyId).map fun r =>
          (db'.corroborations.select fun c => c.reviewId == r.id).length).sum :=
    List.sum_le_sum fun r _ => hone r
  exact hrows.trans (((publishedReviews_later h).map _).sum_le_sum fun _ _ => Nat.zero_le _)

theorem exists_max?_of_mem {l : List Time} {t : Time} (h : t ∈ l) :
    ∃ t', l.max? = some t' ∧ t ≤ t' := by
  obtain ⟨t', ht'⟩ := Option.isSome_iff_exists.mp
    (List.isSome_max?_of_ne_nil (List.ne_nil_of_mem h))
  exact ⟨t', ht', (List.max?_eq_some_iff.mp ht').2 t h⟩

theorem lastUpdated_later (h : db.Later db') {t : Time}
    (ht : lastUpdated db db companyId = some t) :
    ∃ t', lastUpdated db' db' companyId = some t' ∧ t ≤ t' := by
  -- either of the two timestamps is there later, or a later one
  have hreview : ∀ t, lastReviewAt db companyId = some t →
      ∃ u, lastReviewAt db' companyId = some u ∧ t ≤ u := fun t ht =>
    exists_max?_of_mem (((publishedReviews_later h).map Review.createdAt).subset (List.max?_mem ht))
  have hlayoff : ∀ t, lastLayoffAt db companyId = some t →
      ∃ u, lastLayoffAt db' companyId = some u ∧ t ≤ u := fun t ht =>
    exists_max?_of_mem (((publishedLayoffEvents_later h).map LayoffEvent.createdAt).subset
      (List.max?_mem ht))
  have hmem := List.max?_mem ht
  simp only [List.mem_filterMap, List.mem_cons, List.not_mem_nil, or_false, id_eq,
    exists_eq_or_imp, exists_eq_left] at hmem
  obtain ⟨u, hu, hle⟩ : ∃ u, u ∈ [lastReviewAt db' companyId,
      lastLayoffAt db' companyId].filterMap id ∧ t ≤ u := by
    rcases hmem with hmem | hmem
    · obtain ⟨u, hu, hle⟩ := hreview t hmem
      exact ⟨u, List.mem_filterMap.mpr ⟨some u, by rw [hu]; simp, rfl⟩, hle⟩
    · obtain ⟨u, hu, hle⟩ := hlayoff t hmem
      exact ⟨u, List.mem_filterMap.mpr ⟨some u, by rw [hu]; simp, rfl⟩, hle⟩
  obtain ⟨t', ht', hle'⟩ := exists_max?_of_mem hu
  exact ⟨t', ht', hle.trans hle'⟩

/-- Enough published reviews are enough later, whatever the later statements read. -/
theorem computeCompanyStats_later {p : Platform} {view view' : Nat → Db} {stats : FullStats}
    (h : (view 0).Later (view' 0))
    (hfull : computeCompanyStats p view companyId = .ok (.full stats)) :
    ∃ stats', computeCompanyStats p view' companyId = .ok (.full stats') ∧
      stats.totalPublishedReviews ≤ stats'.totalPublishedReviews := by
  obtain ⟨hmin, hpos, htotal, -⟩ := computeCompanyStats_full hfull
  have hle : countPublishedReviews (view 0) companyId ≤ countPublishedReviews (view' 0) companyId :=
    countPublishedReviews_later h
  have hmin' : ¬ countPublishedReviews (view' 0) companyId < p.settings.statsMinPublishedReviews :=
    fun hlt => hmin (hle.trans_lt hlt)
  have hne : countPublishedReviews (view' 0) companyId ≠ 0 := (hpos.trans_le hle).ne'
  rw [htotal]
  obtain ⟨bucket, hbucket⟩ : ∃ bucket, modalKey (fullEnumCounts TenureBucket.members
      (groupedCounts (view' 2) Review.tenureBucket companyId)) = some bucket := ⟨_, rfl⟩
  unfold computeCompanyStats
  simp only [if_neg hmin', hbucket, if_neg hne]
  exact ⟨_, rfl, hle⟩

end

/-- Publication is monotone: over every run of the API, what the public endpoints and the
    aggregations read of a company stays, and full statistics are not taken back. The
    statements of either call may read later databases than the first one does. -/
theorem published_only_grows (p : Platform) (es : List (Request × Draws)) (s : Server)
    (companyId : Uuid) :
    let db' := ((Api p).exec es s).db
    (publishedReviews s.db companyId).Sublist (publishedReviews db' companyId) ∧
      (publishedLayoffEvents s.db companyId).Sublist (publishedLayoffEvents db' companyId) ∧
      corroborationTotal s.db companyId ≤ corroborationTotal db' companyId ∧
      (∀ t, lastUpdated s.db s.db companyId = some t →
        ∃ t', lastUpdated db' db' companyId = some t' ∧ t ≤ t') ∧
      ∀ (view view' : Nat → Db) (stats : FullStats), view 0 = s.db → view' 0 = db' →
        computeCompanyStats p view companyId = .ok (.full stats) →
        ∃ stats', computeCompanyStats p view' companyId = .ok (.full stats') ∧
          stats.totalPublishedReviews ≤ stats'.totalPublishedReviews := by
  have hlater := exec_later p es s
  refine ⟨publishedReviews_later hlater, publishedLayoffEvents_later hlater,
    corroborationTotal_later hlater, fun t ht => lastUpdated_later hlater ht,
    fun view view' stats hview hview' hfull => ?_⟩
  refine computeCompanyStats_later ?_ hfull
  rw [hview, hview']
  exact hlater

/-- One published review is enough. -/
def lenientPlatform : Platform :=
  { smallPlatform with settings := { statsMinPublishedReviews := 1 } }

/-- Bob's review follows the one of `gateRun`. -/
def secondReview : List (Request × Draws) :=
  [(.submitReview smallReview (some "bob"), drawsAt 2 40),
    (.approveModerationItem .review 40 (some "root"), drawsAt 3 50)]

theorem secondReview_counted :
    ∃ stats, computeCompanyStats lenientPlatform (fun _ => ((Api lenientPlatform).exec
        (gateRun ++ secondReview) (.start smallDb)).db) 5 = .ok (.full stats) ∧
      1 ≤ stats.totalPublishedReviews := by
  rw [Machine.exec_append]
  exact (published_only_grows lenientPlatform secondReview
    ((Api lenientPlatform).exec gateRun (.start smallDb)) 5).2.2.2.2
      (fun _ => ((Api lenientPlatform).exec gateRun (.start smallDb)).db) _ _ rfl rfl rfl

/-! ## From the post to the public list -/

/-- The row a successful `submit_review` leaves, and who its author is. -/
theorem submitReview_ok {p : Platform} {env : Env} {body : ReviewCreate} {token : Option String}
    {db db' : Db} {out : CreateOut} (h : submitReview p env body token db = .ok (db', out)) :
    ∃ user reviews, requireTier p env .email token db = .ok user ∧
      db.reviews.insert (newReview p env user.id body) = some reviews ∧
      db' = { db with reviews } ∧ out.id = env.uuid 0 := by
  obtain ⟨user, hgate, h1⟩ := bind_ok h
  obtain ⟨_, -, h2⟩ := bind_ok h1
  obtain ⟨_, -, h3⟩ := bind_ok h2
  obtain ⟨_, -, h4⟩ := bind_ok h3
  obtain ⟨_, -, h5⟩ := bind_ok h4
  obtain ⟨reviews, hcommit, h6⟩ := bind_ok h5
  cases h6
  exact ⟨user, reviews, hgate, (commit_ok hcommit).1, rfl, rfl⟩

theorem posted_review {p : Platform} {d : Draws} {body : ReviewCreate} {token : Option String}
    {s s' : Server} {out : CreateOut}
    (h : (Api p).step (.submitReview body token, d) s = (.ok (.created out), s')) :
    ∃ user, requireTier p d.env .email token s.db = .ok user ∧
      s'.db.reviews.find? out.id = some (newReview p d.env user.id body) := by
  change answerCommit s (submitReview p d.env body token s.db) .created = _ at h
  cases hsubmit : submitReview p d.env body token s.db with
  | error e =>
    rw [hsubmit] at h
    cases h
  | ok r =>
    rw [hsubmit] at h
    cases h
    obtain ⟨user, reviews, hgate, hinsert, hdb, hid⟩ := submitReview_ok hsubmit
    refine ⟨user, hgate, ?_⟩
    show r.1.reviews.find? r.2.id = _
    rw [hdb, hid, Table.find?_insert hinsert]
    exact if_pos rfl

/-- A review that is still pending is what it was. -/
theorem pending_unchanged {db db' : Db} {id : Uuid} {review : Review} (h : db.Later db')
    (hfind : db.reviews.find? id = some review) (hpending : review.status = .pending)
    (hstatus : db'.statusOf (.review id) = some .pending) :
    db'.reviews.find? id = some review := by
  obtain ⟨review', hfind', hlater⟩ := h.reviews.find? (fun h => by rw [h.fixed]; rfl) hfind
  have hstatus' : review'.status = .pending := by
    change (db'.reviews.find? id).map Review.status = _ at hstatus
    rw [hfind'] at hstatus
    exact Option.some.inj hstatus
  rw [hfind', hlater.fixed, hstatus', ← hpending]

/-- A review that is published is never changed. -/
theorem published_unchanged {db db' : Db} {id : Uuid} {review : Review} (h : db.Later db')
    (hfind : db.reviews.find? id = some review) (hpublished : review.status = .published) :
    db'.reviews.find? id = some review := by
  obtain ⟨review', hfind', hlater⟩ := h.reviews.find? (fun h => by rw [h.fixed]; rfl) hfind
  rw [hfind', hlater.decided (by rw [hpublished]; decide)]

/-- A review that is pending can be approved: no column of the audit entry is refused. -/
theorem approve_pending {p : Platform} {d : Draws} {token : Option String} {s : Server}
    {admin : AdminUser} {id : Uuid} {review : Review}
    (hadmin : getCurrentAdmin p d.env token s.db = .ok admin)
    (hfind : s.db.reviews.find? id = some review) (hpending : review.status = .pending)
    (hfresh : ∀ e ∈ s.db.moderationAuditLog.rows, e.id ≠ d.uuid 0) :
    ∃ s', (Api p).step (.approveModerationItem .review id token, d) s =
        (.ok (.moderationAction ⟨.review, id, .published, .approve⟩), s') ∧
      s'.db.reviews.find? id = some { review with status := .published } := by
  obtain rfl : review.id = id := ((s.db.reviews.find?_eq_some _ _).mp hfind).2
  obtain ⟨log, hlog⟩ : ∃ log, s.db.moderationAuditLog.insert
      (newAuditEntry d.env 1 admin.id .review review.id .approve none) = some log := by
    unfold Table.insert
    rw [dif_pos ⟨rfl, fun e he => beq_false_of_ne (hfresh e he)⟩]
    exact ⟨_, rfl⟩
  have hitem : loadItem .review review.id s.db = .ok (.review review) := by
    unfold loadItem
    rw [if_pos rfl, scalarOneOrNone_pk, hfind, ok_bind]
    unfold loadPending
    simp only [hpending, ne_eq, not_true_eq_false, if_false]
    rfl
  have happrove : approveModerationItem p d.env .review review.id token s.db =
      .ok ({ s.db with
          reviews := s.db.reviews.update review.id (Review.setStatus .published)
          moderationAuditLog := log }, ⟨.review, review.id, .published, .approve⟩) := by
    unfold approveModerationItem decideModerationItem
    rw [hadmin, ok_bind, ok_bind, hitem, ok_bind]
    unfold flushDecision
    dsimp only [approval]
    rw [hlog]
    rfl
  refine ⟨_, congrArg (fun r => answerCommit s r Payload.moderationAction) happrove, ?_⟩
  show (s.db.reviews.update review.id (Review.setStatus .published)).find? review.id = _
  rw [Table.find?_update_self _ _ hfind]
  rfl

/-- Some page of any size has a given row. -/
theorem exists_page {α : Type} {rows : List α} {a : α} (ha : a ∈ rows) {limit : Nat}
    (hlimit : 1 ≤ limit) : ∃ k : Nat, a ∈ (Page.mk limit (k * limit : Nat)).slice rows := by
  obtain ⟨i, hi, rfl⟩ := List.getElem_of_mem ha
  refine ⟨i / limit, ?_⟩
  unfold Page.slice
  rw [Int.toNat_natCast, Int.toNat_natCast, List.mem_iff_getElem?]
  have hmod : i % limit < limit := Nat.mod_lt i hlimit
  refine ⟨i % limit, ?_⟩
  rw [List.getElem?_take_of_lt hmod, List.getElem?_drop, Nat.div_add_mod' i limit]
  exact List.getElem?_eq_getElem hi

theorem page_check {limit offset : Nat} (hlimit : 1 ≤ limit) (hmax : limit ≤ 100) :
    (Page.mk limit offset).check = .ok () := by
  have hbounds : (1 : Int) ≤ limit ∧ (limit : Int) ≤ maxPageSize := by
    unfold maxPageSize
    omega
  simp [Page.check, validate, raiseIf, hbounds]

theorem listed_of_published {db : Db} {companyId : Uuid} {review : Review}
    (h : review ∈ publishedReviews db companyId) (env : Env) {limit : Nat} (hlimit : 1 ≤ limit)
    (hmax : limit ≤ 100) :
    ∃ k : Nat, ∃ page, listCompanyReviews env companyId ⟨limit, (k * limit : Nat)⟩ db = .ok page ∧
      review.read ∈ page.items := by
  have hordered : review ∈ orderDesc (fun r : Review => env.place 0 r.id) Review.createdAt
      (publishedReviews db companyId) := (mem_orderDesc _ _ _ _).mpr h
  obtain ⟨k, hk⟩ := exists_page hordered hlimit
  refine ⟨k, paginate ⟨limit, (k * limit : Nat)⟩ (publishedReviews db companyId)
    (orderDesc (fun r : Review => env.place 0 r.id) Review.createdAt
      (publishedReviews db companyId)) Review.read, ?_, List.mem_map_of_mem hk⟩
  unfold listCompanyReviews
  rw [page_check hlimit hmax, ok_bind]
  rfl

/-- A review that was posted, and is still pending when an admin approves it, is published
    and stays so: after every run it is the row that was posted but for its status, it is
    counted, and at every page size some page of the public list has it. -/
theorem approved_review_stays_public (p : Platform) {body : ReviewCreate}
    {token adminToken : Option String} {d d' : Draws} {mid : List (Request × Draws)}
    {s s₁ s₂ : Server} {out : CreateOut} {admin : AdminUser}
    (hposted : (Api p).step (.submitReview body token, d) s = (.ok (.created out), s₁))
    (hmid : (Api p).exec mid s₁ = s₂)
    (hpending : s₂.db.statusOf (.review out.id) = some .pending)
    (hadmin : getCurrentAdmin p d'.env adminToken s₂.db = .ok admin)
    (hfresh : ∀ e ∈ s₂.db.moderationAuditLog.rows, e.id ≠ d'.uuid 0) :
    ∃ user s₃, requireTier p d.env .email token s.db = .ok user ∧
      (Api p).step (.approveModerationItem .review out.id adminToken, d') s₂ =
        (.ok (.moderationAction ⟨.review, out.id, .published, .approve⟩), s₃) ∧
      ∀ after : List (Request × Draws),
        let db := ((Api p).exec after s₃).db
        let review := { newReview p d.env user.id body with status := .published }
        db.reviews.find? out.id = some review ∧ review ∈ publishedReviews db body.companyId ∧
          ∀ (env : Env) (limit : Nat), 1 ≤ limit → limit ≤ 100 → ∃ k : Nat, ∃ page,
            listCompanyReviews env body.companyId ⟨limit, (k * limit : Nat)⟩ db = .ok page ∧
              review.read ∈ page.items := by
  obtain ⟨user, hgate, hstored⟩ := posted_review hposted
  have hfound : s₂.db.reviews.find? out.id = some (newReview p d.env user.id body) :=
    pending_unchanged (hmid ▸ exec_later p mid s₁) hstored rfl hpending
  obtain ⟨s₃, happrove, hpublished⟩ := approve_pending hadmin hfound rfl hfresh
  refine ⟨user, s₃, hgate, happrove, fun after => ?_⟩
  have hkept := published_unchanged (exec_later p after s₃) hpublished rfl
  have hread : { newReview p d.env user.id body with status := .published } ∈
      publishedReviews ((Api p).exec after s₃).db body.companyId :=
    (Table.mem_select _ _ _).mpr
      ⟨((Table.find?_eq_some _ _ _).mp hkept).1, by simp [newReview]⟩
  exact ⟨hkept, hread, fun env _ hlimit hmax => listed_of_published hread env hlimit hmax⟩

/-- Between Alice's post and its approval Bob posts a review that is rejected. -/
def betweenPosts : List (Request × Draws) :=
  [(.submitReview smallReview (some "bob"), drawsAt 2 40),
    (.rejectModerationItem .review 40 "names a colleague" (some "ruth"), drawsAt 3 50)]

theorem gateRun_public : ∃ k : Nat, ∃ page, listCompanyReviews (drawsAt 9 0).env 5 ⟨1, (k * 1 : Nat)⟩
    ((Api smallPlatform).exec (gateRun.take 1 ++ betweenPosts ++ gateRun.drop 1)
      (.start smallDb)).db = .ok page ∧
        ({ newReview smallPlatform (drawsAt 0 20).env 1 smallReview with
          status := .published } : Review).read ∈ page.items := by
  obtain ⟨user, s₃, hgate, hstep, hall⟩ := @approved_review_stays_public smallPlatform smallReview
    (some "alice") (some "root") (drawsAt 0 20) (drawsAt 1 30) betweenPosts (.start smallDb) _ _
    ⟨20, .pending, "review submitted and pending moderation"⟩ ⟨9, "root@linkedout", "", true⟩
    rfl rfl rfl rfl (by decide)
  cases hgate
  have hlast : s₃ = ((Api smallPlatform).exec (gateRun.take 1 ++ betweenPosts ++ gateRun.drop 1)
      (.start smallDb)) := by
    rw [Machine.exec_append, Machine.exec_append]
    exact (congrArg Prod.snd hstep).symm
  rw [← hlast]
  exact (hall []).2.2 (drawsAt 9 0).env 1 le_rfl (by decide)

end LinkedOut
