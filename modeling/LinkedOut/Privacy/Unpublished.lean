/-
  Does unmoderated content show on the public read surface?

  `AgreeOnPublished`: two databases share the published reviews and layoff events, the
  corroborations of published reviews, the companies and the takedown log; everything
  else may differ. `public_get_blind_iff`: a public GET answers the same on all
  databases that agree with a given one if and only if it is not a well-formed
  `list_corroborations` of a review that is not published there. That handler only
  asks whether the review exists: `corroborations_leak` reads the comment under a
  PENDING review.
-/
import LinkedOut.Privacy.PublicReads
import Mathlib.Data.Fintype.EquivFin

namespace LinkedOut

/-- The corroboration is attached to a published review. -/
def OnPublished (db : Db) (c : Corroboration) : Prop :=
  ∃ r ∈ db.reviews.rows, r.status = .published ∧ r.id = c.reviewId

/-- The two databases share everything that moderation has let through. -/
structure AgreeOnPublished (db db' : Db) : Prop where
  companies : ∀ c, c ∈ db.companies.rows ↔ c ∈ db'.companies.rows
  reviews : ∀ r, r.status = .published → (r ∈ db.reviews.rows ↔ r ∈ db'.reviews.rows)
  corroborations : ∀ c, OnPublished db c →
    (c ∈ db.corroborations.rows ↔ c ∈ db'.corroborations.rows)
  layoffEvents : ∀ e, e.status = .published →
    (e ∈ db.layoffEvents.rows ↔ e ∈ db'.layoffEvents.rows)
  takedownLog : ∀ e, e ∈ db.takedownLogEntries.rows ↔ e ∈ db'.takedownLogEntries.rows

/-- A well-formed request for the corroborations of a review that is not published. -/
def PublicGet.Leaks (db : Db) : PublicGet → Prop
  | listCorroborations reviewId page => page.check = .ok () ∧
    ∀ r, db.reviews.find? reviewId = some r → r.status ≠ .published
  | _ => False

/-! ## What agreeing databases select -/

section

variable {db db' : Db} (h : AgreeOnPublished db db')

include h

theorem AgreeOnPublished.sameCompany (companyId : Uuid) : SameCompany db db' companyId := by
  unfold SameCompany
  rw [Table.find?_congr fun c _ => h.companies c]

theorem AgreeOnPublished.perm_reviews (companyId : Uuid) :
    (publishedReviews db companyId).Perm (publishedReviews db' companyId) := by
  refine Table.perm_select fun r hr => h.reviews r ?_
  exact beq_iff_eq.mp (Bool.and_eq_true_iff.mp hr).2

theorem AgreeOnPublished.perm_layoffEvents (companyId : Uuid) :
    (publishedLayoffEvents db companyId).Perm (publishedLayoffEvents db' companyId) := by
  refine Table.perm_select fun e he => h.layoffEvents e ?_
  exact beq_iff_eq.mp (Bool.and_eq_true_iff.mp he).2

theorem AgreeOnPublished.perm_corroborations {r : Review} (hr : r ∈ db.reviews.rows)
    (hpub : r.status = .published) :
    (corroborationsOf db r.id).Perm (corroborationsOf db' r.id) :=
  Table.perm_select fun c hc => h.corroborations c ⟨r, hr, hpub, (beq_iff_eq.mp hc).symm⟩

theorem AgreeOnPublished.corroborationTotal (companyId : Uuid) :
    corroborationTotal db companyId = LinkedOut.corroborationTotal db' companyId := by
  rw [corroborationTotal_eq_sum, corroborationTotal_eq_sum,
    ← ((h.perm_reviews companyId).map _).sum_eq]
  refine congrArg List.sum (List.map_congr_left fun r hr => ?_)
  obtain ⟨hmem, hfilter⟩ := (db.reviews.mem_select _ r).mp hr
  simp only [Bool.and_eq_true, beq_iff_eq] at hfilter
  exact (h.perm_corroborations hmem hfilter.2).length_eq

theorem AgreeOnPublished.sameStatsRows (companyId : Uuid) : SameStatsRows db db' companyId where
  reviews := (h.perm_reviews companyId).map _
  corroborations := h.corroborationTotal companyId
  layoffEvents := (h.perm_layoffEvents companyId).map _

end

/-- Agreeing databases give every request that does not leak the same rows. -/
theorem sameRows_of_agree {place : Uuid → Nat} (hplace : Function.Injective place) {db db' : Db}
    (h : AgreeOnPublished db db') (g : PublicGet)
    (hpub : ∀ reviewId page, g = .listCorroborations reviewId page →
      ∃ r ∈ db.reviews.rows, r.id = reviewId ∧ r.status = .published) :
    g.SameRows place db db' := by
  -- the engine's order tells rows of one table apart
  have hrow : ∀ {α : Type} [Record α] (t : Table α) (p : α → Bool),
      ∀ a ∈ t.select p, ∀ b ∈ t.select p, place (pk a) = place (pk b) → a = b :=
    fun t p a ha b hb hab =>
      t.eq_of_pk ((t.mem_select p a).mp ha).1 ((t.mem_select p b).mp hb).1 (hplace hab)
  cases g with
  | listCompanyReviews companyId page =>
    exact congrArg _ (orderDesc_perm _ _ (h.perm_reviews companyId) (hrow db.reviews _))
  | listCorroborations reviewId page =>
    obtain ⟨r, hr, rfl, hstatus⟩ := hpub reviewId page rfl
    have hfind : db.reviews.find? r.id = some r := (db.reviews.find?_eq_some _ _).mpr ⟨hr, rfl⟩
    have hfind' : db'.reviews.find? r.id = some r :=
      (db'.reviews.find?_eq_some _ _).mpr ⟨(h.reviews r hstatus).mp hr, rfl⟩
    refine ⟨by rw [hfind, hfind'], ?_⟩
    exact congrArg _
      (orderDesc_perm _ _ (h.perm_corroborations hr hstatus) (hrow db.corroborations _))
  | listCompanyLayoffEvents companyId page =>
    exact congrArg _ (orderDesc_perm _ _ (h.perm_layoffEvents companyId) (hrow db.layoffEvents _))
  | getCompanyStats companyId => exact ⟨h.sameCompany companyId, h.sameStatsRows companyId⟩
  | getLayoffTimeline companyId =>
    exact ⟨h.sameCompany companyId, congrArg _
      (orderAsc_perm _ _ (h.perm_layoffEvents companyId) (hrow db.layoffEvents _))⟩
  | listTakedownLog page =>
    exact orderDesc_perm _ _ (Table.perm_select fun e _ => h.takedownLog e)
      (hrow db.takedownLogEntries _)

/-! ## Requests that leak -/

/-- What the handler answers hangs on whether the review exists. -/
theorem listCorroborations_none (env : Env) {db : Db} {reviewId : Uuid} {page : Page}
    (hpage : page.check = .ok ()) (h : db.reviews.find? reviewId = none) :
    listCorroborations env reviewId page db = .error reviewNotFound := by
  unfold listCorroborations
  rw [scalarOneOrNone_pk, h, hpage]
  rfl

theorem listCorroborations_some (env : Env) {db : Db} {reviewId : Uuid} {page : Page} {r : Review}
    (hpage : page.check = .ok ()) (h : db.reviews.find? reviewId = some r) :
    ∃ out, listCorroborations env reviewId page db = .ok out := by
  unfold listCorroborations
  rw [scalarOneOrNone_pk, h, hpage]
  exact ⟨_, rfl⟩

/-- The database without the review and what hangs on it. -/
def dropReview (db : Db) (reviewId : Uuid) : Db :=
  { db with
    reviews := db.reviews.keep fun r => r.id != reviewId
    corroborations := db.corroborations.keep fun c => c.reviewId != reviewId
    employerResponses := db.employerResponses.keep fun r => r.reviewId != reviewId }

theorem agree_dropReview (db : Db) {reviewId : Uuid}
    (hpub : ∀ r, db.reviews.find? reviewId = some r → r.status ≠ .published) :
    AgreeOnPublished db (dropReview db reviewId) := by
  have hne : ∀ r ∈ db.reviews.rows, r.status = .published → r.id ≠ reviewId :=
    fun r hr hstatus hid => hpub r ((db.reviews.find?_eq_some _ _).mpr ⟨hr, hid⟩) hstatus
  constructor
  case reviews =>
    intro r hstatus
    show _ ↔ r ∈ (db.reviews.keep _).rows
    rw [Table.mem_keep, bne_iff_ne]
    exact ⟨fun hr => ⟨hr, hne r hr hstatus⟩, And.left⟩
  case corroborations =>
    rintro c ⟨r, hr, hstatus, hid⟩
    show _ ↔ c ∈ (db.corroborations.keep _).rows
    rw [Table.mem_keep, bne_iff_ne, ← hid]
    exact ⟨fun hmem => ⟨hmem, hne r hr hstatus⟩, And.left⟩
  all_goals intros; exact Iff.rfl

theorem find?_dropReview (db : Db) (reviewId : Uuid) :
    (dropReview db reviewId).reviews.find? reviewId = none := by
  rw [Table.find?_eq_none]
  intro r hr
  exact bne_iff_ne.mp ((db.reviews.mem_keep _ r).mp hr).2

/-- A PENDING review. -/
def pendingReview (reviewId userId : Uuid) : Review :=
  ⟨reviewId, userId, 0, .culture, .oneTo3yr, "", .ic, true, "", .pending, none, 0⟩

/-- A PENDING review that nothing else depends on can be there or not. -/
theorem exists_pending (db : Db) {reviewId : Uuid} (h : db.reviews.find? reviewId = none) :
    ∃ db' r, AgreeOnPublished db db' ∧ db'.reviews.find? reviewId = some r := by
  obtain ⟨userId, hfresh⟩ :=
    Infinite.exists_notMem_finset (db.reviews.rows.map Review.userId).toFinset
  have hfresh' : ∀ r ∈ db.reviews.rows, r.userId ≠ userId := fun r hr hid =>
    hfresh (List.mem_toFinset.mpr (List.mem_map.mpr ⟨r, hr, hid⟩))
  have hclash : ∀ r ∈ db.reviews.rows, clash r (pendingReview reviewId userId) = false := by
    intro r hr
    have hid : r.id ≠ reviewId := (db.reviews.find?_eq_none _).mp h r hr
    simp [clash, pendingReview, hid, hfresh' r hr]
  obtain ⟨t, ht⟩ : ∃ t, db.reviews.insert (pendingReview reviewId userId) = some t :=
    ⟨_, dif_pos ⟨rfl, hclash⟩⟩
  have hagree : AgreeOnPublished db { db with reviews := t } := by
    constructor
    case reviews =>
      intro r hstatus
      rw [Table.mem_insert ht r, or_iff_left]
      rintro rfl
      cases hstatus
    all_goals intros; exact Iff.rfl
  refine ⟨{ db with reviews := t }, pendingReview reviewId userId, hagree, ?_⟩
  rw [Table.find?_insert ht]
  exact if_pos rfl

/-- Every leak shows on some database that agrees with the given one. -/
theorem exists_leak (env : Env) (db : Db) {reviewId : Uuid} {page : Page}
    (hpage : page.check = .ok ())
    (hpub : ∀ r, db.reviews.find? reviewId = some r → r.status ≠ .published) :
    ∃ db', AgreeOnPublished db db' ∧
      (listCorroborations env reviewId page db').map Payload.corroborations ≠
        (listCorroborations env reviewId page db).map Payload.corroborations := by
  cases h : db.reviews.find? reviewId with
  | none =>
    obtain ⟨db', r, hagree, hr⟩ := exists_pending db h
    obtain ⟨out, hout⟩ := listCorroborations_some env hpage hr
    refine ⟨db', hagree, ?_⟩
    rw [hout, listCorroborations_none env hpage h]
    exact fun he => by cases he
  | some r =>
    obtain ⟨out, hout⟩ := listCorroborations_some env hpage h
    refine ⟨dropReview db reviewId, agree_dropReview db hpub, ?_⟩
    rw [hout, listCorroborations_none env hpage (find?_dropReview db reviewId)]
    exact fun he => by cases he

/-- A public GET answers the same on every database that agrees with `db` on what is
    published, if and only if it does not leak there. `place` tells apart the rows that a
    query leaves unordered, so that both databases return them in one order. -/
theorem public_get_blind_iff (p : Platform) (d : Draws) (hplace : Function.Injective (d.place 0))
    (g : PublicGet) (db : Db) :
    (∀ db', AgreeOnPublished db db' →
      (handle p d.env g.request (.start db')).1 = (handle p d.env g.request (.start db)).1) ↔
    ¬ g.Leaks db := by
  constructor
  · intro hblind hleaks
    match g, hleaks with
    | .listCorroborations reviewId page, ⟨hpage, hpub⟩ =>
      obtain ⟨db', hagree, hne⟩ := exists_leak d.env db hpage hpub
      exact hne (hblind db' hagree)
  · intro hleaks db' hagree
    by_cases hpub : ∀ reviewId page, g = .listCorroborations reviewId page →
        ∃ r ∈ db.reviews.rows, r.id = reviewId ∧ r.status = .published
    · have hrows : g.SameRows (d.env.place 0) (Server.start db).db (Server.start db').db :=
        sameRows_of_agree hplace hagree g hpub
      exact (publicGet_congr p d.env g hrows rfl rfl).1.symm
    · -- a list of corroborations whose paging is refused before any row is read
      push Not at hpub
      obtain ⟨reviewId, page, rfl, hnone⟩ := hpub
      cases hpage : page.check with
      | error e =>
        have hrefused : ∀ db, listCorroborations d.env reviewId page db = .error e := fun db => by
          unfold listCorroborations
          rw [hpage]
          rfl
        show (listCorroborations d.env reviewId page db').map _ =
          (listCorroborations d.env reviewId page db).map _
        rw [hrefused, hrefused]
      | ok u =>
        refine absurd ⟨hpage, fun r hr => ?_⟩ hleaks
        obtain ⟨hmem, hid⟩ := (db.reviews.find?_eq_some _ _).mp hr
        exact hnone r hmem hid

/-- Bob has commented on Alice's review, which is still PENDING. -/
def pendingDb : Db :=
  { smallDb with
    reviews := ⟨[⟨20, 1, 5, .culture, .oneTo3yr, "engineering", .ic, true, "long hours", .pending,
      none, 0⟩], by decide⟩
    corroborations := ⟨[⟨21, 20, 2, some "same here", 1⟩], by decide⟩ }

/-- A clock and an engine that returns rows with equal sort keys by their ids. -/
def drawsInOrder : Draws := { drawsAt 0 30 with place := fun _ => id }

/-- On it the list of the company's reviews is blind, and the list of comments is not. -/
theorem pendingDb_blind :
    (∀ db', AgreeOnPublished pendingDb db' →
      (handle smallPlatform drawsInOrder.env (.listCompanyReviews 5 {}) (.start db')).1 =
        (handle smallPlatform drawsInOrder.env (.listCompanyReviews 5 {}) (.start pendingDb)).1) ∧
    ¬ ∀ db', AgreeOnPublished pendingDb db' →
      (handle smallPlatform drawsInOrder.env (.listCorroborations 20 {}) (.start db')).1 =
        (handle smallPlatform drawsInOrder.env (.listCorroborations 20 {})
          (.start pendingDb)).1 := by
  have hblind := fun g => public_get_blind_iff smallPlatform drawsInOrder Function.injective_id g
    pendingDb
  refine ⟨(hblind (.listCompanyReviews 5 {})).mpr fun h => h, fun h => ?_⟩
  refine (hblind (.listCorroborations 20 {})).mp h ⟨rfl, fun r hr => ?_⟩
  obtain ⟨hmem, -⟩ := (pendingDb.reviews.find?_eq_some _ _).mp hr
  rw [List.mem_singleton.mp hmem]
  decide

/-- The comment under the PENDING review is public. -/
theorem corroborations_leak :
    ¬ ∀ (p : Platform) (d : Draws) (db db' : Db) (g : PublicGet), Function.Injective (d.place 0) →
      AgreeOnPublished db db' →
        (handle p d.env g.request (.start db')).1 = (handle p d.env g.request (.start db)).1 := by
  intro hblind
  have hagree : AgreeOnPublished pendingDb smallDb := by
    constructor
    case reviews =>
      intro r hstatus
      refine ⟨fun hr => ?_, fun hr => by cases hr⟩
      rw [List.mem_singleton.mp hr] at hstatus
      cases hstatus
    case corroborations =>
      rintro c ⟨r, hr, hstatus, -⟩
      rw [List.mem_singleton.mp hr] at hstatus
      cases hstatus
    all_goals intros; exact Iff.rfl
  exact absurd (hblind smallPlatform drawsInOrder pendingDb smallDb (.listCorroborations 20 {})
    Function.injective_id hagree) (by decide)

end LinkedOut
