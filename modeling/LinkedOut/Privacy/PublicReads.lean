/-
  The six public GETs, and what their answers depend on.

  `PublicGet.SameRows`: two databases give the query of the request the same rows, as
  far as its response model shows them. `publicGet_congr`: then the two answers are
  the same, and so are the caches left behind.

  The two-run results on unmoderated content and on anonymity each show `SameRows`.
-/
import LinkedOut.Api

namespace LinkedOut

/-- The GETs that take no token and read content. -/
inductive PublicGet where
  | listCompanyReviews (companyId : Uuid) (page : Page)
  | listCorroborations (reviewId : Uuid) (page : Page)
  | listCompanyLayoffEvents (companyId : Uuid) (page : Page)
  | getCompanyStats (companyId : Uuid)
  | getLayoffTimeline (companyId : Uuid)
  | listTakedownLog (page : Page)
  deriving DecidableEq

def PublicGet.request : PublicGet → Request
  | listCompanyReviews companyId page => .listCompanyReviews companyId page
  | listCorroborations reviewId page => .listCorroborations reviewId page
  | listCompanyLayoffEvents companyId page => .listCompanyLayoffEvents companyId page
  | getCompanyStats companyId => .getCompanyStats companyId
  | getLayoffTimeline companyId => .getLayoffTimeline companyId
  | listTakedownLog page => .listTakedownLog page

/-! ## The rows behind an answer -/

section

variable (place : Uuid → Nat) (db : Db)

/-- The published reviews of a company in the order of the list. -/
def orderedReviews (companyId : Uuid) : List Review :=
  orderDesc (fun r => place r.id) Review.createdAt (publishedReviews db companyId)

/-- The corroborations of a review, whatever its status. -/
def corroborationsOf (reviewId : Uuid) : List Corroboration :=
  db.corroborations.select fun c => c.reviewId == reviewId

def orderedCorroborations (reviewId : Uuid) : List Corroboration :=
  orderDesc (fun c => place c.id) Corroboration.createdAt (corroborationsOf db reviewId)

/-- The published layoff events of a company in the order of the list. -/
def orderedLayoffEvents (companyId : Uuid) : List LayoffEvent :=
  orderDesc (fun e => place e.id) LayoffEvent.eventDate (publishedLayoffEvents db companyId)

/-- The same events in the order of the timeline. -/
def timelineEvents (companyId : Uuid) : List LayoffEvent :=
  orderAsc (fun e => place e.id) LayoffEvent.eventDate (publishedLayoffEvents db companyId)

def orderedTakedowns : List TakedownLogEntry :=
  orderDesc (fun e => place e.id) TakedownLogEntry.createdAt
    (db.takedownLogEntries.select fun _ => true)

end

/-- What the eight statements of the stats see. -/
structure SameStatsRows (db db' : Db) (companyId : Uuid) : Prop where
  reviews : ((publishedReviews db companyId).map Review.read).Perm
    ((publishedReviews db' companyId).map Review.read)
  corroborations : corroborationTotal db companyId = corroborationTotal db' companyId
  layoffEvents : ((publishedLayoffEvents db companyId).map LayoffEvent.read).Perm
    ((publishedLayoffEvents db' companyId).map LayoffEvent.read)

def SameCompany (db db' : Db) (companyId : Uuid) : Prop :=
  (db.companies.find? companyId).isSome = (db'.companies.find? companyId).isSome

/-- The two databases give the query of the request the same rows. -/
def PublicGet.SameRows (place : Uuid → Nat) (db db' : Db) : PublicGet → Prop
  | listCompanyReviews companyId _ =>
    (orderedReviews place db companyId).map Review.read =
      (orderedReviews place db' companyId).map Review.read
  | listCorroborations reviewId _ =>
    (db.reviews.find? reviewId).isSome = (db'.reviews.find? reviewId).isSome ∧
      (orderedCorroborations place db reviewId).map Corroboration.read =
        (orderedCorroborations place db' reviewId).map Corroboration.read
  | listCompanyLayoffEvents companyId _ =>
    (orderedLayoffEvents place db companyId).map LayoffEvent.read =
      (orderedLayoffEvents place db' companyId).map LayoffEvent.read
  | getCompanyStats companyId => SameCompany db db' companyId ∧ SameStatsRows db db' companyId
  | getLayoffTimeline companyId => SameCompany db db' companyId ∧
    (timelineEvents place db companyId).map LayoffEvent.read =
      (timelineEvents place db' companyId).map LayoffEvent.read
  | listTakedownLog _ => orderedTakedowns place db = orderedTakedowns place db'

/-! ## The same rows, the same page -/

/-- A page shows the rows as they read, and how many there are. -/
theorem paginate_congr {α β : Type} (page : Page) {read : α → β}
    {rows rows' ordered ordered' : List α}
    (hperm : ordered.Perm rows) (hperm' : ordered'.Perm rows')
    (h : ordered.map read = ordered'.map read) :
    paginate page rows ordered read = paginate page rows' ordered' read := by
  have hlength : rows.length = rows'.length := by
    have hmap := congrArg List.length h
    rw [List.length_map, List.length_map, hperm.length_eq, hperm'.length_eq] at hmap
    exact hmap
  unfold paginate
  rw [Page.map_slice, Page.map_slice, h, hlength]

theorem requireCompany_congr {db db' : Db} {companyId : Uuid} (h : SameCompany db db' companyId) :
    requireCompany companyId db = requireCompany companyId db' := by
  unfold SameCompany at h
  unfold requireCompany
  rw [scalarOneOrNone_pk, scalarOneOrNone_pk]
  cases h1 : db.companies.find? companyId with
  | none =>
    rw [h1, Option.isSome_none] at h
    rw [Option.isSome_eq_false_iff.mp h.symm |> Option.isNone_iff_eq_none.mp]
  | some c =>
    rw [h1, Option.isSome_some] at h
    obtain ⟨c', hc'⟩ := Option.isSome_iff_exists.mp h.symm
    rw [hc']
    rfl

theorem cachedByCompany_congr {α : Type} (p : Platform) (env : Env)
    {compute compute' : Except HttpException α} {companyId : Uuid} {db db' : Db}
    (cache : TTLCache Uuid α) (hcompany : SameCompany db db' companyId)
    (hcompute : compute = compute') :
    cachedByCompany p env compute companyId db cache =
      cachedByCompany p env compute' companyId db' cache := by
  subst hcompute
  unfold cachedByCompany
  rw [requireCompany_congr hcompany]

theorem listCorroborations_congr (env : Env) {db db' : Db} {reviewId : Uuid} (page : Page)
    (hreview : (db.reviews.find? reviewId).isSome = (db'.reviews.find? reviewId).isSome)
    (hrows : (orderedCorroborations (env.place 0) db reviewId).map Corroboration.read =
      (orderedCorroborations (env.place 0) db' reviewId).map Corroboration.read) :
    listCorroborations env reviewId page db = listCorroborations env reviewId page db' := by
  unfold listCorroborations
  rw [scalarOneOrNone_pk, scalarOneOrNone_pk]
  have hpage := paginate_congr page
    (perm_orderDesc (fun c : Corroboration => env.place 0 c.id) _ (corroborationsOf db reviewId))
    (perm_orderDesc (fun c : Corroboration => env.place 0 c.id) _ (corroborationsOf db' reviewId))
    hrows
  refine bind_congr fun _ => ?_
  cases h1 : db.reviews.find? reviewId with
  | none =>
    rw [h1, Option.isSome_none] at hreview
    rw [Option.isSome_eq_false_iff.mp hreview.symm |> Option.isNone_iff_eq_none.mp]
    rfl
  | some r =>
    rw [h1, Option.isSome_some] at hreview
    obtain ⟨r', hr'⟩ := Option.isSome_iff_exists.mp hreview.symm
    rw [hr']
    exact congrArg Except.ok hpage

/-! ## The same rows, the same aggregations -/

theorem groupedCounts_congr {κ : Type} [DecidableEq κ] {db db' : Db} {companyId : Uuid}
    (h : SameStatsRows db db' companyId) (column : ReviewRead → κ) :
    groupedCounts db (fun r => column r.read) companyId =
      groupedCounts db' (fun r => column r.read) companyId := by
  funext value
  have hcount := h.reviews.countP_eq fun r => decide (column r = value)
  rw [List.countP_map, List.countP_map] at hcount
  unfold groupedCounts
  simp only [Function.comp_def] at hcount
  rw [hcount]

/-- The maximum of a list does not depend on its order. -/
theorem max?_perm {l l' : List Time} (h : l.Perm l') : l.max? = l'.max? := by
  refine Option.ext fun t => ?_
  rw [List.max?_eq_some_iff, List.max?_eq_some_iff, h.mem_iff]
  exact and_congr_right fun _ => forall_congr' fun b => by rw [h.mem_iff]

theorem lastUpdated_congr {db db' : Db} {companyId : Uuid} (h : SameStatsRows db db' companyId) :
    lastUpdated db db companyId = lastUpdated db' db' companyId := by
  have hreviews := max?_perm (h.reviews.map ReviewRead.createdAt)
  have hlayoffs := max?_perm (h.layoffEvents.map LayoffEventRead.createdAt)
  simp only [List.map_map] at hreviews hlayoffs
  unfold lastUpdated lastReviewAt lastLayoffAt
  show ([((publishedReviews db companyId).map (ReviewRead.createdAt ∘ Review.read)).max?,
    ((publishedLayoffEvents db companyId).map
      (LayoffEventRead.createdAt ∘ LayoffEvent.read)).max?].filterMap id).max? = _
  rw [hreviews, hlayoffs]
  rfl

theorem computeCompanyStats_congr (p : Platform) {db db' : Db} {companyId : Uuid}
    (h : SameStatsRows db db' companyId) :
    computeCompanyStats p (fun _ => db) companyId =
      computeCompanyStats p (fun _ => db') companyId := by
  have htotal : countPublishedReviews db companyId = countPublishedReviews db' companyId := by
    simpa [countPublishedReviews] using h.reviews.length_eq
  have hexit : groupedCounts db Review.exitReason companyId =
      groupedCounts db' Review.exitReason companyId :=
    groupedCounts_congr h ReviewRead.exitReason
  have htenure : groupedCounts db Review.tenureBucket companyId =
      groupedCounts db' Review.tenureBucket companyId :=
    groupedCounts_congr h ReviewRead.tenureBucket
  have hrole : groupedCounts db Review.roleLevel companyId =
      groupedCounts db' Review.roleLevel companyId :=
    groupedCounts_congr h ReviewRead.roleLevel
  have hcurrent : groupedCounts db Review.isCurrentEmployee companyId =
      groupedCounts db' Review.isCurrentEmployee companyId :=
    groupedCounts_congr h ReviewRead.isCurrentEmployee
  unfold computeCompanyStats
  simp only [htotal, hexit, htenure, hrole, hcurrent, h.corroborations, lastUpdated_congr h]

/-- The timeline reads no column that the response model hides. -/
theorem enrich_congr {events events' : List LayoffEvent}
    (h : events.map LayoffEvent.read = events'.map LayoffEvent.read) (before : Int) :
    enrich before events = enrich before events' := by
  induction events generalizing events' before with
  | nil =>
    rw [List.map_nil, eq_comm, List.map_eq_nil_iff] at h
    rw [h]
  | cons e events ih =>
    match events', h with
    | e' :: events', h =>
      simp only [List.map_cons, List.cons.injEq, LayoffEvent.read, LayoffEventRead.mk.injEq] at h
      obtain ⟨⟨hid, -, hdate, hdepartment, hheadcount, hsource, -, -, hcreated⟩, hrest⟩ := h
      simp only [enrich, hid, hdate, hdepartment, hheadcount, hsource, hcreated]
      rw [ih hrest]

theorem computeLayoffTimeline_congr {place : Uuid → Nat} {db db' : Db} {companyId : Uuid}
    (h : (timelineEvents place db companyId).map LayoffEvent.read =
      (timelineEvents place db' companyId).map LayoffEvent.read) :
    computeLayoffTimeline place db companyId = computeLayoffTimeline place db' companyId := by
  have henrich := enrich_congr h 0
  unfold timelineEvents at henrich
  unfold computeLayoffTimeline
  simp only [henrich]

/-! ## The same rows, the same answer -/

theorem handle_publicGet_db (p : Platform) (env : Env) (g : PublicGet) (s : Server) :
    (handle p env g.request s).2.db = s.db := by
  cases g <;> rfl

/-- The answer and the caches left behind depend on nothing but the rows and the caches. -/
theorem publicGet_congr (p : Platform) (env : Env) (g : PublicGet) {s s' : Server}
    (hrows : g.SameRows (env.place 0) s.db s'.db) (hstats : s.statsCache = s'.statsCache)
    (htimeline : s.timelineCache = s'.timelineCache) :
    (handle p env g.request s).1 = (handle p env g.request s').1 ∧
      (handle p env g.request s).2.statsCache = (handle p env g.request s').2.statsCache ∧
      (handle p env g.request s).2.timelineCache =
        (handle p env g.request s').2.timelineCache := by
  cases g with
  | listCompanyReviews companyId page =>
    have h : listCompanyReviews env companyId page s.db =
        listCompanyReviews env companyId page s'.db :=
      bind_congr fun _ => congrArg Except.ok
        (paginate_congr page (perm_orderDesc _ _ _) (perm_orderDesc _ _ _) hrows)
    exact ⟨congrArg (Except.map Payload.reviews) h, hstats, htimeline⟩
  | listCorroborations reviewId page =>
    have h := listCorroborations_congr env page hrows.1 hrows.2
    exact ⟨congrArg (Except.map Payload.corroborations) h, hstats, htimeline⟩
  | listCompanyLayoffEvents companyId page =>
    have h : listCompanyLayoffEvents env companyId page s.db =
        listCompanyLayoffEvents env companyId page s'.db :=
      bind_congr fun _ => congrArg Except.ok
        (paginate_congr page (perm_orderDesc _ _ _) (perm_orderDesc _ _ _) hrows)
    exact ⟨congrArg (Except.map Payload.layoffEvents) h, hstats, htimeline⟩
  | getCompanyStats companyId =>
    have h : getCompanyStats p env companyId s.db s.statsCache =
        getCompanyStats p env companyId s'.db s'.statsCache := by
      rw [← hstats]
      exact cachedByCompany_congr p env _ hrows.1 (computeCompanyStats_congr p hrows.2)
    exact ⟨congrArg (fun r => r.1.map Payload.companyStats) h, congrArg Prod.snd h, htimeline⟩
  | getLayoffTimeline companyId =>
    have h : getLayoffTimeline p env companyId s.db s.timelineCache =
        getLayoffTimeline p env companyId s'.db s'.timelineCache := by
      rw [← htimeline]
      exact cachedByCompany_congr p env _ hrows.1
        (congrArg Except.ok (computeLayoffTimeline_congr hrows.2))
    exact ⟨congrArg (fun r => r.1.map Payload.layoffTimeline) h, hstats, congrArg Prod.snd h⟩
  | listTakedownLog page =>
    have h : listTakedownLog env page s.db = listTakedownLog env page s'.db :=
      bind_congr fun _ => congrArg Except.ok
        (paginate_congr page (perm_orderDesc _ _ _) (perm_orderDesc _ _ _)
          (congrArg (List.map id) hrows))
    exact ⟨congrArg (Except.map Payload.takedownLog) h, hstats, htimeline⟩

end LinkedOut
