/-
  `app/services/stats.py`: the aggregation engine.

  `compute_company_stats` sends eight statements. Statement `i` reads `view i`, the
  database as it is committed when that statement runs; on a quiet database every
  view is the same.

  `sum_fullEnumCounts`: over all members of an enumeration the grouped counts sum to
  the number of published reviews of the view they were read from.
-/
import LinkedOut.Core
import LinkedOut.Percentages

namespace LinkedOut

/-! ## compute_company_stats -/

/-- The filter of every statement: PUBLISHED reviews of the company. -/
def publishedReviews (db : Db) (companyId : Uuid) : List Review :=
  db.reviews.select fun r => r.companyId == companyId && r.status == .published

def publishedLayoffEvents (db : Db) (companyId : Uuid) : List LayoffEvent :=
  db.layoffEvents.select fun e => e.companyId == companyId && e.status == .published

def countPublishedReviews (db : Db) (companyId : Uuid) : Nat :=
  (publishedReviews db companyId).length

/-- GROUP BY returns no row for a value that no review has. -/
def groupedCounts {κ : Type} [DecidableEq κ] (db : Db) (column : Review → κ) (companyId : Uuid) :
    κ → Option Nat := fun value =>
  match (publishedReviews db companyId).countP fun r => column r = value with
  | 0 => none
  | n + 1 => some (n + 1)

/-- Every member present, in declaration order. -/
def fullEnumCounts {κ : Type} (members : List κ) (grouped : κ → Option Nat) : List (κ × Nat) :=
  members.map fun member => (member, (grouped member).getD 0)

/-- The left outer join, one row without a corroboration for a review that has none. -/
def joinCorroborations (db : Db) (companyId : Uuid) : List (Review × Option Corroboration) :=
  (publishedReviews db companyId).flatMap fun r =>
    match db.corroborations.select fun c => c.reviewId == r.id with
    | [] => [(r, none)]
    | cs => cs.map fun c => (r, some c)

/-- `count(corroborations.id)` counts the rows where it is not NULL. -/
def corroborationTotal (db : Db) (companyId : Uuid) : Nat :=
  (joinCorroborations db companyId).countP fun row => row.2.isSome

def lastReviewAt (db : Db) (companyId : Uuid) : Option Time :=
  ((publishedReviews db companyId).map Review.createdAt).max?

def lastLayoffAt (db : Db) (companyId : Uuid) : Option Time :=
  ((publishedLayoffEvents db companyId).map LayoffEvent.createdAt).max?

/-- The two statements of `_last_updated` and the greater of what they return. -/
def lastUpdated (reviewView layoffView : Db) (companyId : Uuid) : Option Time :=
  ([lastReviewAt reviewView companyId, lastLayoffAt layoffView companyId].filterMap id).max?

/-- `max(counts, key=...)`: the first key with a greatest count. -/
def modalKey {κ : Type} : List (κ × Nat) → Option κ
  | [] => none
  | c :: cs => some (cs.foldl (fun best d => if best.2 < d.2 then d else best) c).1

structure TenureStats where
  modalBucket : TenureBucket
  distribution : List (TenureBucket × DistributionBucket)
  deriving DecidableEq, Repr

/-- The fields of `CompanyStatsOut` when `insufficient_data` is false. -/
structure FullStats where
  totalPublishedReviews : Nat
  exitReasonDistribution : List (ExitReason × DistributionBucket)
  avgTenureBucket : TenureStats
  currentVsFormerSplit : List (String × DistributionBucket)
  corroborationDensity : Rat
  roleLevelDistribution : List (RoleLevel × DistributionBucket)
  lastUpdated : Option Time
  deriving DecidableEq

inductive CompanyStats where
  | insufficientData (minimumRequired currentCount : Nat)
  | full (stats : FullStats)
  deriving DecidableEq

/-- The counts under `"current"` and `"former"`. -/
def currentFormerCounts (grouped : Bool → Option Nat) : List (String × Nat) :=
  [("current", (grouped true).getD 0), ("former", (grouped false).getD 0)]

/-- `compute_company_stats`; the division by a total of zero raises. -/
def computeCompanyStats (p : Platform) (view : Nat → Db) (companyId : Uuid) :
    Except HttpException CompanyStats :=
  let total := countPublishedReviews (view 0) companyId
  if total < p.settings.statsMinPublishedReviews then
    .ok (.insufficientData p.settings.statsMinPublishedReviews total)
  else
    let exitReasonCounts :=
      fullEnumCounts ExitReason.members (groupedCounts (view 1) Review.exitReason companyId)
    let tenureCounts :=
      fullEnumCounts TenureBucket.members (groupedCounts (view 2) Review.tenureBucket companyId)
    let roleLevelCounts :=
      fullEnumCounts RoleLevel.members (groupedCounts (view 3) Review.roleLevel companyId)
    let currentFormer :=
      currentFormerCounts (groupedCounts (view 4) Review.isCurrentEmployee companyId)
    match modalKey tenureCounts with
    | none => .error internalServerError
    | some modalTenureBucket =>
      if total = 0 then .error internalServerError
      else .ok (.full {
        totalPublishedReviews := total
        exitReasonDistribution := distributionWithPercentages exitReasonCounts total
        avgTenureBucket := {
          modalBucket := modalTenureBucket
          distribution := distributionWithPercentages tenureCounts total }
        currentVsFormerSplit := distributionWithPercentages currentFormer total
        corroborationDensity := p.roundedRatio (corroborationTotal (view 5) companyId) total
        roleLevelDistribution := distributionWithPercentages roleLevelCounts total
        lastUpdated := lastUpdated (view 6) (view 7) companyId })

/-! ## compute_layoff_timeline -/

/-- The year of a timestamp in the proleptic Gregorian calendar, by the number of
    400-, 100-, 4- and 1-year cycles before its day. -/
def yearOf (t : Time) : Int :=
  let n := t / 86400000000 + 719162
  let n400 := n / 146097
  let r400 := n % 146097
  let n100 := r400 / 36524
  let r100 := r400 % 36524
  let n4 := r100 / 1461
  let n1 := r100 % 1461 / 365
  let year := n400 * 400 + n100 * 100 + n4 * 4 + n1 + 1
  if n1 = 4 ∨ n100 = 4 then year - 1 else year

structure LayoffTimelineEvent where
  id : Uuid
  eventDate : Time
  department : Option String
  estimatedHeadcount : Option Int
  sourceType : LayoffSourceType
  runningTotalHeadcount : Option Int
  createdAt : Time
  deriving DecidableEq, Repr

structure LayoffTimeline where
  totalEvents : Nat
  years : List (Int × List LayoffTimelineEvent)
  deriving DecidableEq, Repr

/-- The loop over the events, oldest first. -/
def enrich : Int → List LayoffEvent → List LayoffTimelineEvent
  | _, [] => []
  | before, event :: events =>
    let runningTotal := before + event.estimatedHeadcount.getD 0
    { id := event.id
      eventDate := event.eventDate
      department := event.department
      estimatedHeadcount := event.estimatedHeadcount
      sourceType := event.sourceType
      runningTotalHeadcount := if 0 < runningTotal then some runningTotal else none
      createdAt := event.createdAt } :: enrich runningTotal events

/-- `years.setdefault(year, []).append(item)`. -/
def appendToYear (item : LayoffTimelineEvent) :
    List (Int × List LayoffTimelineEvent) → List (Int × List LayoffTimelineEvent)
  | [] => [(yearOf item.eventDate, [item])]
  | (year, events) :: years =>
    if year = yearOf item.eventDate then (year, events ++ [item]) :: years
    else (year, events) :: appendToYear item years

/-- `place` orders the events of one date. -/
def computeLayoffTimeline (place : Uuid → Nat) (db : Db) (companyId : Uuid) : LayoffTimeline :=
  let events := orderAsc (fun e => place e.id) LayoffEvent.eventDate
    (publishedLayoffEvents db companyId)
  let enriched := (enrich 0 events).reverse
  let years := enriched.foldl (fun years item => appendToYear item years) []
  { totalEvents := enriched.length, years := years.insertionSort fun a b => b.1 ≤ a.1 }

/-! ## The grouped counts -/

theorem groupedCounts_getD {κ : Type} [DecidableEq κ] (db : Db) (column : Review → κ)
    (companyId : Uuid) (value : κ) :
    (groupedCounts db column companyId value).getD 0 =
      (publishedReviews db companyId).countP fun r => column r = value := by
  unfold groupedCounts
  split
  · rename_i h; rw [h]; rfl
  · rename_i n h; rw [h]; rfl

/-- Counting by every member of a list without repeats counts every row once. -/
theorem sum_countP {α κ : Type} [DecidableEq κ] (members : List κ) (hnodup : members.Nodup)
    (column : α → κ) (rows : List α) (hall : ∀ r ∈ rows, column r ∈ members) :
    (members.map fun m => rows.countP fun r => column r = m).sum = rows.length := by
  induction rows with
  | nil => simp
  | cons r rows ih =>
    have hrows := ih fun s hs => hall s (List.mem_cons_of_mem _ hs)
    -- the new row is counted at its own member, once
    have hone : (members.map fun m => if column r = m then 1 else 0).sum = 1 := by
      rw [List.sum_map_eq_nsmul_single (column r) _ fun m hm _ => if_neg (Ne.symm hm),
        List.count_eq_one_of_mem hnodup (hall r List.mem_cons_self), if_pos rfl]
      rfl
    simp only [List.countP_cons, List.length_cons, decide_eq_true_eq]
    rw [List.sum_map_add, hrows, hone]

theorem keys_fullEnumCounts {κ : Type} (members : List κ) (grouped : κ → Option Nat) :
    (fullEnumCounts members grouped).map Prod.fst = members := by
  unfold fullEnumCounts
  rw [List.map_map]
  exact List.map_id members

theorem sum_fullEnumCounts {κ : Type} [DecidableEq κ] (members : List κ) (hnodup : members.Nodup)
    (hall : ∀ k, k ∈ members) (db : Db) (column : Review → κ) (companyId : Uuid) :
    ((fullEnumCounts members (groupedCounts db column companyId)).map Prod.snd).sum =
      countPublishedReviews db companyId := by
  unfold fullEnumCounts
  rw [List.map_map]
  simp only [Function.comp_def, groupedCounts_getD]
  exact sum_countP members hnodup column _ fun r _ => hall _

theorem sum_currentFormerCounts (db : Db) (companyId : Uuid) :
    ((currentFormerCounts (groupedCounts db Review.isCurrentEmployee companyId)).map Prod.snd).sum =
      countPublishedReviews db companyId :=
  sum_fullEnumCounts [true, false] (by decide) (by decide) db Review.isCurrentEmployee companyId

/-- The join counts every corroboration of a published review once. -/
theorem corroborationTotal_eq_sum (db : Db) (companyId : Uuid) :
    corroborationTotal db companyId = ((publishedReviews db companyId).map fun r =>
      (db.corroborations.select fun c => c.reviewId == r.id).length).sum := by
  unfold corroborationTotal joinCorroborations
  rw [List.countP_flatMap]
  refine congrArg List.sum (List.map_congr_left fun r _ => ?_)
  simp only [Function.comp_apply]
  split
  · rename_i hnil
    rw [hnil]
    rfl
  · rw [List.countP_map]
    exact List.countP_eq_length.mpr fun c _ => rfl

theorem ExitReason.members_nodup : ExitReason.members.Nodup := by decide

theorem ExitReason.mem_members (e : ExitReason) : e ∈ ExitReason.members := by
  cases e <;> decide

theorem TenureBucket.members_nodup : TenureBucket.members.Nodup := by decide

theorem TenureBucket.mem_members (t : TenureBucket) : t ∈ TenureBucket.members := by
  cases t <;> decide

theorem RoleLevel.members_nodup : RoleLevel.members.Nodup := by decide

theorem RoleLevel.mem_members (r : RoleLevel) : r ∈ RoleLevel.members := by
  cases r <;> decide

/-- A full payload needs enough published reviews, and then it is the one computed. -/
theorem computeCompanyStats_full {p : Platform} {view : Nat → Db} {companyId : Uuid}
    {stats : FullStats} (h : computeCompanyStats p view companyId = .ok (.full stats)) :
    ¬ countPublishedReviews (view 0) companyId < p.settings.statsMinPublishedReviews ∧
      0 < countPublishedReviews (view 0) companyId ∧
      stats.totalPublishedReviews = countPublishedReviews (view 0) companyId ∧
      stats.exitReasonDistribution = distributionWithPercentages (fullEnumCounts ExitReason.members
        (groupedCounts (view 1) Review.exitReason companyId)) stats.totalPublishedReviews ∧
      modalKey (fullEnumCounts TenureBucket.members
        (groupedCounts (view 2) Review.tenureBucket companyId)) =
          some stats.avgTenureBucket.modalBucket ∧
      stats.avgTenureBucket.distribution = distributionWithPercentages (fullEnumCounts
        TenureBucket.members (groupedCounts (view 2) Review.tenureBucket companyId))
          stats.totalPublishedReviews ∧
      stats.roleLevelDistribution = distributionWithPercentages (fullEnumCounts RoleLevel.members
        (groupedCounts (view 3) Review.roleLevel companyId)) stats.totalPublishedReviews ∧
      stats.currentVsFormerSplit = distributionWithPercentages (currentFormerCounts
        (groupedCounts (view 4) Review.isCurrentEmployee companyId))
          stats.totalPublishedReviews := by
  unfold computeCompanyStats at h
  dsimp only at h
  split at h
  · cases h
  · rename_i hmin
    split at h
    · cases h
    · rename_i bucket hbucket
      split at h
      · cases h
      · rename_i hzero
        cases h
        exact ⟨hmin, Nat.pos_of_ne_zero hzero, rfl, rfl, hbucket, rfl, rfl, rfl⟩

end LinkedOut
