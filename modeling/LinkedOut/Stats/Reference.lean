/-
  `compute_company_stats` against its reference: plain counts over the published reviews
  of the company.

  On one snapshot the grouped counts zero-filled over an enumeration, the left outer join
  and the five status filters all speak of the same list of reviews. `Counts` is what a
  distribution of that list is, `Describes` what a whole payload is;
  `stats_reference`: below the threshold the call gives the insufficient-data payload,
  otherwise one that describes the published reviews.
-/
import Mathlib.Data.List.Count
import LinkedOut.Api

namespace LinkedOut

/-! ## The reference -/

/-- `dist` counts the reviews by `column`, each value once under its label. -/
structure Counts {κ β : Type} [DecidableEq κ] [DecidableEq β] (reviews : List Review)
    (column : Review → κ) (label : κ → β) (dist : List (β × DistributionBucket)) : Prop where
  once : ∀ value, (dist.map Prod.fst).count (label value) = 1
  only : ∀ b ∈ dist, ∃ value, b.1 = label value
  count : ∀ value, ∀ b ∈ dist, b.1 = label value →
    b.2.count = reviews.countP fun r => column r = value
  sum : (dist.map fun b => b.2.count).sum = reviews.length

/-- The key under which `current_vs_former_split` has a review. -/
def currentOrFormer (isCurrentEmployee : Bool) : String :=
  if isCurrentEmployee then "current" else "former"

/-- The corroborations of the reviews. -/
def attachedCorroborations (db : Db) (reviews : List Review) : List Corroboration :=
  db.corroborations.rows.filter fun c => decide (c.reviewId ∈ reviews.map Review.id)

/-- The payload says of the reviews and the layoff events what there is to say. -/
structure FullStats.Describes (stats : FullStats) (p : Platform) (db : Db) (reviews : List Review)
    (layoffs : List LayoffEvent) : Prop where
  total : stats.totalPublishedReviews = reviews.length
  exitReason : Counts reviews Review.exitReason id stats.exitReasonDistribution
  tenure : Counts reviews Review.tenureBucket id stats.avgTenureBucket.distribution
  roleLevel : Counts reviews Review.roleLevel id stats.roleLevelDistribution
  currentFormer : Counts reviews Review.isCurrentEmployee currentOrFormer stats.currentVsFormerSplit
  modal : ∀ bucket, (reviews.countP fun r => r.tenureBucket = bucket) ≤
    reviews.countP fun r => r.tenureBucket = stats.avgTenureBucket.modalBucket
  density : stats.corroborationDensity =
    p.roundedRatio (attachedCorroborations db reviews).length reviews.length
  lastUpdated : ∃ t, stats.lastUpdated = some t ∧
    t ∈ reviews.map Review.createdAt ++ layoffs.map LayoffEvent.createdAt ∧
      ∀ t' ∈ reviews.map Review.createdAt ++ layoffs.map LayoffEvent.createdAt, t' ≤ t

/-! ## Distributions -/

section

variable {κ : Type} [DecidableEq κ]

theorem distribution_bucket (counts : List (κ × Nat)) (total : Nat) :
    (distributionWithPercentages counts total).map (fun b => (b.1, b.2.count)) = counts := by
  have hkeys := distribution_keys counts total
  have hcounts := distribution_counts counts total
  have hzip : ∀ l : List (κ × DistributionBucket),
      l.map (fun b => (b.1, b.2.count)) = (l.map Prod.fst).zip (l.map fun b => b.2.count) := by
    intro l
    induction l with
    | nil => rfl
    | cons b l ih => simp [ih]
  rw [hzip, hkeys, hcounts]
  induction counts with
  | nil => rfl
  | cons c counts ih => simp [List.zip_map']

/-- The grouped counts, zero-filled over all members and labelled, are a distribution. -/
theorem counts_of_members {β : Type} [DecidableEq β] {members : List κ} (hnodup : members.Nodup)
    (hall : ∀ m, m ∈ members) {label : κ → β} (hlabel : Function.Injective label) (db : Db)
    (column : Review → κ) (companyId : Uuid) {counts : List (β × Nat)} {total : Nat}
    (hcounts : counts =
      members.map fun m => (label m, (groupedCounts db column companyId m).getD 0)) :
    Counts (publishedReviews db companyId) column label
      (distributionWithPercentages counts total) := by
  have hkeys : (distributionWithPercentages counts total).map Prod.fst = members.map label := by
    rw [distribution_keys, hcounts, List.map_map]
    rfl
  constructor
  · intro value
    rw [hkeys, List.count_map_of_injective _ _ hlabel]
    exact List.count_eq_one_of_mem hnodup (hall value)
  · intro b hb
    have hmem : b.1 ∈ members.map label := by
      rw [← hkeys]
      exact List.mem_map_of_mem hb
    obtain ⟨m, -, hm⟩ := List.mem_map.mp hmem
    exact ⟨m, hm.symm⟩
  · intro value b hb hvalue
    have hmem : (b.1, b.2.count) ∈ counts := by
      rw [← distribution_bucket counts total]
      exact List.mem_map_of_mem (f := fun b : β × DistributionBucket => (b.1, b.2.count)) hb
    rw [hcounts] at hmem
    obtain ⟨m, -, hm⟩ := List.mem_map.mp hmem
    have hm1 : label m = b.1 := congrArg Prod.fst hm
    have hm2 : (groupedCounts db column companyId m).getD 0 = b.2.count := congrArg Prod.snd hm
    rw [← hm2, hlabel (hm1.trans hvalue), groupedCounts_getD]
  · rw [distribution_counts, hcounts, List.map_map]
    have hsum := sum_fullEnumCounts members hnodup hall db column companyId
    unfold fullEnumCounts at hsum
    rw [List.map_map] at hsum
    exact hsum

end

/-! ## The modal bucket -/

/-- The fold keeps an entry that nothing before it exceeds. -/
theorem foldl_greatest {κ : Type} (cs : List (κ × Nat)) (best : κ × Nat) :
    let r := cs.foldl (fun best d => if best.2 < d.2 then d else best) best
    (r = best ∨ r ∈ cs) ∧ best.2 ≤ r.2 ∧ ∀ c ∈ cs, c.2 ≤ r.2 := by
  induction cs generalizing best with
  | nil => exact ⟨Or.inl rfl, le_rfl, fun c hc => by cases hc⟩
  | cons d cs ih =>
    obtain ⟨hmem, hbest, hall⟩ := ih (if best.2 < d.2 then d else best)
    have hboth : best.2 ≤ (if best.2 < d.2 then d else best).2 ∧
        d.2 ≤ (if best.2 < d.2 then d else best).2 := by
      split <;> omega
    refine ⟨?_, hboth.1.trans hbest, fun c hc => ?_⟩
    · rcases hmem with heq | hmem
      · rw [List.foldl_cons, heq]
        split
        · exact Or.inr List.mem_cons_self
        · exact Or.inl rfl
      · exact Or.inr (List.mem_cons_of_mem _ hmem)
    · rcases List.mem_cons.mp hc with rfl | hc
      · exact hboth.2.trans hbest
      · exact hall c hc

theorem modalKey_greatest {κ : Type} {counts : List (κ × Nat)} {key : κ}
    (h : modalKey counts = some key) : ∃ n, (key, n) ∈ counts ∧ ∀ c ∈ counts, c.2 ≤ n := by
  cases counts with
  | nil => cases h
  | cons c cs =>
    obtain ⟨hmem, hbest, hall⟩ := foldl_greatest cs c
    have hkey : (cs.foldl (fun best d => if best.2 < d.2 then d else best) c).1 = key :=
      Option.some.inj h
    refine ⟨(cs.foldl (fun best d => if best.2 < d.2 then d else best) c).2, ?_, fun d hd => ?_⟩
    · rw [← hkey]
      rcases hmem with heq | hmem
      · rw [heq]
        exact List.mem_cons_self
      · exact List.mem_cons_of_mem _ hmem
    · rcases List.mem_cons.mp hd with rfl | hd
      · exact hbest
      · exact hall d hd

/-- The modal bucket has a greatest count among all members. -/
theorem modal_members {κ : Type} [DecidableEq κ] {members : List κ} (hall : ∀ m, m ∈ members)
    {db : Db} {column : Review → κ} {companyId : Uuid} {key : κ}
    (h : modalKey (fullEnumCounts members (groupedCounts db column companyId)) = some key) (m : κ) :
    ((publishedReviews db companyId).countP fun r => column r = m) ≤
      (publishedReviews db companyId).countP fun r => column r = key := by
  obtain ⟨n, hkey, hgreatest⟩ := modalKey_greatest h
  have hentry : ∀ m, (m, (groupedCounts db column companyId m).getD 0) ∈
      fullEnumCounts members (groupedCounts db column companyId) :=
    fun m => List.mem_map_of_mem (f := fun m => (m, (groupedCounts db column companyId m).getD 0))
      (hall m)
  have hn : (groupedCounts db column companyId key).getD 0 = n := by
    obtain ⟨k, -, hk⟩ := List.mem_map.mp hkey
    cases hk
    rfl
  have hle := hgreatest _ (hentry m)
  rw [← hn, groupedCounts_getD, groupedCounts_getD] at hle
  exact hle

/-! ## The corroborations -/

/-- The outer join counts the corroborations of the published reviews, each once. -/
theorem corroborationTotal_eq (db : Db) (companyId : Uuid) :
    corroborationTotal db companyId =
      (attachedCorroborations db (publishedReviews db companyId)).length := by
  have hnodup : ((publishedReviews db companyId).map Review.id).Nodup := by
    refine List.pairwise_map.mpr ((db.reviews.distinct.filter _).imp fun {a b} hab hid => ?_)
    rw [Record.clash_of_pk a b hid] at hab
    cases hab
  have hcount := sum_countP _ hnodup Corroboration.reviewId
    (attachedCorroborations db (publishedReviews db companyId))
    fun c hc => of_decide_eq_true (List.mem_filter.mp hc).2
  rw [corroborationTotal_eq_sum, ← hcount, List.map_map]
  refine congrArg List.sum (List.map_congr_left fun r hr => ?_)
  -- the corroborations of one review are all among those counted
  rw [Function.comp_apply, attachedCorroborations, List.countP_filter, Table.select,
    ← List.countP_eq_length_filter]
  refine List.countP_congr fun c _ => ?_
  have hmem : r.id ∈ (publishedReviews db companyId).map Review.id := List.mem_map_of_mem hr
  simp only [beq_iff_eq, Bool.and_eq_true, decide_eq_true_eq]
  exact ⟨fun h => ⟨h, h ▸ hmem⟩, fun h => h.1⟩

/-! ## The latest timestamp -/

theorem max?_greatest {times : List Time} {t : Time} (h : times.max? = some t) :
    t ∈ times ∧ ∀ t' ∈ times, t' ≤ t :=
  ⟨(List.max?_eq_some_iff.mp h).1, (List.max?_eq_some_iff.mp h).2⟩

/-- The greater of two greatest timestamps is the greatest of both lists. -/
theorem max?_append (xs ys : List Time) (hne : xs ≠ []) :
    ∃ t, ([xs.max?, ys.max?].filterMap id).max? = some t ∧ t ∈ xs ++ ys ∧
      ∀ t' ∈ xs ++ ys, t' ≤ t := by
  obtain ⟨a, ha⟩ := Option.isSome_iff_exists.mp (List.isSome_max?_of_ne_nil hne)
  obtain ⟨hamem, hamax⟩ := max?_greatest ha
  cases hb : ys.max? with
  | none =>
    have hnil : ys = [] := List.max?_eq_none_iff.mp hb
    refine ⟨a, by rw [ha]; rfl, List.mem_append_left _ hamem, fun t' ht' => ?_⟩
    rw [hnil, List.append_nil] at ht'
    exact hamax t' ht'
  | some b =>
    obtain ⟨hbmem, hbmax⟩ := max?_greatest hb
    refine ⟨max a b, by rw [ha]; rfl, ?_, fun t' ht' => ?_⟩
    · rcases max_choice a b with h | h
      · rw [h]
        exact List.mem_append_left _ hamem
      · rw [h]
        exact List.mem_append_right _ hbmem
    · rcases List.mem_append.mp ht' with ht' | ht'
      · exact (hamax t' ht').trans (le_max_left a b)
      · exact (hbmax t' ht').trans (le_max_right a b)

/-! ## The call -/

theorem currentOrFormer_injective : Function.Injective currentOrFormer := by
  intro a b h
  cases a <;> cases b <;> first | rfl | exact absurd h (by decide)

/-- On one snapshot and with a threshold of at least 1, the call gives the insufficient-data
    payload below the threshold and otherwise one that describes the published reviews. -/
theorem stats_reference (p : Platform) (db : Db) (companyId : Uuid)
    (hmin : 1 ≤ p.settings.statsMinPublishedReviews) :
    if (publishedReviews db companyId).length < p.settings.statsMinPublishedReviews then
      computeCompanyStats p (fun _ => db) companyId =
        .ok (.insufficientData p.settings.statsMinPublishedReviews
          (publishedReviews db companyId).length)
    else ∃ stats, computeCompanyStats p (fun _ => db) companyId = .ok (.full stats) ∧
      stats.Describes p db (publishedReviews db companyId) (publishedLayoffEvents db companyId) := by
  split
  · rename_i hfew
    exact if_pos hfew
  · rename_i henough
    have hpos : countPublishedReviews db companyId ≠ 0 := by
      unfold countPublishedReviews
      omega
    obtain ⟨bucket, hbucket⟩ : ∃ bucket, modalKey (fullEnumCounts TenureBucket.members
        (groupedCounts db Review.tenureBucket companyId)) = some bucket := ⟨_, rfl⟩
    have hne : (publishedReviews db companyId).map Review.createdAt ≠ [] := by
      intro hnil
      exact hpos (by rw [countPublishedReviews, List.map_eq_nil_iff.mp hnil]; rfl)
    unfold computeCompanyStats
    dsimp only
    rw [if_neg (show ¬ countPublishedReviews db companyId < _ from henough), hbucket]
    dsimp only
    rw [if_neg hpos]
    refine ⟨_, rfl, ?_⟩
    constructor
    · rfl
    · exact counts_of_members ExitReason.members_nodup ExitReason.mem_members
        Function.injective_id db Review.exitReason companyId rfl
    · exact counts_of_members TenureBucket.members_nodup TenureBucket.mem_members
        Function.injective_id db Review.tenureBucket companyId rfl
    · exact counts_of_members RoleLevel.members_nodup RoleLevel.mem_members
        Function.injective_id db Review.roleLevel companyId rfl
    · have hall : ∀ b, b ∈ [true, false] := by decide
      exact counts_of_members (by decide) hall currentOrFormer_injective db
        Review.isCurrentEmployee companyId rfl
    · exact modal_members TenureBucket.mem_members hbucket
    · dsimp only
      rw [corroborationTotal_eq]
      rfl
    · exact max?_append _ _ hne

/-- A deployment that answers from two published reviews on. -/
def lowThreshold : Platform := { smallPlatform with settings := { statsMinPublishedReviews := 2 } }

/-- Two published reviews, the first corroborated by the author of the second. -/
def reviewedDb : Db :=
  { smallDb with
    reviews := ⟨[⟨20, 1, 5, .culture, .oneTo3yr, "engineering", .ic, true, "long hours", .published,
        none, 3⟩,
      ⟨21, 2, 5, .growth, .oneTo3yr, "sales", .manager, false, "no path", .published, none, 4⟩],
      by decide⟩
    corroborations := ⟨[⟨30, 20, 2, none, 6⟩], by decide⟩ }

theorem reviewedDb_described :
    ∃ stats, computeCompanyStats lowThreshold (fun _ => reviewedDb) 5 = .ok (.full stats) ∧
      stats.Describes lowThreshold reviewedDb (publishedReviews reviewedDb 5)
        (publishedLayoffEvents reviewedDb 5) := by
  have h := stats_reference lowThreshold reviewedDb 5 (by decide)
  rwa [if_neg (by decide)] at h

example : corroborationTotal reviewedDb 5 = 1 := by decide

end LinkedOut
