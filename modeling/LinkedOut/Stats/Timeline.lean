/-
  The layoff timeline, for every order in which the query may return its rows.

  The loop accumulates forward, the list is reversed, grouped by year through a dictionary
  and the groups are sorted. `yearOf_mono`: years come in the order of the dates, so the
  grouping cuts the reversed list into blocks and the last sort has nothing to do
  (`grouped_years`). `layoff_timeline`: the payload is the one described by `IsTimelineOf`.
  `timeline_determined_iff`: it is the same for all orders exactly when no two dates are
  equal; `shared_date_totals` is a company with two events of one day.
-/
import LinkedOut.Lists
import LinkedOut.Privacy.PublicReads
import Mathlib.Algebra.Ring.Int.Defs
import Mathlib.Data.List.Pairwise

namespace LinkedOut

/-! ## Years -/

/-- The days from 0001-01-01 to the first day of a year. -/
def daysBeforeYear (year : Int) : Int :=
  let y := year - 1
  365 * y + y / 4 - y / 100 + y / 400

/-- `yearOf`, by the number of days since 0001-01-01. -/
def yearOfDay (n : Int) : Int :=
  let n400 := n / 146097
  let r400 := n % 146097
  let n100 := r400 / 36524
  let r100 := r400 % 36524
  let n4 := r100 / 1461
  let n1 := r100 % 1461 / 365
  let year := n400 * 400 + n100 * 100 + n4 * 4 + n1 + 1
  if n1 = 4 ∨ n100 = 4 then year - 1 else year

theorem yearOf_eq (t : Time) : yearOf t = yearOfDay (t / 86400000000 + 719162) := rfl

theorem daysBeforeYear_mono {y z : Int} (h : y ≤ z) : daysBeforeYear y ≤ daysBeforeYear z := by
  rcases eq_or_lt_of_le h with rfl | hlt
  · rfl
  · unfold daysBeforeYear
    dsimp only
    omega

theorem daysBeforeYear_succ (y : Int) : daysBeforeYear y + 365 ≤ daysBeforeYear (y + 1) := by
  unfold daysBeforeYear
  dsimp only
  omega

theorem daysBeforeYear_radix {a b c d : Int} (hb : 0 ≤ b ∧ b ≤ 3) (hc : 0 ≤ c ∧ c ≤ 24)
    (hd : 0 ≤ d ∧ d ≤ 3) :
    daysBeforeYear (a * 400 + b * 100 + c * 4 + d + 1) =
      a * 146097 + b * 36524 + c * 1461 + d * 365 := by
  unfold daysBeforeYear
  dsimp only
  have h4 : (a * 400 + b * 100 + c * 4 + d + 1 - 1) / 4 = a * 100 + b * 25 + c := by omega
  have h100 : (a * 400 + b * 100 + c * 4 + d + 1 - 1) / 100 = a * 4 + b := by omega
  have h400 : (a * 400 + b * 100 + c * 4 + d + 1 - 1) / 400 = a := by omega
  rw [h4, h100, h400]
  omega

/-- A day lies in its year. -/
theorem yearOfDay_spec (n : Int) :
    daysBeforeYear (yearOfDay n) ≤ n ∧ n < daysBeforeYear (yearOfDay n + 1) := by
  unfold yearOfDay
  dsimp only
  obtain ⟨a, ha⟩ : ∃ a : Int, n / 146097 = a := ⟨_, rfl⟩
  obtain ⟨r, hr⟩ : ∃ r : Int, n % 146097 = r := ⟨_, rfl⟩
  rw [ha, hr]
  obtain ⟨b, hb⟩ : ∃ b : Int, r / 36524 = b := ⟨_, rfl⟩
  obtain ⟨q, hq⟩ : ∃ q : Int, r % 36524 = q := ⟨_, rfl⟩
  rw [hb, hq]
  obtain ⟨c, hc⟩ : ∃ c : Int, q / 1461 = c := ⟨_, rfl⟩
  obtain ⟨d, hd⟩ : ∃ d : Int, q % 1461 / 365 = d := ⟨_, rfl⟩
  rw [hc, hd]
  have hc24 : 0 ≤ c ∧ c ≤ 24 := by omega
  split
  · rename_i hlast
    rcases hlast with rfl | rfl
    · -- the 366th day of a leap year
      have hyear := daysBeforeYear_radix (a := a) (b := b) (c := c) (d := 3) (by omega) hc24
        (by decide)
      have hnext := daysBeforeYear_radix (a := a) (b := b) (c := c + 1) (d := 0) (by omega)
        (by omega) (by decide)
      rw [show a * 400 + b * 100 + c * 4 + 4 + 1 - 1 = a * 400 + b * 100 + c * 4 + 3 + 1 by omega,
        hyear, show a * 400 + b * 100 + c * 4 + 3 + 1 + 1 =
          a * 400 + b * 100 + (c + 1) * 4 + 0 + 1 by omega, hnext]
      omega
    · -- the last day of a cycle of 400 years
      have hyear := daysBeforeYear_radix (a := a) (b := 3) (c := 24) (d := 3) (by decide)
        (by decide) (by decide)
      have hnext := daysBeforeYear_radix (a := a + 1) (b := 0) (c := 0) (d := 0) (by decide)
        (by decide) (by decide)
      have hcd : c = 0 ∧ d = 0 := by omega
      rw [hcd.1, hcd.2, show a * 400 + 4 * 100 + 0 * 4 + 0 + 1 - 1 =
          a * 400 + 3 * 100 + 24 * 4 + 3 + 1 by omega,
        hyear, show a * 400 + 3 * 100 + 24 * 4 + 3 + 1 + 1 =
          (a + 1) * 400 + 0 * 100 + 0 * 4 + 0 + 1 by omega, hnext]
      omega
  · have hyear := daysBeforeYear_radix (a := a) (b := b) (c := c) (d := d) (by omega) hc24
      (by omega)
    have hnext := daysBeforeYear_succ (a * 400 + b * 100 + c * 4 + d + 1)
    omega

theorem yearOf_mono {t u : Time} (h : t ≤ u) : yearOf t ≤ yearOf u := by
  by_contra hlt
  have hday : t / 86400000000 ≤ u / 86400000000 := Int.ediv_le_ediv (by decide) h
  rw [yearOf_eq, yearOf_eq] at hlt
  have ht := (yearOfDay_spec (t / 86400000000 + 719162)).1
  have hu := (yearOfDay_spec (u / 86400000000 + 719162)).2
  have hmono := daysBeforeYear_mono (Int.add_one_le_of_lt (not_le.mp hlt))
  exact absurd (hu.trans_le (hmono.trans ht)) (not_lt.mpr (Int.add_le_add_right hday _))

/-! ## Grouping -/

/-- The groups of a list of entries: `years` when the keys descend. -/
structure GroupsOf (items : List LayoffTimelineEvent)
    (years : List (Int × List LayoffTimelineEvent)) : Prop where
  descending : (years.map Prod.fst).Pairwise fun y z => z < y
  nonempty : ∀ y ∈ years, y.2 ≠ []
  of_year : ∀ y ∈ years, ∀ e ∈ y.2, yearOf e.eventDate = y.1
  in_order : years.flatMap Prod.snd = items

theorem keys_appendToYear (item : LayoffTimelineEvent)
    (years : List (Int × List LayoffTimelineEvent)) {y : Int × List LayoffTimelineEvent}
    (hy : y ∈ appendToYear item years) :
    y.1 = yearOf item.eventDate ∨ y.1 ∈ years.map Prod.fst := by
  induction years with
  | nil => exact Or.inl (by rw [List.mem_singleton.mp hy])
  | cons group years ih =>
    unfold appendToYear at hy
    split at hy
    · rcases List.mem_cons.mp hy with rfl | hy
      · exact Or.inr List.mem_cons_self
      · exact Or.inr (List.mem_cons_of_mem _ (List.mem_map_of_mem hy))
    · rcases List.mem_cons.mp hy with rfl | hy
      · exact Or.inr List.mem_cons_self
      · exact (ih hy).imp_right (List.mem_cons_of_mem _)

/-- An entry of no later year than those before it goes to the end. -/
theorem GroupsOf.append {items : List LayoffTimelineEvent}
    {years : List (Int × List LayoffTimelineEvent)} (h : GroupsOf items years)
    {item : LayoffTimelineEvent} (hle : ∀ y ∈ years, yearOf item.eventDate ≤ y.1) :
    GroupsOf (items ++ [item]) (appendToYear item years) := by
  induction years generalizing items with
  | nil =>
    obtain rfl : [] = items := h.in_order
    refine ⟨List.pairwise_singleton _ _, fun y hy => ?_, fun y hy e he => ?_, rfl⟩
    · rw [List.mem_singleton.mp hy]
      exact List.cons_ne_nil _ _
    · rw [List.mem_singleton.mp hy] at he ⊢
      rw [List.mem_singleton.mp he]
  | cons group years ih =>
    obtain ⟨year, events⟩ := group
    obtain ⟨hyear, hyears⟩ := List.pairwise_cons.mp h.descending
    obtain rfl : events ++ years.flatMap Prod.snd = items := h.in_order
    have hnext : ∀ y ∈ years, yearOf item.eventDate ≤ y.1 :=
      fun y hy => hle y (List.mem_cons_of_mem _ hy)
    unfold appendToYear
    split
    · rename_i heq
      -- later keys would be smaller than the entry's own year
      obtain rfl : years = [] := by
        cases years with
        | nil => rfl
        | cons z years =>
          have hlt : z.1 < year := hyear z.1 List.mem_cons_self
          have hge := hnext z List.mem_cons_self
          omega
      refine ⟨h.descending, fun y hy => ?_, fun y hy e he => ?_, by simp⟩
      · rw [List.mem_singleton.mp hy]
        exact List.append_ne_nil_of_right_ne_nil _ (List.cons_ne_nil _ _)
      · rw [List.mem_singleton.mp hy] at he ⊢
        rcases List.mem_append.mp he with he | he
        · exact h.of_year _ List.mem_cons_self e he
        · rw [List.mem_singleton.mp he]
          exact heq.symm
    · rename_i hne
      have htail : GroupsOf (years.flatMap Prod.snd) years :=
        ⟨hyears, fun y hy => h.nonempty y (List.mem_cons_of_mem _ hy),
          fun y hy => h.of_year y (List.mem_cons_of_mem _ hy), rfl⟩
      have hrest := ih htail hnext
      refine ⟨List.pairwise_cons.mpr ⟨fun z hz => ?_, hrest.descending⟩, fun y hy => ?_,
        fun y hy => ?_, ?_⟩
      · obtain ⟨y, hy, rfl⟩ := List.mem_map.mp hz
        rcases keys_appendToYear item years hy with heq | hmem
        · have hfirst : yearOf item.eventDate ≤ year := hle _ List.mem_cons_self
          rw [heq]
          exact lt_of_le_of_ne hfirst (Ne.symm hne)
        · exact hyear _ hmem
      · rcases List.mem_cons.mp hy with rfl | hy
        · exact h.nonempty _ List.mem_cons_self
        · exact hrest.nonempty y hy
      · rcases List.mem_cons.mp hy with rfl | hy
        · exact h.of_year _ List.mem_cons_self
        · exact hrest.of_year y hy
      · rw [List.flatMap_cons, hrest.in_order, List.append_assoc]

/-- Every key is the year of an entry. -/
theorem GroupsOf.exists_of_key {items : List LayoffTimelineEvent}
    {years : List (Int × List LayoffTimelineEvent)} (h : GroupsOf items years)
    {y : Int × List LayoffTimelineEvent} (hy : y ∈ years) :
    ∃ e ∈ items, yearOf e.eventDate = y.1 := by
  obtain ⟨e, he⟩ := List.exists_mem_of_ne_nil _ (h.nonempty y hy)
  refine ⟨e, ?_, h.of_year y hy e he⟩
  rw [← h.in_order]
  exact List.mem_flatMap.mpr ⟨y, hy, he⟩

/-- The dictionary built from entries in descending order of their years. -/
theorem groups_foldl (items : List LayoffTimelineEvent)
    (hdesc : items.Pairwise fun a b => yearOf b.eventDate ≤ yearOf a.eventDate) :
    GroupsOf items (items.foldl (fun years item => appendToYear item years) []) := by
  induction items using List.reverseRecOn with
  | nil => exact ⟨List.Pairwise.nil, by simp, by simp, rfl⟩
  | append_singleton items item ih =>
    obtain ⟨hitems, -, hlast⟩ := List.pairwise_append.mp hdesc
    have hgroups := ih hitems
    rw [List.foldl_append]
    refine hgroups.append fun y hy => ?_
    obtain ⟨e, he, hyear⟩ := hgroups.exists_of_key hy
    rw [← hyear]
    exact hlast e he item List.mem_cons_self

/-- Sorting the years again leaves them as they are. -/
theorem GroupsOf.sort {items : List LayoffTimelineEvent}
    {years : List (Int × List LayoffTimelineEvent)} (h : GroupsOf items years) :
    (years.insertionSort fun a b => b.1 ≤ a.1) = years :=
  List.Pairwise.insertionSort_eq ((List.pairwise_map.mp h.descending).imp fun hlt => hlt.le)

/-! ## Running totals -/

def reportedHeadcounts (events : List LayoffEvent) : Int :=
  (events.map fun e => e.estimatedHeadcount.getD 0).sum

/-- What the timeline lists for an event, given the events before it. -/
def listedAfter (earlier : List LayoffEvent) (event : LayoffEvent) : LayoffTimelineEvent where
  id := event.id
  eventDate := event.eventDate
  department := event.department
  estimatedHeadcount := event.estimatedHeadcount
  sourceType := event.sourceType
  runningTotalHeadcount :=
    let total := reportedHeadcounts (earlier ++ [event])
    if total = 0 then none else some total
  createdAt := event.createdAt

/-- What the payload of a list of events in ascending order has to be. -/
structure IsTimelineOf (events : List LayoffEvent) (timeline : LayoffTimeline) : Prop where
  total_events : timeline.totalEvents = events.length
  descending : (timeline.years.map Prod.fst).Pairwise fun y z => z < y
  nonempty : ∀ y ∈ timeline.years, y.2 ≠ []
  of_year : ∀ y ∈ timeline.years, ∀ e ∈ y.2, yearOf e.eventDate = y.1
  in_order : timeline.years.flatMap Prod.snd =
    (events.mapIdx fun i e => listedAfter (events.take i) e).reverse
  never_increase : ((timeline.years.flatMap Prod.snd).map fun e =>
    e.runningTotalHeadcount.getD 0).Pairwise fun m n => n ≤ m
  topmost : ∀ e, (timeline.years.flatMap Prod.snd).head? = some e →
    e.runningTotalHeadcount.getD 0 = reportedHeadcounts events

/-- `estimated_headcount` is absent or at least 0. -/
def HeadcountNonneg (e : LayoffEvent) : Prop := ∀ n, e.estimatedHeadcount = some n → 0 ≤ n

theorem HeadcountNonneg.getD {e : LayoffEvent} (h : HeadcountNonneg e) :
    0 ≤ e.estimatedHeadcount.getD 0 := by
  cases hn : e.estimatedHeadcount with
  | none => exact le_refl _
  | some n => exact h n hn

theorem reportedHeadcounts_snoc (events : List LayoffEvent) (e : LayoffEvent) :
    reportedHeadcounts (events ++ [e]) =
      reportedHeadcounts events + e.estimatedHeadcount.getD 0 := by
  unfold reportedHeadcounts
  rw [List.map_append, List.sum_append]
  simp

theorem reportedHeadcounts_nonneg {events : List LayoffEvent}
    (h : ∀ e ∈ events, HeadcountNonneg e) : 0 ≤ reportedHeadcounts events := by
  refine List.sum_nonneg fun n hn => ?_
  obtain ⟨e, he, rfl⟩ := List.mem_map.mp hn
  exact (h e he).getD

/-- The loop, by what came before. -/
theorem enrich_eq (events earlier : List LayoffEvent) (hearlier : ∀ e ∈ earlier, HeadcountNonneg e)
    (hevents : ∀ e ∈ events, HeadcountNonneg e) :
    enrich (reportedHeadcounts earlier) events =
      events.mapIdx fun i e => listedAfter (earlier ++ events.take i) e := by
  induction events generalizing earlier with
  | nil => rfl
  | cons event events ih =>
    have hnext : ∀ e ∈ earlier ++ [event], HeadcountNonneg e := by
      intro e he
      rcases List.mem_append.mp he with he | he
      · exact hearlier e he
      · rw [List.mem_singleton.mp he]
        exact hevents event List.mem_cons_self
    have hrest := ih (earlier ++ [event]) hnext fun e he => hevents e (List.mem_cons_of_mem _ he)
    have hpos := reportedHeadcounts_nonneg hnext
    rw [reportedHeadcounts_snoc] at hrest hpos
    unfold enrich
    dsimp only
    rw [hrest, List.mapIdx_cons]
    refine congrArg₂ List.cons ?_ ?_
    · unfold listedAfter
      rw [List.take_zero, List.append_nil, reportedHeadcounts_snoc]
      dsimp only
      split
      · rename_i hlt
        rw [if_neg hlt.ne']
      · rename_i hlt
        rw [if_pos (le_antisymm (not_lt.mp hlt) hpos)]
    · simp only [List.take_succ_cons, List.append_assoc, List.singleton_append]

/-- A running total, 0 when it is absent. -/
def LayoffTimelineEvent.total (e : LayoffTimelineEvent) : Int := e.runningTotalHeadcount.getD 0

/-- Forward in time the totals start from what was there and never decrease. -/
theorem enrich_totals (events : List LayoffEvent) (hevents : ∀ e ∈ events, HeadcountNonneg e)
    (before : Int) (hbefore : 0 ≤ before) :
    (∀ e ∈ enrich before events, before ≤ e.total) ∧
      (enrich before events).Pairwise (fun a b => a.total ≤ b.total) ∧
      ∀ e, (enrich before events).getLast? = some e →
        e.total = before + reportedHeadcounts events := by
  induction events generalizing before with
  | nil => exact ⟨by simp [enrich], List.Pairwise.nil, by simp [enrich]⟩
  | cons event events ih =>
    have hcount := (hevents event List.mem_cons_self).getD
    have hnow : 0 ≤ before + event.estimatedHeadcount.getD 0 := by omega
    obtain ⟨hlow, hpairwise, hlast⟩ := ih (fun e he => hevents e (List.mem_cons_of_mem _ he)) _ hnow
    have htotal : (if 0 < before + event.estimatedHeadcount.getD 0 then
        some (before + event.estimatedHeadcount.getD 0) else none).getD 0 =
          before + event.estimatedHeadcount.getD 0 := by
      split
      · rfl
      · simp only [Option.getD_none]
        omega
    have hsum : reportedHeadcounts (event :: events) =
        event.estimatedHeadcount.getD 0 + reportedHeadcounts events := List.sum_cons
    unfold enrich
    dsimp only
    refine ⟨fun e he => ?_, List.pairwise_cons.mpr ⟨fun e he => ?_, hpairwise⟩, fun e he => ?_⟩
    · rcases List.mem_cons.mp he with rfl | he
      · unfold LayoffTimelineEvent.total
        rw [htotal]
        omega
      · have := hlow e he
        omega
    · unfold LayoffTimelineEvent.total at hlow ⊢
      rw [htotal]
      exact hlow e he
    · cases events with
      | nil =>
        rw [enrich, List.getLast?_singleton, Option.some.injEq] at he
        rw [← he]
        unfold LayoffTimelineEvent.total
        rw [htotal, hsum]
        simp [reportedHeadcounts]
      | cons next events =>
        have he' : (enrich (before + event.estimatedHeadcount.getD 0)
            (next :: events)).getLast? = some e := by
          rw [← he]
          unfold enrich
          rw [List.getLast?_cons_cons]
        rw [hlast e he', hsum]
        omega

theorem map_enrich {κ : Type} (f : LayoffTimelineEvent → κ) (g : LayoffEvent → κ)
    (hfg : ∀ (e : LayoffEvent) (n : Option Int), f { listedAfter [] e with
      runningTotalHeadcount := n } = g e) (events : List LayoffEvent) (before : Int) :
    (enrich before events).map f = events.map g := by
  induction events generalizing before with
  | nil => rfl
  | cons event events ih =>
    unfold enrich
    rw [List.map_cons, List.map_cons, ih]
    exact congrArg (· :: _) (hfg event _)

/-! ## The payload -/

theorem publishedIds_nodup (db : Db) (companyId : Uuid) :
    ((publishedLayoffEvents db companyId).map LayoffEvent.id).Nodup := by
  refine List.pairwise_map.mpr ((db.layoffEvents.distinct.filter _).imp fun {a b} hab hid => ?_)
  rw [Record.clash_of_pk a b hid] at hab
  cases hab

theorem pairwise_timelineEvents (place : Uuid → Nat) (db : Db) (companyId : Uuid) :
    (timelineEvents place db companyId).Pairwise fun a b =>
      a.eventDate ≤ b.eventDate ∧ (b.eventDate ≤ a.eventDate → place a.id ≤ place b.id) :=
  Paging.pairwise_orderAsc_place _ _ _

/-- The years of the payload are the groups of the entries, newest first. -/
theorem grouped_years (place : Uuid → Nat) (db : Db) (companyId : Uuid) :
    GroupsOf (enrich 0 (timelineEvents place db companyId)).reverse
      (computeLayoffTimeline place db companyId).years := by
  have hdates : ((enrich 0 (timelineEvents place db companyId)).map
      LayoffTimelineEvent.eventDate).Pairwise (· ≤ ·) := by
    rw [map_enrich LayoffTimelineEvent.eventDate LayoffEvent.eventDate fun _ _ => rfl]
    exact List.pairwise_map.mpr ((pairwise_timelineEvents place db companyId).imp And.left)
  have hgroups := groups_foldl (enrich 0 (timelineEvents place db companyId)).reverse
    (List.pairwise_reverse.mpr ((List.pairwise_map.mp hdates).imp yearOf_mono))
  have hsort := hgroups.sort
  unfold computeLayoffTimeline
  dsimp only
  exact hsort.symm ▸ hgroups

/-- For every list of the company's published events in ascending order of their dates, which
    is one the query may return: the payload is complete, newest first, and accumulated
    oldest first. -/
theorem layoff_timeline (db : Db) (companyId : Uuid) (events : List LayoffEvent)
    (hperm : events.Perm (publishedLayoffEvents db companyId))
    (hsorted : events.Pairwise fun a b => a.eventDate ≤ b.eventDate)
    (hheadcounts : ∀ e ∈ events, HeadcountNonneg e) :
    (∃ place, timelineEvents place db companyId = events) ∧
      ∀ place, timelineEvents place db companyId = events →
        IsTimelineOf events (computeLayoffTimeline place db companyId) := by
  refine ⟨Paging.exists_place_orderAsc hperm hsorted (publishedIds_nodup db companyId), ?_⟩
  rintro place rfl
  have hgroups := grouped_years place db companyId
  obtain ⟨-, hpairwise, hlast⟩ := enrich_totals _ hheadcounts 0 le_rfl
  have htotal : (computeLayoffTimeline place db companyId).totalEvents =
      (enrich 0 (timelineEvents place db companyId)).reverse.length := rfl
  refine ⟨?_, hgroups.descending, hgroups.nonempty, hgroups.of_year, ?_, ?_, ?_⟩
  · rw [htotal, List.length_reverse, ← List.length_map LayoffEvent.id,
      ← map_enrich LayoffTimelineEvent.id LayoffEvent.id fun _ _ => rfl, List.length_map]
  · rw [hgroups.in_order]
    have henrich := enrich_eq (timelineEvents place db companyId) [] (by simp) hheadcounts
    simp only [List.nil_append] at henrich
    exact congrArg List.reverse henrich
  · rw [hgroups.in_order, List.map_reverse, List.pairwise_reverse]
    exact List.pairwise_map.mpr hpairwise
  · intro e he
    rw [hgroups.in_order, List.head?_reverse] at he
    exact (hlast e he).trans (Int.zero_add _)

/-- Three events in two years, one of them without a headcount; the rows are stored newest
    first. -/
def timelineDb : Db :=
  { smallDb with
    layoffEvents := ⟨[
      ⟨22, 5, 1738368000000000, none, none, .selfReported, none, some 1, .published, none, 3⟩,
      ⟨21, 5, 1717200000000000, none, some 30, .selfReported, none, some 2, .published, none, 2⟩,
      ⟨20, 5, 1705276800000000, none, some 50, .selfReported, none, some 1, .published, none, 1⟩],
      by decide⟩ }

theorem timelineDb_listed :
    (∃ place, timelineEvents place timelineDb 5 = timelineDb.layoffEvents.rows.reverse) ∧
      ∀ place, timelineEvents place timelineDb 5 = timelineDb.layoffEvents.rows.reverse →
        IsTimelineOf timelineDb.layoffEvents.rows.reverse
          (computeLayoffTimeline place timelineDb 5) :=
  layoff_timeline timelineDb 5 timelineDb.layoffEvents.rows.reverse (by decide) (by decide)
    (by
      intro e he n hn
      have hall : ∀ e ∈ timelineDb.layoffEvents.rows.reverse,
          (e.estimatedHeadcount.all fun n => decide (0 ≤ n)) = true := by decide
      have := hall e he
      rw [hn] at this
      exact of_decide_eq_true this)

/-! ## Equal dates -/

/-- The payload shows the order of the rows. -/
theorem listed_of_same {place place' : Uuid → Nat} {db : Db} {companyId : Uuid}
    (h : computeLayoffTimeline place db companyId = computeLayoffTimeline place' db companyId) :
    (timelineEvents place db companyId).map (fun e => (e.id, e.eventDate)) =
      (timelineEvents place' db companyId).map fun e => (e.id, e.eventDate) := by
  have hentries := (grouped_years place db companyId).in_order
  rw [h, (grouped_years place' db companyId).in_order] at hentries
  have hlisted := congrArg (List.map fun e => (e.id, e.eventDate))
    (List.reverse_injective hentries)
  rw [map_enrich (fun e => (e.id, e.eventDate)) (fun e => (e.id, e.eventDate)) fun _ _ => rfl,
    map_enrich (fun e => (e.id, e.eventDate)) (fun e => (e.id, e.eventDate)) fun _ _ => rfl]
    at hlisted
  exact hlisted.symm

/-- Two events of one date can come in either order, and the payload shows which. -/
theorem exists_places_swapped {db : Db} {companyId : Uuid} {a b : LayoffEvent}
    (ha : a ∈ publishedLayoffEvents db companyId) (hb : b ∈ publishedLayoffEvents db companyId)
    (hne : a.id ≠ b.id) (hdate : a.eventDate = b.eventDate) :
    ∃ place place' : Uuid → Nat, computeLayoffTimeline place db companyId ≠
      computeLayoffTimeline place' db companyId := by
  let first : Uuid → Nat := fun x => if x = a.id then 0 else 1
  let last : Uuid → Nat := fun x => if x = a.id then 1 else 0
  refine ⟨first, last, fun hsame => ?_⟩
  have hrows := listed_of_same hsame
  let Follows (place : Uuid → Nat) (x y : Uuid × Time) : Prop := y.2 ≤ x.2 → place x.1 ≤ place y.1
  have hfollows : ∀ place, ((timelineEvents place db companyId).map fun e =>
      (e.id, e.eventDate)).Pairwise (Follows place) := fun place =>
    List.pairwise_map.mpr ((pairwise_timelineEvents place db companyId).imp And.right)
  have hmem : ∀ {e}, e ∈ publishedLayoffEvents db companyId →
      (e.id, e.eventDate) ∈ (timelineEvents first db companyId).map fun e => (e.id, e.eventDate) :=
    fun he => List.mem_map_of_mem ((perm_orderAsc _ _ _).mem_iff.mpr he)
  have hboth := (hfollows first).and (hrows ▸ hfollows last)
  have : Std.Symm fun x y => (Follows first x y ∧ Follows last x y) ∨
      (Follows first y x ∧ Follows last y x) := ⟨fun _ _ h => h.symm⟩
  have hpair := (hboth.imp Or.inl).forall (R := fun x y =>
    (Follows first x y ∧ Follows last x y) ∨ (Follows first y x ∧ Follows last y x))
    (hmem ha) (hmem hb) fun h => hne (congrArg Prod.fst h)
  have ha0 : first a.id = 0 ∧ last a.id = 1 := ⟨if_pos rfl, if_pos rfl⟩
  have hb0 : first b.id = 1 ∧ last b.id = 0 := ⟨if_neg (Ne.symm hne), if_neg (Ne.symm hne)⟩
  rcases hpair with ⟨-, h⟩ | ⟨h, -⟩
  · have hle : last a.id ≤ last b.id := h hdate.ge
    omega
  · have hle : first b.id ≤ first a.id := h hdate.le
    omega

/-- The payload is the same for all orders of equal dates exactly when there are none. -/
theorem timeline_determined_iff (db : Db) (companyId : Uuid) :
    (∀ place place' : Uuid → Nat, computeLayoffTimeline place db companyId =
        computeLayoffTimeline place' db companyId) ↔
      (publishedLayoffEvents db companyId).Pairwise fun a b => a.eventDate ≠ b.eventDate := by
  constructor
  · intro hsame
    refine (List.pairwise_map.mp (publishedIds_nodup db companyId)).imp_of_mem
      fun {a b} ha hb hne hdate => ?_
    obtain ⟨place, place', hdiffer⟩ := exists_places_swapped ha hb hne hdate
    exact hdiffer (hsame place place')
  · intro hdates place place'
    have hperm : ∀ place, (timelineEvents place db companyId).Perm
        (publishedLayoffEvents db companyId) := fun place => perm_orderAsc _ _ _
    have : Std.Symm fun a b : LayoffEvent => a.eventDate ≠ b.eventDate := ⟨fun _ _ h => h.symm⟩
    have hrows : timelineEvents place db companyId = timelineEvents place' db companyId := by
      refine List.Perm.eq_of_pairwise (fun a b ha hb hab hba => ?_)
        ((pairwise_timelineEvents place db companyId).imp And.left)
        ((pairwise_timelineEvents place' db companyId).imp And.left)
        ((hperm place).trans (hperm place').symm)
      by_contra hne
      exact hdates.forall ((hperm place).mem_iff.mp ha) ((hperm place').mem_iff.mp hb) hne
        (le_antisymm hab hba)
    unfold computeLayoffTimeline
    unfold timelineEvents at hrows
    rw [hrows]

/-- 100 and 50 on one day: the running totals are 100, 150 or 50, 150. -/
theorem shared_date_totals :
    ¬ ∀ (db : Db) (companyId : Uuid) (place place' : Uuid → Nat),
      computeLayoffTimeline place db companyId = computeLayoffTimeline place' db companyId := by
  intro hall
  have hsame := hall sharedDateDb 5 (fun x => x) (fun x => 100 - x)
  revert hsame
  decide +kernel

end LinkedOut
