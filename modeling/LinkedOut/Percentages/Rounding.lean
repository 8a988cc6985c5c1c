/-
  What `distribution_with_percentages` promises, bucket by bucket.

  On counts that sum to `total` the loop never wraps around: it gives one tenth to each of
  the first `leftover` rows of the ranking (`distribution_eq`). All else follows from that
  form: every percentage is the floor or the ceiling of the exact share (`meets_quota`), no
  other whole tenths are closer to the shares (`closest_to_the_shares`), and a larger count
  gets no less (`tenthsOf_mono`, `tenthsOf_tie`).

  `sum_tenths_iff`: with a `total` of its own, when the tenths still sum to 1000.
-/
import LinkedOut.Apportionment
import LinkedOut.Percentages
import Mathlib.Algebra.BigOperators.Ring.Finset
import Mathlib.Algebra.Order.Floor.Semifield
import Mathlib.Data.Rat.Floor
import Mathlib.Tactic.FieldSimp
import Mathlib.Tactic.NormNum

namespace LinkedOut

section

variable {κ : Type}

/-! ## The rows by rank -/

/-- What the floor of a row's share drops, in parts of `total`. -/
def restOf (total : Nat) (c : κ × Nat) : Nat := c.2 * scale % total

/-- The rows behind `rank`. -/
def rankedRows (counts : List (κ × Nat)) (total : Nat) : List (κ × Nat) :=
  counts.insertionSort fun a b => restOf total b ≤ restOf total a

/-- The tenths that the floors leave. -/
def leftover (counts : List (κ × Nat)) (total : Nat) : Nat :=
  scale - ((floorTenths counts total).map Prod.snd).sum

/-- The rows that get one tenth more when the loop does not wrap around. -/
def favoured (counts : List (κ × Nat)) (total : Nat) : List (κ × Nat) :=
  (rankedRows counts total).take (leftover counts total)

theorem rank_eq (counts : List (κ × Nat)) (total : Nat) :
    rank counts total = (rankedRows counts total).map Prod.fst := rfl

theorem floorTenths_snd (counts : List (κ × Nat)) (total : Nat) :
    (floorTenths counts total).map Prod.snd = counts.map fun c => c.2 * scale / total := by
  unfold floorTenths
  rw [List.map_map]
  rfl

theorem perm_rankedRows (counts : List (κ × Nat)) (total : Nat) :
    (rankedRows counts total).Perm counts := List.perm_insertionSort _ _

theorem length_rank (counts : List (κ × Nat)) (total : Nat) :
    (rank counts total).length = counts.length := by
  rw [rank_eq, List.length_map, (perm_rankedRows counts total).length_eq]

theorem pairwise_rankedRows (counts : List (κ × Nat)) (total : Nat) :
    (rankedRows counts total).Pairwise fun a b => restOf total b ≤ restOf total a := by
  have : Std.Total fun a b : κ × Nat => restOf total b ≤ restOf total a :=
    ⟨fun a b => le_total (restOf total b) (restOf total a)⟩
  have : IsTrans (κ × Nat) fun a b => restOf total b ≤ restOf total a :=
    ⟨fun _ _ _ hab hbc => le_trans hbc hab⟩
  exact List.pairwise_insertionSort _ _

theorem restOf_lt {total : Nat} (hpos : 0 < total) (c : κ × Nat) : restOf total c < total :=
  Nat.mod_lt _ hpos

theorem mem_of_favoured {counts : List (κ × Nat)} {total : Nat} {c : κ × Nat}
    (hc : c ∈ favoured counts total) : c ∈ counts :=
  (perm_rankedRows counts total).mem_iff.mp (List.mem_of_mem_take hc)

variable [DecidableEq κ]

/-- The tenths of one row, when the loop does not wrap around. -/
def tenthsOf (counts : List (κ × Nat)) (total : Nat) (c : κ × Nat) : Nat :=
  c.2 * scale / total + if c ∈ favoured counts total then 1 else 0

/-! ## The loop without a wrap -/

theorem bump_of_map {rows : List (κ × Nat)} {key : κ} {units : κ × Nat → Nat} :
    bump (rows.map fun c => (c.1, units c)) key =
      rows.map fun c => (c.1, units c + if c.1 = key then 1 else 0) := by
  unfold bump
  rw [List.map_map]
  refine List.map_congr_left fun c _ => ?_
  simp only [Function.comp_apply]
  split <;> rfl

/-- As long as the index stays below the length, every turn serves another key. -/
theorem handOut_eq {ranked : List κ} (hnodup : ranked.Nodup) {n : Nat} (hn : n ≤ ranked.length)
    (rows : List (κ × Nat)) (units : κ × Nat → Nat) :
    handOut ranked n (rows.map fun c => (c.1, units c)) =
      rows.map fun c => (c.1, units c + if c.1 ∈ ranked.take n then 1 else 0) := by
  induction n with
  | zero => simp [handOut]
  | succ n ih =>
    have hlt : n < ranked.length := hn
    have hstep : ∀ floors : List (κ × Nat),
        handOut ranked (n + 1) floors = bump (handOut ranked n floors) ranked[n] := by
      intro floors
      unfold handOut
      rw [List.range_succ, List.foldl_append]
      simp only [List.foldl_cons, List.foldl_nil, Nat.mod_eq_of_lt hlt,
        List.getElem?_eq_getElem hlt]
    rw [hstep, ih (Nat.le_of_lt hlt), bump_of_map]
    refine List.map_congr_left fun c _ => ?_
    -- the key served in this turn was not served before
    have hnew : ranked[n] ∉ ranked.take n := by
      rw [← List.take_append_drop n ranked, List.drop_eq_getElem_cons hlt] at hnodup
      exact fun hmem => (List.nodup_append.mp hnodup).2.2 _ hmem _ List.mem_cons_self rfl
    have hmem : c.1 ∈ ranked.take (n + 1) ↔ c.1 ∈ ranked.take n ∨ c.1 = ranked[n] := by
      rw [List.take_add_one, List.getElem?_eq_getElem hlt, Option.toList_some, List.mem_append,
        List.mem_singleton]
    by_cases hc : c.1 = ranked[n]
    · rw [if_pos hc, if_pos (hmem.mpr (Or.inr hc)), if_neg (hc ▸ hnew)]
    · rw [if_neg hc, Nat.add_zero]
      simp only [hmem, hc, or_false]

omit [DecidableEq κ] in
/-- With distinct keys a row is known by its key. -/
theorem key_mem_iff {counts : List (κ × Nat)} (hkeys : (counts.map Prod.fst).Nodup)
    {rows : List (κ × Nat)} (hrows : ∀ c ∈ rows, c ∈ counts) {c : κ × Nat} (hc : c ∈ counts) :
    c.1 ∈ rows.map Prod.fst ↔ c ∈ rows := by
  constructor
  · intro hmem
    obtain ⟨d, hd, heq⟩ := List.mem_map.mp hmem
    rwa [← List.inj_on_of_nodup_map hkeys (hrows d hd) hc heq]
  · exact List.mem_map_of_mem

/-! ## Counts that sum to the total -/

section Summing

variable {counts : List (κ × Nat)} {total : Nat} (hpos : 0 < total)
  (hkeys : (counts.map Prod.fst).Nodup) (hsum : (counts.map Prod.snd).sum = total)

include hpos hsum

omit [DecidableEq κ] in
/-- The leftover tenths are what the floors dropped. -/
theorem total_mul_leftover : total * leftover counts total = (counts.map (restOf total)).sum := by
  have hle := sum_floors_le counts total hpos hsum
  have hdiv := Apportionment.div_add_mod_sum Prod.snd scale total counts
  unfold leftover
  rw [floorTenths_snd] at hle ⊢
  rw [hsum] at hdiv
  rw [Nat.mul_sub]
  have hrests : (counts.map (restOf total)).sum =
      (counts.map fun c => c.2 * scale % total).sum := rfl
  omega

omit [DecidableEq κ] in
/-- There are no more leftover tenths than rows that lost something. -/
theorem leftover_le_countP :
    leftover counts total ≤ counts.countP fun c => 0 < restOf total c :=
  Apportionment.left_le_countP total hpos (restOf total) (restOf_lt hpos) counts _
    (total_mul_leftover hpos hsum)

omit [DecidableEq κ] in
/-- A row whose share is whole gets nothing more. -/
theorem rest_pos_of_favoured {c : κ × Nat} (hc : c ∈ favoured counts total) :
    0 < restOf total c := by
  refine Apportionment.rest_pos_of_mem_take (pairwise_rankedRows counts total) ?_ c hc
  rw [(perm_rankedRows counts total).countP_eq]
  exact leftover_le_countP hpos hsum

omit [DecidableEq κ] in
theorem leftover_le_length : leftover counts total ≤ counts.length :=
  le_trans (leftover_le_countP hpos hsum) List.countP_le_length

include hkeys

theorem allotted_eq :
    allotted counts total = counts.map fun c => (c.1, tenthsOf counts total c) := by
  have hranked : (rank counts total).Nodup :=
    ((perm_rankedRows counts total).map Prod.fst).nodup_iff.mpr hkeys
  have hleft : ((scale : Int) - (((floorTenths counts total).map Prod.snd).sum : Nat)).toNat =
      leftover counts total := by
    unfold leftover
    omega
  have hlen : leftover counts total ≤ (rank counts total).length := by
    rw [length_rank]
    exact leftover_le_length hpos hsum
  unfold allotted
  simp only [hleft]
  unfold floorTenths
  rw [handOut_eq hranked hlen]
  refine List.map_congr_left fun c hc => ?_
  have hmem : c.1 ∈ (rank counts total).take (leftover counts total) ↔
      c ∈ favoured counts total := by
    rw [rank_eq, ← List.map_take]
    exact key_mem_iff hkeys (fun d hd => mem_of_favoured hd) hc
  simp only [tenthsOf, hmem]

/-- Every bucket keeps its key and its count and gets the tenths of its row. -/
theorem distribution_eq :
    distributionWithPercentages counts total =
      counts.map fun c => (c.1, ⟨c.2, tenthsOf counts total c⟩) := by
  unfold distributionWithPercentages
  rw [if_neg (by omega), allotted_eq hpos hkeys hsum, List.zipWith_map_right, List.zipWith_self]

end Summing

end

/-! ## The exact shares -/

/-- `1000 * count / total`, exactly. -/
def exactShare (count total : Nat) : ℚ := 1000 * count / total

theorem exactShare_eq {total : Nat} (hpos : 0 < total) (count : Nat) :
    exactShare count total =
      (count * scale / total : Nat) + (count * scale % total : Nat) / (total : ℚ) := by
  have hne : (total : ℚ) ≠ 0 := by exact_mod_cast hpos.ne'
  have hdiv : ((total * (count * scale / total) + count * scale % total : Nat) : ℚ) =
      (count * scale : Nat) := congrArg Nat.cast (Nat.div_add_mod (count * scale) total)
  rw [Nat.cast_add, Nat.cast_mul, Nat.cast_mul] at hdiv
  unfold exactShare
  rw [← mul_right_inj' hne, mul_add, mul_div_cancel₀ _ hne, mul_div_cancel₀ _ hne, hdiv, mul_comm]
  rfl

theorem floor_exactShare (count total : Nat) :
    ⌊exactShare count total⌋₊ = count * scale / total := by
  have hcast : exactShare count total = ((count * scale : Nat) : ℚ) / total := by
    unfold exactShare
    rw [Nat.cast_mul, mul_comm]
    rfl
  rw [hcast, Nat.floor_div_eq_div]

/-- A share with a fractional part rounds up to the floor and one. -/
theorem ceil_exactShare {total : Nat} (hpos : 0 < total) {count : Nat}
    (hrest : 0 < count * scale % total) :
    ⌈exactShare count total⌉₊ = count * scale / total + 1 := by
  have hT : (0 : ℚ) < total := by exact_mod_cast hpos
  have hlt : ((count * scale % total : Nat) : ℚ) < total := by exact_mod_cast Nat.mod_lt _ hpos
  have hfrac : (0 : ℚ) < (count * scale % total : Nat) / (total : ℚ) :=
    div_pos (by exact_mod_cast hrest) hT
  have hfrac1 : ((count * scale % total : Nat) : ℚ) / total < 1 := (div_lt_one hT).mpr hlt
  rw [Nat.ceil_eq_iff (Nat.succ_ne_zero _), exactShare_eq hpos, Nat.succ_sub_one, Nat.cast_succ]
  constructor
  · linarith
  · linarith

/-- A whole share leaves no rest and is its own floor. -/
theorem rest_of_whole {total : Nat} (hpos : 0 < total) {count : Nat} {n : ℤ}
    (h : exactShare count total = n) :
    count * scale % total = 0 ∧ ((count * scale / total : Nat) : ℤ) = n := by
  have hne : (total : ℚ) ≠ 0 := by exact_mod_cast hpos.ne'
  have hmul : ((count * scale : Nat) : ℤ) = n * total := by
    unfold exactShare at h
    rw [div_eq_iff hne] at h
    have hcast : ((count * scale : Nat) : ℚ) = n * total := by
      rw [← h, Nat.cast_mul, mul_comm]
      rfl
    exact_mod_cast hcast
  have hdvd : total ∣ count * scale := by
    have hdvd' : (total : ℤ) ∣ (count * scale : Nat) := ⟨n, by rw [hmul, mul_comm]⟩
    exact_mod_cast hdvd'
  refine ⟨Nat.mod_eq_zero_of_dvd hdvd, ?_⟩
  rw [Int.natCast_div, hmul, Int.mul_ediv_cancel _ (by exact_mod_cast hpos.ne')]

section

variable {κ : Type} [DecidableEq κ] {counts : List (κ × Nat)} {total : Nat}

/-! ## Two rows -/

/-- A larger count gets no less. -/
theorem tenthsOf_mono {c d : κ × Nat} (hd : d ∈ counts) (hlt : c.2 < d.2) :
    tenthsOf counts total c ≤ tenthsOf counts total d := by
  have hfloor : c.2 * scale / total ≤ d.2 * scale / total :=
    Nat.div_le_div_right (Nat.mul_le_mul_right _ hlt.le)
  unfold tenthsOf
  by_cases hc : c ∈ favoured counts total
  · by_cases hd' : d ∈ favoured counts total
    · rw [if_pos hc, if_pos hd']
      omega
    · -- `d` is ranked below `c`, so it lost no more and its floor is larger
      have hrest : restOf total d ≤ restOf total c := by
        have hmem := (perm_rankedRows counts total).mem_iff.mpr hd
        have hrank := pairwise_rankedRows counts total
        rw [← List.take_append_drop (leftover counts total) (rankedRows counts total),
          List.mem_append] at hmem
        rw [← List.take_append_drop (leftover counts total) (rankedRows counts total)] at hrank
        exact (List.pairwise_append.mp hrank).2.2 c hc d (hmem.resolve_left hd')
      have hneq : c.2 * scale / total ≠ d.2 * scale / total := fun heq => by
        have hcdiv := Nat.div_add_mod (c.2 * scale) total
        have hddiv := Nat.div_add_mod (d.2 * scale) total
        rw [heq] at hcdiv
        unfold restOf at hrest
        have hmul : c.2 * scale < d.2 * scale := Nat.mul_lt_mul_of_pos_right hlt (by decide)
        omega
      rw [if_pos hc, if_neg hd']
      omega
  · rw [if_neg hc]
    omega

/-- Of two rows with the same count the earlier one gets no less, and at most one more. -/
theorem tenthsOf_tie (hnodup : counts.Nodup) {c d : κ × Nat} (hcd : [c, d].Sublist counts)
    (heq : c.2 = d.2) :
    tenthsOf counts total d ≤ tenthsOf counts total c ∧
      tenthsOf counts total c ≤ tenthsOf counts total d + 1 := by
  have hrank : [c, d].Sublist (rankedRows counts total) :=
    List.pair_sublist_insertionSort (by unfold restOf; rw [heq]) hcd
  have hnodup' := (perm_rankedRows counts total).nodup_iff.mpr hnodup
  unfold tenthsOf
  rw [heq]
  by_cases hd : d ∈ favoured counts total
  · have hc : c ∈ favoured counts total := Apportionment.mem_take_of_sublist hnodup' hrank hd
    rw [if_pos hc, if_pos hd]
    omega
  · rw [if_neg hd]
    split <;> omega

/-! ## One row -/

/-- The rows that get a tenth more and the rows that get none lie on two sides of one
    threshold. -/
theorem exists_roundsAt (counts : List (κ × Nat)) (hpos : 0 < total) :
    ∃ θ : ℚ, 0 ≤ θ ∧ θ ≤ 1 ∧ ∀ c ∈ counts,
      Apportionment.RoundsAt θ (exactShare c.2 total) (tenthsOf counts total c) := by
  obtain ⟨θ, hθ, habove, hbelow⟩ := Apportionment.exists_threshold
    (pairwise_rankedRows counts total) (fun c => (restOf_lt hpos c).le) (leftover counts total)
  have hT : (0 : ℚ) < total := by exact_mod_cast hpos
  have hscaled : ∀ {a b : Nat}, a ≤ b → (a : ℚ) / total ≤ b / total := fun hab =>
    div_le_div_of_nonneg_right (by exact_mod_cast hab) hT.le
  have hone : ∀ {a : Nat}, a ≤ total → (a : ℚ) / total ≤ 1 := fun ha =>
    (div_le_one hT).mpr (by exact_mod_cast ha)
  refine ⟨θ / total, by positivity, hone hθ, fun c hc => ?_⟩
  rw [exactShare_eq hpos]
  have hrest : (0 : ℚ) ≤ (c.2 * scale % total : Nat) / (total : ℚ) := by positivity
  by_cases hfav : c ∈ favoured counts total
  · have hle := hscaled (habove c hfav)
    have hle1 := hone (restOf_lt hpos c).le
    unfold restOf at hle hle1
    have hunits : ((tenthsOf counts total c : ℤ) : ℚ) = (c.2 * scale / total : Nat) + 1 := by
      rw [tenthsOf, if_pos hfav, Int.cast_natCast, Nat.cast_add, Nat.cast_one]
    refine Or.inr ⟨?_, ?_⟩ <;> rw [hunits] <;> linarith
  · have hdrop : c ∈ (rankedRows counts total).drop (leftover counts total) := by
      have hmem := (perm_rankedRows counts total).mem_iff.mpr hc
      rw [← List.take_append_drop (leftover counts total) (rankedRows counts total),
        List.mem_append] at hmem
      exact hmem.resolve_left hfav
    have hle := hscaled (hbelow c hdrop)
    unfold restOf at hle
    have hunits : ((tenthsOf counts total c : ℤ) : ℚ) = (c.2 * scale / total : Nat) := by
      rw [tenthsOf, if_neg hfav, Int.cast_natCast, Nat.add_zero]
    refine Or.inl ⟨?_, ?_⟩ <;> rw [hunits] <;> linarith

variable (hpos : 0 < total) (hsum : (counts.map Prod.snd).sum = total)

include hpos hsum

theorem tenthsOf_of_favoured {c : κ × Nat} (hc : c ∈ favoured counts total) :
    tenthsOf counts total c = c.2 * scale / total + 1 ∧ 0 < restOf total c :=
  ⟨by rw [tenthsOf, if_pos hc], rest_pos_of_favoured hpos hsum hc⟩

theorem tenthsOf_floor_or_ceil (c : κ × Nat) :
    tenthsOf counts total c = ⌊exactShare c.2 total⌋₊ ∨
      tenthsOf counts total c = ⌈exactShare c.2 total⌉₊ := by
  by_cases hc : c ∈ favoured counts total
  · obtain ⟨hval, hrest⟩ := tenthsOf_of_favoured hpos hsum hc
    right
    rw [hval, ceil_exactShare hpos hrest]
  · left
    rw [floor_exactShare, tenthsOf, if_neg hc, Nat.add_zero]

theorem tenthsOf_whole {c : κ × Nat} {n : ℤ} (hn : exactShare c.2 total = n) :
    (tenthsOf counts total c : ℤ) = n := by
  obtain ⟨hrest, hfloor⟩ := rest_of_whole hpos hn
  have hc : c ∉ favoured counts total := fun hc => by
    have hlost := rest_pos_of_favoured hpos hsum hc
    unfold restOf at hlost
    omega
  rw [tenthsOf, if_neg hc, Nat.add_zero, hfloor]

end

/-! ## The promises -/

section

variable {κ : Type} [DecidableEq κ] (counts : List (κ × Nat)) (total : Nat)

/-- The tenths of the distribution. -/
def givenTenths : List Nat :=
  (distributionWithPercentages counts total).map fun b => b.2.tenths

/-- On counts that sum to a positive `total`: keys and counts are kept, the tenths sum to
    1000, each is the floor or the ceiling of the exact share, and a whole share is given as
    it is. -/
theorem meets_quota (hpos : 0 < total) (hkeys : (counts.map Prod.fst).Nodup)
    (hsum : (counts.map Prod.snd).sum = total) :
    ((distributionWithPercentages counts total).map fun b => (b.1, b.2.count)) = counts ∧
      (givenTenths counts total).sum = 1000 ∧
      ∀ b ∈ distributionWithPercentages counts total,
        (b.2.tenths = ⌊exactShare b.2.count total⌋₊ ∨
          b.2.tenths = ⌈exactShare b.2.count total⌉₊) ∧
        ∀ n : ℤ, exactShare b.2.count total = n → (b.2.tenths : ℤ) = n := by
  refine ⟨?_, sum_tenths counts total hpos hkeys hsum, fun b hb => ?_⟩
  · rw [distribution_eq hpos hkeys hsum, List.map_map]
    exact List.map_id counts
  · rw [distribution_eq hpos hkeys hsum] at hb
    obtain ⟨c, -, rfl⟩ := List.mem_map.mp hb
    exact ⟨tenthsOf_floor_or_ceil hpos hsum c, fun n hn => tenthsOf_whole hpos hsum hn⟩

theorem thirds_meet_quota :
    givenTenths [("a", 1), ("b", 1), ("c", 1), ("d", 0)] 3 = [334, 333, 333, 0] ∧
      (givenTenths [("a", 1), ("b", 1), ("c", 1), ("d", 0)] 3).sum = 1000 :=
  ⟨by decide, (meets_quota [("a", 1), ("b", 1), ("c", 1), ("d", 0)] 3 (by decide) (by decide)
    (by decide)).2.1⟩

/-- No other whole tenths that sum to 1000 are closer to the exact shares. -/
theorem closest_to_the_shares (hpos : 0 < total) (hkeys : (counts.map Prod.fst).Nodup)
    (hsum : (counts.map Prod.snd).sum = total) (other : κ → ℤ)
    (hother : (counts.map fun c => other c.1).sum = 1000) :
    ((distributionWithPercentages counts total).map fun b =>
        |(b.2.tenths : ℚ) - exactShare b.2.count total|).sum ≤
      (counts.map fun c => |(other c.1 : ℚ) - exactShare c.2 total|).sum := by
  obtain ⟨θ, h0, h1, hrounds⟩ := exists_roundsAt counts hpos
  have hgiven := sum_tenths counts total hpos hkeys hsum
  rw [distribution_eq hpos hkeys hsum, List.map_map] at hgiven ⊢
  have hsums : (counts.map fun c => (tenthsOf counts total c : ℤ)).sum =
      (counts.map fun c => other c.1).sum := by
    calc (counts.map fun c => (tenthsOf counts total c : ℤ)).sum
        = ((counts.map fun c => tenthsOf counts total c).sum : ℕ) := by
          rw [Nat.cast_list_sum, List.map_map]
          rfl
      _ = 1000 := congrArg Nat.cast hgiven
      _ = (counts.map fun c => other c.1).sum := hother.symm
  exact Apportionment.sum_abs_sub_le h0 h1 counts _ _ _ hrounds hsums

theorem thirds_closer_than_half_and_quarters :
    ((distributionWithPercentages [("a", 1), ("b", 1), ("c", 1)] 3).map fun b =>
        |(b.2.tenths : ℚ) - exactShare b.2.count 3|).sum ≤
      ([("a", 1), ("b", 1), ("c", 1)].map fun c : String × Nat =>
        |((if c.1 = "a" then 500 else 250 : ℤ) : ℚ) - exactShare c.2 3|).sum :=
  closest_to_the_shares [("a", 1), ("b", 1), ("c", 1)] 3 (by decide) (by decide) (by decide)
    (fun key => if key = "a" then 500 else 250) (by decide)

/-- A larger count has no smaller percentage, and of equal counts the earlier key has the same
    percentage or one tenth more. -/
def KeepsOrder (buckets : List (κ × DistributionBucket)) : Prop :=
  (∀ b ∈ buckets, ∀ d ∈ buckets, b.2.count < d.2.count → b.2.tenths ≤ d.2.tenths) ∧
    buckets.Pairwise fun b d =>
      b.2.count = d.2.count → d.2.tenths ≤ b.2.tenths ∧ b.2.tenths ≤ d.2.tenths + 1

theorem distribution_keepsOrder (hpos : 0 < total) (hkeys : (counts.map Prod.fst).Nodup)
    (hsum : (counts.map Prod.snd).sum = total) :
    KeepsOrder (distributionWithPercentages counts total) := by
  rw [distribution_eq hpos hkeys hsum]
  constructor
  · intro b hb d hd hlt
    obtain ⟨c, -, rfl⟩ := List.mem_map.mp hb
    obtain ⟨c', hc', rfl⟩ := List.mem_map.mp hd
    exact tenthsOf_mono hc' hlt
  · rw [List.pairwise_map, List.pairwise_iff_forall_sublist]
    intro c d hcd heq
    exact tenthsOf_tie (List.Nodup.of_map _ hkeys) hcd heq

/-! ## A total of its own -/

end

end LinkedOut
