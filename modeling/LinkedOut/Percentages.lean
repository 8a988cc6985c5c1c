/-
  `app/core/percentages.py`: the largest-remainder method, in tenths of a percent.

  `count / total * 1000` is taken exactly: its floor is the quotient of `count * 1000`
  by `total`, and its fractional parts are ordered as the rests of that division.

  `sum_tenths`: on distinct keys whose counts sum to a positive `total`, the tenths
  sum to exactly 1000. `distribution_keys` and `distribution_counts`: keys and counts
  are kept.
-/
import Mathlib.Data.List.Sort
import Mathlib.Algebra.BigOperators.Group.List.Basic
import Mathlib.Algebra.Ring.Nat
import Mathlib.Algebra.Order.BigOperators.Group.List

namespace LinkedOut

/-- `_SCALE`: tenths of a percent per 100.0%. -/
def scale : Nat := 1000

/-- One bucket of a distribution; the percentage is `tenths / 10`. -/
structure DistributionBucket where
  count : Nat
  tenths : Nat
  deriving DecidableEq, Repr

section

variable {κ : Type} [DecidableEq κ]

/-- `floors[key] += 1`. -/
def bump (floors : List (κ × Nat)) (key : κ) : List (κ × Nat) :=
  floors.map fun f => if f.1 = key then (f.1, f.2 + 1) else f

/-- The loop over `range(remainder)`. -/
def handOut (ranked : List κ) (remainder : Nat) (floors : List (κ × Nat)) : List (κ × Nat) :=
  (List.range remainder).foldl (fun fs i =>
    match ranked[i % ranked.length]? with
    | none => fs
    | some key => bump fs key) floors

/-- The keys by fractional remainder, largest first; ties keep their order. -/
def rank (counts : List (κ × Nat)) (total : Nat) : List κ :=
  (counts.insertionSort fun a b =>
    b.2 * scale % total ≤ a.2 * scale % total).map Prod.fst

def floorTenths (counts : List (κ × Nat)) (total : Nat) : List (κ × Nat) :=
  counts.map fun c => (c.1, c.2 * scale / total)

/-- The tenths given to every key, when `total` is positive. -/
def allotted (counts : List (κ × Nat)) (total : Nat) : List (κ × Nat) :=
  let floors := floorTenths counts total
  let remainder : Int := scale - (floors.map Prod.snd).sum
  handOut (rank counts total) remainder.toNat floors

/-- `distribution_with_percentages`, as a list of its items. -/
def distributionWithPercentages (counts : List (κ × Nat)) (total : Nat) :
    List (κ × DistributionBucket) :=
  if total = 0 then counts.map fun c => (c.1, ⟨c.2, 0⟩)
  else List.zipWith (fun c f => (c.1, ⟨c.2, f.2⟩)) counts (allotted counts total)

/-! ## The loop -/

theorem keys_bump (floors : List (κ × Nat)) (key : κ) :
    (bump floors key).map Prod.fst = floors.map Prod.fst := by
  unfold bump
  rw [List.map_map]
  refine List.map_congr_left fun f _ => ?_
  simp only [Function.comp_apply]
  split <;> rfl

theorem sum_bump (floors : List (κ × Nat)) (key : κ) (hkey : key ∈ floors.map Prod.fst)
    (hnodup : (floors.map Prod.fst).Nodup) :
    ((bump floors key).map Prod.snd).sum = (floors.map Prod.snd).sum + 1 := by
  induction floors with
  | nil => cases hkey
  | cons f fs ih =>
    simp only [List.map_cons, List.nodup_cons] at hnodup
    simp only [bump, List.map_cons, List.sum_cons]
    by_cases hf : f.1 = key
    · -- the other entries have other keys
      have hrest : (fs.map fun f => if f.1 = key then (f.1, f.2 + 1) else f) = fs := by
        conv_rhs => rw [← List.map_id fs]
        refine List.map_congr_left fun g hg => ?_
        rw [if_neg fun hgk => hnodup.1 (by rw [hf, ← hgk]; exact List.mem_map_of_mem hg)]
        rfl
      rw [hrest, if_pos hf]
      omega
    · have hmem : key ∈ fs.map Prod.fst := by
        rcases List.mem_cons.mp hkey with h | h
        · exact absurd h.symm hf
        · exact h
      have := ih hmem hnodup.2
      unfold bump at this
      rw [if_neg hf, this]
      omega

theorem keys_handOut (ranked : List κ) (n : Nat) (floors : List (κ × Nat)) :
    (handOut ranked n floors).map Prod.fst = floors.map Prod.fst := by
  unfold handOut
  induction n with
  | zero => rfl
  | succ n ih =>
    rw [List.range_succ, List.foldl_append]
    simp only [List.foldl_cons, List.foldl_nil]
    split
    · exact ih
    · rw [keys_bump]; exact ih

/-- Every turn of the loop adds one tenth. -/
theorem sum_handOut (ranked : List κ) (n : Nat) (floors : List (κ × Nat)) (hne : ranked ≠ [])
    (hranked : ∀ key ∈ ranked, key ∈ floors.map Prod.fst) (hnodup : (floors.map Prod.fst).Nodup) :
    ((handOut ranked n floors).map Prod.snd).sum = (floors.map Prod.snd).sum + n := by
  induction n with
  | zero => rfl
  | succ n ih =>
    have hlt : n % ranked.length < ranked.length :=
      Nat.mod_lt _ (List.length_pos_iff.mpr hne)
    have hkeys := keys_handOut ranked n floors
    have hstep : handOut ranked (n + 1) floors =
        bump (handOut ranked n floors) ranked[n % ranked.length] := by
      unfold handOut
      rw [List.range_succ, List.foldl_append]
      simp only [List.foldl_cons, List.foldl_nil, List.getElem?_eq_getElem hlt]
    rw [hstep, sum_bump _ _ (by rw [hkeys]; exact hranked _ (List.getElem_mem hlt))
      (by rw [hkeys]; exact hnodup), ih]
    omega

/-! ## The floors -/

omit [DecidableEq κ] in
theorem keys_floorTenths (counts : List (κ × Nat)) (total : Nat) :
    (floorTenths counts total).map Prod.fst = counts.map Prod.fst := by
  unfold floorTenths
  rw [List.map_map]; rfl

omit [DecidableEq κ] in
theorem mem_rank (counts : List (κ × Nat)) (total : Nat) (key : κ) :
    key ∈ rank counts total ↔ key ∈ counts.map Prod.fst :=
  ((List.perm_insertionSort _ counts).map Prod.fst).mem_iff

omit [DecidableEq κ] in
theorem total_mul_sum_floors (counts : List (κ × Nat)) (total : Nat) :
    total * ((floorTenths counts total).map Prod.snd).sum ≤ (counts.map Prod.snd).sum * scale := by
  induction counts with
  | nil => simp [floorTenths]
  | cons c cs ih =>
    have hc := Nat.mul_div_le (c.2 * scale) total
    simp only [floorTenths, List.map_cons, List.sum_cons, Nat.mul_add, Nat.add_mul] at ih ⊢
    omega

omit [DecidableEq κ] in
/-- The floors never exceed the scale when the counts sum to the total. -/
theorem sum_floors_le (counts : List (κ × Nat)) (total : Nat) (hpos : 0 < total)
    (hsum : (counts.map Prod.snd).sum = total) :
    ((floorTenths counts total).map Prod.snd).sum ≤ scale := by
  have h := total_mul_sum_floors counts total
  rw [hsum] at h
  exact Nat.le_of_mul_le_mul_left h hpos

/-! ## The distribution -/

theorem keys_allotted (counts : List (κ × Nat)) (total : Nat) :
    (allotted counts total).map Prod.fst = counts.map Prod.fst := by
  unfold allotted
  rw [keys_handOut, keys_floorTenths]

theorem length_allotted (counts : List (κ × Nat)) (total : Nat) :
    (allotted counts total).length = counts.length := by
  simpa using congrArg List.length (keys_allotted counts total)

theorem distribution_keys (counts : List (κ × Nat)) (total : Nat) :
    (distributionWithPercentages counts total).map Prod.fst = counts.map Prod.fst := by
  unfold distributionWithPercentages
  split
  · rw [List.map_map]; rfl
  · refine List.ext_getElem (by simp [length_allotted]) fun i h1 h2 => ?_
    simp

theorem distribution_counts (counts : List (κ × Nat)) (total : Nat) :
    (distributionWithPercentages counts total).map (fun b => b.2.count) =
      counts.map Prod.snd := by
  unfold distributionWithPercentages
  split
  · rw [List.map_map]; rfl
  · refine List.ext_getElem (by simp [length_allotted]) fun i h1 h2 => ?_
    simp

theorem distribution_tenths (counts : List (κ × Nat)) (total : Nat) (hpos : 0 < total) :
    (distributionWithPercentages counts total).map (fun b => b.2.tenths) =
      (allotted counts total).map Prod.snd := by
  unfold distributionWithPercentages
  rw [if_neg (by omega)]
  refine List.ext_getElem (by simp [length_allotted]) fun i h1 h2 => ?_
  simp

omit [DecidableEq κ] in
theorem rank_ne_nil {counts : List (κ × Nat)} (hne : counts ≠ []) (total : Nat) :
    rank counts total ≠ [] := by
  obtain ⟨c, cs, rfl⟩ := List.exists_cons_of_ne_nil hne
  have hmem : c.1 ∈ rank (c :: cs) total := (mem_rank _ _ _).mpr List.mem_cons_self
  exact List.ne_nil_of_mem hmem

/-- Every turn of the loop gives one tenth, however often it wraps around; a floor too many
    stays. -/
theorem sum_tenths_eq_max (counts : List (κ × Nat)) (total : Nat) (hne : counts ≠ [])
    (hpos : 0 < total) (hkeys : (counts.map Prod.fst).Nodup) :
    ((distributionWithPercentages counts total).map fun b => b.2.tenths).sum =
      max scale ((floorTenths counts total).map Prod.snd).sum := by
  have hranked : ∀ key ∈ rank counts total, key ∈ (floorTenths counts total).map Prod.fst := by
    intro key hkey
    rw [keys_floorTenths]
    exact (mem_rank counts total key).mp hkey
  rw [← keys_floorTenths counts total] at hkeys
  rw [distribution_tenths counts total hpos]
  unfold allotted
  rw [sum_handOut _ _ _ (rank_ne_nil hne total) hranked hkeys]
  omega

/-- The tenths sum to exactly 1000 when the counts sum to the total. -/
theorem sum_tenths (counts : List (κ × Nat)) (total : Nat) (hpos : 0 < total)
    (hnodup : (counts.map Prod.fst).Nodup) (hsum : (counts.map Prod.snd).sum = total) :
    ((distributionWithPercentages counts total).map fun b => b.2.tenths).sum = 1000 := by
  have hne : counts ≠ [] := by
    rintro rfl
    rw [List.map_nil, List.sum_nil] at hsum
    omega
  rw [sum_tenths_eq_max counts total hne hpos hnodup,
    max_eq_left (sum_floors_le counts total hpos hsum)]
  rfl

end

end LinkedOut
