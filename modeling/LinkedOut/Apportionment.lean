/-
  Largest-remainder apportionment: whole units for shares that need not be whole.

  Each row first gets the floor of its share, then the first rows of a list ordered by
  what the floor dropped get one unit each.

  * `div_add_mod_sum`: what the floors give and what they drop, summed over the rows.
  * `rest_pos_of_mem_take`: with at most as many units left as rows that lost something,
    only such rows get one.
  * `exists_threshold`: the rows that get one lost at least what the others lost.
  * `RoundsAt`, `sum_abs_sub_le`: units given above one threshold are as close to the shares
    as any whole units with the same sum.

  Nothing here is about a particular program.
-/
import Mathlib.Algebra.BigOperators.Group.List.Basic
import Mathlib.Algebra.Order.BigOperators.Group.List
import Mathlib.Algebra.Order.Field.Basic
import Mathlib.Algebra.Order.Round
import Mathlib.Tactic.Linarith

namespace LinkedOut.Apportionment

/-! ## Floors and what they drop -/

section Floors

variable {α : Type} (weight : α → Nat) (scale total : Nat)

/-- Division with rest, summed over the rows. -/
theorem div_add_mod_sum (rows : List α) :
    total * (rows.map fun a => weight a * scale / total).sum +
      (rows.map fun a => weight a * scale % total).sum = (rows.map weight).sum * scale := by
  induction rows with
  | nil => simp
  | cons a rows ih =>
    have ha := Nat.div_add_mod (weight a * scale) total
    simp only [List.map_cons, List.sum_cons, Nat.mul_add, Nat.add_mul]
    omega

/-- Every rest is below the total, and only the rows with a rest contribute. -/
theorem sum_rest_add_countP_le (rest : α → Nat) (hrest : ∀ a, rest a < total) (rows : List α) :
    (rows.map rest).sum + rows.countP (fun a => 0 < rest a) ≤
      total * rows.countP fun a => 0 < rest a := by
  induction rows with
  | nil => simp
  | cons a rows ih =>
    have ha := hrest a
    rw [List.map_cons, List.sum_cons, List.countP_cons]
    split
    · rw [Nat.mul_add]
      omega
    · rename_i hzero
      have hzero' : rest a = 0 := by simpa using hzero
      rw [Nat.add_zero]
      omega

/-- The units left over by the floors are at most as many as the rows with a rest. -/
theorem left_le_countP (hpos : 0 < total) (rest : α → Nat) (hrest : ∀ a, rest a < total)
    (rows : List α) (left : Nat) (hleft : total * left = (rows.map rest).sum) :
    left ≤ rows.countP fun a => 0 < rest a := by
  have hle := sum_rest_add_countP_le total rest hrest rows
  rw [← hleft] at hle
  exact Nat.le_of_mul_le_mul_left (by omega) hpos

end Floors

/-! ## Rows ordered by what they lost -/

section Ordered

variable {α : Type} {rest : α → Nat} {ranked : List α}

/-- The first rows lost something, as long as there are enough rows that did. -/
theorem rest_pos_of_mem_take (hranked : ranked.Pairwise fun a b => rest b ≤ rest a) {n : Nat}
    (hn : n ≤ ranked.countP fun a => 0 < rest a) : ∀ a ∈ ranked.take n, 0 < rest a := by
  induction ranked generalizing n with
  | nil => simp
  | cons b ranked ih =>
    obtain ⟨hb, htail⟩ := List.pairwise_cons.mp hranked
    cases n with
    | zero => simp
    | succ n =>
      -- the first row lost most, so it lost something when any row did
      have hpos : 0 < rest b := by
        obtain ⟨c, hc, hcpos⟩ := List.countP_pos_iff.mp (Nat.lt_of_lt_of_le n.succ_pos hn)
        have hcpos' : 0 < rest c := by simpa using hcpos
        rcases List.mem_cons.mp hc with rfl | hc
        · exact hcpos'
        · exact Nat.lt_of_lt_of_le hcpos' (hb c hc)
      have hcount : n ≤ ranked.countP fun a => 0 < rest a := by
        rw [List.countP_cons, if_pos (decide_eq_true hpos)] at hn
        omega
      intro a ha
      rcases List.mem_cons.mp ha with rfl | ha
      · exact hpos
      · exact ih htail hcount a ha

/-- One threshold separates the first rows from the others. -/
theorem exists_threshold (hranked : ranked.Pairwise fun a b => rest b ≤ rest a) {total : Nat}
    (hrest : ∀ a, rest a ≤ total) (n : Nat) :
    ∃ θ ≤ total, (∀ a ∈ ranked.take n, θ ≤ rest a) ∧ ∀ a ∈ ranked.drop n, rest a ≤ θ := by
  cases hdrop : ranked.drop n with
  | nil => exact ⟨0, Nat.zero_le _, fun _ _ => Nat.zero_le _, by simp⟩
  | cons b others =>
    rw [← List.take_append_drop n ranked, hdrop, List.pairwise_append] at hranked
    obtain ⟨-, hothers, hacross⟩ := hranked
    refine ⟨rest b, hrest b, fun a ha => hacross a ha b List.mem_cons_self, fun a ha => ?_⟩
    rcases List.mem_cons.mp ha with rfl | ha
    · exact Nat.le_refl _
    · exact (List.pairwise_cons.mp hothers).1 a ha

/-- Two rows of a list without repeats: when the later one is among the first `n`, so is the
    earlier one. -/
theorem mem_take_of_sublist (hnodup : ranked.Nodup) {a b : α} (hab : [a, b].Sublist ranked) {n : Nat}
    (hb : b ∈ ranked.take n) : a ∈ ranked.take n := by
  induction ranked generalizing n with
  | nil => simp at hb
  | cons c ranked ih =>
    obtain ⟨hc, htail⟩ := List.nodup_cons.mp hnodup
    cases n with
    | zero => simp at hb
    | succ n =>
      rw [List.take_succ_cons, List.mem_cons] at hb ⊢
      rcases List.cons_sublist_cons'.mp hab with hskip | ⟨rfl, hb'⟩
      · have hbmem : b ∈ ranked := hskip.subset (by simp)
        rcases hb with rfl | hb
        · exact absurd hbmem hc
        · exact Or.inr (ih htail hskip hb)
      · exact Or.inl rfl

end Ordered

/-! ## The distance to the shares -/

section Distance

variable {K : Type} [Field K] [LinearOrder K] [IsStrictOrderedRing K]

/-- `t` units for the share `x`: rounded down by at most `θ`, or up by at most `1 - θ`. -/
def RoundsAt (θ x : K) (t : ℤ) : Prop :=
  ((t : K) ≤ x ∧ x - t ≤ θ) ∨ (x ≤ t ∧ t - x ≤ 1 - θ)

/-- Away from a rounded value the distance grows at least as fast as the line of slope
    `1 - 2 * θ` through it. -/
theorem RoundsAt.abs_sub_add_le {θ x : K} {t : ℤ} (h0 : 0 ≤ θ) (h1 : θ ≤ 1)
    (h : RoundsAt θ x t) (b : ℤ) :
    |(t : K) - x| + (1 - 2 * θ) * ((b : K) - t) ≤ |(b : K) - x| := by
  rcases h with ⟨hle, hnear⟩ | ⟨hle, hnear⟩
  · rw [abs_of_nonpos (sub_nonpos.mpr hle)]
    rcases lt_or_ge t b with hlt | hge
    · have hstep : (t : K) + 1 ≤ b := by exact_mod_cast hlt
      have hmul : θ * 1 ≤ θ * ((b : K) - t) := mul_le_mul_of_nonneg_left (by linarith) h0
      rw [abs_of_nonneg (by linarith)]
      linarith
    · have hstep : (b : K) ≤ t := by exact_mod_cast hge
      have hmul : 0 ≤ (1 - θ) * ((t : K) - b) := mul_nonneg (by linarith) (by linarith)
      rw [abs_of_nonpos (by linarith)]
      linarith
  · rw [abs_of_nonneg (sub_nonneg.mpr hle)]
    rcases lt_or_ge b t with hlt | hge
    · have hstep : (b : K) + 1 ≤ t := by exact_mod_cast hlt
      have hmul : (1 - θ) * 1 ≤ (1 - θ) * ((t : K) - b) :=
        mul_le_mul_of_nonneg_left (by linarith) (by linarith)
      rw [abs_of_nonpos (by linarith)]
      linarith
    · have hstep : (t : K) ≤ b := by exact_mod_cast hge
      have hmul : 0 ≤ θ * ((b : K) - t) := mul_nonneg h0 (by linarith)
      rw [abs_of_nonneg (by linarith)]
      linarith

/-- Whole units rounded at one threshold are as close to the shares, all in all, as any
    others with the same sum. -/
theorem sum_abs_sub_le {α : Type} {θ : K} (h0 : 0 ≤ θ) (h1 : θ ≤ 1) (rows : List α) (x : α → K)
    (t b : α → ℤ) (ht : ∀ a ∈ rows, RoundsAt θ (x a) (t a))
    (hsum : (rows.map t).sum = (rows.map b).sum) :
    (rows.map fun a => |(t a : K) - x a|).sum ≤ (rows.map fun a => |(b a : K) - x a|).sum := by
  -- without the equal sums the line's slope times their difference is left over
  have hslope : ∀ rows : List α, (∀ a ∈ rows, RoundsAt θ (x a) (t a)) →
      (rows.map fun a => |(t a : K) - x a|).sum +
        (1 - 2 * θ) * (((rows.map b).sum : ℤ) - ((rows.map t).sum : ℤ) : K) ≤
          (rows.map fun a => |(b a : K) - x a|).sum := by
    intro rows hrows
    induction rows with
    | nil => simp
    | cons a rows ih =>
      have ha := (hrows a List.mem_cons_self).abs_sub_add_le h0 h1 (b a)
      have htail := ih fun c hc => hrows c (List.mem_cons_of_mem _ hc)
      simp only [List.map_cons, List.sum_cons, Int.cast_add]
      linarith
  have h := hslope rows ht
  rw [hsum, sub_self, mul_zero, add_zero] at h
  exact h

end Distance

end LinkedOut.Apportionment
