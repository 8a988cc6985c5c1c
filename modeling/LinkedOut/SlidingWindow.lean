/-
  Sliding-window rate limits over an ordered group of timestamps.

  A limiter keeps the timestamps of what it has admitted. At the time `c` it admits when
  fewer than `M` of them are no older than `c - W`, and what it admits is stamped at some
  time `t` from `c` on. `Spaced W M`: no closed interval of length `W` has more than `M`
  timestamps.

  * `Spaced.snoc`: what the limiter admits keeps the timestamps spaced, whatever their order.
  * `recent_lt_of_past`: later than a window after the last timestamp it admits again.

  Nothing here is about a particular program.
-/
import Mathlib.Algebra.Order.Group.Basic

namespace LinkedOut

section

variable {T : Type} [AddCommGroup T] [LinearOrder T] [IsOrderedAddMonoid T]

/-- How many timestamps are in the closed interval. -/
def inInterval (a b : T) (stamps : List T) : Nat :=
  stamps.countP fun t => decide (a ≤ t) && decide (t ≤ b)

/-- How many timestamps are no older than `a`. -/
def recent (a : T) (stamps : List T) : Nat := stamps.countP fun t => decide (a ≤ t)

def Spaced (W : T) (M : Nat) (stamps : List T) : Prop :=
  ∀ a, inInterval a (a + W) stamps ≤ M

omit [IsOrderedAddMonoid T] in
theorem Spaced.nil (W : T) (M : Nat) : Spaced W M [] := fun _ => Nat.zero_le M

omit [AddCommGroup T] [IsOrderedAddMonoid T] in
/-- The timestamps of an interval are no older than anything before it. -/
theorem inInterval_le_recent {a b c : T} (h : c ≤ a) (stamps : List T) :
    inInterval a b stamps ≤ recent c stamps := by
  refine List.countP_mono_left fun t _ ht => ?_
  have hat : a ≤ t := by
    simp only [Bool.and_eq_true, decide_eq_true_eq] at ht
    exact ht.1
  exact decide_eq_true (h.trans hat)

theorem Spaced.snoc {W : T} {M : Nat} {stamps : List T} {c t : T} (h : Spaced W M stamps)
    (hct : c ≤ t) (hadmits : recent (c - W) stamps < M) : Spaced W M (stamps ++ [t]) := by
  intro a
  unfold inInterval
  rw [List.countP_append, List.countP_singleton]
  split
  · rename_i hin
    have hta : t ≤ a + W := by
      simp only [Bool.and_eq_true, decide_eq_true_eq] at hin
      exact hin.2
    -- the interval begins after the limiter's own window
    have hca : c - W ≤ a := sub_le_iff_le_add.mpr (hct.trans hta)
    have hold : inInterval a (a + W) stamps ≤ recent (c - W) stamps := inInterval_le_recent hca stamps
    unfold inInterval at hold
    omega
  · exact h a

theorem recent_lt_of_past {W : T} {M : Nat} {stamps : List T} {c c' : T} (hM : 1 ≤ M)
    (hpast : ∀ t ∈ stamps, t ≤ c) (hlater : c + W < c') : recent (c' - W) stamps < M := by
  have hnone : recent (c' - W) stamps = 0 := by
    refine List.countP_eq_zero.mpr fun t ht hrecent => ?_
    have hct : c < t := (lt_sub_iff_add_lt.mpr hlater).trans_le (of_decide_eq_true hrecent)
    exact absurd hct (not_lt.mpr (hpast t ht))
  omega

end

end LinkedOut
