/-
  A sliding-window limiter whose check and stamp are separate steps. Between the two a
  session is let in but has no timestamp yet; `checked i` is when session `i` was let in.

  `SpacedWith W N`: in every closed interval of length `W`, the timestamps and the sessions
  let in by its end are `N` at most. A session that is let in when fewer than `M` timestamps
  are recent and at most `C` sessions are under way keeps `N = M + C - 1` (`admit`), and its
  timestamp takes its own place (`store`).

  Nothing here is about a particular program.
-/
import Mathlib.Data.Finset.Card
import Mathlib.Data.Fintype.Basic
import Mathlib.Logic.Function.Basic
import LinkedOut.SlidingWindow

namespace LinkedOut

section

variable {T ι : Type} [AddCommGroup T] [LinearOrder T]

/-- The timestamps of an interval, with the sessions that may still add to it. -/
def SpacedWith (W : T) (N : Nat) (stamps : List T) (checked : ι → Option T) : Prop :=
  ∀ (a : T) (J : Finset ι), (∀ i ∈ J, ∃ c, checked i = some c ∧ c ≤ a + W) →
    inInterval a (a + W) stamps + J.card ≤ N

/-- At most `C` sessions are between their check and their stamp. -/
def AtMostUnderWay (C : Nat) (checked : ι → Option T) : Prop :=
  ∀ J : Finset ι, (∀ i ∈ J, (checked i).isSome) → J.card ≤ C

instance [Fintype ι] (C : Nat) (checked : ι → Option T) : Decidable (AtMostUnderWay C checked) :=
  decidable_of_iff ((Finset.univ.filter fun i => (checked i).isSome).card ≤ C) <| by
    constructor
    · intro h J hJ
      refine (Finset.card_le_card fun i hi => ?_).trans h
      exact Finset.mem_filter.mpr ⟨Finset.mem_univ i, hJ i hi⟩
    · intro h
      exact h _ fun i hi => (Finset.mem_filter.mp hi).2

variable {W : T} {M N C : Nat} {stamps : List T} {checked checked' : ι → Option T}

theorem SpacedWith.spaced (h : SpacedWith W N stamps checked) : Spaced W N stamps := by
  intro a
  have hnone := h a ∅ fun i hi => absurd hi (Finset.notMem_empty i)
  simpa using hnone

/-- While nobody is under way the timestamps are all there is. -/
theorem Spaced.with_none (h : Spaced W N stamps) (hnone : ∀ i, checked i = none) :
    SpacedWith W N stamps checked := by
  intro a J hJ
  have hempty : J = ∅ := by
    refine Finset.eq_empty_of_forall_notMem fun i hi => ?_
    obtain ⟨c, hc, -⟩ := hJ i hi
    rw [hnone i] at hc
    cases hc
  have ha := h a
  rw [hempty, Finset.card_empty]
  omega

/-- Fewer sessions under way. -/
theorem SpacedWith.mono (h : SpacedWith W N stamps checked)
    (hsub : ∀ i c, checked' i = some c → checked i = some c) :
    SpacedWith W N stamps checked' := by
  intro a J hJ
  refine h a J fun i hi => ?_
  obtain ⟨c, hc, hle⟩ := hJ i hi
  exact ⟨c, hsub i c hc, hle⟩

variable [IsOrderedAddMonoid T]

/-- A session is let in at the time `c`. -/
theorem SpacedWith.admit (h : SpacedWith W (M + C - 1) stamps checked) {i : ι} {c : T}
    (hadmits : recent (c - W) stamps < M) (hi : checked' i = some c)
    (hother : ∀ j, j ≠ i → checked' j = checked j) (hcap : AtMostUnderWay C checked') :
    SpacedWith W (M + C - 1) stamps checked' := by
  intro a J hJ
  by_cases hca : c ≤ a + W
  · -- the interval begins after the window of the check
    have hold : inInterval a (a + W) stamps ≤ recent (c - W) stamps :=
      inInterval_le_recent (sub_le_iff_le_add.mpr hca) stamps
    have hfew : J.card ≤ C := hcap J fun j hj => by
      obtain ⟨c', hc', -⟩ := hJ j hj
      rw [hc']
      rfl
    omega
  · -- the session can add nothing to the interval
    refine h a J fun j hj => ?_
    obtain ⟨c', hc', hle⟩ := hJ j hj
    have hne : j ≠ i := by
      rintro rfl
      rw [hi] at hc'
      cases hc'
      exact hca hle
    exact ⟨c', hother j hne ▸ hc', hle⟩

omit [IsOrderedAddMonoid T] in
/-- A session that was let in is stamped, no earlier than it was let in. -/
theorem SpacedWith.store (h : SpacedWith W N stamps checked) {i : ι} {c t : T}
    (hi : checked i = some c) (hct : c ≤ t) (hi' : checked' i = none)
    (hother : ∀ j, j ≠ i → checked' j = checked j) :
    SpacedWith W N (stamps ++ [t]) checked' := by
  classical
  intro a J hJ
  have hnot : i ∉ J := by
    intro hmem
    obtain ⟨c', hc', -⟩ := hJ i hmem
    rw [hi'] at hc'
    cases hc'
  have hJ' : ∀ j ∈ J, ∃ c, checked j = some c ∧ c ≤ a + W := by
    intro j hj
    obtain ⟨c', hc', hle⟩ := hJ j hj
    have hne : j ≠ i := fun heq => hnot (heq ▸ hj)
    exact ⟨c', hother j hne ▸ hc', hle⟩
  unfold inInterval
  rw [List.countP_append, List.countP_singleton]
  split
  · rename_i hin
    have hta : t ≤ a + W := by
      simp only [Bool.and_eq_true, decide_eq_true_eq] at hin
      exact hin.2
    -- it was counted among those under way
    have hwith := h a (insert i J) fun j hj => by
      rcases Finset.mem_insert.mp hj with rfl | hj
      · exact ⟨c, hi, hct.trans hta⟩
      · exact hJ' j hj
    rw [Finset.card_insert_of_notMem hnot] at hwith
    unfold inInterval at hwith
    omega
  · exact h a J hJ'

end

end LinkedOut
