/-
  Guessing a secret that a machine keeps. A player picks every event from what was observed
  so far (`play`); the machine holds one of the secrets `κ`, which no observation shows.

  `Guarded`: a step either treats all secrets alike, or it is a guess, which treats all but
  one secret alike and spends one try. `found_card_le`: then, whatever the player does, at
  most as many secrets are found as there were tries. Picking the secret at random finds it
  with no more than that chance.

  Nothing here is about a particular program.
-/
import Mathlib.Data.Finset.Card
import LinkedOut.Machine

namespace LinkedOut

namespace Machine

variable {ε σ ο : Type} (M : Machine ε σ ο)

/-- The record of `n` steps whose events `strategy` picks, after the observations `os`. -/
def play (strategy : List ο → ε) : Nat → List ο → σ → List (Served ε σ ο)
  | 0, _, _ => []
  | n + 1, os, s =>
    let v := M.serve (strategy os) s
    v :: play strategy n (os ++ [v.out]) v.after

/-- `variant k t` is the state `t` with the secret `k` in it, and `found` tells the steps that
    find the secret. The event treats all secrets alike, or it treats all but one alike and
    leaves one try less. -/
inductive GuardedStep {κ : Type} (variant : κ → σ → σ) (found : Served ε σ ο → Bool)
    (tries : σ → Nat) (I : σ → Prop) (e : ε) (t : σ) : Prop where
  | alike (out : ο) (t' : σ) (hI : I t') (hle : tries t' ≤ tries t)
      (hall : ∀ k, M.step e (variant k t) = (out, variant k t') ∧
        found (M.serve e (variant k t)) = false) : GuardedStep variant found tries I e t
  | guessed (out : ο) (t' : σ) (hI : I t') (hless : tries t' < tries t) (guess : κ → Prop)
      (hone : ∀ k k', guess k → guess k' → k = k')
      (hmost : ∀ k, ¬ guess k → M.step e (variant k t) = (out, variant k t') ∧
        found (M.serve e (variant k t)) = false) : GuardedStep variant found tries I e t

/-- Every event in a state that meets `I` is such a step. -/
def Guarded {κ : Type} (variant : κ → σ → σ) (found : Served ε σ ο → Bool)
    (tries : σ → Nat) (I : σ → Prop) : Prop :=
  ∀ e t, I t → M.GuardedStep variant found tries I e t

variable {M} {κ : Type} {variant : κ → σ → σ} {found : Served ε σ ο → Bool} {tries : σ → Nat}
  {I : σ → Prop}

/-- A step that does not find the secret leaves the rest of the play to find it. -/
theorem any_play_succ {strategy : List ο → ε} {n : Nat} {os : List ο} {s : σ} {out : ο} {s' : σ}
    (hstep : M.step (strategy os) s = (out, s'))
    (hfound : found (M.serve (strategy os) s) = false) :
    (M.play strategy (n + 1) os s).any found = (M.play strategy n (os ++ [out]) s').any found := by
  rw [play, List.any_cons, hfound, Bool.false_or]
  simp only [serve, hstep]

/-- No more secrets are found than there are tries. -/
theorem found_card_le (h : M.Guarded variant found tries I) (strategy : List ο → ε) (n : Nat)
    (os : List ο) {t : σ} (ht : I t) (secrets : Finset κ) :
    (secrets.filter fun k => (M.play strategy n os (variant k t)).any found = true).card ≤
      tries t := by
  classical
  induction n generalizing os t secrets with
  | zero => simp [play]
  | succ n ih =>
    cases h (strategy os) t ht with
    | alike out t' ht' hle hall =>
      refine le_trans (le_of_eq ?_) ((ih (os ++ [out]) ht' secrets).trans hle)
      refine congrArg Finset.card (Finset.filter_congr fun k _ => ?_)
      rw [any_play_succ (hall k).1 (hall k).2]
    | guessed out t' ht' hless guess hone hmost =>
      -- the guessed secret is found at most, and those that the rest of the play finds
      have hcover : (secrets.filter fun k =>
          (M.play strategy (n + 1) os (variant k t)).any found = true) ⊆
          secrets.filter guess ∪ (secrets.filter fun k => ¬ guess k).filter fun k =>
            (M.play strategy n (os ++ [out]) (variant k t')).any found = true := by
        intro k hk
        obtain ⟨hmem, hany⟩ := Finset.mem_filter.mp hk
        by_cases hguess : guess k
        · exact Finset.mem_union_left _ (Finset.mem_filter.mpr ⟨hmem, hguess⟩)
        · rw [any_play_succ (hmost k hguess).1 (hmost k hguess).2] at hany
          exact Finset.mem_union_right _
            (Finset.mem_filter.mpr ⟨Finset.mem_filter.mpr ⟨hmem, hguess⟩, hany⟩)
      have hguessed : (secrets.filter guess).card ≤ 1 := by
        refine Finset.card_le_one.mpr fun k hk k' hk' => ?_
        exact hone k k' (Finset.mem_filter.mp hk).2 (Finset.mem_filter.mp hk').2
      calc (secrets.filter fun k => (M.play strategy (n + 1) os (variant k t)).any found = true).card
          ≤ _ := Finset.card_le_card hcover
        _ ≤ (secrets.filter guess).card + _ := Finset.card_union_le _ _
        _ ≤ 1 + tries t' := Nat.add_le_add hguessed (ih _ ht' _)
        _ ≤ tries t := by omega

end Machine

end LinkedOut
