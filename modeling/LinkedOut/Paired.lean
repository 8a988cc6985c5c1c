/-
  Two fallible computations side by side: the same error, or two results in a relation.

  * `Paired R x y`, and its rules: `bind` for steps whose results are related, `bind_eq` and
    `bind_map` for steps whose results are equal or a function of each other.
  * `of_map_eq`, `error_or_ok`: into `Paired` and out of it.

  Nothing here is about a particular program.
-/

namespace LinkedOut

/-- The same error, or results related by `R`. -/
inductive Paired {ε α β : Type} (R : α → β → Prop) : Except ε α → Except ε β → Prop
  | error (e : ε) : Paired R (.error e) (.error e)
  | ok {a : α} {b : β} (h : R a b) : Paired R (.ok a) (.ok b)

namespace Paired

variable {ε α β γ δ : Type} {R : α → β → Prop} {S : γ → δ → Prop}

theorem bind {x : Except ε α} {y : Except ε β} {f : α → Except ε γ} {g : β → Except ε δ}
    (hxy : Paired R x y) (hfg : ∀ a b, R a b → Paired S (f a) (g b)) :
    Paired S (x >>= f) (y >>= g) := by
  cases hxy with
  | error e => exact .error e
  | ok h => exact hfg _ _ h

/-- A step that gives the same on both sides. -/
theorem bind_eq {x y : Except ε α} {f : α → Except ε γ} {g : α → Except ε δ} (hxy : y = x)
    (hfg : ∀ a, Paired S (f a) (g a)) : Paired S (x >>= f) (y >>= g) := by
  subst hxy
  cases y with
  | error e => exact .error e
  | ok a => exact hfg a

/-- A step whose second result is what `φ` makes of the first. -/
theorem bind_map {x : Except ε α} {y : Except ε β} (φ : α → β) {f : α → Except ε γ}
    {g : β → Except ε δ} (hxy : y = x.map φ) (hfg : ∀ a, Paired S (f a) (g (φ a))) :
    Paired S (x >>= f) (y >>= g) := by
  subst hxy
  cases x with
  | error e => exact .error e
  | ok a => exact hfg a

/-- Results that show the same are related so. -/
theorem of_map_eq {x : Except ε α} {y : Except ε β} {f : α → γ} {g : β → γ}
    (h : x.map f = y.map g) : Paired (fun a b => f a = g b) x y := by
  cases x with
  | error e =>
    cases y with
    | error e' => cases h; exact .error e
    | ok b => cases h
  | ok a =>
    cases y with
    | error e' => cases h
    | ok b => exact .ok (Except.ok.inj h)

theorem error_or_ok {x : Except ε α} {y : Except ε β} (h : Paired R x y) :
    (∃ e, x = .error e ∧ y = .error e) ∨ ∃ a b, R a b ∧ x = .ok a ∧ y = .ok b := by
  cases h with
  | error e => exact Or.inl ⟨e, rfl, rfl⟩
  | ok h => exact Or.inr ⟨_, _, h, rfl, rfl⟩

end Paired

end LinkedOut
