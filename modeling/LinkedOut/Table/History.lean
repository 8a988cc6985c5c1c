/-
  What becomes of the rows of a table, and rows that refer to rows of another.

  * `Moved R`: the rows are still there, in their order and each as `R` allows, and rows
    may have been added behind them.
  * `Refers fk`: the foreign key `fk` of every row, unless it is NULL, is the primary key of
    a row of the other table. Inserts and updates on either side keep it.

  Nothing here is about a particular schema.
-/
import Mathlib.Data.List.Forall2
import LinkedOut.Table

namespace LinkedOut

theorem forall₂_trans {α : Type} {R : α → α → Prop} {l l' l'' : List α}
    (hR : ∀ {a b c}, R a b → R b c → R a c) (h : List.Forall₂ R l l')
    (h' : List.Forall₂ R l' l'') : List.Forall₂ R l l'' := by
  induction h generalizing l'' with
  | nil => exact h'
  | cons hab _ ih =>
    cases h' with
    | cons hbc hrest => exact .cons (hR hab hbc) (ih hrest)

theorem filter_sublist_of_forall₂ {α : Type} {R : α → α → Prop} {p : α → Bool} {l l' : List α}
    (hp : ∀ {a b}, R a b → p a = true → b = a) (h : List.Forall₂ R l l') :
    (l.filter p).Sublist (l'.filter p) := by
  induction h with
  | nil => exact List.Sublist.refl _
  | @cons a b l l' hab _ ih =>
    by_cases ha : p a = true
    · rw [hp hab ha, List.filter_cons_of_pos ha, List.filter_cons_of_pos ha]
      exact ih.cons_cons a
    · rw [List.filter_cons_of_neg ha]
      exact ih.trans ((List.sublist_cons_self b l').filter p)

namespace Table

variable {α β : Type} [Record α] [Record β]

/-! ## Rows that stay -/

/-- The rows of `t` are in `t'`, in order and each as `R` allows, before any new ones. -/
def Moved (R : α → α → Prop) (t t' : Table α) : Prop :=
  ∃ kept added, t'.rows = kept ++ added ∧ List.Forall₂ R t.rows kept

section

variable {R : α → α → Prop} {t t' t'' : Table α} {a : α} {k : Nat} {f : Patch α}

theorem Moved.refl (hR : ∀ a, R a a) (t : Table α) : Moved R t t :=
  ⟨t.rows, [], by rw [List.append_nil], List.forall₂_same.mpr fun a _ => hR a⟩

theorem Moved.trans (hR : ∀ {a b c}, R a b → R b c → R a c) (h : Moved R t t')
    (h' : Moved R t' t'') : Moved R t t'' := by
  obtain ⟨kept, added, hrows, hkept⟩ := h
  obtain ⟨kept', added', hrows', hkept'⟩ := h'
  rw [hrows] at hkept'
  obtain ⟨first, rest, rfl, hfirst, -⟩ :
      ∃ first rest, kept' = first ++ rest ∧ List.Forall₂ R kept first ∧
        List.Forall₂ R added rest := by
    refine ⟨kept'.take kept.length, kept'.drop kept.length, (List.take_append_drop _ _).symm, ?_, ?_⟩
    · simpa using List.forall₂_take kept.length hkept'
    · simpa using List.forall₂_drop kept.length hkept'
  refine ⟨first, rest ++ added', by rw [hrows', List.append_assoc], ?_⟩
  exact forall₂_trans hR hkept hfirst

theorem moved_insert (hR : ∀ a, R a a) (h : t.insert a = some t') : Moved R t t' :=
  ⟨t.rows, [a], (insert_eq_some h).1, List.forall₂_same.mpr fun a _ => hR a⟩

theorem prefix_insert (h : t.insert a = some t') : t.rows <+: t'.rows :=
  ⟨[a], (insert_eq_some h).1.symm⟩

/-- An update moves one row at most. -/
theorem moved_update (hR : ∀ a, R a a) (ha : t.find? k = some a) (hf : R a (f.apply a)) :
    Moved R t (t.update k f) := by
  obtain ⟨hmem, hpk⟩ := (t.find?_eq_some k a).mp ha
  refine ⟨(t.update k f).rows, [], by rw [List.append_nil], ?_⟩
  rw [rows_update, List.forall₂_map_right_iff]
  refine List.forall₂_same.mpr fun b hb => ?_
  split
  · rename_i hk
    rw [t.eq_of_pk hb hmem (hk.trans hpk.symm)]
    exact hf
  · exact hR b

/-- The row with a key, later. -/
theorem Moved.find? (h : Moved R t t') (hpk : ∀ {a b}, R a b → pk b = pk a)
    (ha : t.find? k = some a) : ∃ b, t'.find? k = some b ∧ R a b := by
  obtain ⟨hmem, hk⟩ := (t.find?_eq_some k a).mp ha
  obtain ⟨kept, added, hrows, hkept⟩ := h
  obtain ⟨i, hi, rfl⟩ := List.getElem_of_mem hmem
  have hlength := hkept.length_eq
  have hab := hkept.get hi (hlength ▸ hi)
  refine ⟨kept[i], (t'.find?_eq_some k _).mpr ⟨?_, (hpk hab).trans hk⟩, hab⟩
  rw [hrows]
  exact List.mem_append_left _ (List.getElem_mem _)

/-- The rows of a query whose answer `R` does not take back are read again, in order. -/
theorem Moved.select_sublist {p : α → Bool} (h : Moved R t t')
    (hp : ∀ {a b}, R a b → p a = true → b = a) : (t.select p).Sublist (t'.select p) := by
  obtain ⟨kept, added, hrows, hkept⟩ := h
  refine (filter_sublist_of_forall₂ hp hkept).trans ?_
  rw [select, hrows, List.filter_append]
  exact List.sublist_append_left _ _

end

/-! ## Rows that refer to rows -/

/-- Some row has the primary key. -/
def Has (t : Table α) (k : Nat) : Prop := ∃ a ∈ t.rows, pk a = k

/-- The foreign key of every row is NULL or the primary key of a row of `parent`. -/
def Refers (fk : α → Option Nat) (child : Table α) (parent : Table β) : Prop :=
  ∀ a ∈ child.rows, ∀ k, fk a = some k → parent.Has k

section

variable {t t' : Table α} {k : Nat}

theorem has_of_find? {a : α} (h : t.find? k = some a) : t.Has k :=
  ⟨a, (t.find?_eq_some k a).mp h⟩

theorem Has.insert {a : α} (h : t.Has k) (hinsert : t.insert a = some t') : t'.Has k := by
  obtain ⟨b, hb, hk⟩ := h
  exact ⟨b, (mem_insert hinsert b).mpr (Or.inl hb), hk⟩

theorem Has.update (h : t.Has k) (j : Nat) (f : Patch α) : (t.update j f).Has k := by
  obtain ⟨b, hb, hk⟩ := h
  by_cases hj : pk b = j
  · exact ⟨f.apply b, (t.mem_update j f _).mpr (Or.inr ⟨b, hb, hj, rfl⟩), (f.pk_apply b).trans hk⟩
  · exact ⟨b, (t.mem_update j f _).mpr (Or.inl ⟨hb, hj⟩), hk⟩

theorem Moved.has {R : α → α → Prop} (h : Moved R t t') (hpk : ∀ {a b}, R a b → pk b = pk a)
    (hk : t.Has k) : t'.Has k := by
  obtain ⟨a, ha, hak⟩ := hk
  obtain ⟨b, hb, -⟩ := h.find? hpk ((t.find?_eq_some k a).mpr ⟨ha, hak⟩)
  exact has_of_find? hb

end

section

variable {fk : α → Option Nat} {child child' : Table α} {parent parent' : Table β}

theorem Refers.insert {a : α} (h : Refers fk child parent) (hinsert : child.insert a = some child')
    (ha : ∀ k, fk a = some k → parent.Has k) : Refers fk child' parent := by
  intro b hb
  rcases (mem_insert hinsert b).mp hb with hb | rfl
  · exact h b hb
  · exact ha

theorem Refers.update (h : Refers fk child parent) (k : Nat) (f : Patch α)
    (hf : ∀ a, fk (f.apply a) = fk a) : Refers fk (child.update k f) parent := by
  intro b hb
  obtain ⟨a, ha, hfk⟩ := child.exists_of_mem_update fk hf hb
  rw [← hfk]
  exact h a ha

theorem Refers.mono (h : Refers fk child parent) (hparent : ∀ k, parent.Has k → parent'.Has k) :
    Refers fk child parent' :=
  fun a ha k hk => hparent k (h a ha k hk)

end

end Table

end LinkedOut
