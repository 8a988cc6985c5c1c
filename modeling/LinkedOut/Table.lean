/-
  Tables: lists of rows with a primary key and declared uniqueness constraints.

  A `Record` names the primary key of a row, when two rows break a declared
  constraint (`clash`; sharing the primary key always does), and which rows the
  column types admit. A `Table` carries that no two of its rows clash, so a state
  that breaks a constraint cannot be built: `insert` gives `none` there, and an
  `update` takes a `Patch`, which leaves the constrained columns alone.

  The order of `rows` is the order of insertion. What order the engine returns rows
  in is `orderAsc` / `orderDesc`: by the sort key, ties by an arbitrary `place`.

  Nothing here is about a particular schema.
-/
import Mathlib.Data.List.Induction
import Mathlib.Data.List.Sort

namespace LinkedOut

/-- A row type with its primary key, its uniqueness constraints and its column types. -/
class Record (α : Type) where
  pk : α → Nat
  clash : α → α → Bool
  admits : α → Bool
  clash_comm : ∀ a b, clash a b = clash b a
  clash_of_pk : ∀ a b, pk a = pk b → clash a b = true

export Record (pk clash admits)

/-- An UPDATE of columns no declared constraint speaks of. -/
structure Patch (α : Type) [Record α] where
  apply : α → α
  pk_apply : ∀ a, pk (apply a) = pk a
  clash_apply : ∀ a b, clash (apply a) b = clash a b

/-- Rows no two of which break a declared constraint. -/
structure Table (α : Type) [Record α] where
  rows : List α
  distinct : rows.Pairwise fun a b => clash a b = false

namespace Table

variable {α : Type} [Record α]

@[ext] theorem ext {t u : Table α} (h : t.rows = u.rows) : t = u := by
  cases t; cases u; cases h; rfl

/-- The table without rows. -/
def empty : Table α := ⟨[], List.Pairwise.nil⟩

/-- SELECT: the rows that meet the filter. -/
def select (t : Table α) (p : α → Bool) : List α := t.rows.filter p

/-- The row with primary key `k`. -/
def find? (t : Table α) (k : Nat) : Option α := t.rows.find? fun a => pk a == k

/-- INSERT: `none` when a column does not admit its value or a constraint is broken. -/
def insert (t : Table α) (a : α) : Option (Table α) :=
  if h : admits a = true ∧ ∀ b ∈ t.rows, clash b a = false then
    some ⟨t.rows ++ [a], List.pairwise_append.mpr ⟨t.distinct, List.pairwise_singleton _ _, by
      intro b hb c hc
      rw [List.mem_singleton.mp hc]
      exact h.2 b hb⟩⟩
  else none

/-- UPDATE of the row with primary key `k`. -/
def update (t : Table α) (k : Nat) (f : Patch α) : Table α where
  rows := t.rows.map fun a => if pk a = k then f.apply a else a
  distinct := by
    rw [List.pairwise_map]
    refine t.distinct.imp fun {a b} hab => ?_
    have hside : ∀ c, clash (if pk b = k then f.apply b else b) c = clash b c := by
      intro c
      split
      · rw [f.clash_apply]
      · rfl
    split
    · rw [f.clash_apply, Record.clash_comm, hside, Record.clash_comm]; exact hab
    · rw [Record.clash_comm, hside, Record.clash_comm]; exact hab

/-- UPDATE of every row. -/
def updateAll (t : Table α) (f : Patch α) : Table α where
  rows := t.rows.map f.apply
  distinct := by
    rw [List.pairwise_map]
    refine t.distinct.imp fun {a b} hab => ?_
    rw [f.clash_apply, Record.clash_comm, f.clash_apply, Record.clash_comm]
    exact hab

/-! ## Rows of one table are told apart by every constraint -/

theorem clash_self (a : α) : clash a a = true := Record.clash_of_pk a a rfl

theorem eq_of_clash (t : Table α) {a b : α} (ha : a ∈ t.rows) (hb : b ∈ t.rows)
    (h : clash a b = true) : a = b := by
  by_contra hne
  rcases List.pairwise_iff_getElem.mp t.distinct with hd
  obtain ⟨i, hi, rfl⟩ := List.getElem_of_mem ha
  obtain ⟨j, hj, rfl⟩ := List.getElem_of_mem hb
  rcases Nat.lt_trichotomy i j with hij | rfl | hij
  · rw [hd i j hi hj hij] at h; exact Bool.false_ne_true h
  · exact hne rfl
  · rw [Record.clash_comm, hd j i hj hi hij] at h; exact Bool.false_ne_true h

theorem eq_of_pk (t : Table α) {a b : α} (ha : a ∈ t.rows) (hb : b ∈ t.rows)
    (h : pk a = pk b) : a = b :=
  t.eq_of_clash ha hb (Record.clash_of_pk a b h)

theorem nodup (t : Table α) : t.rows.Nodup :=
  t.distinct.imp fun {a b} hab he => by rw [he, clash_self] at hab; exact Bool.noConfusion hab

theorem mem_select (t : Table α) (p : α → Bool) (a : α) :
    a ∈ t.select p ↔ a ∈ t.rows ∧ p a = true := List.mem_filter

/-- A filter that only clashing rows can share selects at most one row. -/
theorem select_of_clash (t : Table α) (p : α → Bool)
    (hp : ∀ a b, p a = true → p b = true → clash a b = true) :
    t.select p = (t.rows.find? p).toList := by
  have hd : (t.rows.filter p).Pairwise fun a b => clash a b = false := t.distinct.filter p
  have hm : ∀ a ∈ t.rows.filter p, p a = true := fun a ha => (List.mem_filter.mp ha).2
  rw [← List.head?_filter]
  unfold select
  match hl : t.rows.filter p with
  | [] => rfl
  | [a] => rfl
  | a :: b :: l =>
    rw [hl] at hd hm
    have hab := (List.pairwise_cons.mp hd).1 b List.mem_cons_self
    rw [hp a b (hm a List.mem_cons_self) (hm b (List.mem_cons_of_mem _ List.mem_cons_self))] at hab
    exact Bool.noConfusion hab

/-! ## Lookup by primary key -/

theorem find?_eq_some (t : Table α) (k : Nat) (a : α) :
    t.find? k = some a ↔ a ∈ t.rows ∧ pk a = k := by
  constructor
  · intro h
    exact ⟨List.mem_of_find?_eq_some h, by simpa using List.find?_some h⟩
  · rintro ⟨ha, rfl⟩
    match h : t.find? (pk a) with
    | none => exact absurd (List.find?_eq_none.mp h a ha) (by simp)
    | some b =>
      have hb : pk b = pk a := by simpa using List.find?_some h
      rw [t.eq_of_pk (List.mem_of_find?_eq_some h) ha hb]

theorem find?_eq_none (t : Table α) (k : Nat) :
    t.find? k = none ↔ ∀ a ∈ t.rows, pk a ≠ k := by
  simp [find?, List.find?_eq_none]

theorem select_pk (t : Table α) (k : Nat) :
    t.select (fun a => pk a == k) = (t.find? k).toList :=
  t.select_of_clash _ fun a b ha hb =>
    Record.clash_of_pk a b ((beq_iff_eq.mp ha).trans (beq_iff_eq.mp hb).symm)

/-! ## Two tables -/

/-- Tables with the same rows under a filter select the same, up to the order. -/
theorem perm_select {t u : Table α} {p : α → Bool}
    (h : ∀ a, p a = true → (a ∈ t.rows ↔ a ∈ u.rows)) : (t.select p).Perm (u.select p) := by
  refine (List.perm_ext_iff_of_nodup (t.nodup.filter p) (u.nodup.filter p)).mpr fun a => ?_
  rw [List.mem_filter, List.mem_filter]
  exact and_congr_left fun ha => h a ha

theorem find?_congr {t u : Table α} {k : Nat}
    (h : ∀ a, pk a = k → (a ∈ t.rows ↔ a ∈ u.rows)) : t.find? k = u.find? k := by
  refine Option.ext fun a => ?_
  rw [find?_eq_some, find?_eq_some]
  exact and_congr_left fun ha => h a ha

/-- The rows that meet the filter, as a table. -/
def keep (t : Table α) (p : α → Bool) : Table α := ⟨t.rows.filter p, t.distinct.filter p⟩

theorem mem_keep (t : Table α) (p : α → Bool) (a : α) :
    a ∈ (t.keep p).rows ↔ a ∈ t.rows ∧ p a = true := List.mem_filter

/-! ## INSERT -/

theorem insert_eq_some {t u : Table α} {a : α} (h : t.insert a = some u) :
    u.rows = t.rows ++ [a] ∧ admits a = true ∧ ∀ b ∈ t.rows, clash b a = false := by
  unfold insert at h
  split at h
  · rename_i hc
    cases h
    exact ⟨rfl, hc.1, hc.2⟩
  · cases h

theorem mem_insert {t u : Table α} {a : α} (h : t.insert a = some u) (b : α) :
    b ∈ u.rows ↔ b ∈ t.rows ∨ b = a := by
  rw [(insert_eq_some h).1, List.mem_append, List.mem_singleton]

theorem find?_insert {t u : Table α} {a : α} (h : t.insert a = some u) (k : Nat) :
    u.find? k = if pk a = k then some a else t.find? k := by
  obtain ⟨hrows, _, hfresh⟩ := insert_eq_some h
  unfold find?
  rw [hrows, List.find?_append]
  split
  · rename_i hk
    have hnone : t.rows.find? (fun b => pk b == k) = none := by
      rw [List.find?_eq_none]
      intro b hb hbk
      have hclash := Record.clash_of_pk b a ((beq_iff_eq.mp hbk).trans hk.symm)
      rw [hfresh b hb] at hclash
      exact Bool.noConfusion hclash
    rw [hnone]
    simp [hk]
  · rename_i hk
    simp [hk]

theorem find?_of_insert {t u : Table α} {a b : α} (h : t.insert a = some u) {k : Nat}
    (hb : t.find? k = some b) : u.find? k = some b := by
  rw [find?_eq_some] at hb ⊢
  exact ⟨(mem_insert h b).mpr (Or.inl hb.1), hb.2⟩

theorem select_insert {t u : Table α} {a : α} (h : t.insert a = some u) (p : α → Bool) :
    u.select p = t.select p ++ if p a then [a] else [] := by
  unfold select
  rw [(insert_eq_some h).1, List.filter_append]
  simp [List.filter_cons]

/-! ## UPDATE -/

theorem rows_update (t : Table α) (k : Nat) (f : Patch α) :
    (t.update k f).rows = t.rows.map fun a => if pk a = k then f.apply a else a := rfl

theorem mem_update (t : Table α) (k : Nat) (f : Patch α) (b : α) :
    b ∈ (t.update k f).rows ↔
      (b ∈ t.rows ∧ pk b ≠ k) ∨ ∃ a ∈ t.rows, pk a = k ∧ b = f.apply a := by
  rw [rows_update, List.mem_map]
  constructor
  · rintro ⟨a, ha, rfl⟩
    by_cases hk : pk a = k
    · exact Or.inr ⟨a, ha, hk, by rw [if_pos hk]⟩
    · exact Or.inl (by rw [if_neg hk]; exact ⟨ha, hk⟩)
  · rintro (⟨hb, hk⟩ | ⟨a, ha, hk, rfl⟩)
    · exact ⟨b, hb, if_neg hk⟩
    · exact ⟨a, ha, if_pos hk⟩

/-- The row with the key, once it is known. -/
theorem mem_update_of_find? {t : Table α} {k : Nat} {a : α} (ha : t.find? k = some a) (f : Patch α)
    (b : α) : b ∈ (t.update k f).rows ↔ (b ∈ t.rows ∧ pk b ≠ k) ∨ b = f.apply a := by
  obtain ⟨hmem, hpk⟩ := (t.find?_eq_some k a).mp ha
  rw [mem_update]
  refine or_congr_right ⟨?_, fun hb => ⟨a, hmem, hpk, hb⟩⟩
  rintro ⟨c, hc, hck, rfl⟩
  rw [t.eq_of_pk hc hmem (hck.trans hpk.symm)]

/-- A column that the patch leaves alone gets no new values. -/
theorem exists_of_mem_update {κ : Type} (t : Table α) {k : Nat} {f : Patch α} (column : α → κ)
    (hf : ∀ a, column (f.apply a) = column a) {b : α} (hb : b ∈ (t.update k f).rows) :
    ∃ a ∈ t.rows, column a = column b := by
  rcases (t.mem_update k f b).mp hb with ⟨hmem, -⟩ | ⟨a, hmem, -, rfl⟩
  · exact ⟨b, hmem, rfl⟩
  · exact ⟨a, hmem, (hf a).symm⟩

theorem find?_update (t : Table α) (k j : Nat) (f : Patch α) :
    (t.update k f).find? j = if j = k then (t.find? j).map f.apply else t.find? j := by
  unfold find?
  rw [rows_update, List.find?_map]
  have hcomp : ((fun a => pk a == j) ∘ fun a => if pk a = k then f.apply a else a) =
      fun a : α => pk a == j := by
    funext a
    simp only [Function.comp_apply]
    split
    · rw [f.pk_apply]
    · rfl
  rw [hcomp]
  match hf : t.rows.find? fun a => pk a == j with
  | none => simp
  | some a =>
    have ha : pk a = j := by simpa using List.find?_some hf
    simp only [Option.map_some, ha]
    split <;> rfl

theorem find?_update_ne (t : Table α) {k j : Nat} (f : Patch α) (h : j ≠ k) :
    (t.update k f).find? j = t.find? j := by
  rw [find?_update, if_neg h]

theorem find?_update_self (t : Table α) {k : Nat} (f : Patch α) {a : α}
    (h : t.find? k = some a) : (t.update k f).find? k = some (f.apply a) := by
  rw [find?_update, if_pos rfl, h]; rfl

/-- Writing the values a row already has changes nothing. -/
theorem update_of_fixed (t : Table α) {k : Nat} {f : Patch α} {a : α} (ha : t.find? k = some a)
    (hf : f.apply a = a) : t.update k f = t := by
  obtain ⟨hmem, hpk⟩ := (t.find?_eq_some k a).mp ha
  refine Table.ext ?_
  rw [rows_update]
  conv_rhs => rw [← List.map_id t.rows]
  refine List.map_congr_left fun b hb => ?_
  split
  · rename_i hk
    rw [t.eq_of_pk hb hmem (hk.trans hpk.symm), hf]; rfl
  · rfl

/-- A column of the selected rows, when the update leaves it and the filter alone. -/
theorem map_select_update {κ : Type} (t : Table α) (k : Nat) (f : Patch α) {p : α → Bool}
    {column : α → κ} (hp : ∀ a, p (f.apply a) = p a) (hcolumn : ∀ a, column (f.apply a) = column a) :
    ((t.update k f).select p).map column = (t.select p).map column := by
  unfold select
  rw [rows_update, List.filter_map, List.map_map]
  have hfilter : (t.rows.filter (p ∘ fun a => if pk a = k then f.apply a else a)) =
      t.rows.filter p := by
    refine List.filter_congr fun a _ => ?_
    simp only [Function.comp_apply]
    split
    · exact hp a
    · rfl
  rw [hfilter]
  refine List.map_congr_left fun a _ => ?_
  simp only [Function.comp_apply]
  split
  · exact hcolumn a
  · rfl

/-- An update that takes its row out of the filter. -/
theorem select_update_out (t : Table α) (k : Nat) (f : Patch α) {p : α → Bool}
    (hp : ∀ a, p (f.apply a) = false) :
    (t.update k f).select p = (t.select p).filter fun a => pk a != k := by
  unfold select
  rw [rows_update, List.filter_map, List.filter_filter]
  have hfilter : (t.rows.filter (p ∘ fun a => if pk a = k then f.apply a else a)) =
      t.rows.filter fun a => (pk a != k) && p a := by
    refine List.filter_congr fun a _ => ?_
    simp only [Function.comp_apply]
    split
    · rename_i hk; simp [hk, hp]
    · rename_i hk; simp [hk]
  rw [hfilter]
  conv_rhs => rw [← List.map_id (t.rows.filter _)]
  refine List.map_congr_left fun a ha => ?_
  have hk : pk a ≠ k := by
    have hkeep := (List.mem_filter.mp ha).2
    simp only [Bool.and_eq_true, bne_iff_ne] at hkeep
    exact hkeep.1
  rw [if_neg hk]
  rfl

/-- An update that leaves alone what the filter looks at selects the updated rows. -/
theorem length_select_update (t : Table α) (k : Nat) (f : Patch α) (p : α → Bool)
    (hp : ∀ a ∈ t.rows, pk a = k → p (f.apply a) = p a) :
    ((t.update k f).select p).length = (t.select p).length := by
  unfold select
  rw [rows_update, List.filter_map, List.length_map]
  refine congrArg List.length (List.filter_congr fun a ha => ?_)
  simp only [Function.comp_apply]
  split
  · rename_i hk; exact hp a ha hk
  · rfl

/-- An update that brings its row under the filter selects one row more. -/
theorem length_select_update_succ (t : Table α) {k : Nat} {f : Patch α} {p : α → Bool} {a : α}
    (ha : t.find? k = some a) (hold : p a = false) (hnew : p (f.apply a) = true) :
    ((t.update k f).select p).length = (t.select p).length + 1 := by
  obtain ⟨hmem, hpk⟩ := (t.find?_eq_some k a).mp ha
  obtain ⟨l, m, hrows⟩ := List.append_of_mem hmem
  have hnodup := t.nodup
  rw [hrows] at hnodup
  -- the rows around it have other keys, so they stay
  have hne : ∀ b ∈ l ++ m, pk b ≠ k := by
    intro b hb hbk
    have hb' : b ∈ t.rows := by
      rw [hrows]
      rcases List.mem_append.mp hb with h | h
      · exact List.mem_append_left _ h
      · exact List.mem_append_right _ (List.mem_cons_of_mem _ h)
    rw [t.eq_of_pk hb' hmem (hbk.trans hpk.symm)] at hb
    have := (List.nodup_middle.mp hnodup)
    exact (List.nodup_cons.mp this).1 hb
  have hmap : ∀ l' : List α, (∀ b ∈ l', pk b ≠ k) →
      l'.map (fun b => if pk b = k then f.apply b else b) = l' := fun l' hl' => by
    conv_rhs => rw [← List.map_id l']
    exact List.map_congr_left fun b hb => if_neg (hl' b hb)
  have hl := hmap l fun b hb => hne b (List.mem_append_left _ hb)
  have hm := hmap m fun b hb => hne b (List.mem_append_right _ hb)
  unfold select
  rw [rows_update, hrows, List.map_append, List.map_cons, hl, hm, if_pos hpk]
  simp [hold, hnew]
  omega

/-! ## UPDATE of every row -/

theorem rows_updateAll (t : Table α) (f : Patch α) : (t.updateAll f).rows = t.rows.map f.apply :=
  rfl

/-- A column that the patch leaves alone. -/
theorem map_rows_updateAll {κ : Type} (t : Table α) (f : Patch α) {column : α → κ}
    (hf : ∀ a, column (f.apply a) = column a) :
    (t.updateAll f).rows.map column = t.rows.map column := by
  rw [rows_updateAll, List.map_map]
  exact List.map_congr_left fun a _ => hf a

theorem select_updateAll (t : Table α) (f : Patch α) {p : α → Bool}
    (hp : ∀ a, p (f.apply a) = p a) : (t.updateAll f).select p = (t.select p).map f.apply := by
  unfold select
  rw [rows_updateAll, List.filter_map]
  exact congrArg _ (List.filter_congr fun a _ => hp a)

theorem find?_updateAll (t : Table α) (f : Patch α) (k : Nat) :
    (t.updateAll f).find? k = (t.find? k).map f.apply := by
  unfold find?
  rw [rows_updateAll, List.find?_map]
  refine congrArg _ (congrArg (List.find? · t.rows) (funext fun a => ?_))
  rw [Function.comp_apply, f.pk_apply]

/-- An update of every row that the columns' types do not see goes through an INSERT. -/
theorem insert_updateAll (t : Table α) (f : Patch α) {a : α} (ha : admits (f.apply a) = admits a) :
    (t.updateAll f).insert (f.apply a) = (t.insert a).map fun u => u.updateAll f := by
  have hclash : (∀ b ∈ (t.updateAll f).rows, clash b (f.apply a) = false) ↔
      ∀ b ∈ t.rows, clash b a = false := by
    rw [rows_updateAll, List.forall_mem_map]
    refine forall₂_congr fun b _ => ?_
    rw [f.clash_apply, Record.clash_comm, f.clash_apply, Record.clash_comm]
  unfold insert
  by_cases hinsert : admits a = true ∧ ∀ b ∈ t.rows, clash b a = false
  · rw [dif_pos hinsert, dif_pos ⟨ha.trans hinsert.1, hclash.mpr hinsert.2⟩, Option.map_some]
    refine congrArg some (Table.ext ?_)
    simp [rows_updateAll]
  · rw [dif_neg hinsert, dif_neg fun h => hinsert ⟨ha.symm.trans h.1, hclash.mp h.2⟩]
    rfl

/-- Patches of different columns commute. -/
theorem update_updateAll (t : Table α) (k : Nat) (f g : Patch α)
    (hfg : ∀ a, g.apply (f.apply a) = f.apply (g.apply a)) :
    (t.updateAll f).update k g = (t.update k g).updateAll f := by
  refine Table.ext ?_
  rw [rows_updateAll, rows_update, rows_update, rows_updateAll, List.map_map, List.map_map]
  refine List.map_congr_left fun a _ => ?_
  simp only [Function.comp_apply, f.pk_apply, hfg]
  split
  · rfl
  · rfl

/-! ## UPDATE of one row, beside other statements -/

theorem select_update (t : Table α) (k : Nat) (f : Patch α) {p : α → Bool}
    (hp : ∀ a, p (f.apply a) = p a) :
    (t.update k f).select p = (t.select p).map fun a => if pk a = k then f.apply a else a := by
  unfold select
  rw [rows_update, List.filter_map]
  refine congrArg _ (List.filter_congr fun a _ => ?_)
  rw [Function.comp_apply]
  split
  · exact hp a
  · rfl

/-- A row is inserted or refused alike, and it is not the updated one. -/
theorem insert_update (t : Table α) {k : Nat} {a : α} (ha : t.find? k = some a) (f : Patch α)
    (b : α) : (t.update k f).insert b = (t.insert b).map fun u => u.update k f := by
  have hclash : (∀ c ∈ (t.update k f).rows, clash c b = false) ↔
      ∀ c ∈ t.rows, clash c b = false := by
    rw [rows_update, List.forall_mem_map]
    refine forall₂_congr fun c _ => ?_
    split
    · rw [f.clash_apply]
    · rfl
  unfold insert
  by_cases hinsert : admits b = true ∧ ∀ c ∈ t.rows, clash c b = false
  · obtain ⟨hmem, hpk⟩ := (t.find?_eq_some k a).mp ha
    have hne : pk b ≠ k := by
      intro hb
      have hfresh := hinsert.2 a hmem
      rw [Record.clash_of_pk a b (hpk.trans hb.symm)] at hfresh
      cases hfresh
    rw [dif_pos hinsert, dif_pos ⟨hinsert.1, hclash.mpr hinsert.2⟩, Option.map_some]
    refine congrArg some (Table.ext ?_)
    simp [rows_update, hne]
  · rw [dif_neg hinsert, dif_neg fun h => hinsert ⟨h.1, hclash.mp h.2⟩]
    rfl

/-- A row is inserted or refused alike when a patch that its column types do not see is
    applied first. -/
theorem insert_patched {t u : Table α} {a : α} (h : t.insert a = some u) (f : Patch α)
    (hadmits : admits (f.apply a) = admits a) :
    t.insert (f.apply a) = some (u.update (pk a) f) := by
  obtain ⟨hrows, hadmit, hfresh⟩ := insert_eq_some h
  have hclash : ∀ b ∈ t.rows, clash b (f.apply a) = false := by
    intro b hb
    rw [Record.clash_comm, f.clash_apply, Record.clash_comm]
    exact hfresh b hb
  have hold : ∀ b ∈ t.rows, pk b ≠ pk a := by
    intro b hb hpk
    have hbClash := hfresh b hb
    rw [Record.clash_of_pk b a hpk] at hbClash
    cases hbClash
  unfold insert
  rw [dif_pos ⟨hadmits.trans hadmit, hclash⟩]
  refine congrArg some (Table.ext ?_)
  rw [rows_update, hrows, List.map_append, List.map_singleton, if_pos rfl]
  refine congrArg (· ++ _) ?_
  conv_lhs => rw [← List.map_id t.rows]
  exact List.map_congr_left fun b hb => (if_neg (hold b hb)).symm

/-- Patches of different columns commute. -/
theorem update_comm (t : Table α) (j k : Nat) (f g : Patch α)
    (hfg : ∀ a, g.apply (f.apply a) = f.apply (g.apply a)) :
    (t.update k f).update j g = (t.update j g).update k f := by
  refine Table.ext ?_
  rw [rows_update, rows_update, rows_update, rows_update, List.map_map, List.map_map]
  refine List.map_congr_left fun a _ => ?_
  by_cases hj : pk a = j <;> by_cases hk : pk a = k
  · simp only [Function.comp_apply, if_pos hj, if_pos hk, f.pk_apply, g.pk_apply, hfg]
  · simp only [Function.comp_apply, if_pos hj, if_neg hk, g.pk_apply]
  · simp only [Function.comp_apply, if_neg hj, if_pos hk, f.pk_apply]
  · simp only [Function.comp_apply, if_neg hj, if_neg hk]

end Table

/-! ## The order of a result -/

section Order

variable {α : Type} (place : α → Nat) (key : α → Int)

/-- ORDER BY `key` ASC: rows with equal keys come in the engine's order `place`. -/
def orderAsc (rows : List α) : List α :=
  (rows.insertionSort fun a b => place a ≤ place b).insertionSort fun a b => key a ≤ key b

/-- ORDER BY `key` DESC: rows with equal keys come in the engine's order `place`. -/
def orderDesc (rows : List α) : List α :=
  (rows.insertionSort fun a b => place a ≤ place b).insertionSort fun a b => key b ≤ key a

theorem perm_orderAsc (rows : List α) : (orderAsc place key rows).Perm rows :=
  (List.perm_insertionSort _ _).trans (List.perm_insertionSort _ _)

theorem perm_orderDesc (rows : List α) : (orderDesc place key rows).Perm rows :=
  (List.perm_insertionSort _ _).trans (List.perm_insertionSort _ _)

theorem mem_orderDesc (rows : List α) (a : α) : a ∈ orderDesc place key rows ↔ a ∈ rows :=
  (perm_orderDesc place key rows).mem_iff

theorem pairwise_orderDesc (rows : List α) :
    (orderDesc place key rows).Pairwise fun a b => key b ≤ key a := by
  have : Std.Total fun a b : α => key b ≤ key a := ⟨fun a b => le_total (key b) (key a)⟩
  have : IsTrans α fun a b => key b ≤ key a := ⟨fun _ _ _ hab hbc => le_trans hbc hab⟩
  exact List.pairwise_insertionSort _ _

/-- The first row of a descending order has a greatest key. -/
theorem head?_orderDesc {rows : List α} {a : α} (h : (orderDesc place key rows).head? = some a) :
    a ∈ rows ∧ ∀ b ∈ rows, key b ≤ key a := by
  obtain ⟨l, hl⟩ : ∃ l, orderDesc place key rows = a :: l := by
    match hr : orderDesc place key rows with
    | [] => rw [hr] at h; cases h
    | b :: l => rw [hr] at h; cases h; exact ⟨l, rfl⟩
  have hs := pairwise_orderDesc place key rows
  have hmem := mem_orderDesc place key rows
  rw [hl] at hs hmem
  refine ⟨(hmem a).mp List.mem_cons_self, fun b hb => ?_⟩
  rcases List.mem_cons.mp ((hmem b).mpr hb) with rfl | hb'
  · exact le_refl _
  · exact (List.pairwise_cons.mp hs).1 b hb'

/-- Rows stored in ascending order come last first. -/
theorem head?_orderDesc_of_lt {rows : List α} (h : rows.Pairwise fun a b => key a < key b) :
    (orderDesc place key rows).head? = rows.reverse.head? := by
  induction rows using List.reverseRecOn with
  | nil => rfl
  | append_singleton rows a _ =>
    have hlast : a ∈ rows ++ [a] := List.mem_append_right _ (List.mem_singleton_self a)
    cases hhead : (orderDesc place key (rows ++ [a])).head? with
    | none =>
      have hmem := (mem_orderDesc place key _ a).mpr hlast
      rw [List.head?_eq_none_iff.mp hhead] at hmem
      cases hmem
    | some b =>
      obtain ⟨hb, hmax⟩ := head?_orderDesc place key hhead
      rcases List.mem_append.mp hb with hold | hnew
      · have hlt := (List.pairwise_append.mp h).2.2 b hold a (List.mem_singleton_self a)
        exact absurd (hmax a hlast) (not_le.mpr hlt)
      · rw [List.mem_singleton.mp hnew]
        simp

/-- Rows that `place` tells apart come in one order, however they are stored. -/
theorem place_perm {rows rows' : List α} (h : rows.Perm rows')
    (hplace : ∀ a ∈ rows, ∀ b ∈ rows, place a = place b → a = b) :
    (rows.insertionSort fun a b => place a ≤ place b) =
      rows'.insertionSort fun a b => place a ≤ place b := by
  have : Std.Total fun a b : α => place a ≤ place b := ⟨fun a b => le_total (place a) (place b)⟩
  have : IsTrans α fun a b => place a ≤ place b := ⟨fun _ _ _ hab hbc => le_trans hab hbc⟩
  have hsort := List.perm_insertionSort fun a b : α => place a ≤ place b
  refine ((hsort rows).trans (h.trans (hsort rows').symm)).eq_of_pairwise
    (fun a b ha hb hab hba => ?_) (List.pairwise_insertionSort _ _)
    (List.pairwise_insertionSort _ _)
  have ha' := (hsort rows).mem_iff.mp ha
  have hb' := h.mem_iff.mpr ((hsort rows').mem_iff.mp hb)
  exact hplace a ha' b hb' (le_antisymm hab hba)

theorem orderAsc_perm {rows rows' : List α} (h : rows.Perm rows')
    (hplace : ∀ a ∈ rows, ∀ b ∈ rows, place a = place b → a = b) :
    orderAsc place key rows = orderAsc place key rows' := by
  unfold orderAsc
  rw [place_perm place h hplace]

theorem orderDesc_perm {rows rows' : List α} (h : rows.Perm rows')
    (hplace : ∀ a ∈ rows, ∀ b ∈ rows, place a = place b → a = b) :
    orderDesc place key rows = orderDesc place key rows' := by
  unfold orderDesc
  rw [place_perm place h hplace]

/-- Renaming rows in a way that neither order sees commutes with ordering. -/
theorem map_orderAsc {β : Type} (f : α → β) (place' : β → Nat) (key' : β → Int)
    (hplace : ∀ a, place' (f a) = place a) (hkey : ∀ a, key' (f a) = key a) (rows : List α) :
    (orderAsc place key rows).map f = orderAsc place' key' (rows.map f) := by
  unfold orderAsc
  rw [List.map_insertionSort _ (fun a b : β => key' a ≤ key' b) f _ (by simp [hkey]),
    List.map_insertionSort _ (fun a b : β => place' a ≤ place' b) f _ (by simp [hplace])]

theorem map_orderDesc {β : Type} (f : α → β) (place' : β → Nat) (key' : β → Int)
    (hplace : ∀ a, place' (f a) = place a) (hkey : ∀ a, key' (f a) = key a) (rows : List α) :
    (orderDesc place key rows).map f = orderDesc place' key' (rows.map f) := by
  unfold orderDesc
  rw [List.map_insertionSort _ (fun a b : β => key' b ≤ key' a) f _ (by simp [hkey]),
    List.map_insertionSort _ (fun a b : β => place' a ≤ place' b) f _ (by simp [hplace])]

/-- Rows that agree but for what neither order sees still agree once ordered. -/
theorem map_orderAsc_congr {f : α → α} {l l' : List α} (h : l.map f = l'.map f)
    (hplace : ∀ a, place (f a) = place a) (hkey : ∀ a, key (f a) = key a) :
    (orderAsc place key l).map f = (orderAsc place key l').map f := by
  rw [map_orderAsc place key f place key hplace hkey, h,
    ← map_orderAsc place key f place key hplace hkey]

theorem map_orderDesc_congr {f : α → α} {l l' : List α} (h : l.map f = l'.map f)
    (hplace : ∀ a, place (f a) = place a) (hkey : ∀ a, key (f a) = key a) :
    (orderDesc place key l).map f = (orderDesc place key l').map f := by
  rw [map_orderDesc place key f place key hplace hkey, h,
    ← map_orderDesc place key f place key hplace hkey]

end Order

end LinkedOut
