/-
  Pages of a descending order that leaves ties open.

  Every page is cut out of an order of its own: the rows come by their key, and rows with
  equal keys in whatever order `place` gives at that time.

  * `ahead_le_index`, `index_lt_behind`: a row lies in its block, behind the rows with a
    greater key and before the rows with a smaller one, in every such order.
  * `index_of_first`, `index_of_last`: any row of a block can be its first or last.
  * `exists_place_orderAsc`: every ascending order is one under some `place`.
  * `pages_perm_iff`: the pages contain every row exactly once, whatever the orders, if and
    only if no block lies across a page boundary.

  Nothing here is about a particular schema.
-/
import LinkedOut.Table
import Mathlib.Data.List.Nodup

namespace LinkedOut.Paging

variable {α : Type}

/-! ## Sorting a list that is sorted already by something else -/

/-- What stands before the new element keeps standing before it where the new order ties. -/
theorem pairwise_orderedInsert {r S : α → α → Prop} [DecidableRel r] [Std.Total r] [IsTrans α r]
    {a : α} {l : List α} (hl : l.Pairwise fun b c => r b c ∧ (r c b → S b c))
    (ha : ∀ b ∈ l, S a b) :
    (l.orderedInsert r a).Pairwise fun b c => r b c ∧ (r c b → S b c) := by
  induction l with
  | nil => simp
  | cons b l ih =>
    obtain ⟨hb, htail⟩ := List.pairwise_cons.mp hl
    rw [List.orderedInsert_cons]
    split
    · rename_i hab
      refine List.pairwise_cons.mpr ⟨fun c hc => ?_, hl⟩
      refine ⟨?_, fun _ => ha c hc⟩
      rcases List.mem_cons.mp hc with rfl | hc
      · exact hab
      · exact IsTrans.trans _ _ _ hab (hb c hc).1
    · rename_i hab
      have hba : r b a := (Std.Total.total a b).resolve_left hab
      refine List.pairwise_cons.mpr ⟨fun c hc => ?_, ih htail fun c hc =>
        ha c (List.mem_cons_of_mem _ hc)⟩
      rcases (List.mem_orderedInsert r).mp hc with rfl | hc
      · exact ⟨hba, fun h => absurd h hab⟩
      · exact hb c hc

/-- Sorting is stable: where the new order ties, the old one decides. -/
theorem pairwise_insertionSort {r S : α → α → Prop} [DecidableRel r] [Std.Total r] [IsTrans α r]
    {l : List α} (hl : l.Pairwise S) :
    (l.insertionSort r).Pairwise fun a b => r a b ∧ (r b a → S a b) := by
  induction l with
  | nil => simp
  | cons a l ih =>
    obtain ⟨ha, htail⟩ := List.pairwise_cons.mp hl
    rw [List.insertionSort_cons]
    exact pairwise_orderedInsert (ih htail) fun b hb => ha b ((List.mem_insertionSort r).mp hb)

/-- Among equal keys a descending order follows `place`. -/
theorem pairwise_orderDesc_place (place : α → Nat) (key : α → Int) (rows : List α) :
    (orderDesc place key rows).Pairwise fun a b =>
      key b ≤ key a ∧ (key a ≤ key b → place a ≤ place b) := by
  have : Std.Total fun a b : α => place a ≤ place b := ⟨fun a b => le_total (place a) (place b)⟩
  have : IsTrans α fun a b => place a ≤ place b := ⟨fun _ _ _ hab hbc => le_trans hab hbc⟩
  have : Std.Total fun a b : α => key b ≤ key a := ⟨fun a b => le_total (key b) (key a)⟩
  have : IsTrans α fun a b => key b ≤ key a := ⟨fun _ _ _ hab hbc => le_trans hbc hab⟩
  exact pairwise_insertionSort (List.pairwise_insertionSort _ _)

theorem pairwise_orderAsc_place (place : α → Nat) (key : α → Int) (rows : List α) :
    (orderAsc place key rows).Pairwise fun a b =>
      key a ≤ key b ∧ (key b ≤ key a → place a ≤ place b) := by
  have : Std.Total fun a b : α => place a ≤ place b := ⟨fun a b => le_total (place a) (place b)⟩
  have : IsTrans α fun a b => place a ≤ place b := ⟨fun _ _ _ hab hbc => le_trans hab hbc⟩
  have : Std.Total fun a b : α => key a ≤ key b := ⟨fun a b => le_total (key a) (key b)⟩
  have : IsTrans α fun a b => key a ≤ key b := ⟨fun _ _ _ hab hbc => le_trans hab hbc⟩
  exact pairwise_insertionSort (List.pairwise_insertionSort _ _)

/-- Every ascending order of the rows is the engine's under some `place`. -/
theorem exists_place_orderAsc {ident : α → Nat} {key : α → Int} {rows ordered : List α}
    (hperm : ordered.Perm rows) (hsorted : ordered.Pairwise fun a b => key a ≤ key b)
    (hident : (rows.map ident).Nodup) :
    ∃ place : Nat → Nat, orderAsc (fun a => place (ident a)) key rows = ordered := by
  have hnodup : (ordered.map ident).Nodup := (hperm.map ident).nodup_iff.mpr hident
  refine ⟨fun x => (ordered.map ident).idxOf x, ?_⟩
  have hplace : ordered.Pairwise fun a b =>
      (ordered.map ident).idxOf (ident a) < (ordered.map ident).idxOf (ident b) := by
    refine List.pairwise_iff_getElem.mpr fun i j hi hj hij => ?_
    have hindex : ∀ k (hk : k < ordered.length),
        (ordered.map ident).idxOf (ident ordered[k]) = k := fun k hk => by
      have hlen : k < (ordered.map ident).length := by simpa using hk
      have hmap : ident ordered[k] = (ordered.map ident)[k] := by simp
      rw [hmap, hnodup.idxOf_getElem]
    rw [hindex i hi, hindex j hj]
    exact hij
  refine List.Perm.eq_of_pairwise (fun a b ha hb hab hba => ?_) (pairwise_orderAsc_place _ key rows)
    ((hsorted.and hplace).imp fun h => ⟨h.1, fun _ => h.2.le⟩)
    ((perm_orderAsc _ key rows).trans hperm.symm)
  have ha' := hperm.mem_iff.mpr ((perm_orderAsc _ key rows).mem_iff.mp ha)
  have hindex := le_antisymm (hab.2 hba.1) (hba.2 hab.1)
  exact List.inj_on_of_nodup_map hnodup ha' hb
    ((List.idxOf_inj (List.mem_map_of_mem ha')).mp hindex)

/-! ## The block of a row -/

section Block

variable (key : α → Int) (rows : List α)

/-- The rows with a greater key. -/
def ahead (a : α) : Nat := rows.countP fun b => key a < key b

/-- The rows with a greater or the same key. -/
def behind (a : α) : Nat := rows.countP fun b => key a ≤ key b

/-- No rows with one key lie on both sides of a multiple of `limit`. -/
def NoTieAcross (limit : Nat) : Prop :=
  ∀ a ∈ rows, ∀ k, ¬ (ahead key rows a < k * limit ∧ k * limit < behind key rows a)

variable {key rows} {ordered : List α} {i : Nat} {a : α}

theorem take_append_cons_drop (ha : ordered[i]? = some a) :
    ordered.take i ++ a :: ordered.drop (i + 1) = ordered := by
  obtain ⟨hi, rfl⟩ := List.getElem?_eq_some_iff.mp ha
  rw [← List.drop_eq_getElem_cons hi, List.take_append_drop]

/-- A row of a descending order has at most as many rows before it as have no smaller key, and
    at least as many as have a greater one. -/
theorem ahead_le_index (hperm : ordered.Perm rows)
    (hsorted : ordered.Pairwise fun a b => key b ≤ key a) (ha : ordered[i]? = some a) :
    ahead key rows a ≤ i := by
  have hsplit := take_append_cons_drop ha
  have hcount : (ordered.drop (i + 1)).countP (fun b => key a < key b) = 0 := by
    rw [← hsplit] at hsorted
    have hafter := (List.pairwise_cons.mp (List.pairwise_append.mp hsorted).2.1).1
    rw [List.countP_eq_zero]
    intro b hb
    have := hafter b hb
    simp only [decide_eq_true_eq]
    omega
  unfold ahead
  rw [← hperm.countP_eq, ← hsplit, List.countP_append, List.countP_cons, hcount]
  have hlen : (ordered.take i).countP (fun b => key a < key b) ≤ (ordered.take i).length :=
    List.countP_le_length
  rw [List.length_take] at hlen
  simp only [lt_self_iff_false, decide_false]
  simp only [Bool.false_eq_true, if_false]
  omega

theorem index_lt_behind (hperm : ordered.Perm rows)
    (hsorted : ordered.Pairwise fun a b => key b ≤ key a) (ha : ordered[i]? = some a) :
    i < behind key rows a := by
  have hsplit := take_append_cons_drop ha
  have hi := (List.getElem?_eq_some_iff.mp ha).1
  have hcount : (ordered.take i).countP (fun b => key a ≤ key b) = i := by
    rw [← hsplit] at hsorted
    have hbefore := (List.pairwise_append.mp hsorted).2.2
    rw [List.countP_eq_length.mpr fun b hb => by
      simpa using hbefore b hb a List.mem_cons_self, List.length_take]
    omega
  unfold behind
  rw [← hperm.countP_eq, ← hsplit, List.countP_append, List.countP_cons, hcount]
  simp only [le_refl, decide_true, if_true]
  omega

/-- A row that nothing of its block stands before has only the greater keys before it. -/
theorem index_le_ahead (hperm : ordered.Perm rows) (ha : ordered[i]? = some a)
    (hfirst : ∀ b ∈ ordered.take i, key a < key b) : i ≤ ahead key rows a := by
  have hsplit := take_append_cons_drop ha
  have hi := (List.getElem?_eq_some_iff.mp ha).1
  have hcount : (ordered.take i).countP (fun b => key a < key b) = i := by
    rw [List.countP_eq_length.mpr fun b hb => by simpa using hfirst b hb, List.length_take]
    omega
  unfold ahead
  rw [← hperm.countP_eq, ← hsplit, List.countP_append, hcount]
  omega

/-- A row that nothing of its block stands behind has all of its block before it. -/
theorem behind_le_index (hperm : ordered.Perm rows) (ha : ordered[i]? = some a)
    (hlast : ∀ b ∈ ordered.drop (i + 1), key b < key a) : behind key rows a ≤ i + 1 := by
  have hsplit := take_append_cons_drop ha
  have hcount : (ordered.drop (i + 1)).countP (fun b => key a ≤ key b) = 0 := by
    rw [List.countP_eq_zero]
    intro b hb
    have := hlast b hb
    simp only [decide_eq_true_eq]
    omega
  have hlen : (ordered.take i).countP (fun b => key a ≤ key b) ≤ (ordered.take i).length :=
    List.countP_le_length
  rw [List.length_take] at hlen
  unfold behind
  rw [← hperm.countP_eq, ← hsplit, List.countP_append, List.countP_cons, hcount]
  split <;> omega

end Block

/-! ## The pages -/

section Pages

variable (key : α → Int) (limit : Nat) (rows : List α)

/-- Page `k` of the order under `place`. -/
def pageRows (place : α → Nat) (k : Nat) : List α :=
  ((orderDesc place key rows).drop (k * limit)).take limit

theorem mem_pageRows (place : α → Nat) (k : Nat) (a : α) :
    a ∈ pageRows key limit rows place k ↔
      ∃ i, k * limit ≤ i ∧ i < k * limit + limit ∧ (orderDesc place key rows)[i]? = some a := by
  unfold pageRows
  rw [List.mem_iff_getElem?]
  constructor
  · rintro ⟨j, hj⟩
    rw [List.getElem?_take] at hj
    split at hj
    · rw [List.getElem?_drop] at hj
      exact ⟨k * limit + j, by omega, by omega, hj⟩
    · cases hj
  · rintro ⟨i, hle, hlt, hi⟩
    refine ⟨i - k * limit, ?_⟩
    rw [List.getElem?_take, if_pos (by omega), List.getElem?_drop, Nat.add_sub_cancel' hle]
    exact hi

variable {key limit rows}

/-- When no block lies across a boundary, the orders do not matter: a row is on the page that
    its block starts on. -/
theorem mem_pageRows_of_noTie (hlimit : 0 < limit) (hno : NoTieAcross key rows limit)
    (place : α → Nat) (k : Nat) (a : α) :
    a ∈ pageRows key limit rows place k ↔ a ∈ rows ∧ ahead key rows a / limit = k := by
  have hperm := perm_orderDesc place key rows
  have hsorted := pairwise_orderDesc place key rows
  -- the page of the index is the page of the block
  have hpage : ∀ i, (orderDesc place key rows)[i]? = some a →
      a ∈ rows ∧ i / limit = ahead key rows a / limit := by
    intro i hi
    have ha : a ∈ rows := hperm.mem_iff.mp (List.mem_of_getElem? hi)
    have hle := ahead_le_index hperm hsorted hi
    have hlt := index_lt_behind hperm hsorted hi
    refine ⟨ha, le_antisymm ?_ (Nat.div_le_div_right hle)⟩
    by_contra hcross
    have hstep : ahead key rows a / limit + 1 ≤ i / limit := by omega
    have hlow : ahead key rows a < i / limit * limit :=
      (Nat.div_lt_iff_lt_mul hlimit).mp (by omega)
    exact hno a ha (i / limit) ⟨hlow, lt_of_le_of_lt (Nat.div_mul_le_self i limit) hlt⟩
  rw [mem_pageRows]
  constructor
  · rintro ⟨i, hle, hlt, hi⟩
    obtain ⟨ha, hdiv⟩ := hpage i hi
    refine ⟨ha, hdiv.symm.trans ?_⟩
    rw [Nat.div_eq_iff hlimit]
    omega
  · rintro ⟨ha, hdiv⟩
    obtain ⟨i, hi⟩ := List.mem_iff_getElem?.mp (hperm.mem_iff.mpr ha)
    have hindex := (hpage i hi).2.trans hdiv
    rw [Nat.div_eq_iff hlimit] at hindex
    exact ⟨i, by omega, by omega, hi⟩

theorem nodup_pageRows (hnodup : rows.Nodup) (place : α → Nat) (k : Nat) :
    (pageRows key limit rows place k).Nodup :=
  ((perm_orderDesc place key rows).nodup_iff.mpr hnodup).sublist
    ((List.take_sublist _ _).trans (List.drop_sublist _ _))

theorem pages_perm_of_noTie (hlimit : 0 < limit) (hnodup : rows.Nodup)
    (hno : NoTieAcross key rows limit) (places : Nat → α → Nat) {n : Nat}
    (hn : rows.length ≤ n * limit) :
    ((List.range n).flatMap fun k => pageRows key limit rows (places k) k).Perm rows := by
  have hmem := fun k a => mem_pageRows_of_noTie hlimit hno (places k) k a
  refine (List.perm_ext_iff_of_nodup ?_ hnodup).mpr fun a => ?_
  · refine List.nodup_flatMap.mpr ⟨fun k _ => nodup_pageRows hnodup _ k, ?_⟩
    refine List.nodup_range.imp fun {k j} hkj a hk hj => hkj ?_
    rw [← ((hmem k a).mp hk).2, ← ((hmem j a).mp hj).2]
  · simp only [List.mem_flatMap, List.mem_range, hmem]
    constructor
    · rintro ⟨k, -, ha, -⟩
      exact ha
    · intro ha
      refine ⟨_, (Nat.div_lt_iff_lt_mul hlimit).mpr (lt_of_lt_of_le ?_ hn), ha, rfl⟩
      -- a row is not ahead of itself
      refine lt_of_le_of_ne List.countP_le_length fun hall => ?_
      have := List.countP_eq_length.mp hall a ha
      simp at this

/-- Slices of one sequence at successive offsets. -/
theorem flatMap_slices {β : Type} (l : List β) (limit n : Nat) :
    ((List.range n).flatMap fun k => (l.drop (k * limit)).take limit) = l.take (n * limit) := by
  induction n with
  | zero => simp
  | succ n ih =>
    rw [List.range_succ, List.flatMap_append, ih, List.flatMap_singleton, Nat.succ_mul,
      List.take_add]

/-! ## A block across a boundary -/

variable {ident : α → Nat} (hident : ∀ a ∈ rows, ∀ b ∈ rows, ident a = ident b → a = b) {a : α}
  (ha : a ∈ rows)

include hident ha

/-- The order that places `a` before all others of its block. -/
theorem index_of_first {i : Nat}
    (hi : (orderDesc (fun b => if ident b = ident a then 0 else 1) key rows)[i]? = some a)
    (hnodup : rows.Nodup) : i ≤ ahead key rows a := by
  have hperm := perm_orderDesc (fun b => if ident b = ident a then 0 else 1) key rows
  have hplace := pairwise_orderDesc_place (fun b => if ident b = ident a then 0 else 1) key rows
  have hnodup' := hperm.nodup_iff.mpr hnodup
  refine index_le_ahead hperm hi fun b hb => ?_
  rw [← take_append_cons_drop hi] at hplace hnodup'
  obtain ⟨-, htie⟩ := (List.pairwise_append.mp hplace).2.2 b hb a List.mem_cons_self
  by_contra hle
  have hle' := htie (by omega)
  have hb' : b ∈ rows := hperm.mem_iff.mp (List.mem_of_mem_take hb)
  rw [if_pos rfl] at hle'
  split at hle'
  · rename_i heq
    rw [hident b hb' a ha heq] at hb
    exact (List.nodup_append.mp hnodup').2.2 a hb a List.mem_cons_self rfl
  · omega

/-- The order that places `a` after all others of its block. -/
theorem index_of_last {i : Nat}
    (hi : (orderDesc (fun b => if ident b = ident a then 1 else 0) key rows)[i]? = some a)
    (hnodup : rows.Nodup) : behind key rows a ≤ i + 1 := by
  have hperm := perm_orderDesc (fun b => if ident b = ident a then 1 else 0) key rows
  have hplace := pairwise_orderDesc_place (fun b => if ident b = ident a then 1 else 0) key rows
  have hnodup' := hperm.nodup_iff.mpr hnodup
  refine behind_le_index hperm hi fun b hb => ?_
  rw [← take_append_cons_drop hi] at hplace hnodup'
  obtain ⟨-, htie⟩ :=
    (List.pairwise_cons.mp (List.pairwise_append.mp hplace).2.1).1 b hb
  by_contra hle
  have hle' := htie (by omega)
  have hb' : b ∈ rows := hperm.mem_iff.mp (List.mem_of_mem_drop hb)
  rw [if_pos rfl] at hle'
  split at hle'
  · rename_i heq
    rw [hident b hb' a ha heq] at hb
    exact (List.nodup_cons.mp (List.nodup_append.mp hnodup').2.1).1 hb
  · omega

/-- When the block of `a` lies across the start of page `k`, the pages before can have `a`
    behind that boundary and the others before it: no page shows it. -/
theorem exists_places_missing (hnodup : rows.Nodup) {k : Nat}
    (hlow : ahead key rows a < k * limit) (hhigh : k * limit < behind key rows a) :
    ∃ places : Nat → Nat → Nat, ∀ j,
      a ∉ pageRows key limit rows (fun b => places j (ident b)) j := by
  refine ⟨fun j x => if j < k then (if x = ident a then 1 else 0) else (if x = ident a then 0 else 1),
    fun j hj => ?_⟩
  obtain ⟨i, hle, hlt, hi⟩ := (mem_pageRows key limit rows _ j a).mp hj
  by_cases hjk : j < k
  · simp only [if_pos hjk] at hi
    have hindex := index_of_last hident ha hi hnodup
    have hnext : (j + 1) * limit ≤ k * limit := Nat.mul_le_mul_right limit hjk
    rw [Nat.succ_mul] at hnext
    omega
  · simp only [if_neg hjk] at hi
    have hindex := index_of_first hident ha hi hnodup
    have hprev : k * limit ≤ j * limit := Nat.mul_le_mul_right limit (by omega)
    omega

omit ha

/-- The pages contain every row exactly once, for every choice of orders, if and only if no
    block lies across a page boundary. -/
theorem pages_perm_iff (hlimit : 0 < limit) (hnodup : rows.Nodup) {n : Nat}
    (hn : rows.length ≤ n * limit) :
    (∀ places : Nat → Nat → Nat, ((List.range n).flatMap fun k =>
        pageRows key limit rows (fun b => places k (ident b)) k).Perm rows) ↔
      NoTieAcross key rows limit := by
  constructor
  · rintro hall a ha k ⟨hlow, hhigh⟩
    obtain ⟨places, hmissing⟩ := exists_places_missing hident ha hnodup hlow hhigh
    obtain ⟨j, -, hj⟩ := List.mem_flatMap.mp ((hall places).mem_iff.mpr ha)
    exact hmissing j hj
  · exact fun hno places => pages_perm_of_noTie hlimit hnodup hno (fun k b => places k (ident b)) hn

end Pages

end LinkedOut.Paging
