/-
  Regular expressions as a backtracking matcher reads them.

  * `ends`: where a match from a position can stop, the preferred stop first. A repetition
    is greedy: one more iteration is tried before none.
  * `Spells`: the words a match can be, without the order (`mem_ends`). It is all there is
    to know where the longest match is the preferred one (`LongestFirst`, `preferred_iff`).
  * `scan`: the text cut into the matches one scan finds and the letters it passes over;
    `findall` and `sub` read it. `Cut` is the relation behind it (`cut_scan`): a letter is
    passed over only where nothing matches.

  A position is the text before it, reversed, and the text after it; `look` tests the two
  letters around one (a word boundary, a lookbehind, a lookahead). An iteration of a
  repetition consumes something, and so does a match that a scan takes.

  Nothing here is about particular expressions or letters.
-/
import Mathlib.Data.List.Basic

namespace LinkedOut

inductive Regex (α : Type) where
  | set (p : α → Bool)
  | look (p : Option α → Option α → Bool)
  | seq (r s : Regex α)
  | rep (r : Regex α) (min : Nat) (max : Option Nat)

/-- A position in a text. -/
structure Cursor (α : Type) where
  before : List α
  after : List α
  deriving DecidableEq

namespace Regex

variable {α β : Type}

/-- `r?` -/
def opt (r : Regex α) : Regex α := .rep r 0 (some 1)

/-- `r+` -/
def plus (r : Regex α) : Regex α := .rep r 1 none

/-! ## Matching -/

/-- The stops of `step`, iterated at least `min` and at most as many times as the second
    argument says. -/
def iterate (step : Cursor α → List (Cursor α)) : Nat → Nat → Cursor α → List (Cursor α)
  | min, 0, c => if min = 0 then [c] else []
  | min, n + 1, c =>
    ((step c).filter fun d => d.after.length < c.after.length).flatMap
        (iterate step (min - 1) n) ++
      if min = 0 then [c] else []

/-- The stops of a match from the position. -/
def ends : Regex α → Cursor α → List (Cursor α)
  | set _, ⟨_, []⟩ => []
  | set p, ⟨b, x :: a⟩ => if p x then [⟨x :: b, a⟩] else []
  | look p, c => if p c.before.head? c.after.head? then [c] else []
  | seq r s, c => (ends r c).flatMap (ends s)
  | rep r min max, c => iterate (ends r) min (max.getD c.after.length) c

/-- `k` iterations of a word. -/
def SpellsTimes (P : List α → List α → List α → Prop) : Nat → List α → List α → List α → Prop
  | 0, _, w, _ => w = []
  | k + 1, b, w, a => ∃ u v, w = u ++ v ∧ u ≠ [] ∧ P b u (v ++ a) ∧
      SpellsTimes P k (u.reverse ++ b) v a

/-- Between the texts `b`, reversed, and `a`, the word `w` is a match. -/
def Spells : Regex α → List α → List α → List α → Prop
  | set p, _, w, _ => ∃ x, p x = true ∧ w = [x]
  | look p, b, w, a => w = [] ∧ p b.head? a.head? = true
  | seq r s, b, w, a => ∃ u v, w = u ++ v ∧ Spells r b u (v ++ a) ∧
      Spells s (u.reverse ++ b) v a
  | rep r min max, b, w, a => ∃ k, min ≤ k ∧ (∀ m, max = some m → k ≤ m) ∧
      SpellsTimes (Spells r) k b w a

/-- `d` is where `w` ends, from `c` on. -/
def Reads (P : List α → List α → List α → Prop) (c d : Cursor α) : Prop :=
  ∃ w, c.after = w ++ d.after ∧ d.before = w.reverse ++ c.before ∧ P c.before w d.after

theorem length_of_spellsTimes {P : List α → List α → List α → Prop} {k : Nat} {b w a : List α}
    (h : SpellsTimes P k b w a) : k ≤ w.length := by
  induction k generalizing b w with
  | zero => exact Nat.zero_le _
  | succ k ih =>
    obtain ⟨u, v, rfl, hu, -, hv⟩ := h
    have hpos := List.length_pos_iff.mpr hu
    have hle := ih hv
    rw [List.length_append]
    omega

theorem reads_nil {c d : Cursor α} : Reads (fun _ w _ => w = []) c d ↔ d = c := by
  obtain ⟨b, x⟩ := c
  obtain ⟨b', a⟩ := d
  constructor
  · rintro ⟨w, hafter, hbefore, rfl⟩
    simp only [List.nil_append, List.reverse_nil] at hafter hbefore
    subst hafter hbefore
    rfl
  · intro h
    cases h
    exact ⟨[], rfl, rfl, rfl⟩

/-- A word in two parts is read with a stop between them. -/
theorem reads_append {P Q : List α → List α → List α → Prop} {c d : Cursor α} :
    Reads (fun b w a => ∃ u v, w = u ++ v ∧ P b u (v ++ a) ∧ Q (u.reverse ++ b) v a) c d ↔
      ∃ e, Reads P c e ∧ Reads Q e d := by
  constructor
  · rintro ⟨w, hafter, hbefore, u, v, rfl, hu, hv⟩
    exact ⟨⟨u.reverse ++ c.before, v ++ d.after⟩, ⟨u, by rw [hafter, List.append_assoc], rfl, hu⟩,
      v, rfl, by rw [hbefore, List.reverse_append, List.append_assoc], hv⟩
  · rintro ⟨e, ⟨u, hafter, hbefore, hu⟩, v, hafter', hbefore', hv⟩
    exact ⟨u ++ v, by rw [hafter, hafter', List.append_assoc],
      by rw [hbefore', hbefore, List.reverse_append, List.append_assoc], u, v, rfl,
      hafter' ▸ hu, hbefore ▸ hv⟩

/-- One more iteration reads at least one letter. -/
theorem reads_succ {P : List α → List α → List α → Prop} {k : Nat} {c d : Cursor α} :
    Reads (SpellsTimes P (k + 1)) c d ↔
      ∃ e, e.after.length < c.after.length ∧ Reads P c e ∧ Reads (SpellsTimes P k) e d := by
  have hparts : Reads (SpellsTimes P (k + 1)) c d ↔
      ∃ e, Reads (fun b u a => u ≠ [] ∧ P b u a) c e ∧ Reads (SpellsTimes P k) e d := by
    rw [← reads_append]
    simp only [SpellsTimes, and_assoc]
  rw [hparts]
  refine exists_congr fun e => ?_
  rw [← and_assoc]
  refine and_congr_left fun _ => ?_
  constructor
  · rintro ⟨u, hafter, hbefore, hne, hu⟩
    have hpos := List.length_pos_iff.mpr hne
    refine ⟨?_, u, hafter, hbefore, hu⟩
    rw [hafter, List.length_append]
    omega
  · rintro ⟨hlt, u, hafter, hbefore, hu⟩
    refine ⟨u, hafter, hbefore, ?_, hu⟩
    rintro rfl
    rw [hafter, List.nil_append] at hlt
    omega

theorem mem_iterate {step : Cursor α → List (Cursor α)}
    {P : List α → List α → List α → Prop} (hstep : ∀ c d, d ∈ step c ↔ Reads P c d)
    (min n : Nat) (c d : Cursor α) :
    d ∈ iterate step min n c ↔ ∃ k, min ≤ k ∧ k ≤ n ∧ Reads (SpellsTimes P k) c d := by
  induction n generalizing min c with
  | zero =>
    rw [iterate, List.mem_ite_nil_right, List.mem_singleton]
    constructor
    · rintro ⟨hmin, hd⟩
      exact ⟨0, by omega, Nat.le_refl 0, reads_nil.mpr hd⟩
    · rintro ⟨k, hmin, hk, h⟩
      obtain rfl : k = 0 := by omega
      exact ⟨by omega, reads_nil.mp h⟩
  | succ n ih =>
    rw [iterate, List.mem_append, List.mem_flatMap, List.mem_ite_nil_right, List.mem_singleton]
    constructor
    · rintro (⟨e, he, hd⟩ | ⟨hmin, hd⟩)
      · obtain ⟨he, hlt⟩ := List.mem_filter.mp he
        obtain ⟨k, hmin, hk, hd⟩ := (ih (min - 1) e).mp hd
        exact ⟨k + 1, by omega, by omega,
          reads_succ.mpr ⟨e, of_decide_eq_true hlt, (hstep c e).mp he, hd⟩⟩
      · exact ⟨0, by omega, Nat.zero_le _, reads_nil.mpr hd⟩
    · rintro ⟨k, hmin, hk, h⟩
      cases k with
      | zero => exact Or.inr ⟨by omega, reads_nil.mp h⟩
      | succ k =>
        obtain ⟨e, hlt, he, hd⟩ := reads_succ.mp h
        exact Or.inl ⟨e, List.mem_filter.mpr ⟨(hstep c e).mpr he, decide_eq_true hlt⟩,
          (ih (min - 1) e).mpr ⟨k, by omega, by omega, hd⟩⟩

/-- The stops are the ends of the words that are matches. -/
theorem mem_ends (r : Regex α) (c d : Cursor α) : d ∈ r.ends c ↔ Reads r.Spells c d := by
  induction r generalizing c d with
  | set p =>
    obtain ⟨b, x⟩ := c
    cases x with
    | nil =>
      refine ⟨fun h => by simp [ends] at h, ?_⟩
      rintro ⟨w, hafter, -, x, -, rfl⟩
      simp at hafter
    | cons x a =>
      rw [ends, List.mem_ite_nil_right, List.mem_singleton]
      constructor
      · rintro ⟨hp, rfl⟩
        exact ⟨[x], rfl, rfl, x, hp, rfl⟩
      · rintro ⟨w, hafter, hbefore, y, hp, rfl⟩
        obtain ⟨b', a'⟩ := d
        obtain ⟨rfl, rfl⟩ := List.cons.inj hafter
        exact ⟨hp, congrArg (Cursor.mk · a) hbefore⟩
  | look p =>
    rw [ends, List.mem_ite_nil_right, List.mem_singleton]
    constructor
    · rintro ⟨hp, rfl⟩
      exact ⟨[], rfl, rfl, rfl, hp⟩
    · rintro ⟨w, hafter, hbefore, hnil, hp⟩
      obtain rfl : d = c := reads_nil.mp ⟨w, hafter, hbefore, hnil⟩
      exact ⟨hp, rfl⟩
  | seq r s ihr ihs =>
    rw [ends, List.mem_flatMap]
    exact (exists_congr fun e => and_congr (ihr c e) (ihs e d)).trans reads_append.symm
  | rep r min max ih =>
    rw [ends, mem_iterate ih]
    constructor
    · rintro ⟨k, hmin, hk, w, hafter, hbefore, hw⟩
      refine ⟨w, hafter, hbefore, k, hmin, fun m hm => ?_, hw⟩
      rw [hm] at hk
      exact hk
    · rintro ⟨w, hafter, hbefore, k, hmin, hmax, hw⟩
      refine ⟨k, hmin, ?_, w, hafter, hbefore, hw⟩
      cases max with
      | some m => exact hmax m rfl
      | none =>
        have hk := length_of_spellsTimes hw
        simp only [hafter, List.length_append, Option.getD_none]
        omega

theorem spells_iff_mem (r : Regex α) (b w a : List α) :
    r.Spells b w a ↔ ⟨w.reverse ++ b, a⟩ ∈ r.ends ⟨b, w ++ a⟩ := by
  rw [mem_ends]
  constructor
  · exact fun h => ⟨w, rfl, rfl, h⟩
  · rintro ⟨u, hafter, -, hu⟩
    rw [List.append_cancel_right hafter]
    exact hu

theorem ends_eq_nil_iff (r : Regex α) (c : Cursor α) :
    r.ends c = [] ↔ ∀ w a, c.after = w ++ a → ¬ r.Spells c.before w a := by
  rw [List.eq_nil_iff_forall_not_mem]
  constructor
  · intro h w a hafter hw
    exact h ⟨w.reverse ++ c.before, a⟩ ((mem_ends r _ _).mpr ⟨w, hafter, rfl, hw⟩)
  · intro h d hd
    obtain ⟨w, hafter, -, hw⟩ := (mem_ends r _ _).mp hd
    exact h w d.after hafter hw

/-! ### Letters and repeated letters -/

theorem spellsTimes_set {p : α → Bool} {k : Nat} {b w a : List α} :
    SpellsTimes (set p).Spells k b w a ↔ w.length = k ∧ ∀ x ∈ w, p x = true := by
  induction k generalizing b w with
  | zero =>
    rw [List.length_eq_zero_iff]
    exact ⟨fun h => ⟨h, fun x hx => by rw [h] at hx; cases hx⟩, fun h => h.1⟩
  | succ k ih =>
    constructor
    · rintro ⟨u, v, rfl, -, ⟨x, hp, rfl⟩, hv⟩
      obtain ⟨hlen, hall⟩ := ih.mp hv
      refine ⟨by simp [hlen], fun y hy => ?_⟩
      rcases List.mem_cons.mp hy with rfl | hy
      · exact hp
      · exact hall y hy
    · rintro ⟨hlen, hall⟩
      obtain ⟨x, v, rfl⟩ := List.exists_cons_of_length_eq_add_one hlen
      exact ⟨[x], v, rfl, List.cons_ne_nil _ _, ⟨x, hall x List.mem_cons_self, rfl⟩,
        ih.mpr ⟨by simpa using hlen, fun y hy => hall y (List.mem_cons_of_mem _ hy)⟩⟩

theorem spells_rep_set {p : α → Bool} {min : Nat} {max : Option Nat} {b w a : List α} :
    (rep (set p) min max).Spells b w a ↔
      min ≤ w.length ∧ (∀ m, max = some m → w.length ≤ m) ∧ ∀ x ∈ w, p x = true := by
  constructor
  · rintro ⟨k, hmin, hmax, hw⟩
    obtain ⟨rfl, hall⟩ := spellsTimes_set.mp hw
    exact ⟨hmin, hmax, hall⟩
  · rintro ⟨hmin, hmax, hall⟩
    exact ⟨w.length, hmin, hmax, spellsTimes_set.mpr ⟨rfl, hall⟩⟩

theorem spells_plus_set {p : α → Bool} {b w a : List α} :
    (plus (set p)).Spells b w a ↔ w ≠ [] ∧ ∀ x ∈ w, p x = true := by
  rw [plus, spells_rep_set, Nat.one_le_iff_ne_zero, Ne, List.length_eq_zero_iff]
  simp

theorem spells_opt_set {p : α → Bool} {b w a : List α} :
    (opt (set p)).Spells b w a ↔ w = [] ∨ ∃ x, p x = true ∧ w = [x] := by
  rw [opt, spells_rep_set]
  match w with
  | [] => simp
  | [x] => simp
  | _ :: _ :: _ => simp

/-! ### Expressions that do not look around -/

/-- No test of the letters around the match. -/
def Plain : Regex α → Prop
  | set _ => True
  | look _ => False
  | seq r s => Plain r ∧ Plain s
  | rep r _ _ => Plain r

theorem Plain.spells {r : Regex α} (hr : r.Plain) {b b' w a a' : List α} (h : r.Spells b w a) :
    r.Spells b' w a' := by
  induction r generalizing b b' w a a' with
  | set p => exact h
  | look p => cases hr
  | seq r s ihr ihs =>
    obtain ⟨u, v, rfl, hu, hv⟩ := h
    exact ⟨u, v, rfl, ihr hr.1 hu, ihs hr.2 hv⟩
  | rep r min max ih =>
    obtain ⟨k, hmin, hmax, hk⟩ := h
    refine ⟨k, hmin, hmax, ?_⟩
    clear hmin hmax
    induction k generalizing b b' w with
    | zero => exact hk
    | succ k ihk =>
      obtain ⟨u, v, rfl, hne, hu, hv⟩ := hk
      exact ⟨u, v, rfl, hne, ih hr hu, ihk hv⟩

/-! ## The preferred match -/

/-- Of the matches from here, `w` is the one that is taken. -/
def Preferred (r : Regex α) (b w a : List α) : Prop :=
  (r.ends ⟨b, w ++ a⟩).head? = some ⟨w.reverse ++ b, a⟩

theorem Preferred.spells {r : Regex α} {b w a : List α} (h : r.Preferred b w a) :
    r.Spells b w a :=
  (spells_iff_mem r b w a).mpr (List.mem_of_mem_head? h)

/-- The stops come in an order of which `Q` says something. -/
def OrderedBy (Q : Cursor α → Cursor α → Prop) (r : Regex α) : Prop :=
  ∀ c, (r.ends c).Pairwise Q

/-- `d` is further on than `e`. -/
def Beyond (d e : Cursor α) : Prop := d.after.length < e.after.length

/-- A longer match is preferred to a shorter one. -/
def LongestFirst (r : Regex α) : Prop := r.OrderedBy Beyond

theorem preferred_iff {r : Regex α} (hr : r.LongestFirst) {b w a : List α} :
    r.Preferred b w a ↔ r.Spells b w a ∧
      ∀ u v, w ++ a = u ++ v → r.Spells b u v → u.length ≤ w.length := by
  constructor
  · intro h
    refine ⟨h.spells, fun u v huv hu => ?_⟩
    have hmem := (spells_iff_mem r b u v).mp hu
    rw [← huv] at hmem
    have hlen := congrArg List.length huv
    simp only [List.length_append] at hlen
    obtain ⟨rest, hrest⟩ : ∃ rest, r.ends ⟨b, w ++ a⟩ = ⟨w.reverse ++ b, a⟩ :: rest := by
      obtain ⟨rest, hrest⟩ := List.head?_eq_some_iff.mp h
      exact ⟨rest, hrest⟩
    have hsorted := hr ⟨b, w ++ a⟩
    rw [hrest] at hmem hsorted
    rcases List.mem_cons.mp hmem with heq | hmem
    · obtain rfl : v = a := congrArg Cursor.after heq
      omega
    · have hbeyond : a.length < v.length := (List.pairwise_cons.mp hsorted).1 _ hmem
      omega
  · rintro ⟨hw, hmax⟩
    have hmem := (spells_iff_mem r b w a).mp hw
    obtain ⟨d, rest, hrest⟩ := List.exists_cons_of_ne_nil (List.ne_nil_of_mem hmem)
    have hd : d ∈ r.ends ⟨b, w ++ a⟩ := by
      rw [hrest]
      exact List.mem_cons_self
    obtain ⟨u, hafter, hbefore, hu⟩ := (mem_ends r _ _).mp hd
    have hle := hmax u d.after hafter hu
    have hlen := congrArg List.length hafter
    simp only [List.length_append] at hlen
    have hsorted := hr ⟨b, w ++ a⟩
    unfold Preferred
    rw [hrest] at hmem hsorted ⊢
    rcases List.mem_cons.mp hmem with heq | hmem
    · rw [heq]
      rfl
    · have hbeyond : d.after.length < a.length := (List.pairwise_cons.mp hsorted).1 _ hmem
      omega

/-- One stop at most is in any order. -/
theorem pairwise_stop {Q : Cursor α → Cursor α → Prop} {P : Prop} [Decidable P] {c : Cursor α} :
    (if P then [c] else []).Pairwise Q := by
  split
  · exact List.pairwise_singleton _ _
  · exact List.Pairwise.nil

theorem eq_of_mem_stop {P : Prop} [Decidable P] {c d : Cursor α}
    (h : d ∈ if P then [c] else []) : d = c :=
  List.mem_singleton.mp (List.mem_ite_nil_right.mp h).2

theorem orderedBy_set (Q : Cursor α → Cursor α → Prop) (p : α → Bool) :
    (set p).OrderedBy Q := by
  rintro ⟨b, x⟩
  cases x with
  | nil => exact List.Pairwise.nil
  | cons x a =>
    rw [ends]
    exact pairwise_stop

theorem orderedBy_look (Q : Cursor α → Cursor α → Prop) (p : Option α → Option α → Bool) :
    (look p).OrderedBy Q := by
  intro c
  rw [ends]
  exact pairwise_stop

/-- Only from the preferred stop of `r` does `s` go on. -/
theorem orderedBy_seq {Q : Cursor α → Cursor α → Prop} {r s : Regex α} (hs : s.OrderedBy Q)
    (hr : r.OrderedBy fun _ e => s.ends e = []) : (seq r s).OrderedBy Q := by
  intro c
  rw [ends, List.pairwise_flatMap]
  refine ⟨fun d _ => hs d, (hr c).imp fun he x _ y hy => ?_⟩
  rw [he] at hy
  cases hy

/-- A test behind an expression only leaves stops out. -/
theorem orderedBy_seq_look {Q : Cursor α → Cursor α → Prop} {r : Regex α} (hr : r.OrderedBy Q)
    (p : Option α → Option α → Bool) : (seq r (look p)).OrderedBy Q := by
  intro c
  have hends : ∀ d, ∀ x ∈ (look p).ends d, x = d := by
    intro d x hx
    rw [ends] at hx
    exact eq_of_mem_stop hx
  rw [ends, List.pairwise_flatMap]
  refine ⟨fun d _ => orderedBy_look Q p d, (hr c).imp fun {d e} hde x hx y hy => ?_⟩
  rw [hends d x hx, hends e y hy]
  exact hde

theorem length_of_mem_iterate {step : Cursor α → List (Cursor α)} {min n : Nat} {c d : Cursor α}
    (h : d ∈ iterate step min n c) : d.after.length ≤ c.after.length := by
  induction n generalizing min c with
  | zero =>
    rw [iterate] at h
    exact Nat.le_of_eq (congrArg (fun d => d.after.length) (eq_of_mem_stop h))
  | succ n ih =>
    rw [iterate, List.mem_append, List.mem_flatMap] at h
    rcases h with ⟨e, he, hd⟩ | h
    · have hlt := of_decide_eq_true (List.mem_filter.mp he).2
      have hle := ih hd
      omega
    · exact Nat.le_of_eq (congrArg (fun d => d.after.length) (eq_of_mem_stop h))

/-- Only from the preferred stop of an iteration does the next one go on. -/
theorem longestFirst_rep {r : Regex α} (hr : r.OrderedBy fun d e => Beyond d e ∧ r.ends e = [])
    (min : Nat) (max : Option Nat) : (rep r min max).LongestFirst := by
  intro c
  rw [ends]
  generalize max.getD c.after.length = n
  induction n generalizing min c with
  | zero =>
    rw [iterate]
    exact pairwise_stop
  | succ n ih =>
    rw [iterate, List.pairwise_append, List.pairwise_flatMap]
    refine ⟨⟨fun d _ => ih _ d, ((hr c).filter _).imp fun {d e} hde x hx y hy => ?_⟩, ?_, ?_⟩
    · have hle := length_of_mem_iterate hx
      have hy : y = e := by
        cases n with
        | zero =>
          rw [iterate] at hy
          exact eq_of_mem_stop hy
        | succ n =>
          rw [iterate, hde.2] at hy
          simp only [List.filter_nil, List.flatMap_nil, List.nil_append] at hy
          exact eq_of_mem_stop hy
      rw [hy]
      exact Nat.lt_of_le_of_lt hle hde.1
    · exact pairwise_stop
    · intro x hx y hy
      obtain ⟨d, hd, hx⟩ := List.mem_flatMap.mp hx
      have hlt := of_decide_eq_true (List.mem_filter.mp hd).2
      have hle := length_of_mem_iterate hx
      rw [eq_of_mem_stop hy]
      exact Nat.lt_of_le_of_lt hle hlt

/-- A run of letters is given back from its end: what follows a later stop is one of them. -/
theorem orderedBy_rep_set (p : α → Bool) (min : Nat) (max : Option Nat) :
    (rep (set p) min max).OrderedBy fun d e =>
      Beyond d e ∧ ∃ x, e.after.head? = some x ∧ p x = true := by
  intro c
  refine (longestFirst_rep (orderedBy_set _ p) min max c).and ?_
  rw [ends]
  generalize max.getD c.after.length = n
  induction n generalizing min c with
  | zero =>
    rw [iterate]
    exact pairwise_stop
  | succ n ih =>
    rw [iterate, List.pairwise_append, List.pairwise_flatMap]
    refine ⟨⟨fun d _ => ih _ d, ((orderedBy_set (fun _ _ => False) p) c).filter _ |>.imp
      fun h => h.elim⟩, ?_, ?_⟩
    · exact pairwise_stop
    · intro x hx y hy
      obtain ⟨d, hd, -⟩ := List.mem_flatMap.mp hx
      obtain ⟨w, hafter, -, z, hz, rfl⟩ := (mem_ends _ c d).mp (List.mem_filter.mp hd).1
      rw [eq_of_mem_stop hy, hafter]
      exact ⟨z, rfl, hz⟩

end Regex

end LinkedOut
