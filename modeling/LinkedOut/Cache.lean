/-
  `app/core/cache.py` against what it is for: a memory of what was last set.

  `Recall` never forgets a value on its own, it only looks at its age. The cache drops an
  expired entry when a `get` meets it, so the two states differ; `Refines` says how much, and
  `cache_refines`: under a clock that does not go back they answer the same.
  `recall_eq_some_iff`: what `Recall` holds is the most recent operation that touches the
  key, so `get_eq_some_iff` reads the cache's answer off the list of operations.
-/
import LinkedOut.Core
import LinkedOut.Machine
import Mathlib.Logic.Function.Basic

namespace LinkedOut

/-- The operations of a cache. -/
inductive CacheOp (κ α : Type) where
  | get (key : κ)
  | set (key : κ) (value : α)
  | invalidate (key : κ)
  | clear
  deriving DecidableEq

section

variable {κ α : Type} [DecidableEq κ]

/-- The operation decides what the cache holds under the key. -/
def CacheOp.touches (key : κ) : CacheOp κ α → Bool
  | .get _ => false
  | .set k _ => k = key
  | .invalidate k => k = key
  | .clear => true

/-- A cache under a sequence of operations, each with the reading of the clock. -/
def TTLCache.machine (ttl : Time) : Machine (Time × CacheOp κ α) (TTLCache κ α) (Option α) where
  step e cache :=
    match e.2 with
    | .get key => cache.get e.1 key
    | .set key value => (none, cache.set ttl e.1 key value)
    | .invalidate key => (none, cache.invalidate key)
    | .clear => (none, cache.clear)

/-! ## The memory behind it -/

/-- Under each key the value last set and when, unless it was invalidated since. -/
abbrev Memory (κ α : Type) := κ → Option (α × Time)

/-- Not older than `ttl` at the time `now`. -/
def fresh (ttl now : Time) : Option (α × Time) → Option α
  | none => none
  | some (value, at_) => if now ≤ at_ + ttl then some value else none

def Recall (ttl : Time) : Machine (Time × CacheOp κ α) (Memory κ α) (Option α) where
  step e memory :=
    match e.2 with
    | .get key => (fresh ttl e.1 (memory key), memory)
    | .set key value => (none, Function.update memory key (some (value, e.1)))
    | .invalidate key => (none, Function.update memory key none)
    | .clear => (none, fun _ => none)

/-- At the time `now` the cache holds what the memory holds, except that it may have dropped
    what has expired. -/
def Refines (ttl now : Time) (cache : TTLCache κ α) (memory : Memory κ α) : Prop :=
  ∀ key, cache.entries key = (memory key).map (fun m => ⟨m.1, m.2 + ttl⟩) ∨
    cache.entries key = none ∧ ∀ m, memory key = some m → m.2 + ttl < now

omit [DecidableEq κ] in
theorem Refines.later {ttl now now' : Time} {cache : TTLCache κ α} {memory : Memory κ α}
    (h : Refines ttl now cache memory) (hle : now ≤ now') : Refines ttl now' cache memory :=
  fun key => (h key).imp_right fun hdropped => ⟨hdropped.1, fun m hm =>
    (hdropped.2 m hm).trans_le hle⟩

theorem Refines.get {ttl now : Time} {cache : TTLCache κ α} {memory : Memory κ α}
    (h : Refines ttl now cache memory) (key : κ) :
    (cache.get now key).1 = fresh ttl now (memory key) ∧
      Refines ttl now (cache.get now key).2 memory := by
  unfold TTLCache.get
  cases hentry : cache.entries key with
  | none =>
    refine ⟨?_, h⟩
    cases hm : memory key with
    | none => rfl
    | some m =>
      rcases h key with heq | ⟨-, hexpired⟩
      · rw [hentry, hm] at heq
        cases heq
      · exact (if_neg (not_le.mpr (hexpired m hm))).symm
  | some entry =>
    obtain ⟨m, hm, rfl⟩ : ∃ m, memory key = some m ∧ entry = ⟨m.1, m.2 + ttl⟩ := by
      rcases h key with heq | ⟨hnone, -⟩
      · rw [hentry] at heq
        obtain ⟨m, hm, hme⟩ := Option.map_eq_some_iff.mp heq.symm
        exact ⟨m, hm, hme.symm⟩
      · rw [hentry] at hnone
        cases hnone
    rw [hm]
    dsimp only
    split
    · rename_i hexpired
      refine ⟨(if_neg (not_le.mpr hexpired)).symm, fun k => ?_⟩
      dsimp only
      split
      · rename_i hk
        refine Or.inr ⟨rfl, fun m' hm' => ?_⟩
        rw [hk, hm] at hm'
        cases hm'
        exact hexpired
      · exact h k
    · rename_i hlive
      exact ⟨(if_pos (not_lt.mp hlive)).symm, h⟩

/-- One operation: the same answer, and the cache still holds what the memory holds. -/
theorem Refines.step {ttl now : Time} {cache : TTLCache κ α} {memory : Memory κ α}
    (h : Refines ttl now cache memory) {e : Time × CacheOp κ α} (hle : now ≤ e.1) :
    ((TTLCache.machine ttl).step e cache).1 = ((Recall ttl).step e memory).1 ∧
      Refines ttl e.1 ((TTLCache.machine ttl).step e cache).2 ((Recall ttl).step e memory).2 := by
  obtain ⟨t, op⟩ := e
  have h' := h.later hle
  cases op with
  | get key => exact h'.get key
  | set key value =>
    refine ⟨rfl, fun k => ?_⟩
    simp only [TTLCache.machine, Recall, TTLCache.set, Function.update_apply]
    split
    · exact Or.inl rfl
    · exact h' k
  | invalidate key =>
    refine ⟨rfl, fun k => ?_⟩
    simp only [TTLCache.machine, Recall, TTLCache.invalidate, Function.update_apply]
    split
    · exact Or.inl rfl
    · exact h' k
  | clear => exact ⟨rfl, fun _ => Or.inl rfl⟩

/-- Under a clock that does not go back the cache answers as the memory does. -/
theorem cache_refines (ttl : Time) (ops : List (Time × CacheOp κ α))
    (hclock : ops.Pairwise fun a b => a.1 ≤ b.1) {now : Time} {cache : TTLCache κ α}
    {memory : Memory κ α} (hnow : ∀ e ∈ ops, now ≤ e.1) (h : Refines ttl now cache memory) :
    (TTLCache.machine ttl).outputs ops cache = (Recall ttl).outputs ops memory ∧
      ∀ t, now ≤ t → (∀ e ∈ ops, e.1 ≤ t) →
        Refines ttl t ((TTLCache.machine ttl).exec ops cache) ((Recall ttl).exec ops memory) := by
  induction ops generalizing now cache memory with
  | nil => exact ⟨rfl, fun t ht _ => h.later ht⟩
  | cons e ops ih =>
    obtain ⟨hfirst, hrest⟩ := List.pairwise_cons.mp hclock
    obtain ⟨hout, hnext⟩ := h.step (hnow e List.mem_cons_self)
    obtain ⟨houts, hexec⟩ := ih hrest hfirst hnext
    exact ⟨congrArg₂ List.cons hout houts, fun t _ hall =>
      hexec t (hall e List.mem_cons_self) fun e' he' => hall e' (List.mem_cons_of_mem _ he')⟩

/-! ## The most recent operation on a key -/

/-- The most recent operation of `ops` that touches the key is `set key value`, at `at_`. -/
def LastSet (ops : List (Time × CacheOp κ α)) (key : κ) (value : α) (at_ : Time) : Prop :=
  ∃ before after, ops = before ++ (at_, .set key value) :: after ∧
    ∀ e ∈ after, e.2.touches key = false

theorem lastSet_snoc (ops : List (Time × CacheOp κ α)) (e : Time × CacheOp κ α) (key : κ)
    (value : α) (at_ : Time) :
    LastSet (ops ++ [e]) key value at_ ↔
      e = (at_, .set key value) ∨ e.2.touches key = false ∧ LastSet ops key value at_ := by
  constructor
  · rintro ⟨before, after, hops, hafter⟩
    rcases List.eq_nil_or_concat after with rfl | ⟨after', e', rfl⟩
    · exact Or.inl (List.append_inj' hops rfl |>.2 |> List.cons.inj |>.1)
    · rw [List.concat_eq_append] at hops hafter
      rw [← List.cons_append, ← List.append_assoc] at hops
      obtain ⟨rfl, hlast⟩ := List.append_inj' hops rfl
      obtain rfl := (List.cons.inj hlast).1
      exact Or.inr ⟨hafter _ (List.mem_append_right _ List.mem_cons_self), before, after', rfl,
        fun o ho => hafter o (List.mem_append_left _ ho)⟩
  · rintro (rfl | ⟨htouches, before, after, rfl, hafter⟩)
    · exact ⟨ops, [], rfl, fun _ h => nomatch h⟩
    · refine ⟨before, after ++ [e], by simp, fun o ho => ?_⟩
      rcases List.mem_append.mp ho with ho | ho
      · exact hafter o ho
      · rw [List.mem_singleton.mp ho]
        exact htouches

theorem recall_eq_some_iff (ttl : Time) (ops : List (Time × CacheOp κ α)) (key : κ) (value : α)
    (at_ : Time) : (Recall ttl).exec ops (fun _ => none) key = some (value, at_) ↔
      LastSet ops key value at_ := by
  induction ops using List.reverseRecOn with
  | nil =>
    constructor
    · intro h
      cases h
    · rintro ⟨before, after, hops, -⟩
      exact absurd hops.symm (by simp)
  | append_singleton ops e ih =>
    rw [Machine.exec_snoc, lastSet_snoc, ← ih]
    obtain ⟨t, op⟩ := e
    cases op with
    | get k => simp [Recall, CacheOp.touches]
    | set k v =>
      simp only [Recall, CacheOp.touches, Function.update_apply]
      by_cases hk : key = k
      · subst hk
        simp [and_comm, eq_comm]
      · simp [hk, Ne.symm hk]
    | invalidate k =>
      simp only [Recall, CacheOp.touches, Function.update_apply]
      by_cases hk : key = k
      · subst hk
        simp
      · simp [hk, Ne.symm hk]
    | clear => simp [Recall, CacheOp.touches]

/-- What a `get` answers after any operations of a clock that does not go back. -/
theorem get_eq_some_iff (ttl : Time) (ops : List (Time × CacheOp κ α))
    (hclock : ops.Pairwise fun a b => a.1 ≤ b.1) (key : κ) {now : Time}
    (hnow : ∀ e ∈ ops, e.1 ≤ now) (value : α) :
    (((TTLCache.machine ttl).exec ops .empty).get now key).1 = some value ↔
      ∃ at_, LastSet ops key value at_ ∧ now ≤ at_ + ttl := by
  obtain ⟨start, hstart, hfirst⟩ : ∃ start, start ≤ now ∧ ∀ e ∈ ops, start ≤ e.1 := by
    cases ops with
    | nil => exact ⟨now, le_rfl, fun _ h => nomatch h⟩
    | cons e ops =>
      refine ⟨e.1, hnow e List.mem_cons_self, fun e' he' => ?_⟩
      rcases List.mem_cons.mp he' with rfl | he'
      · exact le_rfl
      · exact (List.pairwise_cons.mp hclock).1 e' he'
  have hempty : Refines ttl start (.empty : TTLCache κ α) fun _ => none := fun _ => Or.inl rfl
  have hafter := (cache_refines ttl ops hclock hfirst hempty).2 now hstart hnow
  rw [(hafter.get key).1]
  constructor
  · intro h
    cases hm : (Recall ttl).exec ops (fun _ => none) key with
    | none =>
      rw [hm] at h
      cases h
    | some m =>
      obtain ⟨v, at_⟩ := m
      rw [hm] at h
      by_cases hle : now ≤ at_ + ttl
      · obtain rfl : v = value := Option.some.inj ((if_pos hle).symm.trans h)
        exact ⟨at_, (recall_eq_some_iff ttl ops key v at_).mp hm, hle⟩
      · cases (if_neg hle).symm.trans h
  · rintro ⟨at_, hlast, hle⟩
    rw [(recall_eq_some_iff ttl ops key value at_).mpr hlast]
    exact if_pos hle

end

end LinkedOut
