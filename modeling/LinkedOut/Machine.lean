/-
  Deterministic machines and their runs. A machine takes an event in a state and
  gives an observation and the next state; a run is a list of events.

  * `exec`, `outputs`, `trace`: the state after a run, what was observed, and the
    record of every step with the states around it.
  * `Along C`: every step of the run is taken from a state that meets `C`.
  * `exec_inv`, `trace_inv`: the induction over a run, for an invariant of the state
    and for an invariant that also looks at the history.
  * `run_forall₂`, `run_sim`, `outputs_eq_of_sim`: runs from related states make related
    observations, or the same.
  * `run_part`: the steps of a run that concern one part of the state are a run of a
    machine of their own.

  Nothing here is about a particular program.
-/
import Mathlib.Data.List.Forall2
import Mathlib.Data.List.Induction

namespace LinkedOut

/-- A deterministic machine with events `ε`, states `σ` and observations `ο`. -/
structure Machine (ε σ ο : Type) where
  step : ε → σ → ο × σ

/-- One step of a run: the state before it, the event, the observation, the state after it. -/
structure Served (ε σ ο : Type) where
  before : σ
  event : ε
  out : ο
  after : σ

namespace Machine

variable {ε σ ο : Type} (M : Machine ε σ ο)

/-- The state after the run `es` from `s`. -/
def exec : List ε → σ → σ
  | [], s => s
  | e :: es, s => exec es (M.step e s).2

/-- The observations of the run `es` from `s`. -/
def outputs : List ε → σ → List ο
  | [], _ => []
  | e :: es, s => (M.step e s).1 :: outputs es (M.step e s).2

/-- The step that serves `e` in `s`. -/
def serve (e : ε) (s : σ) : Served ε σ ο := ⟨s, e, (M.step e s).1, (M.step e s).2⟩

/-- The record of the run `es` from `s`, one entry a step. -/
def trace : List ε → σ → List (Served ε σ ο)
  | [], _ => []
  | e :: es, s => M.serve e s :: trace es (M.step e s).2

/-- Every step of the run is taken from a state that meets `C`. -/
def Along (C : σ → ε → Prop) : List ε → σ → Prop
  | [], _ => True
  | e :: es, s => C s e ∧ Along C es (M.step e s).2

instance instDecidableAlong (C : σ → ε → Prop) [∀ s e, Decidable (C s e)] :
    ∀ (es : List ε) (s : σ), Decidable (M.Along C es s)
  | [], _ => isTrue trivial
  | e :: es, s =>
    have := instDecidableAlong C es (M.step e s).2
    inferInstanceAs (Decidable (C s e ∧ M.Along C es (M.step e s).2))

/-! ## Runs taken apart -/

theorem exec_append (es fs : List ε) (s : σ) :
    M.exec (es ++ fs) s = M.exec fs (M.exec es s) := by
  induction es generalizing s with
  | nil => rfl
  | cons e es ih => exact ih _

theorem exec_snoc (es : List ε) (e : ε) (s : σ) :
    M.exec (es ++ [e]) s = (M.step e (M.exec es s)).2 := by
  rw [exec_append]; rfl

theorem outputs_append (es fs : List ε) (s : σ) :
    M.outputs (es ++ fs) s = M.outputs es s ++ M.outputs fs (M.exec es s) := by
  induction es generalizing s with
  | nil => rfl
  | cons f es ih => exact congrArg (_ :: ·) (ih _)

theorem outputs_snoc (es : List ε) (e : ε) (s : σ) :
    M.outputs (es ++ [e]) s = M.outputs es s ++ [(M.step e (M.exec es s)).1] :=
  M.outputs_append es [e] s

theorem trace_snoc (es : List ε) (e : ε) (s : σ) :
    M.trace (es ++ [e]) s = M.trace es s ++ [M.serve e (M.exec es s)] := by
  induction es generalizing s with
  | nil => rfl
  | cons f es ih => exact congrArg (_ :: ·) (ih _)

theorem along_snoc (C : σ → ε → Prop) (es : List ε) (e : ε) (s : σ) :
    M.Along C (es ++ [e]) s ↔ M.Along C es s ∧ C (M.exec es s) e := by
  induction es generalizing s with
  | nil => simp [Along, exec]
  | cons f es ih => simp only [List.cons_append, Along, exec, ih, and_assoc]

theorem along_take {C : σ → ε → Prop} {es : List ε} {e : ε} {s : σ} {i : Nat}
    (h : M.Along C es s) (he : es[i]? = some e) :
    M.Along C (es.take i) s ∧ C (M.exec (es.take i) s) e := by
  induction es generalizing s i with
  | nil => cases he
  | cons f es ih =>
    cases i with
    | zero => cases he; exact ⟨trivial, h.1⟩
    | succ i =>
      obtain ⟨hrest, hC⟩ := ih h.2 he
      exact ⟨⟨h.1, hrest⟩, hC⟩

/-- Two conditions on the steps of a run are one. -/
theorem along_and {C D : σ → ε → Prop} {es : List ε} {s : σ} :
    M.Along (fun s e => C s e ∧ D s e) es s ↔ M.Along C es s ∧ M.Along D es s := by
  induction es generalizing s with
  | nil => simp [Along]
  | cons e es ih => simp only [Along, ih, and_and_and_comm]

/-- `Along`, position by position. -/
theorem along_iff_getElem? (C : σ → ε → Prop) (es : List ε) (s : σ) :
    M.Along C es s ↔ ∀ n e, es[n]? = some e → C (M.exec (es.take n) s) e := by
  constructor
  · intro h n e he
    exact (M.along_take h he).2
  · intro h
    induction es generalizing s with
    | nil => trivial
    | cons e es ih => exact ⟨h 0 e rfl, ih _ fun n f hf => h (n + 1) f hf⟩

theorem along_take_le {C : σ → ε → Prop} {es : List ε} {s : σ} (h : M.Along C es s) (i : Nat) :
    M.Along C (es.take i) s := by
  induction es generalizing s i with
  | nil => simp [Along]
  | cons e es ih =>
    cases i with
    | zero => trivial
    | succ i => exact ⟨h.1, ih h.2 i⟩

theorem exec_take_succ {es : List ε} {n : Nat} {e : ε} (he : es[n]? = some e) (s : σ) :
    M.exec (es.take (n + 1)) s = (M.step e (M.exec (es.take n) s)).2 := by
  rw [List.take_add_one, he, Option.toList_some, exec_snoc]

theorem along_true (es : List ε) (s : σ) : M.Along (fun _ _ => True) es s := by
  induction es generalizing s with
  | nil => trivial
  | cons e es ih => exact ⟨trivial, ih _⟩

theorem along_drop {C : σ → ε → Prop} {es : List ε} {s : σ} (h : M.Along C es s) (i : Nat) :
    M.Along C (es.drop i) (M.exec (es.take i) s) := by
  induction es generalizing s i with
  | nil => simp [Along]
  | cons e es ih =>
    cases i with
    | zero => exact h
    | succ i => exact ih h.2 i

/-! ## Induction over a run -/

/-- An invariant of the state holds after every run whose steps meet `C`. -/
theorem exec_inv {I : σ → Prop} {C : σ → ε → Prop}
    (hstep : ∀ s e, C s e → I s → I (M.step e s).2) (es : List ε) (s : σ)
    (hs : I s) (hC : M.Along C es s) : I (M.exec es s) := by
  induction es generalizing s with
  | nil => exact hs
  | cons e es ih => exact ih _ (hstep s e hC.1 hs) hC.2

/-- An invariant of the observations so far and the state holds after every run. -/
theorem outputs_inv {I : List ο → σ → Prop} {C : σ → ε → Prop} (s : σ) (h0 : I [] s)
    (hstep : ∀ os t e, C t e → I os t → I (os ++ [(M.step e t).1]) (M.step e t).2)
    (es : List ε) (hC : M.Along C es s) : I (M.outputs es s) (M.exec es s) := by
  induction es using List.reverseRecOn with
  | nil => exact h0
  | append_singleton es e ih =>
    rw [along_snoc] at hC
    rw [outputs_snoc, exec_snoc]
    exact hstep _ _ e hC.2 (ih hC.1)

/-- An invariant of the record so far and the state holds after every run; `P` is what
    is known of the events, and it passes to every beginning of the run. -/
theorem trace_inv {I : List (Served ε σ ο) → σ → Prop} {P : List ε → Prop} (s : σ)
    (h0 : I [] s) (hP : ∀ es e, P (es ++ [e]) → P es)
    (hstep : ∀ es e, P (es ++ [e]) → I (M.trace es s) (M.exec es s) →
      I (M.trace es s ++ [M.serve e (M.exec es s)]) (M.step e (M.exec es s)).2)
    (es : List ε) (hes : P es) : I (M.trace es s) (M.exec es s) := by
  induction es using List.reverseRecOn with
  | nil => exact h0
  | append_singleton es e ih =>
    rw [trace_snoc, exec_snoc]
    exact hstep es e hes (ih (hP es e hes))

/-- Two machines run on related events from related states make related observations and stay
    related, if each pair of steps does. -/
theorem run_forall₂ {ε' σ' ο' : Type} {N : Machine ε' σ' ο'} {R : σ → σ' → Prop}
    {P : ε → ε' → Prop} {Q : ο → ο' → Prop}
    (hstep : ∀ {e e' s t}, P e e' → R s t →
      Q (M.step e s).1 (N.step e' t).1 ∧ R (M.step e s).2 (N.step e' t).2)
    {es : List ε} {es' : List ε'} (hes : List.Forall₂ P es es') {s : σ} {t : σ'} (h : R s t) :
    List.Forall₂ Q (M.outputs es s) (N.outputs es' t) ∧
      ∀ n, R (M.exec (es.take n) s) (N.exec (es'.take n) t) := by
  induction hes generalizing s t with
  | nil => exact ⟨.nil, fun n => by simpa [exec] using h⟩
  | cons he _ ih =>
    obtain ⟨hout, hnext⟩ := hstep he h
    obtain ⟨houts, hexec⟩ := ih hnext
    refine ⟨.cons hout houts, fun n => ?_⟩
    cases n with
    | zero => exact h
    | succ n => exact hexec n

/-- Two machines run on related events from related states observe the same and stay
    related, if each pair of steps does. -/
theorem run_sim {ε' σ' : Type} {N : Machine ε' σ' ο} {R : σ → σ' → Prop} {P : ε → ε' → Prop}
    (hstep : ∀ {e e' s t}, P e e' → R s t →
      (M.step e s).1 = (N.step e' t).1 ∧ R (M.step e s).2 (N.step e' t).2)
    {es : List ε} {es' : List ε'} (hes : List.Forall₂ P es es') {s : σ} {t : σ'} (h : R s t) :
    M.outputs es s = N.outputs es' t ∧
      ∀ n, R (M.exec (es.take n) s) (N.exec (es'.take n) t) := by
  obtain ⟨houts, hexec⟩ := M.run_forall₂ hstep hes h
  exact ⟨List.forall₂_eq_eq_eq ▸ houts, hexec⟩

/-- Two runs from related states observe the same, if each pair of steps from related
    states observes the same and leads to related states. -/
theorem outputs_eq_of_sim {R : σ → σ → Prop} {P : ε → Prop}
    (hstep : ∀ e s t, P e → R s t →
      (M.step e s).1 = (M.step e t).1 ∧ R (M.step e s).2 (M.step e t).2)
    (es : List ε) (hP : ∀ e ∈ es, P e) (s t : σ) (h : R s t) :
    M.outputs es s = M.outputs es t := by
  have hsame : List.Forall₂ (fun e e' => e = e' ∧ P e) es es :=
    List.forall₂_same.mpr fun e he => ⟨rfl, hP e he⟩
  refine (M.run_sim ?_ hsame h).1
  rintro e _ s t ⟨rfl, he⟩ hR
  exact hstep e s t he hR

/-- Entry `i` of the record is the step taken from the state the first `i` events lead to. -/
theorem trace_getElem? (es : List ε) (s : σ) (i : Nat) :
    (M.trace es s)[i]? = es[i]?.map fun e => M.serve e (M.exec (es.take i) s) := by
  induction es generalizing s i with
  | nil => rfl
  | cons e es ih =>
    cases i with
    | zero => rfl
    | succ i => simpa [trace, exec] using ih _ i

/-- Entry `i` is a step of the run, taken after the first `i` events. -/
theorem exists_serve {es : List ε} {s : σ} {i : Nat} {v : Served ε σ ο}
    (h : (M.trace es s)[i]? = some v) :
    ∃ e, es[i]? = some e ∧ v = M.serve e (M.exec (es.take i) s) := by
  rw [trace_getElem?, Option.map_eq_some_iff] at h
  obtain ⟨e, he, rfl⟩ := h
  exact ⟨e, he, rfl⟩

theorem trace_take (es : List ε) (s : σ) (i : Nat) :
    (M.trace es s).take i = M.trace (es.take i) s := by
  induction es generalizing s i with
  | nil => simp [trace]
  | cons e es ih =>
    cases i with
    | zero => rfl
    | succ i => simp only [trace, List.take_succ_cons, ih]

theorem trace_drop (es : List ε) (s : σ) (i : Nat) :
    (M.trace es s).drop i = M.trace (es.drop i) (M.exec (es.take i) s) := by
  induction es generalizing s i with
  | nil => simp [trace]
  | cons e es ih =>
    cases i with
    | zero => rfl
    | succ i => simpa only [trace, List.drop_succ_cons, List.take_succ_cons, exec] using ih _ i

theorem mem_trace {es : List ε} {s : σ} {v : Served ε σ ο} (h : v ∈ M.trace es s) :
    v = M.serve v.event v.before := by
  induction es generalizing s with
  | nil => cases h
  | cons e es ih =>
    rcases List.mem_cons.mp h with rfl | h
    · rfl
    · exact ih h

theorem event_mem {es : List ε} {s : σ} {v : Served ε σ ο} (h : v ∈ M.trace es s) :
    v.event ∈ es := by
  induction es generalizing s with
  | nil => cases h
  | cons e es ih =>
    rcases List.mem_cons.mp h with rfl | h
    · exact List.mem_cons_self
    · exact List.mem_cons_of_mem _ (ih h)

theorem along_iff (C : σ → ε → Prop) (es : List ε) (s : σ) :
    M.Along C es s ↔ ∀ v ∈ M.trace es s, C v.before v.event := by
  induction es generalizing s with
  | nil => simp [Along, trace]
  | cons e es ih =>
    simp only [Along, trace, List.mem_cons, forall_eq_or_imp, ih]
    rfl

/-- What does not hold at the start and holds at the end is brought about by a step. -/
theorem exists_served {P : σ → Prop} (es : List ε) (s : σ) (h0 : ¬ P s) (h1 : P (M.exec es s)) :
    ∃ v ∈ M.trace es s, ¬ P v.before ∧ P v.after := by
  induction es generalizing s with
  | nil => exact absurd h1 h0
  | cons e es ih =>
    by_cases hP : P (M.step e s).2
    · exact ⟨_, List.mem_cons_self, h0, hP⟩
    · obtain ⟨v, hv, hvP⟩ := ih _ hP h1
      exact ⟨v, List.mem_cons_of_mem _ hv, hvP⟩

/-- What a step never undoes holds from the first time on. -/
theorem exec_take_of_le {P : σ → Prop} (hstep : ∀ s e, P s → P (M.step e s).2) (es : List ε) (s : σ)
    {i j : Nat} (hij : i ≤ j) (h : P (M.exec (es.take i) s)) : P (M.exec (es.take j) s) := by
  obtain ⟨fs, hfs⟩ : es.take i <+: es.take j := List.take_prefix_take_left hij
  rw [← hfs, exec_append]
  exact M.exec_inv (fun t e _ => hstep t e) fs _ h (M.along_true fs _)

/-- What relates every state to itself, is transitive and is kept by every step of the run
    relates the states the run goes through, in order. -/
theorem exec_take_rel {R : σ → σ → Prop} (hrefl : ∀ s, R s s)
    (htrans : ∀ {a b c}, R a b → R b c → R a c) {es : List ε} {s : σ}
    (hstep : ∀ n e, es[n]? = some e →
      R (M.exec (es.take n) s) (M.step e (M.exec (es.take n) s)).2) {i j : Nat} (hij : i ≤ j) :
    R (M.exec (es.take i) s) (M.exec (es.take j) s) := by
  obtain ⟨k, rfl⟩ := Nat.exists_eq_add_of_le hij
  induction k with
  | zero => exact hrefl _
  | succ k ih =>
    refine htrans (ih (Nat.le_add_right i k)) ?_
    cases he : es[i + k]? with
    | none =>
      have hlen : es.length ≤ i + k := List.getElem?_eq_none_iff.mp he
      have hend : es.take (i + (k + 1)) = es.take (i + k) := by
        rw [List.take_of_length_le hlen, List.take_of_length_le (by omega)]
      rw [hend]
      exact hrefl _
    | some e =>
      have hsnoc : M.exec (es.take (i + (k + 1))) s = (M.step e (M.exec (es.take (i + k)) s)).2 :=
        M.exec_take_succ he s
      rw [hsnoc]
      exact hstep (i + k) e he

/-! ## A part of a run -/

/-- What the steps ask of the part that `part` singles out. -/
def asked {ε' : Type} (part : σ → ε → Option ε') (tr : List (Served ε σ ο)) : List ε' :=
  tr.filterMap fun v => part v.before v.event

/-- What the steps that concern the part observe. -/
def answered {ε' : Type} (part : σ → ε → Option ε') (tr : List (Served ε σ ο)) : List ο :=
  tr.filterMap fun v => (part v.before v.event).map fun _ => v.out

/-- The steps that concern a part are the run of the machine `N` on what they ask of it: a
    step leaves the view of the part alone, or it is a step of `N`. -/
theorem run_part {ε' σ' ο' ρ : Type} {N : Machine ε' σ' ο'} (view : σ → σ')
    {part : σ → ε → Option ε'} {observe : ο → ρ} {render : ο' → ρ} {I : σ → Prop}
    {C : σ → ε → Prop} (hinv : ∀ s e, C s e → I s → I (M.step e s).2)
    (hidle : ∀ s e, C s e → I s → part s e = none → view (M.step e s).2 = view s)
    (hstep : ∀ s e f, C s e → I s → part s e = some f →
      render (N.step f (view s)).1 = observe (M.step e s).1 ∧
        (N.step f (view s)).2 = view (M.step e s).2)
    (es : List ε) (s : σ) (hs : I s) (hC : M.Along C es s) :
    (N.outputs (asked part (M.trace es s)) (view s)).map render =
        (answered part (M.trace es s)).map observe ∧
      N.exec (asked part (M.trace es s)) (view s) = view (M.exec es s) := by
  induction es generalizing s with
  | nil => exact ⟨rfl, rfl⟩
  | cons e es ih =>
    obtain ⟨houts, hexec⟩ := ih _ (hinv s e hC.1 hs) hC.2
    cases hpart : part s e with
    | none =>
      rw [hidle s e hC.1 hs hpart] at houts hexec
      simp only [trace, asked, answered, serve, List.filterMap_cons, hpart, Option.map_none]
      exact ⟨houts, hexec⟩
    | some f =>
      obtain ⟨hout, hview⟩ := hstep s e f hC.1 hs hpart
      rw [← hview] at houts hexec
      simp only [trace, asked, answered, serve, List.filterMap_cons, hpart, Option.map_some,
        outputs, List.map_cons, exec, hout]
      exact ⟨congrArg _ houts, hexec⟩

end Machine

end LinkedOut
