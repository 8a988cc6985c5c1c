/-
  Interleavings of concurrent sessions over shared state.

  Every session `i : ι` is a small program counter `τ`; `act` says what its next
  atomic action does to the shared state `σ`, to its own counter, and what is
  observed. A schedule lists which session moves next, with what the session draws
  from outside (`δ`). Any number of sessions and any order of their actions is a
  run of the machine `interleave act`.

  `run_replicate`: a run in which one session moves alone is its `moves`, one after the
  other.

  `Alone` is the step condition of a serialised run: a session takes its first
  action only when no session is between its first action and its end.
  `alone_mutex`: then at most one session is ever in between.
-/
import Mathlib.Logic.Function.Basic
import LinkedOut.Machine

namespace LinkedOut

/-- The shared state and where every session stands. -/
structure Conf (ι σ τ : Type) where
  shared : σ
  sess : ι → τ

section

variable {ι δ σ τ ο : Type} [DecidableEq ι]

/-- All interleavings of the sessions `act`: an event lets one session move. -/
def interleave (act : ι → δ → σ → τ → List ο × σ × τ) : Machine (ι × δ) (Conf ι σ τ) (List ο) where
  step e c :=
    let r := act e.1 e.2 c.shared (c.sess e.1)
    (r.1, ⟨r.2.1, Function.update c.sess e.1 r.2.2⟩)

/-- What was observed in a run, in order. -/
def observed (act : ι → δ → σ → τ → List ο × σ × τ) (sched : List (ι × δ))
    (c : Conf ι σ τ) : List ο :=
  ((interleave act).outputs sched c).flatten

theorem observed_append (act : ι → δ → σ → τ → List ο × σ × τ) (sched sched' : List (ι × δ))
    (c : Conf ι σ τ) : observed act (sched ++ sched') c =
      observed act sched c ++ observed act sched' ((interleave act).exec sched c) := by
  unfold observed
  rw [Machine.outputs_append, List.flatten_append]

theorem observed_snoc (act : ι → δ → σ → τ → List ο × σ × τ) (sched : List (ι × δ)) (e : ι × δ)
    (c : Conf ι σ τ) : observed act (sched ++ [e]) c = observed act sched c ++
      (act e.1 e.2 ((interleave act).exec sched c).shared
        (((interleave act).exec sched c).sess e.1)).1 := by
  rw [observed_append]
  exact congrArg _ (List.append_nil _)

/-- A session that has not begun moves only when no session is under way. -/
def Alone (begun busy : τ → Prop) (c : Conf ι σ τ) (e : ι × δ) : Prop :=
  ¬ begun (c.sess e.1) → ∀ j, ¬ busy (c.sess j)

/-- At most one session is under way. -/
def Mutex (busy : τ → Prop) (c : Conf ι σ τ) : Prop :=
  ∀ i j, busy (c.sess i) → busy (c.sess j) → i = j

theorem sess_self (act : ι → δ → σ → τ → List ο × σ × τ) (c : Conf ι σ τ) (i : ι) (d : δ) :
    ((interleave act).step (i, d) c).2.sess i = (act i d c.shared (c.sess i)).2.2 :=
  Function.update_self _ _ _

theorem sess_ne (act : ι → δ → σ → τ → List ο × σ × τ) (c : Conf ι σ τ) {i j : ι} (d : δ)
    (h : j ≠ i) : ((interleave act).step (i, d) c).2.sess j = c.sess j :=
  Function.update_of_ne h _ _

/-- Session `i` moves `n` times in a row, always with the draws `d`. -/
def moves (act : ι → δ → σ → τ → List ο × σ × τ) (i : ι) (d : δ) : Nat → σ → τ → List ο × σ × τ
  | 0, s, l => ([], s, l)
  | n + 1, s, l =>
    let r := act i d s l
    let r' := moves act i d n r.2.1 r.2.2
    (r.1 ++ r'.1, r'.2)

/-- The run in which only session `i` moves. -/
theorem exec_replicate (act : ι → δ → σ → τ → List ο × σ × τ) (i : ι) (d : δ) (n : Nat)
    (c : Conf ι σ τ) : (interleave act).exec (List.replicate n (i, d)) c =
      ⟨(moves act i d n c.shared (c.sess i)).2.1,
        Function.update c.sess i (moves act i d n c.shared (c.sess i)).2.2⟩ := by
  induction n generalizing c with
  | zero => exact congrArg (Conf.mk c.shared) (Function.update_eq_self i c.sess).symm
  | succ n ih =>
    have hnext := ih ((interleave act).step (i, d) c).2
    rw [sess_self] at hnext
    refine hnext.trans (congrArg (Conf.mk _) ?_)
    exact Function.update_idem _ _ _

theorem observed_replicate (act : ι → δ → σ → τ → List ο × σ × τ) (i : ι) (d : δ) (n : Nat)
    (c : Conf ι σ τ) :
    observed act (List.replicate n (i, d)) c = (moves act i d n c.shared (c.sess i)).1 := by
  induction n generalizing c with
  | zero => rfl
  | succ n ih =>
    have hnext := ih ((interleave act).step (i, d) c).2
    rw [sess_self] at hnext
    change (act i d c.shared (c.sess i)).1 ++ observed act (List.replicate n (i, d))
      ((interleave act).step (i, d) c).2 = _
    rw [hnext]
    rfl

theorem run_replicate (act : ι → δ → σ → τ → List ο × σ × τ) (i : ι) (d : δ) (n : Nat)
    (c : Conf ι σ τ) :
    ((interleave act).exec (List.replicate n (i, d)) c).shared =
        (moves act i d n c.shared (c.sess i)).2.1 ∧
      observed act (List.replicate n (i, d)) c = (moves act i d n c.shared (c.sess i)).1 :=
  ⟨congrArg Conf.shared (exec_replicate act i d n c), observed_replicate act i d n c⟩

/-- An invariant of what was observed and of the configuration holds after every run. -/
theorem observed_inv {act : ι → δ → σ → τ → List ο × σ × τ} {I : List ο → Conf ι σ τ → Prop}
    {C : Conf ι σ τ → ι × δ → Prop} (c : Conf ι σ τ) (h0 : I [] c)
    (hstep : ∀ os t i d, C t (i, d) → I os t →
      I (os ++ (act i d t.shared (t.sess i)).1) ((interleave act).step (i, d) t).2)
    (sched : List (ι × δ)) (hC : (interleave act).Along C sched c) :
    I (observed act sched c) ((interleave act).exec sched c) := by
  refine (interleave act).outputs_inv (I := fun os t => I os.flatten t) c h0
    (fun os t e he hI => ?_) sched hC
  rw [List.flatten_append, List.flatten_singleton]
  exact hstep _ t e.1 e.2 he hI

/-- Serialised steps keep at most one session under way, if an action never brings a
    finished session back under way. -/
theorem alone_mutex {act : ι → δ → σ → τ → List ο × σ × τ} {begun busy : τ → Prop}
    (hact : ∀ i d s l, begun l → ¬ busy l → ¬ busy (act i d s l).2.2)
    (c : Conf ι σ τ) (e : ι × δ) (h : Alone begun busy c e) (hm : Mutex busy c) :
    Mutex busy ((interleave act).step e c).2 := by
  obtain ⟨k, d⟩ := e
  have hother : ∀ j, j ≠ k → ((interleave act).step (k, d) c).2.sess j = c.sess j :=
    fun j hj => sess_ne act c d hj
  -- a session under way other than `k` was so before, and then `k` was not idle
  have hkey : ∀ j, j ≠ k → busy (((interleave act).step (k, d) c).2.sess j) →
      busy (((interleave act).step (k, d) c).2.sess k) → False := by
    intro j hj hbj hbk
    rw [hother j hj] at hbj
    rw [sess_self] at hbk
    have hbegun : begun (c.sess k) := by
      by_contra hnb
      exact h hnb j hbj
    by_cases hbusy : busy (c.sess k)
    · exact hj (hm j k hbj hbusy)
    · exact hact k d c.shared _ hbegun hbusy hbk
  intro i j hi hj
  by_cases hik : i = k
  · by_cases hjk : j = k
    · rw [hik, hjk]
    · exact (hkey j hjk hj (hik ▸ hi)).elim
  · by_cases hjk : j = k
    · exact (hkey i hik hi (hjk ▸ hj)).elim
    · rw [hother i hik] at hi
      rw [hother j hjk] at hj
      exact hm i j hi hj

end

end LinkedOut
