/-
  A box of one-time codes, as its owner knows it. The owner asks for codes to the addresses
  `ι` and submits what arrived there. The box keeps when it has sent codes and, for each
  address, the codes that nobody has used, the newest first.

  A code is sent unless too many were sent in the window before. A submission meets the
  newest code of its address: it costs an attempt when it is wrong, and takes the code out
  of the box when it is right (`submitTo`).

  `accepts_after`: a code is accepted until it expires, after fewer wrong submissions than
  allowed, whatever happens at the other addresses.

  Nothing here is about a particular program.
-/
import Mathlib.Logic.Function.Basic
import LinkedOut.Machine
import LinkedOut.SlidingWindow

namespace LinkedOut

/-- A code that was sent and that nobody has used. -/
structure OpenCode (η T : Type) where
  secret : η
  expires : T
  attempts : Nat
  deriving DecidableEq

structure CodeBox (ι η T : Type) where
  stamps : List T
  codes : ι → List (OpenCode η T)

/-- A request reads the clock twice: `now` for the limit and `stamp` for its own stamp. -/
inductive BoxEvent (ι η T : Type) where
  | request (address : ι) (now stamp : T) (secret : η) (expires : T)
  | submit (address : ι) (now : T) (secret : η)
  deriving DecidableEq

/-- `wrong left`: so many attempts are left. -/
inductive BoxAnswer where
  | sent | limited | missing | expired | locked | wrong (left : Nat) | right
  deriving DecidableEq

structure BoxRules (T : Type) where
  window : T
  maxRequests : Nat
  maxAttempts : Nat

namespace BoxEvent

variable {ι η T : Type} [DecidableEq ι]

/-- At the address of the code there are wrong submissions only. -/
def Spares (address : ι) (secret : η) : BoxEvent ι η T → Prop
  | request a _ _ _ _ => a ≠ address
  | submit a _ guess => a = address → guess ≠ secret

instance [DecidableEq η] (address : ι) (secret : η) :
    DecidablePred (Spares (T := T) address secret)
  | request a _ _ _ _ => inferInstanceAs (Decidable (a ≠ address))
  | submit a _ guess => inferInstanceAs (Decidable (a = address → guess ≠ secret))

def submitsAt (address : ι) : BoxEvent ι η T → Bool
  | request _ _ _ _ _ => false
  | submit a _ _ => decide (a = address)

end BoxEvent

section

variable {η T : Type} [DecidableEq η] [LinearOrder T] (rules : BoxRules T)

/-- A submission against the codes of its address. -/
def submitTo (now : T) (secret : η) : List (OpenCode η T) → BoxAnswer × List (OpenCode η T)
  | [] => (.missing, [])
  | code :: codes =>
    if code.expires < now then (.expired, code :: codes)
    else if rules.maxAttempts ≤ code.attempts then (.locked, code :: codes)
    else if secret ≠ code.secret then
      (.wrong (rules.maxAttempts - (code.attempts + 1)),
        { code with attempts := code.attempts + 1 } :: codes)
    else (.right, codes)

variable {rules} {code : OpenCode η T} {codes : List (OpenCode η T)} {secret : η} {now : T}

theorem submitTo_expired (hexpired : code.expires < now) :
    submitTo rules now secret (code :: codes) = (.expired, code :: codes) := by
  simp [submitTo, hexpired]

theorem submitTo_locked (hnow : now ≤ code.expires) (hlocked : rules.maxAttempts ≤ code.attempts) :
    submitTo rules now secret (code :: codes) = (.locked, code :: codes) := by
  simp [submitTo, not_lt.mpr hnow, hlocked]

theorem submitTo_wrong (hnow : now ≤ code.expires) (hfree : code.attempts < rules.maxAttempts)
    (hne : secret ≠ code.secret) :
    submitTo rules now secret (code :: codes) =
      (.wrong (rules.maxAttempts - (code.attempts + 1)),
        { code with attempts := code.attempts + 1 } :: codes) := by
  simp [submitTo, not_lt.mpr hnow, not_le.mpr hfree, hne]

theorem submitTo_right (hnow : now ≤ code.expires) (hfree : code.attempts < rules.maxAttempts)
    (hsecret : secret = code.secret) :
    submitTo rules now secret (code :: codes) = (.right, codes) := by
  simp [submitTo, not_lt.mpr hnow, not_le.mpr hfree, hsecret]

/-- A wrong submission leaves the code where it is, with one attempt more at most. -/
theorem submitTo_kept (rules : BoxRules T) (now : T) (hne : secret ≠ code.secret) :
    ∃ n, n ≤ code.attempts + 1 ∧
      (submitTo rules now secret (code :: codes)).2 = { code with attempts := n } :: codes := by
  rcases lt_or_ge code.expires now with hexpired | hnow
  · exact ⟨code.attempts, Nat.le_succ _, by rw [submitTo_expired hexpired]⟩
  · rcases le_or_gt rules.maxAttempts code.attempts with hlocked | hfree
    · exact ⟨code.attempts, Nat.le_succ _, by rw [submitTo_locked hnow hlocked]⟩
    · exact ⟨code.attempts + 1, le_rfl, by rw [submitTo_wrong hnow hfree hne]⟩

end

section

variable {ι η T : Type} [DecidableEq ι] [DecidableEq η] [AddCommGroup T] [LinearOrder T]
  (rules : BoxRules T)

/-- The box as a machine. -/
def Box : Machine (BoxEvent ι η T) (CodeBox ι η T) BoxAnswer where
  step e box :=
    match e with
    | .request address now stamp secret expires =>
      if rules.maxRequests ≤ recent (now - rules.window) box.stamps then (.limited, box)
      else (.sent, ⟨box.stamps ++ [stamp],
        Function.update box.codes address (⟨secret, expires, 0⟩ :: box.codes address)⟩)
    | .submit address now secret =>
      let r := submitTo rules now secret (box.codes address)
      (r.1, { box with codes := Function.update box.codes address r.2 })

theorem step_submit (address : ι) (now : T) (secret : η) (box : CodeBox ι η T) :
    (Box rules).step (.submit address now secret) box =
      ((submitTo rules now secret (box.codes address)).1, { box with
        codes := Function.update box.codes address
          (submitTo rules now secret (box.codes address)).2 }) := rfl

variable {address : ι} {code : OpenCode η T} {codes : List (OpenCode η T)}
  {box : CodeBox ι η T}

/-- An event that spares the code leaves it the newest of its address. -/
theorem codes_step (hcodes : box.codes address = code :: codes) {e : BoxEvent ι η T}
    (hspares : e.Spares address code.secret) :
    ∃ n, n ≤ code.attempts + (if e.submitsAt address then 1 else 0) ∧
      ((Box rules).step e box).2.codes address = { code with attempts := n } :: codes := by
  cases e with
  | request a now stamp secret expires =>
    refine ⟨code.attempts, Nat.le_add_right _ _, ?_⟩
    simp only [Box]
    split
    · exact hcodes
    · exact (Function.update_of_ne (Ne.symm hspares) _ _).trans hcodes
  | submit a now secret =>
    by_cases ha : a = address
    · subst ha
      obtain ⟨n, hn, hafter⟩ := submitTo_kept rules now (hspares rfl)
      refine ⟨n, by simpa [BoxEvent.submitsAt] using hn, ?_⟩
      rw [step_submit, hcodes]
      exact (Function.update_self _ _ _).trans hafter
    · refine ⟨code.attempts, Nat.le_add_right _ _, ?_⟩
      rw [step_submit]
      exact (Function.update_of_ne (Ne.symm ha) _ _).trans hcodes

theorem codes_exec (hcodes : box.codes address = code :: codes) (es : List (BoxEvent ι η T))
    (hspares : ∀ e ∈ es, e.Spares address code.secret) :
    ∃ n, n ≤ code.attempts + es.countP (BoxEvent.submitsAt address) ∧
      ((Box rules).exec es box).codes address = { code with attempts := n } :: codes := by
  induction es generalizing code box with
  | nil => exact ⟨code.attempts, le_rfl, hcodes⟩
  | cons e es ih =>
    obtain ⟨m, hm, hstep⟩ := codes_step rules hcodes (hspares e List.mem_cons_self)
    obtain ⟨n, hn, hexec⟩ := ih hstep fun f hf => hspares f (List.mem_cons_of_mem _ hf)
    refine ⟨n, ?_, hexec⟩
    rw [List.countP_cons]
    change n ≤ m + _ at hn
    omega

/-- The newest code of an address is accepted, until it expires and after fewer wrong
    submissions than allowed. -/
theorem accepts_after (hcodes : box.codes address = code :: codes) (es : List (BoxEvent ι η T))
    (hspares : ∀ e ∈ es, e.Spares address code.secret)
    (hfew : code.attempts + es.countP (BoxEvent.submitsAt address) < rules.maxAttempts) {now : T}
    (hnow : now ≤ code.expires) :
    ((Box rules).step (.submit address now code.secret) ((Box rules).exec es box)).1 = .right := by
  obtain ⟨n, hn, hexec⟩ := codes_exec rules hcodes es hspares
  have hright : submitTo rules now code.secret ({ code with attempts := n } :: codes) =
      (.right, codes) := submitTo_right hnow (lt_of_le_of_lt hn hfew) rfl
  rw [step_submit, hexec, hright]

end

end LinkedOut
