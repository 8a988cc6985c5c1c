/-
  The redaction filter and the logger tree: `app/core/logging.py` over the part of the
  standard library's `logging` that decides which filters see a record.

  `configure_logging` puts its filter on the root logger. A logger consults its own filters
  for the records created on it and no others; a record created further down reaches the
  root's handlers by propagation, past the root's filters. So a handler is handed a redacted
  record only when the record was created on the root itself, or on a logger with a
  redaction filter of its own, or met one at an earlier handler
  (`handed_over_redacted_iff`). `module_logger_unredacted` is a record that met none.
  Nothing here depends on what `_redact` does to a text.
-/
import Mathlib.Logic.Function.Basic

namespace LinkedOut

/-! ## Records and filters -/

/-- A dotted logger name, innermost component first: `a.b` is `["b", "a"]`, the root `[]`. -/
abbrev LoggerName := List String

/-- A message or an argument. -/
inductive LogValue
  | str (text : String)
  | int (value : Int)
  | obj (repr : String)
deriving Repr, DecidableEq

/-- `record.args`, after the record has unwrapped a single dictionary. -/
inductive LogArgs
  | none
  | tuple (values : List LogValue)
  | dict (items : List (String × LogValue))
deriving Repr, DecidableEq

structure LogRecord where
  name : LoggerName
  levelno : Int
  msg : LogValue
  args : LogArgs
deriving Repr, DecidableEq

/-- `_redact(v) if isinstance(v, str) else v` -/
def LogValue.redact (_redact : String → String) : LogValue → LogValue
  | .str text => .str (_redact text)
  | v => v

/-- `PIIRedactionFilter.filter` -/
def PIIRedactionFilter.filter (_redact : String → String) (record : LogRecord) :
    LogRecord × Bool :=
  ({ record with
      msg := record.msg.redact _redact
      args :=
        match record.args with
        | .none => .none
        | .dict items => .dict (items.map fun item => (item.1, item.2.redact _redact))
        | .tuple values => .tuple (values.map (LogValue.redact _redact)) },
    true)

/-- A filter on a logger or a handler. Any other one may change the record in place too. -/
inductive LogFilter
  | piiRedaction
  | other (filter : LogRecord → LogRecord × Bool)

/-- `isinstance(f, PIIRedactionFilter)` -/
def LogFilter.isPii : LogFilter → Bool
  | .piiRedaction => true
  | .other _ => false

def LogFilter.filter (_redact : String → String) : LogFilter → LogRecord → LogRecord × Bool
  | .piiRedaction, record => PIIRedactionFilter.filter _redact record
  | .other filter, record => filter record

/-! ## The logger tree -/

structure Handler where
  level : Int := 0
  filters : List LogFilter := []

/-- `logging.Logger`. A name nobody asked for counts as a logger as it is created. -/
structure Logger where
  level : Int := 0
  filters : List LogFilter := []
  handlers : List Handler := []
  propagate : Bool := true
  disabled : Bool := false

/-- The loggers by name, and `manager.disable`. -/
structure LoggerTree where
  disable : Int := 0
  loggers : LoggerName → Logger

/-- `configure_logging` -/
def configureLogging (tree : LoggerTree) : LoggerTree :=
  let root := tree.loggers []
  if root.filters.any LogFilter.isPii then tree
  else
    { tree with
      loggers := Function.update tree.loggers []
        { root with filters := root.filters ++ [.piiRedaction] } }

/-- `Logger.getEffectiveLevel`: the nearest level that is set, own or inherited. -/
def getEffectiveLevel (loggers : LoggerName → Logger) : LoggerName → Int
  | [] => (loggers []).level
  | part :: parent =>
    let level := (loggers (part :: parent)).level
    if level ≠ 0 then level else getEffectiveLevel loggers parent

/-- `Logger.isEnabledFor` -/
def isEnabledFor (tree : LoggerTree) (name : LoggerName) (level : Int) : Bool :=
  !(tree.loggers name).disabled && decide (tree.disable < level) &&
    decide (getEffectiveLevel tree.loggers name ≤ level)

/-- What one `Filterer.filter` call did: the record as it left it, the filters it consulted,
    and whether all of them let the record pass. -/
structure Consultation where
  record : LogRecord
  consulted : List LogFilter
  passes : Bool

/-- `Filterer.filter`: the filters in order, up to the first that refuses. -/
def consult (_redact : String → String) : List LogFilter → LogRecord → Consultation
  | [], record => ⟨record, [], true⟩
  | f :: filters, record =>
    let (record, passes) := f.filter _redact record
    if passes then
      let rest := consult _redact filters record
      { rest with consulted := f :: rest.consulted }
    else ⟨record, [f], false⟩

/-- A handler is handed a record that has passed these filters. -/
structure Delivery where
  logger : LoggerName
  handler : Handler
  record : LogRecord
  passed : List LogFilter

/-- The handlers a record created on a logger meets: its own, then its ancestors', as far up
    as `propagate` is on. -/
def handlersMet (loggers : LoggerName → Logger) : LoggerName → List (LoggerName × Handler)
  | [] => (loggers []).handlers.map fun handler => ([], handler)
  | part :: parent =>
    let logger := loggers (part :: parent)
    logger.handlers.map (fun handler => (part :: parent, handler)) ++
      if logger.propagate then handlersMet loggers parent else []

/-- `Logger.callHandlers`. The record is one object: what a handler's filters do to it, the
    next handler sees. -/
def callHandlers (_redact : String → String) :
    List (LoggerName × Handler) → LogRecord → List LogFilter → List Delivery
  | [], _, _ => []
  | (logger, handler) :: rest, record, passed =>
    if handler.level ≤ record.levelno then
      let own := consult _redact handler.filters record
      ⟨logger, handler, record, passed⟩ ::
        callHandlers _redact rest own.record (passed ++ own.consulted)
    else callHandlers _redact rest record passed

/-- `Logger.log` with `Logger.handle`: the logger's own filters, then the handlers. -/
def log (_redact : String → String) (tree : LoggerTree) (name : LoggerName) (level : Int)
    (msg : LogValue) (args : LogArgs) : List Delivery :=
  if isEnabledFor tree name level then
    let own := consult _redact (tree.loggers name).filters ⟨name, level, msg, args⟩
    if own.passes then
      callHandlers _redact (handlersMet tree.loggers name) own.record own.consulted
    else []
  else []

/-! ## `configure_logging` -/

theorem configureLogging_root (tree : LoggerTree) :
    ((configureLogging tree).loggers []).filters.any LogFilter.isPii = true := by
  unfold configureLogging
  dsimp only
  split
  · assumption
  · simp [LogFilter.isPii]

theorem configureLogging_of_ne (tree : LoggerTree) {name : LoggerName} (hname : name ≠ []) :
    (configureLogging tree).loggers name = tree.loggers name := by
  unfold configureLogging
  dsimp only
  split
  · rfl
  · exact Function.update_of_ne hname _ _

/-- Idempotent: a second call stacks no second filter. -/
theorem configureLogging_idem (tree : LoggerTree) :
    configureLogging (configureLogging tree) = configureLogging tree := by
  exact if_pos (configureLogging_root tree)

/-! ## What a delivered record has passed -/

section
variable (_redact : String → String)

/-- A record that its logger lets through has met every filter of that logger. -/
theorem consulted_of_passes (filters : List LogFilter) (record : LogRecord)
    (h : (consult _redact filters record).passes = true) :
    (consult _redact filters record).consulted = filters := by
  induction filters generalizing record with
  | nil => rfl
  | cons f filters ih =>
    unfold consult at h ⊢
    dsimp only at h ⊢
    split
    · rename_i hf
      rw [if_pos hf] at h
      rw [ih _ h]
    · rename_i hf
      rw [if_neg hf] at h
      exact absurd h Bool.false_ne_true

def Delivery.redacted (d : Delivery) : Bool := d.passed.any LogFilter.isPii

/-- The handler has a redaction filter of its own and its earlier filters let the record get
    there. -/
def Handler.redacts (handler : Handler) (record : LogRecord) : Bool :=
  (consult _redact handler.filters record).consulted.any LogFilter.isPii

/-- Between two handlers only the first one's filters touch the record. -/
theorem callHandlers_redacted (path : List (LoggerName × Handler)) (record : LogRecord)
    (passed : List LogFilter) (earlier later : List Delivery) (d : Delivery)
    (h : callHandlers _redact path record passed = earlier ++ d :: later) :
    d.redacted = (passed.any LogFilter.isPii ||
      earlier.any fun e => e.handler.redacts _redact e.record) := by
  induction path generalizing record passed earlier with
  | nil => simp [callHandlers] at h
  | cons at_ rest ih =>
    unfold callHandlers at h
    split at h
    · cases earlier with
      | nil =>
        obtain ⟨rfl, -⟩ := List.cons.inj h
        simp [Delivery.redacted]
      | cons e earlier =>
        obtain ⟨rfl, htail⟩ := List.cons.inj h
        rw [ih _ _ _ htail, List.any_append, List.any_cons, Bool.or_assoc]
        rfl
    · exact ih _ _ _ h

/-- Nothing is handed over that the logger's own filters did not let through. -/
theorem log_delivered {tree : LoggerTree} {name : LoggerName} {level : Int} {msg : LogValue}
    {args : LogArgs} (h : log _redact tree name level msg args ≠ []) :
    ∃ record, log _redact tree name level msg args =
      callHandlers _redact (handlersMet tree.loggers name) record (tree.loggers name).filters := by
  unfold log at h ⊢
  dsimp only at h ⊢
  split at h
  · rename_i henabled
    split at h
    · rename_i hpasses
      rw [if_pos henabled, if_pos hpasses, consulted_of_passes _redact _ _ hpasses]
      exact ⟨_, rfl⟩
    · exact absurd rfl h
  · exact absurd rfl h

end

/-- Whatever the tree, the logger, the level and the record: what is handed to a handler, the
    root's among them, has passed a redaction filter if and only if the record was created
    on the root or on a logger that has one, or met one at an earlier handler. -/
theorem handed_over_redacted_iff (_redact : String → String) (tree : LoggerTree)
    (name : LoggerName) (level : Int) (msg : LogValue) (args : LogArgs)
    (earlier later : List Delivery) (d : Delivery)
    (hlog : log _redact (configureLogging tree) name level msg args = earlier ++ d :: later) :
    d.redacted = true ↔
      name = [] ∨ (tree.loggers name).filters.any LogFilter.isPii = true ∨
        earlier.any (fun e => e.handler.redacts _redact e.record) = true := by
  have hne : log _redact (configureLogging tree) name level msg args ≠ [] := by
    rw [hlog]
    simp
  obtain ⟨record, hcall⟩ := log_delivered _redact hne
  rw [hcall] at hlog
  rw [callHandlers_redacted _redact _ _ _ _ _ _ hlog, Bool.or_eq_true]
  by_cases hname : name = []
  · subst hname
    simp [configureLogging_root]
  · rw [configureLogging_of_ne tree hname]
    simp [hname]

/-- A process with one handler on the root and no other logger set up. -/
def freshTree : LoggerTree :=
  { loggers := fun name => if name = [] then { level := 30, handlers := [{}] } else {} }

theorem root_record_redacted :
    (Delivery.mk [] {} ⟨[], 30, .str "R", .none⟩ [.piiRedaction]).redacted = true ↔
      ([] : LoggerName) = [] ∨ (freshTree.loggers []).filters.any LogFilter.isPii = true ∨
        ([] : List Delivery).any (fun e => e.handler.redacts (fun _ => "R") e.record) = true :=
  handed_over_redacted_iff (fun _ => "R") freshTree [] 30 (.str "reach me at a@b.io") .none [] []
    ⟨[], {}, ⟨[], 30, .str "R", .none⟩, [.piiRedaction]⟩ rfl

/-- `logging.getLogger("app.auth").warning(...)` gets past the filter, whatever `_redact`
    does. -/
theorem module_logger_unredacted :
    ¬ ∃ _redact : String → String, ∀ (tree : LoggerTree) (name : LoggerName) (level : Int)
      (msg : LogValue) (args : LogArgs),
      ∀ d ∈ log _redact (configureLogging tree) name level msg args,
        d.logger = [] → d.redacted = true := by
  rintro ⟨_redact, h⟩
  have hredacted := h freshTree ["auth", "app"] 30 (.str "code sent to a@b.io") .none
    ⟨[], {}, ⟨["auth", "app"], 30, .str "code sent to a@b.io", .none⟩, []⟩
    (List.mem_singleton.mpr rfl) rfl
  exact Bool.false_ne_true hredacted

end LinkedOut
