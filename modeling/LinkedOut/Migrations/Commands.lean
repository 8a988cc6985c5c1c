/-
  `alembic upgrade` and `alembic downgrade`, on a database that the application writes to
  between the commands.

  A command is one transaction (`env.py` begins it around `run_migrations`): the migrations
  on the way all take effect or none does. What is written between two commands is arbitrary.

  * `migrations_never_fail`: a command fails only when it is a downgrade to a revision later
    than the current one, which alembic refuses before anything is run; every other one
    leaves the schema of its revision. Only the label DOCUMENT outlives its migration, whose
    downgrade is `pass`, until 0004 is undone; rows that hold it do not keep the tables from
    being dropped.
  * `commands_keep_rows`: commands lose exactly what the lowest revision on the way had no
    columns for, and `upgrade` loses nothing.
-/
import Mathlib.Order.Fin.Basic
import LinkedOut.Machine
import LinkedOut.Migrations.Versions

namespace LinkedOut

/-! ## The commands -/

/-- How many of the migrations are applied; 0 is `base`, 6 is `head`. -/
abbrev Revision := Fin 7

/-- The operations from one revision to a later one. -/
def upgradeOps (r r' : Revision) : List Op :=
  ((versions.take r').drop r).flatMap Migration.upgrade

/-- The operations from one revision back to an earlier one, the latest migration first. -/
def downgradeOps (r r' : Revision) : List Op :=
  ((versions.take r).drop r').reverse.flatMap Migration.downgrade

inductive Command where
  | upgrade (goal : Revision)
  | downgrade (goal : Revision)

/-- `CommandError`: a later revision is not a valid downgrade target. -/
def Command.refused (cmd : Command) (r : Revision) : Bool :=
  match cmd with
  | upgrade _ => false
  | downgrade goal => decide (r < goal)

/-- The revision after the command: an upgrade to an earlier one has nothing to run, and a
    command that is refused runs nothing. -/
def Command.target (cmd : Command) (r : Revision) : Revision :=
  match cmd with
  | upgrade goal => max r goal
  | downgrade goal => min r goal

def Command.script (cmd : Command) (r : Revision) : List Statement :=
  match cmd with
  | upgrade _ => statements [] (upgradeOps r (cmd.target r))
  | downgrade _ => statements [] (downgradeOps r (cmd.target r))

abbrev Rows (V : Type) := TableName → List (ColumnName → Option V)

abbrev StoredDb (V : Type) := Database TableName ColumnName TypeName IndexName V

/-- The database, and the revision in its `alembic_version`. -/
structure Deployed (V : Type) where
  revision : Revision
  db : StoredDb V

/-- A command, or the rows that the application leaves. -/
inductive DeployEvent (V : Type) where
  | command (cmd : Command)
  | write (rows : Rows V)

section

variable {V : Type} [DecidableEq V]

/-- What the application writes goes into the columns there are. -/
def Deployed.write (s : Deployed V) (rows : Rows V) : Deployed V :=
  { s with db := ⟨s.db.catalog, s.db.catalog.trim rows, Catalog.trim_trim (.refl _) _⟩ }

def Deployed.command (cmd : Command) (s : Deployed V) : Option (Deployed V) :=
  if cmd.refused s.revision then none
  else (runAll (cmd.script s.revision) s.db).map fun db => ⟨cmd.target s.revision, db⟩

/-- The answer is whether the event has gone through; a command that fails changes nothing. -/
def deployments : Machine (DeployEvent V) (Deployed V) Bool where
  step e s :=
    match e with
    | .write rows => (true, s.write rows)
    | .command cmd =>
      match s.command cmd with
      | none => (false, s)
      | some s' => (true, s')

/-- A database that nothing has been run on. -/
def Deployed.base : Deployed V := ⟨0, ⟨.empty, fun _ => [], rfl⟩⟩

end

/-! ## The schema of each revision -/

/-- What the migrations up to the revision make of an empty catalog. -/
def schemaAt (r : Revision) : Schema :=
  match checkAll (statements [] (upgradeOps 0 r)) (.empty, []) with
  | none => .empty
  | some s => s.1

/-- The schemas a database can have at a revision: at 0004 the label DOCUMENT may be there. -/
def schemasAt (r : Revision) : List Schema :=
  if r = 4 then [schemaAt 4, schemaAt 5] else [schemaAt r]

/-- The script leads from every schema of the one revision to one of the other, whatever the
    rows are. -/
def LeadsTo (script : List Statement) (r r' : Revision) : Prop :=
  ∀ c ∈ schemasAt r, ∃ s ∈ checkAll script (c, []), s.1 ∈ schemasAt r'

instance (script : List Statement) (r r' : Revision) : Decidable (LeadsTo script r r') :=
  inferInstanceAs (Decidable (∀ c ∈ schemasAt r, ∃ s ∈ checkAll script (c, []), _))

theorem upgrade_leads :
    ∀ r r' : Revision, r ≤ r' → LeadsTo (statements [] (upgradeOps r r')) r r' := by
  decide +kernel

theorem downgrade_leads :
    ∀ r r' : Revision, r' ≤ r → LeadsTo (statements [] (downgradeOps r r')) r r' := by
  decide +kernel

theorem upgrade_creates : ∀ r r' : Revision,
    ∀ ch ∈ statements [] (upgradeOps r r'), ch.creates = true := by
  decide +kernel

theorem downgrade_drops : ∀ r r' : Revision,
    ∀ ch ∈ statements [] (downgradeOps r r'), ch.creates = false := by
  decide +kernel

/-! ## One command -/

section

variable {V : Type}

/-- 0005 changes no table. -/
theorem schemasAt_tables : ∀ r : Revision, ∀ c ∈ schemasAt r, c.tables = (schemaAt r).tables := by
  decide +kernel

theorem schemaAt_mem (r : Revision) : schemaAt r ∈ schemasAt r := by
  unfold schemasAt
  split
  · rename_i hr
    rw [hr]
    exact List.mem_cons_self
  · exact List.mem_singleton_self _

/-- The state is one that the commands lead to. -/
def Deployed.Migrated (s : Deployed V) : Prop := s.db.catalog ∈ schemasAt s.revision

theorem Deployed.Migrated.trim {s : Deployed V} (h : s.Migrated) (rows : Rows V) :
    s.db.catalog.trim rows = (schemaAt s.revision).trim rows :=
  Catalog.trim_congr (schemasAt_tables _ _ h) rows

variable [DecidableEq V]

theorem LeadsTo.run {script : List Statement} {r r' : Revision} (h : LeadsTo script r r')
    {db : StoredDb V} (hdb : db.catalog ∈ schemasAt r) :
    ∃ db', runAll script db = some db' ∧ db'.catalog ∈ schemasAt r' := by
  obtain ⟨s, hs, hmem⟩ := h _ hdb
  obtain ⟨db', hrun, hcatalog⟩ := runAll_of_check hs rfl fun t ht => absurd ht List.not_mem_nil
  exact ⟨db', hrun, hcatalog ▸ hmem⟩

/-- A later revision has all the tables and columns of an earlier one. -/
theorem schemaAt_le {r r' : Revision} (h : r ≤ r') : (schemaAt r).Le (schemaAt r') := by
  let db : StoredDb Unit := ⟨schemaAt r, fun _ => [], funext fun _ => Catalog.trim_empty _ rfl⟩
  have hdb : db.catalog ∈ schemasAt r := schemaAt_mem r
  obtain ⟨db', hrun, hmem⟩ := (upgrade_leads r r' h).run hdb
  exact (runAll_growing (upgrade_creates r r') hrun).2.trans
    (.of_tables (schemasAt_tables r' _ hmem))

theorem Command.refused_iff {cmd : Command} {r : Revision} :
    cmd.refused r = true ↔ ∃ goal, cmd = .downgrade goal ∧ r < goal := by
  cases cmd with
  | upgrade goal => simp [Command.refused]
  | downgrade goal => simp [Command.refused]

/-- A command that is refused would stay where it is. -/
theorem Command.target_of_refused {cmd : Command} {r : Revision} (h : cmd.refused r = true) :
    cmd.target r = r := by
  obtain ⟨goal, rfl, hlt⟩ := Command.refused_iff.mp h
  exact min_eq_left hlt.le

/-- A command that is not refused runs. An upgrade leaves the rows alone, and a downgrade
    what the target revision has columns for. -/
theorem Deployed.Migrated.command {s : Deployed V} (h : s.Migrated) {cmd : Command}
    (hcmd : cmd.refused s.revision = false) :
    ∃ s', s.command cmd = some s' ∧ s'.Migrated ∧ s'.revision = cmd.target s.revision ∧
      s'.db.rows = (schemaAt (min s.revision s'.revision)).trim s.db.rows := by
  unfold Deployed.command
  rw [hcmd, if_neg Bool.false_ne_true]
  cases cmd with
  | upgrade goal =>
    have hle : s.revision ≤ max s.revision goal := le_max_left _ _
    obtain ⟨db', hrun, hmem⟩ := (upgrade_leads _ _ hle).run h
    refine ⟨⟨max s.revision goal, db'⟩, ?_, hmem, rfl, ?_⟩
    · show (runAll (statements [] (upgradeOps s.revision (max s.revision goal))) s.db).map _ = _
      rw [hrun]
      rfl
    · rw [min_eq_left hle, ← h.trim, s.db.tidy]
      exact (runAll_growing (upgrade_creates _ _) hrun).1
  | downgrade goal =>
    have hle : min s.revision goal ≤ s.revision := min_le_left _ _
    obtain ⟨db', hrun, hmem⟩ := (downgrade_leads _ _ hle).run h
    have hmigrated : (⟨min s.revision goal, db'⟩ : Deployed V).Migrated := hmem
    refine ⟨⟨min s.revision goal, db'⟩, ?_, hmem, rfl, ?_⟩
    · show (runAll (statements [] (downgradeOps s.revision (min s.revision goal))) s.db).map _ = _
      rw [hrun]
      rfl
    · rw [min_eq_right hle, ← hmigrated.trim]
      exact (runAll_shrinking (downgrade_drops _ _) hrun).1

/-! ## Whole runs -/

/-- What an event does: a refused command changes nothing, and everything else goes through. -/
structure DeployStep (e : DeployEvent V) (s : Deployed V) (r : Bool × Deployed V) : Prop where
  out : r.1 = false ↔ ∃ cmd, e = .command cmd ∧ cmd.refused s.revision = true
  unchanged : r.1 = false → r.2 = s
  migrated : r.2.Migrated
  command : ∀ cmd, e = .command cmd → r.2.revision = cmd.target s.revision ∧
    r.2.db.rows = (schemaAt (min s.revision r.2.revision)).trim s.db.rows

theorem Deployed.Migrated.step {s : Deployed V} (h : s.Migrated) (e : DeployEvent V) :
    DeployStep e s (deployments.step e s) := by
  cases e with
  | write rows =>
    refine ⟨iff_of_false Bool.false_ne_true.symm ?_,
      fun hout => absurd hout Bool.false_ne_true.symm, h, fun cmd hcmd => (by cases hcmd)⟩
    rintro ⟨cmd, hcmd, -⟩
    cases hcmd
  | command cmd =>
    cases hrefused : cmd.refused s.revision with
    | true =>
      have hstep : deployments.step (.command cmd) s = (false, s) := by
        unfold deployments Deployed.command
        simp only [hrefused, if_true]
      rw [hstep]
      refine ⟨iff_of_true rfl ⟨cmd, rfl, hrefused⟩, fun _ => rfl, h, fun cmd' hcmd => ?_⟩
      cases hcmd
      refine ⟨(Command.target_of_refused hrefused).symm, ?_⟩
      rw [min_self, ← h.trim, s.db.tidy]
    | false =>
      obtain ⟨s', hs', hmigrated, hrevision, hrows⟩ := h.command hrefused
      have hstep : deployments.step (.command cmd) s = (true, s') := by
        unfold deployments
        simp only [hs']
      rw [hstep]
      refine ⟨iff_of_false Bool.false_ne_true.symm ?_,
        fun hout => absurd hout Bool.false_ne_true.symm, hmigrated, fun cmd' hcmd => ?_⟩
      · rintro ⟨cmd', hcmd, htrue⟩
        cases hcmd
        rw [hrefused] at htrue
        cases htrue
      · cases hcmd
        exact ⟨hrevision, hrows⟩

theorem migrated_exec (es : List (DeployEvent V)) :
    (deployments.exec es .base).Migrated :=
  deployments.exec_inv (I := Deployed.Migrated) (C := fun _ _ => True)
    (fun _ e _ h => (h.step e).migrated) es .base (schemaAt_mem 0) (deployments.along_true _ _)

/-- Whatever is stored, the only events that fail are downgrades to a revision later than the
    current one, and these change nothing. Every other command leads to its target revision,
    and in every state the schema is the one the migrations up to its revision build, at
    0004 perhaps with the label of 0005. -/
theorem migrations_never_fail (es : List (DeployEvent V))
    {v : Served (DeployEvent V) (Deployed V) Bool} (hv : v ∈ deployments.trace es .base) :
    (v.out = false ↔ ∃ goal, v.event = .command (.downgrade goal) ∧ v.before.revision < goal) ∧
      (v.out = false → v.after = v.before) ∧
      (v.after.db.catalog = schemaAt v.after.revision ∨
        v.after.revision = 4 ∧ v.after.db.catalog = schemaAt 5) ∧
      ∀ cmd, v.event = .command cmd → v.after.revision = cmd.target v.before.revision := by
  obtain ⟨i, hi⟩ := List.mem_iff_getElem?.mp hv
  obtain ⟨e, -, rfl⟩ := deployments.exists_serve hi
  have hstep := (migrated_exec (es.take i)).step e
  refine ⟨hstep.out.trans ⟨?_, ?_⟩, hstep.unchanged, ?_, fun cmd hcmd => (hstep.command cmd hcmd).1⟩
  · rintro ⟨cmd, hcmd, hrefused⟩
    obtain ⟨goal, rfl, hlt⟩ := Command.refused_iff.mp hrefused
    exact ⟨goal, hcmd, hlt⟩
  · rintro ⟨goal, hcmd, hlt⟩
    exact ⟨.downgrade goal, hcmd, Command.refused_iff.mpr ⟨goal, rfl, hlt⟩⟩
  · have hafter := hstep.migrated
    show (deployments.step e (deployments.exec (es.take i) .base)).2.db.catalog = _ ∨ _
    unfold Deployed.Migrated schemasAt at hafter
    split at hafter
    · rename_i hfour
      rcases List.mem_cons.mp hafter with hcatalog | hcatalog
      · exact Or.inl (hcatalog.trans (congrArg schemaAt hfour.symm))
      · exact Or.inr ⟨hfour, List.mem_singleton.mp hcatalog⟩
    · exact Or.inl (List.mem_singleton.mp hafter)

/-- The lowest revision that the commands pass. -/
def lowest : List Command → Revision → Revision
  | [], r => r
  | cmd :: cmds, r => min r (lowest cmds (cmd.target r))

theorem lowest_le (cmds : List Command) (r : Revision) : lowest cmds r ≤ r := by
  cases cmds with
  | nil => exact le_rfl
  | cons cmd cmds => exact min_le_left _ _

/-- Without a write between them, commands leave what the lowest revision has columns for. -/
theorem Deployed.Migrated.rows {s : Deployed V} (h : s.Migrated) (cmds : List Command) :
    (deployments.exec (cmds.map .command) s).db.rows =
      (schemaAt (lowest cmds s.revision)).trim s.db.rows := by
  induction cmds generalizing s with
  | nil =>
    show s.db.rows = (schemaAt s.revision).trim s.db.rows
    rw [← h.trim, s.db.tidy]
  | cons cmd cmds ih =>
    have hstep := h.step (.command cmd)
    obtain ⟨hrevision, hrows⟩ := hstep.command cmd rfl
    show (deployments.exec (cmds.map .command) (deployments.step (.command cmd) s).2).db.rows = _
    rw [ih hstep.migrated, hrows, hrevision]
    show _ = (schemaAt (min s.revision (lowest cmds (cmd.target s.revision)))).trim s.db.rows
    -- the rows pass the revisions on the way down, and of these the lowest decides
    have hlowest := lowest_le cmds (cmd.target s.revision)
    have hself : (schemaAt s.revision).trim s.db.rows = s.db.rows := by rw [← h.trim, s.db.tidy]
    rcases le_total s.revision (lowest cmds (cmd.target s.revision)) with hle | hle
    · rw [min_eq_left (hle.trans hlowest), min_eq_left hle, hself]
      exact Catalog.trim_of_le (schemaAt_le hle) hself
    · rw [min_eq_right hle]
      exact Catalog.trim_trim (schemaAt_le (le_min hle hlowest)) _

/-- Commands lose exactly what the lowest revision on the way has no columns for. Those that
    come back to where they started, and never go below it, leave every row, and but for the
    label at 0004 the whole database, as it was. -/
theorem commands_keep_rows (es : List (DeployEvent V)) (cmds : List Command) :
    let s := deployments.exec es (.base : Deployed V)
    let s' := deployments.exec (cmds.map .command) s
    s'.db.rows = (schemaAt (lowest cmds s.revision)).trim s.db.rows ∧
      (lowest cmds s.revision = s.revision → s'.revision = s.revision →
        s'.db.rows = s.db.rows ∧ (s.revision ≠ 4 → s'.db.catalog = s.db.catalog)) := by
  intro s s'
  have hs : s.Migrated := migrated_exec es
  have hs' : s'.Migrated := by
    have hall := migrated_exec (es ++ cmds.map .command)
    rwa [Machine.exec_append] at hall
  refine ⟨hs.rows cmds, fun hlowest hrevision => ⟨?_, fun hne => ?_⟩⟩
  · rw [hs.rows cmds, hlowest, ← hs.trim, s.db.tidy]
  · unfold Deployed.Migrated schemasAt at hs hs'
    rw [hrevision, if_neg hne] at hs'
    rw [if_neg hne] at hs
    rw [List.mem_singleton.mp hs, List.mem_singleton.mp hs']

end

/-- An audit entry of a document. -/
def documentEntry : ColumnName → Option String
  | .itemType => some "DOCUMENT"
  | _ => none

/-- A document is decided at `head`, and then everything is taken down again; a downgrade to
    `head` in between is refused. -/
def documentsDowngraded : List (DeployEvent String) :=
  [.command (.upgrade 6), .write (Function.update (fun _ => []) .moderationAuditLog [documentEntry]),
    .command (.downgrade 4), .command (.downgrade 6), .command (.downgrade 0)]

theorem documentsDowngraded_succeeds :
    (deployments.serve (.command (.downgrade 0))
      (deployments.exec (documentsDowngraded.take 4) .base)).out = true := by
  refine Bool.eq_true_of_not_eq_false fun hfailed => ?_
  obtain ⟨goal, hgoal, hlt⟩ := (migrations_never_fail documentsDowngraded
    (.tail _ (.tail _ (.tail _ (.tail _ (.head _)))))).1.mp hfailed
  cases hgoal
  exact absurd hlt (Fin.not_lt_zero _)

/-- 0005 to `head` and back, with the entry in the log. -/
theorem head_and_back :
    let s := deployments.exec [.command (.upgrade 5), .write (Function.update (fun _ => [])
      .moderationAuditLog [documentEntry])] (.base : Deployed String)
    (deployments.exec ([.upgrade 6, .downgrade 5].map .command) s).db.rows = s.db.rows :=
  ((commands_keep_rows [.command (.upgrade 5), .write (Function.update (fun _ => [])
    .moderationAuditLog [documentEntry])] [.upgrade 6, .downgrade 5]).2 (by decide +kernel)
      (by decide +kernel)).1

end LinkedOut
