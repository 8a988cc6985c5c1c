/-
  Schema changes of a relational database: the catalog of its enumerations, tables and
  indexes, the rows stored under it, and the statements that change both.

  A statement is refused for what it finds in the catalog; only a unique index is refused
  for rows. `checkAll` runs a script on the catalog alone, and `runAll_of_check` runs what it
  accepts on every database with that catalog. `runAll_growing`: a script that only creates
  leaves every row as it is. `runAll_shrinking`: one that only drops leaves what the catalog
  at its end holds of the rows.

  Nothing here is about a particular schema.
-/
import Mathlib.Logic.Basic

namespace LinkedOut

/-! ## The catalog -/

/-- The types of columns; `ε` is how an enumeration is written. -/
inductive ColumnType (ε : Type) where
  | uuid | text | integer | boolean | timestamptz
  | varchar (length : Nat)
  | varcharArray (length : Nat)
  | enum (e : ε)
  deriving DecidableEq

/-- `default` is the server default. -/
structure Column (C ε : Type) where
  name : C
  type : ColumnType ε
  nullable : Bool
  default : Option String := none
  deriving DecidableEq

inductive OnDelete where
  | cascade | setNull
  deriving DecidableEq

structure ForeignKey (T C : Type) where
  column : C
  table : T
  references : C
  onDelete : OnDelete
  deriving DecidableEq

structure TableDef (T C ε : Type) where
  columns : List (Column C ε)
  foreignKeys : List (ForeignKey T C) := []
  primaryKey : List C
  uniques : List (List C) := []
  deriving DecidableEq

structure Index (T C I : Type) where
  name : I
  table : T
  columns : List C
  unique : Bool
  deriving DecidableEq

structure Catalog (T C E I : Type) where
  enums : List (E × List String)
  tables : List (T × TableDef T C E)
  indexes : List (Index T C I)
  deriving DecidableEq

section

variable {T C E I : Type} [DecidableEq T] [DecidableEq C] [DecidableEq E] [DecidableEq I]

def TableDef.column? (d : TableDef T C E) (name : C) : Option (Column C E) :=
  d.columns.find? fun col => col.name = name

def TableDef.hasColumn (d : TableDef T C E) (name : C) : Bool := (d.column? name).isSome

/-- The constraints that mention the column go with it. -/
def TableDef.withoutColumn (d : TableDef T C E) (name : C) : TableDef T C E where
  columns := d.columns.filter fun col => col.name ≠ name
  foreignKeys := d.foreignKeys.filter fun fk => fk.column ≠ name
  primaryKey := if d.primaryKey.contains name then [] else d.primaryKey
  uniques := d.uniques.filter fun key => !key.contains name

namespace Catalog

def empty : Catalog T C E I := ⟨[], [], []⟩

def labels? (c : Catalog T C E I) (e : E) : Option (List String) :=
  (c.enums.find? fun d => d.1 = e).map Prod.snd

def table? (c : Catalog T C E I) (t : T) : Option (TableDef T C E) :=
  (c.tables.find? fun d => d.1 = t).map Prod.snd

def hasTable (c : Catalog T C E I) (t : T) : Bool := (c.table? t).isSome

def hasColumn (c : Catalog T C E I) (t : T) (name : C) : Bool :=
  (c.table? t).any fun d => d.hasColumn name

/-- The columns that no two rows of the table agree on, unless one of them is NULL. -/
def keys (c : Catalog T C E I) (t : T) : List (List C) :=
  match c.table? t with
  | none => []
  | some d => d.primaryKey :: d.uniques ++
      (c.indexes.filter fun i => i.table = t && i.unique).map Index.columns

def foreignKeys (c : Catalog T C E I) (t : T) : List (ForeignKey T C) :=
  ((c.table? t).map TableDef.foreignKeys).getD []

/-- The type of the column exists, and its default is one of the type's labels. -/
def columnOk (c : Catalog T C E I) (col : Column C E) : Bool :=
  match col.type with
  | .enum e =>
    match c.labels? e with
    | none => false
    | some labels => col.default.all labels.contains
  | _ => true

/-- The column refers to a primary key of its own type. -/
def foreignKeyOk (c : Catalog T C E I) (d : TableDef T C E) (fk : ForeignKey T C) : Bool :=
  (c.table? fk.table).any fun parent =>
    parent.primaryKey = [fk.references] && d.hasColumn fk.column &&
      (d.column? fk.column).map Column.type = (parent.column? fk.references).map Column.type

/-- The definition of a new table can be stored. -/
def tableOk (c : Catalog T C E I) (d : TableDef T C E) : Bool :=
  decide (d.columns.map Column.name).Nodup && d.columns.all c.columnOk &&
    (d.primaryKey :: d.uniques).all (fun key => key.all d.hasColumn) &&
    d.foreignKeys.all (c.foreignKeyOk d)

def typeUsed (c : Catalog T C E I) (e : E) : Bool :=
  c.tables.any fun d => d.2.columns.any fun col => col.type = .enum e

/-- Another table refers to this one. -/
def tableReferenced (c : Catalog T C E I) (t : T) : Bool :=
  c.tables.any fun d => d.1 ≠ t && d.2.foreignKeys.any fun fk => fk.table = t

def columnReferenced (c : Catalog T C E I) (t : T) (name : C) : Bool :=
  c.tables.any fun d => d.2.foreignKeys.any fun fk => fk.table = t && fk.references = name

def setTable (c : Catalog T C E I) (t : T) (d : TableDef T C E) : Catalog T C E I :=
  { c with tables := c.tables.map fun entry => if entry.1 = t then (t, d) else entry }

end Catalog

end

/-! ## Looking tables up -/

namespace Catalog

section

variable {T C E I : Type} [DecidableEq T]

theorem table?_append (c : Catalog T C E I) (t : T) (d : TableDef T C E) {t' : T}
    (h : c.hasTable t' = true) :
    ({ c with tables := c.tables ++ [(t, d)] } : Catalog T C E I).table? t' = c.table? t' := by
  obtain ⟨d', hd'⟩ := Option.isSome_iff_exists.mp h
  unfold table? at hd' ⊢
  obtain ⟨entry, hentry, -⟩ := Option.map_eq_some_iff.mp hd'
  rw [List.find?_append, hentry]
  rfl

theorem table?_filter (c : Catalog T C E I) (t t' : T) (indexes : List (Index T C I)) :
    ({ c with tables := c.tables.filter fun d => d.1 ≠ t, indexes } : Catalog T C E I).table? t' =
      if t' = t then none else c.table? t' := by
  unfold table?
  dsimp only
  induction c.tables with
  | nil => simp
  | cons entry tables ih =>
    by_cases hentry : entry.1 = t
    · rw [List.filter_cons_of_neg (by simpa using hentry), ih, List.find?_cons]
      by_cases ht : t' = t
      · rw [if_pos ht, if_pos ht]
      · have hne : ¬ entry.1 = t' := fun h => ht (h.symm.trans hentry)
        simp only [if_neg ht, hne, decide_false]
    · rw [List.filter_cons_of_pos (by simpa using hentry), List.find?_cons, List.find?_cons]
      by_cases ht : entry.1 = t'
      · have hne : ¬ t' = t := fun h => hentry (ht.trans h)
        simp only [ht, hne, decide_true, if_false]
      · simp only [ht, decide_false]
        exact ih

theorem table?_setTable (c : Catalog T C E I) (t : T) (d : TableDef T C E) (t' : T) :
    (c.setTable t d).table? t' = if t' = t then (c.table? t').map fun _ => d else c.table? t' := by
  unfold setTable table?
  dsimp only
  induction c.tables with
  | nil => simp
  | cons entry tables ih =>
    rw [List.map_cons, List.find?_cons, List.find?_cons]
    by_cases hentry : entry.1 = t
    · by_cases ht : t' = t
      · simp [hentry, ht]
      · have hne : ¬ t = t' := fun h => ht h.symm
        simp only [hentry, hne, if_true, decide_false]
        exact ih
    · by_cases ht : entry.1 = t'
      · have hne : ¬ t' = t := fun h => hentry (ht.trans h)
        simp [ht, hne]
      · simp only [hentry, ht, if_false, decide_false]
        exact ih

end

end Catalog

/-! ## What a catalog holds -/

section

variable {T C E I : Type} [DecidableEq T] [DecidableEq C]

/-- The tables of `c` are in `c'`, each with at least the columns it has in `c`. -/
structure Catalog.Le (c c' : Catalog T C E I) : Prop where
  tables : ∀ t, c.hasTable t = true → c'.hasTable t = true
  columns : ∀ t name, c.hasColumn t name = true → c'.hasColumn t name = true

/-- The rows as far as the catalog has columns for them; every other column reads NULL. -/
def Catalog.trim {V : Type} (c : Catalog T C E I) (rows : T → List (C → Option V)) :
    T → List (C → Option V) := fun t =>
  if c.hasTable t then
    (rows t).map fun row name => if c.hasColumn t name then row name else none
  else []

namespace Catalog

variable {V : Type} {c c' c'' : Catalog T C E I} {rows : T → List (C → Option V)} {t t' : T}

theorem Le.refl (c : Catalog T C E I) : c.Le c := ⟨fun _ h => h, fun _ _ h => h⟩

theorem Le.trans (h : c.Le c') (h' : c'.Le c'') : c.Le c'' :=
  ⟨fun t ht => h'.tables t (h.tables t ht), fun t name ht => h'.columns t name (h.columns t name ht)⟩

theorem hasColumn_iff {name : C} :
    c.hasColumn t name = true ↔ ∃ d, c.table? t = some d ∧ d.hasColumn name = true := by
  unfold hasColumn
  cases c.table? t with
  | none => simp
  | some d => simp

/-- Table by table. -/
theorem Le.of_table (h : ∀ t d, c.table? t = some d → ∃ d', c'.table? t = some d' ∧
    ∀ name, d.hasColumn name = true → d'.hasColumn name = true) : c.Le c' := by
  constructor
  · intro t ht
    obtain ⟨d, hd⟩ := Option.isSome_iff_exists.mp ht
    obtain ⟨d', hd', -⟩ := h t d hd
    exact Option.isSome_iff_exists.mpr ⟨d', hd'⟩
  · intro t name ht
    obtain ⟨d, hd, hname⟩ := hasColumn_iff.mp ht
    obtain ⟨d', hd', hcolumns⟩ := h t d hd
    exact hasColumn_iff.mpr ⟨d', hd', hcolumns name hname⟩

/-- Only the tables matter. -/
theorem Le.of_tables (h : c.tables = c'.tables) : c.Le c' :=
  Le.of_table fun t d hd => ⟨d, by unfold table? at hd ⊢; rw [← h]; exact hd, fun _ h => h⟩

/-- A table without rows has none later. -/
theorem trim_empty (c : Catalog T C E I) (h : rows t = []) : c.trim rows t = [] := by
  unfold trim
  rw [h, List.map_nil, ite_self]

theorem trim_congr (h : c.tables = c'.tables) (rows : T → List (C → Option V)) :
    c.trim rows = c'.trim rows := by
  have ht : ∀ t, c.table? t = c'.table? t := fun t => by
    unfold table?
    rw [h]
  unfold trim hasTable hasColumn
  simp only [ht]

/-- What a larger catalog would have held besides does not matter. -/
theorem trim_trim (h : c.Le c') (rows : T → List (C → Option V)) :
    c.trim (c'.trim rows) = c.trim rows := by
  funext t
  unfold trim
  split
  · rename_i ht
    rw [if_pos (h.tables t ht), List.map_map]
    refine List.map_congr_left fun row _ => ?_
    funext name
    by_cases hname : c.hasColumn t name = true
    · simp only [Function.comp_apply, hname, h.columns t name hname, if_true]
    · simp only [Function.comp_apply, hname, Bool.false_eq_true, if_false]
  · rfl

/-- A larger catalog holds all of it. -/
theorem trim_of_le (h : c.Le c') (hrows : c.trim rows = rows) : c'.trim rows = rows := by
  rw [← hrows]
  funext t
  unfold trim
  by_cases ht : c.hasTable t = true
  · rw [if_pos (h.tables t ht), if_pos ht, List.map_map]
    refine List.map_congr_left fun row _ => ?_
    funext name
    by_cases hname : c.hasColumn t name = true
    · simp only [Function.comp_apply, hname, h.columns t name hname, if_true]
    · simp only [Function.comp_apply, hname]
      split <;> rfl
  · rw [if_neg ht, List.map_nil, ite_self]

end Catalog

end

/-! ## The statements -/

section

variable {T C E I : Type} [DecidableEq T] [DecidableEq C] [DecidableEq E] [DecidableEq I]

/-- `addColumn` adds a column that is nullable and has no default. -/
inductive Change (T C E I : Type) where
  | createType (e : E) (labels : List String)
  | dropTypeIfExists (e : E)
  | addValueIfNotExists (e : E) (label : String)
  | createTable (t : T) (d : TableDef T C E)
  | dropTable (t : T)
  | addColumn (t : T) (name : C) (type : ColumnType E)
  | dropColumn (t : T) (name : C)
  | createIndex (i : Index T C I)
  | dropIndex (name : I)

namespace Change

/-- The statements that create and never drop. -/
def creates : Change T C E I → Bool
  | createType _ _ | addValueIfNotExists _ _ | createTable _ _ | addColumn _ _ _
  | createIndex _ => true
  | _ => false

/-- What the statement makes of the catalog, when the catalog lets it run. -/
def catalog (ch : Change T C E I) (c : Catalog T C E I) : Option (Catalog T C E I) :=
  match ch with
  | createType e labels =>
    if (c.labels? e).isSome then none else some { c with enums := c.enums ++ [(e, labels)] }
  | dropTypeIfExists e =>
    if c.typeUsed e then none else some { c with enums := c.enums.filter fun d => d.1 ≠ e }
  | addValueIfNotExists e label =>
    match c.labels? e with
    | none => none
    | some labels =>
      if labels.contains label then some c
      else some { c with enums := c.enums.map fun d => if d.1 = e then (e, d.2 ++ [label]) else d }
  | createTable t d =>
    if c.hasTable t || !c.tableOk d then none
    else some { c with tables := c.tables ++ [(t, d)] }
  | dropTable t =>
    if !c.hasTable t || c.tableReferenced t then none
    else some { c with
      tables := c.tables.filter fun d => d.1 ≠ t
      indexes := c.indexes.filter fun i => i.table ≠ t }
  | addColumn t name type =>
    match c.table? t with
    | none => none
    | some d =>
      let column : Column C E := ⟨name, type, true, none⟩
      if d.hasColumn name || !c.columnOk column then none
      else some (c.setTable t { d with columns := d.columns ++ [column] })
  | dropColumn t name =>
    match c.table? t with
    | none => none
    | some d =>
      if !d.hasColumn name || c.columnReferenced t name then none
      else
        let c' := c.setTable t (d.withoutColumn name)
        some { c' with
          indexes := c.indexes.filter fun i => !(i.table = t && i.columns.contains name) }
  | createIndex i =>
    match c.table? i.table with
    | none => none
    | some d =>
      if c.indexes.any (fun j => j.name = i.name) || !i.columns.all d.hasColumn then none
      else some { c with indexes := c.indexes ++ [i] }
  | dropIndex name =>
    if c.indexes.any fun i => i.name = name then
      some { c with indexes := c.indexes.filter fun i => i.name ≠ name }
    else none

/-- A statement that creates leaves every table and every column where it is. -/
theorem catalog_grows {ch : Change T C E I} {c c' : Catalog T C E I} (hcreates : ch.creates = true)
    (h : ch.catalog c = some c') : c.Le c' := by
  cases ch with
  | createType e labels =>
    simp only [catalog, Option.ite_none_left_eq_some, Option.some.injEq] at h
    exact .of_tables (by rw [← h.2])
  | addValueIfNotExists e label =>
    simp only [catalog] at h
    split at h
    · cases h
    · split at h
      · cases h
        exact .refl _
      · cases h
        exact .of_tables rfl
  | createTable t d =>
    simp only [catalog, Option.ite_none_left_eq_some, Option.some.injEq] at h
    rw [← h.2]
    refine .of_table fun t' d' hd' => ⟨d', ?_, fun _ hname => hname⟩
    rw [c.table?_append t d (Option.isSome_iff_exists.mpr ⟨d', hd'⟩), hd']
  | addColumn t name type =>
    simp only [catalog] at h
    split at h
    · cases h
    · rename_i d hd
      simp only [Option.ite_none_left_eq_some, Option.some.injEq] at h
      rw [← h.2]
      refine .of_table fun t' d' hd' => ?_
      rw [Catalog.table?_setTable]
      split
      · rename_i ht
        rw [hd', Option.map_some]
        refine ⟨_, rfl, fun name' hname => ?_⟩
        rw [ht, hd] at hd'
        cases hd'
        unfold TableDef.hasColumn TableDef.column? at hname ⊢
        obtain ⟨col, hcol⟩ := Option.isSome_iff_exists.mp hname
        rw [List.find?_append, hcol]
        rfl
      · exact ⟨d', hd', fun _ hname => hname⟩
  | createIndex i =>
    simp only [catalog] at h
    split at h
    · cases h
    · simp only [Option.ite_none_left_eq_some, Option.some.injEq] at h
      exact .of_tables (by rw [← h.2])
  | _ => cases hcreates

/-- A statement that drops adds no table and no column. -/
theorem catalog_shrinks {ch : Change T C E I} {c c' : Catalog T C E I}
    (hdrops : ch.creates = false) (h : ch.catalog c = some c') : c'.Le c := by
  cases ch with
  | dropTypeIfExists e =>
    simp only [catalog, Option.ite_none_left_eq_some, Option.some.injEq] at h
    exact .of_tables (by rw [← h.2])
  | dropTable t =>
    simp only [catalog, Option.ite_none_left_eq_some, Option.some.injEq] at h
    rw [← h.2]
    refine .of_table fun t' d' hd' => ?_
    rw [Catalog.table?_filter] at hd'
    split at hd'
    · cases hd'
    · exact ⟨d', hd', fun _ hname => hname⟩
  | dropColumn t name =>
    simp only [catalog] at h
    split at h
    · cases h
    · rename_i d hd
      simp only [Option.ite_none_left_eq_some, Option.some.injEq] at h
      rw [← h.2]
      refine .of_table fun t' d' hd' => ?_
      change (c.setTable t (d.withoutColumn name)).table? t' = some d' at hd'
      rw [Catalog.table?_setTable] at hd'
      split at hd'
      · rename_i ht
        rw [ht, hd, Option.map_some] at hd'
        cases hd'
        refine ⟨d, by rw [ht, hd], fun name' hname => ?_⟩
        unfold TableDef.hasColumn TableDef.column? TableDef.withoutColumn at hname
        unfold TableDef.hasColumn TableDef.column?
        rw [List.find?_isSome] at hname ⊢
        obtain ⟨col, hcol, heq⟩ := hname
        exact ⟨col, (List.mem_filter.mp hcol).1, heq⟩
      · exact ⟨d', hd', fun _ hname => hname⟩
  | dropIndex name =>
    simp only [catalog, Option.ite_none_right_eq_some, Option.some.injEq] at h
    exact .of_tables (by rw [← h.2])
  | _ => cases hdrops

end Change

/-! ## Databases -/

/-- A catalog and the rows of its tables: `tidy`, a table that does not exist has no rows and
    a column that does not exist reads NULL. -/
structure Database (T C E I V : Type) [DecidableEq T] [DecidableEq C] where
  catalog : Catalog T C E I
  rows : T → List (C → Option V)
  tidy : catalog.trim rows = rows

variable {V : Type} [DecidableEq V]

/-- Both rows have the same values in the columns, and no NULL. -/
def SameKey (key : List C) (a b : C → Option V) : Prop :=
  ∀ name ∈ key, a name = b name ∧ a name ≠ none

instance (key : List C) (a b : C → Option V) : Decidable (SameKey key a b) :=
  inferInstanceAs (Decidable (∀ name ∈ key, _))

/-- In every row of the table the column is NULL or refers to a row of the other table. -/
def ForeignKey.Holds (fk : ForeignKey T C) (t : T) (rows : T → List (C → Option V)) : Prop :=
  ∀ row ∈ rows t, ∀ v, row fk.column = some v →
    ∃ parent ∈ rows fk.table, parent fk.references = some v

namespace Change

/-- A unique index takes only rows that differ in its columns. -/
def RowsOk (ch : Change T C E I) (rows : T → List (C → Option V)) : Prop :=
  match ch with
  | createIndex i => i.unique = true → (rows i.table).Pairwise fun a b => ¬ SameKey i.columns a b
  | _ => True

instance (ch : Change T C E I) (rows : T → List (C → Option V)) : Decidable (ch.RowsOk rows) := by
  unfold RowsOk
  split <;> infer_instance

/-- The statement on a database: `none`, it fails. A new table is empty, a new column reads
    NULL, and what is dropped is gone. -/
def run (ch : Change T C E I) (db : Database T C E I V) : Option (Database T C E I V) :=
  if ch.RowsOk db.rows then
    (ch.catalog db.catalog).map fun c => ⟨c, c.trim db.rows, c.trim_trim (.refl c) _⟩
  else none

end Change

/-- A script in one transaction: the first statement that fails undoes the rest. -/
def runAll : List (Change T C E I) → Database T C E I V → Option (Database T C E I V)
  | [], db => some db
  | ch :: chs, db => (ch.run db).bind (runAll chs)

/-! ## Scripts that need no look at the rows -/

/-- The statement on a catalog and the tables that the script has created: a unique index is
    let through on these only. -/
def Change.check (ch : Change T C E I) (s : Catalog T C E I × List T) :
    Option (Catalog T C E I × List T) :=
  match ch with
  | createIndex i => if i.unique && !s.2.contains i.table then none
      else (ch.catalog s.1).map fun c => (c, s.2)
  | createTable t _ => (ch.catalog s.1).map fun c => (c, t :: s.2)
  | _ => (ch.catalog s.1).map fun c => (c, s.2)

def checkAll : List (Change T C E I) → Catalog T C E I × List T →
    Option (Catalog T C E I × List T)
  | [], s => some s
  | ch :: chs, s => (ch.check s).bind (checkAll chs)

section

variable {s s' : Catalog T C E I × List T} {db db' : Database T C E I V}
  {ch : Change T C E I} {chs : List (Change T C E I)}

theorem run_eq_some (h : ch.run db = some db') :
    ch.catalog db.catalog = some db'.catalog ∧ db'.rows = db'.catalog.trim db.rows := by
  unfold Change.run at h
  split at h
  · obtain ⟨c, hc, rfl⟩ := Option.map_eq_some_iff.mp h
    exact ⟨hc, rfl⟩
  · cases h

/-- The check of one statement is sound, for every database with that catalog. -/
theorem run_of_check (hcheck : ch.check s = some s') (hcatalog : db.catalog = s.1)
    (hempty : ∀ t ∈ s.2, db.rows t = []) :
    ∃ db', ch.run db = some db' ∧ db'.catalog = s'.1 ∧ ∀ t ∈ s'.2, db'.rows t = [] := by
  -- what the check requires of the catalog and of the rows, and the tables it adds
  obtain ⟨hnext, hrows, hcreated⟩ : ch.catalog s.1 = some s'.1 ∧ ch.RowsOk db.rows ∧
      ∀ t ∈ s'.2, t ∈ s.2 ∨ s.1.hasTable t = false := by
    cases ch with
    | createIndex i =>
      simp only [Change.check, Option.ite_none_left_eq_some] at hcheck
      obtain ⟨hfresh, hmap⟩ := hcheck
      obtain ⟨c, hc, rfl⟩ := Option.map_eq_some_iff.mp hmap
      refine ⟨hc, fun hunique => ?_, fun t ht => Or.inl ht⟩
      have hmem : i.table ∈ s.2 := by simpa [hunique] using hfresh
      rw [hempty i.table hmem]
      exact List.Pairwise.nil
    | createTable t d =>
      obtain ⟨c, hc, rfl⟩ := Option.map_eq_some_iff.mp hcheck
      refine ⟨hc, trivial, fun t' ht' => ?_⟩
      rcases List.mem_cons.mp ht' with rfl | ht'
      · simp only [Change.catalog, Option.ite_none_left_eq_some] at hc
        exact Or.inr (Bool.eq_false_iff.mpr fun hhas => hc.1 (by rw [hhas]; rfl))
      · exact Or.inl ht'
    | _ =>
      obtain ⟨c, hc, rfl⟩ := Option.map_eq_some_iff.mp hcheck
      exact ⟨hc, trivial, fun t ht => Or.inl ht⟩
  refine ⟨⟨s'.1, s'.1.trim db.rows, s'.1.trim_trim (.refl _) _⟩, ?_, rfl, fun t ht => ?_⟩
  · unfold Change.run
    rw [if_pos hrows, hcatalog, hnext]
    rfl
  · refine Catalog.trim_empty _ ?_
    rcases hcreated t ht with ht | ht
    · exact hempty t ht
    · rw [← db.tidy, hcatalog]
      unfold Catalog.trim
      rw [ht]
      rfl

/-- A script that passes the check runs, whatever the rows of the other tables are. -/
theorem runAll_of_check (hcheck : checkAll chs s = some s') (hcatalog : db.catalog = s.1)
    (hempty : ∀ t ∈ s.2, db.rows t = []) :
    ∃ db', runAll chs db = some db' ∧ db'.catalog = s'.1 := by
  induction chs generalizing s db with
  | nil =>
    cases hcheck
    exact ⟨db, rfl, hcatalog⟩
  | cons ch chs ih =>
    obtain ⟨mid, hmid, hrest⟩ := Option.bind_eq_some_iff.mp hcheck
    obtain ⟨db₁, hrun, hcatalog₁, hempty₁⟩ := run_of_check hmid hcatalog hempty
    obtain ⟨db', hall, hcatalog'⟩ := ih hrest hcatalog₁ hempty₁
    exact ⟨db', by rw [runAll, hrun, Option.bind_some, hall], hcatalog'⟩

/-! ## What a script leaves of the rows -/

/-- Creating changes no row. -/
theorem runAll_growing (hcreates : ∀ ch ∈ chs, ch.creates = true) (h : runAll chs db = some db') :
    db'.rows = db.rows ∧ db.catalog.Le db'.catalog := by
  induction chs generalizing db with
  | nil =>
    cases h
    exact ⟨rfl, .refl _⟩
  | cons ch chs ih =>
    obtain ⟨db₁, hrun, hrest⟩ := Option.bind_eq_some_iff.mp h
    obtain ⟨hcatalog, hrows⟩ := run_eq_some hrun
    have hle := Change.catalog_grows (hcreates ch List.mem_cons_self) hcatalog
    obtain ⟨hrows', hle'⟩ := ih (fun ch' h' => hcreates ch' (List.mem_cons_of_mem _ h')) hrest
    exact ⟨by rw [hrows', hrows, Catalog.trim_of_le hle db.tidy], hle.trans hle'⟩

/-- Dropping leaves of the rows what there are columns for at the end. -/
theorem runAll_shrinking (hdrops : ∀ ch ∈ chs, ch.creates = false)
    (h : runAll chs db = some db') :
    db'.rows = db'.catalog.trim db.rows ∧ db'.catalog.Le db.catalog := by
  induction chs generalizing db with
  | nil =>
    cases h
    exact ⟨db'.tidy.symm, .refl _⟩
  | cons ch chs ih =>
    obtain ⟨db₁, hrun, hrest⟩ := Option.bind_eq_some_iff.mp h
    obtain ⟨hcatalog, hrows⟩ := run_eq_some hrun
    have hle := Change.catalog_shrinks (hdrops ch List.mem_cons_self) hcatalog
    obtain ⟨hrows', hle'⟩ := ih (fun ch' h' => hdrops ch' (List.mem_cons_of_mem _ h')) hrest
    refine ⟨?_, hle'.trans hle⟩
    rw [hrows', hrows, Catalog.trim_trim hle']

end

end

end LinkedOut
