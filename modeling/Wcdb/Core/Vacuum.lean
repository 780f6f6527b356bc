import Mathlib.Data.Finset.Basic
import Mathlib.Data.Finset.Union
import Mathlib.Data.List.Lex
import Wcdb.Repair.Master

/-!
# The pass of a vacuum over the tables

`executeVacuum` creates and copies the tables of the original database in the order of their names.
Creating a virtual table creates its shadow tables, whose names are longer, so the pass meets them
later. It knows them by a flag alone: a virtual table sets it, and while it is set a table that
exists is passed over; the first one that does not exist resets it. Whether a table exists is asked
by `SELECT 1 FROM main.name LIMIT 1`, with the name as it is; what SQLite answers is a parameter.

`Right` says what a vacuum owes to the tables.
-/

namespace Wcdb.VacuumHandleOperator

open Repair (Name ascii MasterItem)

/-! ### The tables of the original database -/

section Tables

def sequenceTable : Name := ascii "sqlite_sequence"

structure TableInfo where
  name : Name
  sql : Name
  indexSQLs : List Name := []
  deriving DecidableEq, Repr

/-- `insert_or_assign` of a `StringViewMap`, which is in the order of `compare`: by the bytes, the
shorter one first. -/
def insertOrAssign (info : TableInfo) : List TableInfo → List TableInfo
  | [] => [info]
  | t :: ts =>
      if info.name = t.name then info :: ts
      else if info.name < t.name then info :: t :: ts
      else t :: insertOrAssign info ts

/-- What `initTables` does with one row of the master table: `m_tables` and `m_associatedSQLs`. -/
def addRow (tables : List TableInfo × List Name) (row : MasterItem) : List TableInfo × List Name :=
  if row.type = ascii "table" then
    if ¬MasterItem.isReservedTableName row.name ∨ row.name = sequenceTable then
      (insertOrAssign { name := row.name, sql := row.sql } tables.1, tables.2)
    else tables
  else if row.type = ascii "index" then
    if ¬MasterItem.isReservedTableName row.name then
      (tables.1.map fun t =>
        if t.name = row.tableName then { t with indexSQLs := t.indexSQLs ++ [row.sql] } else t,
        tables.2)
    else tables
  else (tables.1, tables.2 ++ [row.sql])

def initTables (rows : List MasterItem) : List TableInfo × List Name := rows.foldl addRow ([], [])

/-- The tables are in the order of their names. -/
def InOrder (tables : List TableInfo) : Prop := tables.Pairwise fun a b => a.name < b.name

theorem mem_insertOrAssign {info t : TableInfo} {ts : List TableInfo}
    (h : t ∈ insertOrAssign info ts) : t = info ∨ t ∈ ts := by
  induction ts with
  | nil => exact Or.inl (List.mem_singleton.mp h)
  | cons a ts ih =>
    rw [insertOrAssign] at h
    split_ifs at h with hname hlt
    · exact (List.mem_cons.mp h).imp_right (List.mem_cons_of_mem _)
    · exact List.mem_cons.mp h
    · rcases List.mem_cons.mp h with rfl | h
      · exact Or.inr List.mem_cons_self
      · exact (ih h).imp_right (List.mem_cons_of_mem _)

theorem InOrder.insertOrAssign {ts : List TableInfo} (h : InOrder ts) (info : TableInfo) :
    InOrder (insertOrAssign info ts) := by
  induction ts with
  | nil => simp [VacuumHandleOperator.insertOrAssign, InOrder]
  | cons a ts ih =>
    obtain ⟨hhead, htail⟩ := List.pairwise_cons.mp h
    rw [VacuumHandleOperator.insertOrAssign]
    split_ifs with hname hlt
    · exact List.pairwise_cons.mpr ⟨fun b hb => hname ▸ hhead b hb, htail⟩
    · refine List.pairwise_cons.mpr ⟨fun b hb => ?_, h⟩
      rcases List.mem_cons.mp hb with rfl | hb
      · exact hlt
      · exact List.lt_trans hlt (hhead b hb)
    · refine List.pairwise_cons.mpr ⟨fun b hb => ?_, ih htail⟩
      rcases mem_insertOrAssign hb with rfl | hb
      · by_contra hge
        exact hname (Std.Trichotomous.trichotomous _ _ hlt hge)
      · exact hhead b hb

theorem InOrder.addRow {tables : List TableInfo × List Name} (h : InOrder tables.1)
    (row : MasterItem) : InOrder (addRow tables row).1 := by
  have hindexed : InOrder (tables.1.map fun t =>
      if t.name = row.tableName then { t with indexSQLs := t.indexSQLs ++ [row.sql] } else t) := by
    refine List.pairwise_map.mpr (h.imp fun {a b} hlt => ?_)
    split_ifs <;> exact hlt
  rw [VacuumHandleOperator.addRow]
  split_ifs
  all_goals first | exact h | exact h.insertOrAssign _ | exact hindexed

theorem initTables_inOrder (rows : List MasterItem) : InOrder (initTables rows).1 := by
  have hfold : ∀ tables : List TableInfo × List Name, InOrder tables.1 →
      InOrder (rows.foldl addRow tables).1 := by
    induction rows with
    | nil => exact fun _ h => h
    | cons row rows ih => exact fun tables h => ih _ (h.addRow row)
  exact hfold _ List.Pairwise.nil

end Tables

/-! ### The original database -/

structure TableAttribute where
  withoutRowid : Bool := false
  isVirtual : Bool := false
  deriving DecidableEq, Repr

/-- The rows of the master table, the attributes of the tables, and with which suffixes the modules
of the virtual tables name their shadow tables. -/
structure Schema where
  rows : List MasterItem
  attributes : Name → TableAttribute
  suffixes : Name → List Name

namespace Schema

/-- `m_tables`. -/
def tables (s : Schema) : List TableInfo := (initTables s.rows).1

/-- The tables that the creation of a table creates besides it. -/
def shadows (s : Schema) (table : Name) : List Name :=
  if (s.attributes table).isVirtual then (s.suffixes table).map fun suffix => table ++ 95 :: suffix
  else []

def IsShadow (s : Schema) (table : Name) : Prop := ∃ t ∈ s.tables, table ∈ s.shadows t.name

instance (s : Schema) (table : Name) : Decidable (s.IsShadow table) :=
  inferInstanceAs (Decidable (∃ t ∈ s.tables, table ∈ s.shadows t.name))

end Schema

/-- A database that has its virtual tables: shadow tables are ordinary tables with names that are
not reserved, and each belongs to one virtual table. -/
structure Origin extends Schema where
  shadow_ordinary : ∀ table, toSchema.IsShadow table → (attributes table).isVirtual = false
  sequence_ordinary : (attributes sequenceTable).isVirtual = false
  shadow_notReserved : ∀ table, toSchema.IsShadow table → ¬MasterItem.isReservedTableName table
  shadow_owner : ∀ a ∈ toSchema.tables, ∀ b ∈ toSchema.tables, ∀ table,
    table ∈ toSchema.shadows a.name → table ∈ toSchema.shadows b.name → a.name = b.name

/-! ### The pass -/

/-- The statements that can fail for other reasons than a table that exists. -/
inductive Stage where
  | configDatabase
  | tableExists
  | getTableAttribute
  | createTable
  | copyAtOnce
  | copyInBatches
  | associatedSQLs
  deriving DecidableEq, Repr

inductive Failure where
  | alreadyExists (table : Name)
  | other
  deriving DecidableEq, Repr

/-- The tables of the new database, what was created by a statement of its own, what was copied,
and the flag. -/
structure Copying where
  main : Finset Name := ∅
  created : List Name := []
  copied : List Name := []
  needCheckShadowTable : Bool := false
  deriving DecidableEq

/-- What was done, and why it was given up. -/
abbrev Attempt := Copying × Option Failure

namespace Attempt

def andThen (r : Attempt) (next : Copying → Attempt) : Attempt :=
  match r.2 with
  | none => next r.1
  | some _ => r

@[simp]
theorem andThen_none (c : Copying) (next : Copying → Attempt) :
    andThen (c, none) next = next c := rfl

@[simp]
theorem andThen_some (c : Copying) (f : Failure) (next : Copying → Attempt) :
    andThen (c, some f) next = (c, some f) := rfl

theorem andThen_of_failed {r : Attempt} {f : Failure} (h : r.2 = some f)
    (next : Copying → Attempt) : r.andThen next = r := by
  obtain ⟨c, g⟩ := r
  obtain rfl : g = some f := h
  rfl

/-- What both parts keep. -/
theorem andThen_keeps {P : Copying → Prop} {r : Attempt} {next : Copying → Attempt} (hr : P r.1)
    (hnext : ∀ c, P c → P (next c).1) : P (andThen r next).1 := by
  obtain ⟨c, _ | f⟩ := r
  · exact hnext c hr
  · exact hr

/-- What neither part fails with. -/
theorem andThen_ne {f : Failure} {r : Attempt} {next : Copying → Attempt} (hr : r.2 ≠ some f)
    (hnext : ∀ c, (next c).2 ≠ some f) : (andThen r next).2 ≠ some f := by
  obtain ⟨c, _ | g⟩ := r
  · exact hnext c
  · exact hr

end Attempt

section Pass

variable (answers : Finset Name → Name → Bool) (works : Stage → Name → Bool) (s : Schema)

/-- A statement that leaves the tables of the new database alone. -/
def attempt (stage : Stage) (table : Name) (c : Copying) : Attempt :=
  if works stage table then (c, none) else (c, some .other)

/-- `CREATE TABLE` and its indexes; the module of a virtual table creates the shadow tables. -/
def createTable (info : TableInfo) (c : Copying) : Attempt :=
  if ∃ table ∈ info.name :: s.shadows info.name, table ∈ c.main then
    (c, some (.alreadyExists info.name))
  else (attempt works .createTable info.name c).andThen fun c =>
    ({ c with
      main := (info.name :: s.shadows info.name).toFinset ∪ c.main
      created := c.created ++ [info.name] }, none)

/-- The copying of the rows of a table that was created. -/
def copyRows (stage : Stage) (info : TableInfo) (c : Copying) : Attempt :=
  (attempt works stage info.name c).andThen fun c =>
    ({ c with copied := c.copied ++ [info.name] }, none)

def copyWithouRowidTable (info : TableInfo) (c : Copying) : Attempt :=
  (createTable works s info c).andThen (copyRows works .copyAtOnce info)

def copyNormalTable (info : TableInfo) (c : Copying) : Attempt :=
  (createTable works s info c).andThen (copyRows works .copyInBatches info)

/-- The part of the loop below the flag. -/
def copyTable (info : TableInfo) (c : Copying) : Attempt :=
  (attempt works .getTableAttribute info.name c).andThen fun c =>
    if (s.attributes info.name).withoutRowid then copyWithouRowidTable works s info c
    else
      -- The flag is set before the virtual table is created.
      copyNormalTable works s info
        (if (s.attributes info.name).isVirtual then { c with needCheckShadowTable := true } else c)

/-- The body of the loop. -/
def visit (info : TableInfo) (c : Copying) : Attempt :=
  if info.name = sequenceTable then (c, none)
  else if c.needCheckShadowTable then
    (attempt works .tableExists info.name c).andThen fun c =>
      if answers c.main info.name then (c, none)
      else copyTable works s info { c with needCheckShadowTable := false }
  else copyTable works s info c

def pass : List TableInfo → Copying → Attempt
  | [], c => (c, none)
  | info :: tables, c => (visit answers works s info c).andThen (pass tables)

def executeVacuum : Attempt :=
  ((((attempt works .configDatabase [] {}).andThen fun c =>
    match s.tables.find? fun t => t.name = sequenceTable with
    | some info => copyWithouRowidTable works s info c
    | none => (c, none)).andThen
    (pass answers works s s.tables)).andThen
    (attempt works .associatedSQLs []))

end Pass

/-- No table was found to exist already, no shadow table was created by a statement of its own, and
unless something else failed every other table was created once and copied once. -/
structure Right (s : Schema) (r : Attempt) : Prop where
  not_exists : ∀ table, r.2 ≠ some (.alreadyExists table)
  created_nodup : r.1.created.Nodup
  copied_nodup : r.1.copied.Nodup
  not_shadow : ∀ table ∈ r.1.created, ¬s.IsShadow table
  complete : r.2 = none → ∀ t ∈ s.tables, ¬s.IsShadow t.name →
    t.name ∈ r.1.created ∧ t.name ∈ r.1.copied

end Wcdb.VacuumHandleOperator
