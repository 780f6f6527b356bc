import Wcdb.Winq.Description

/-!
# The statements that copy a table

`AssembleHandleOperator::lazyPrepareCell` builds the statement that puts the rows found in a damaged
database into a new one, and `VacuumHandleOperator::copyNormalTable` those that copy a table with
rowids from the attached database `origin`. The name of the table is put between single quotes, the
names of the columns are printed as they are.

`Table` is a table that SQLite accepts: its columns differ, also when case is ignored. The texts are
read by the rules of SQLite's grammar, and `Table.resolve` is what a name of a column stands for. A
table is `Copied` when each text is read as the statement that is meant: on this table, with all its
columns in their order, and with its rowid where it has one.
-/

namespace Wcdb.CopyStatements

open SqlText Syntax

structure Table where
  name : Text
  /-- `ColumnMeta` of the columns, of which only the names are used. -/
  columns : List Text
  withoutRowid : Bool := false
  name_nul : 0 ∉ name
  columns_nul : ∀ c ∈ columns, 0 ∉ c
  columns_ne_nil : columns ≠ []
  distinct : columns.Pairwise fun a b => same a b = false

/-! ### The texts -/

/-- `StringView::formatted("'%s'", name)`. -/
def protectedTableName (name : Text) : Text := text "'" ++ name ++ text "'"

/-- `kOriginSchema`. -/
def originSchema : Text := text "origin"

/-- `VacuumBatchCount`. -/
def vacuumBatchCount : ℕ := 1000

namespace Table

variable (T : Table)

def metas : List Column := T.columns.map fun c => { name := c }

/-- The `columns` of `lazyPrepareCell`. -/
def cellColumns : List Column := (if T.withoutRowid then [] else [Column.rowid]) ++ T.metas

/-- `AssembleHandleOperator::lazyPrepareCell`, when rows that are already there are replaceable or
ignorable. -/
def lazyPrepareCell (replaceable ignorable : Bool) : Syntax.InsertSTMT where
  conflictAction :=
    if replaceable then some .replace else if ignorable then some .ignore else none
  table := protectedTableName T.name
  columns := T.cellColumns
  rows := .values [(BindParameter.bindParameters T.cellColumns.length).map .bindParameter]

/-- The table in the original database. -/
def origin : TableOrSubquery where
  schema := originSchema
  tableOrFunction := protectedTableName T.name

def selectMaxRowid : SelectSTMT where
  resultColumns := [.function (text "max") (.column Column.rowid)]
  tableOrSubqueries := [T.origin]

def selectMinRowid : SelectSTMT where
  resultColumns := [.function (text "min") (.column Column.rowid)]
  tableOrSubqueries := [T.origin]

/-- The `insert` of `VacuumHandleOperator::copyNormalTable`. -/
def copyNormalTable : Syntax.InsertSTMT :=
  let columns := Column.rowid :: T.metas
  { table := protectedTableName T.name
    columns := columns
    rows := .select
      { resultColumns := columns.map .column
        tableOrSubqueries := [T.origin]
        condition := some (.greaterOrEqual (.column Column.rowid) (.bindParameter {}))
        orderingTerms := [{ expression := .column Column.rowid, order := some .asc }]
        limit := some (.integer vacuumBatchCount) } }

end Table

/-! ### What SQLite reads -/

/-- `SQLITE_MAX_VARIABLE_NUMBER`. -/
def maxVariableNumber : ℕ := 999

/-- `SQLITE_MAX_COLUMN`. -/
def maxColumn : ℕ := 2000

/-- `INSERT`, up to the list of columns. -/
structure Target where
  conflict : Option ConflictAction
  table : Text
  columns : List Text
  deriving DecidableEq, Repr

/-- A table with its schema. -/
structure Source where
  schema : Text
  table : Text
  deriving DecidableEq, Repr

/-- `SELECT function(argument) FROM source`. -/
structure Aggregate where
  function : Text
  argument : Text
  source : Source
  deriving DecidableEq, Repr

/-- `SELECT columns FROM source WHERE lowest >= ? ORDER BY order ASC LIMIT limit`. -/
structure Batch where
  columns : List Text
  source : Source
  lowest : Text
  order : Text
  limit : ℕ
  deriving DecidableEq, Repr

/-- `orconf`. -/
def readConflict (z : Text) : Option (Option ConflictAction × Text) :=
  match keyword (text "OR") z with
  | none => some (none, z)
  | some z =>
    [.replace, .rollback, .abort, .fail, .ignore].findSome? fun action =>
      (keyword (action.description.drop 3) z).map fun rest => (some action, rest)

def readTarget (z : Text) : Option (Target × Text) := do
  let z ← keyword (text "INSERT") z
  let (conflict, z) ← readConflict z
  let z ← keyword (text "INTO") z
  let (table, z) ← name z
  let z ← mark (text "(") z
  let (columns, z) ← items name z
  let z ← mark (text ")") z
  some (⟨conflict, table, columns⟩, z)

/-- `INSERT` of one row of numbered parameters. -/
def readValues (z : Text) : Option (Target × List ℕ) := do
  let (target, z) ← readTarget z
  let z ← keyword (text "VALUES") z
  let z ← mark (text "(") z
  let (values, z) ← items parameter z
  let z ← mark (text ")") z
  let values ← values.mapM id
  -- `sqlite3ExprAssignVarNumber`, and the number of values in `sqlite3Insert`
  if ended z ∧ (∀ n ∈ values, 1 ≤ n ∧ n ≤ maxVariableNumber) ∧
      values.length = target.columns.length then
    some (target, values)
  else none

def readSource (z : Text) : Option (Source × Text) := do
  let z ← keyword (text "FROM") z
  let (schema, z) ← name z
  let z ← mark (text ".") z
  let (table, z) ← name z
  some (⟨schema, table⟩, z)

def readAggregate (z : Text) : Option Aggregate := do
  let z ← keyword (text "SELECT") z
  let (function, z) ← operand z
  let z ← mark (text "(") z
  let (argument, z) ← operand z
  let z ← mark (text ")") z
  let (source, z) ← readSource z
  if ended z then some ⟨function, argument, source⟩ else none

/-- What follows the source of a batch. -/
def readBounds (z : Text) : Option (Text × Text × ℕ) := do
  let z ← keyword (text "WHERE") z
  let (lowest, z) ← operand z
  let z ← mark (text ">=") z
  let (_, z) ← parameter z
  let z ← keyword (text "ORDER") z
  let z ← keyword (text "BY") z
  let (order, z) ← operand z
  let z ← keyword (text "ASC") z
  let z ← keyword (text "LIMIT") z
  match next z with
  | some (.integer limit, z) => if ended z then some (lowest, order, limit) else none
  | _ => none

/-- `INSERT` of the rows of a batch. -/
def readCopy (z : Text) : Option (Target × Batch) := do
  let (target, z) ← readTarget z
  let z ← keyword (text "SELECT") z
  let (columns, z) ← items operand z
  let (source, z) ← readSource z
  let (lowest, order, limit) ← readBounds z
  if columns.length ≤ maxColumn ∧ columns.length = target.columns.length then
    some (target, ⟨columns, source, lowest, order, limit⟩)
  else none

/-! ### What the names stand for -/

/-- A column of a table, or its rowid. -/
inductive Place where
  | rowid
  | column (c : Text)
  deriving DecidableEq, Repr

/-- `sqlite3IsRowid`. -/
def isRowid (n : Text) : Bool := [text "_ROWID_", text "ROWID", text "OID"].any (same n)

namespace Table

variable (T : Table)

/-- Columns come before the names of the rowid. -/
def resolve (n : Text) : Option Place :=
  match T.columns.find? (same n) with
  | some c => some (.column c)
  | none => if isRowid n && !T.withoutRowid then some .rowid else none

/-- What the copies are about: the rowid, and all columns. -/
def places : List Place := (if T.withoutRowid then [] else [.rowid]) ++ T.columns.map .column

structure AddressedBy (target : Target) : Prop where
  table : same target.table T.name = true
  columns : target.columns.map T.resolve = T.places.map some

structure ReadBy (source : Source) : Prop where
  schema : same source.schema originSchema = true
  table : same source.table T.name = true

/-- The statement for a cell is an `INSERT` of all columns from the parameters that are bound. -/
def Assembled : Prop :=
  ∀ replaceable ignorable, ∃ target,
    readValues (T.lazyPrepareCell replaceable ignorable).describle =
      some (target, (List.range T.places.length).map (· + 1)) ∧
    target.conflict = (T.lazyPrepareCell replaceable ignorable).conflictAction ∧
    T.AddressedBy target

/-- A statement asks for an extreme rowid of the table in the original database. -/
def Measured (function : Text) (s : SelectSTMT) : Prop :=
  ∃ a, readAggregate s.describle = some a ∧ same a.function function = true ∧
    T.resolve a.argument = some .rowid ∧ T.ReadBy a.source

structure Vacuumed : Prop where
  max : T.Measured (text "max") T.selectMaxRowid
  min : T.Measured (text "min") T.selectMinRowid
  copy : ∃ target batch, readCopy T.copyNormalTable.describle = some (target, batch) ∧
    target.conflict = none ∧ T.AddressedBy target ∧
    batch.columns.map T.resolve = T.places.map some ∧ T.ReadBy batch.source ∧
    T.resolve batch.lowest = some .rowid ∧ T.resolve batch.order = some .rowid ∧
    batch.limit = vacuumBatchCount

/-- All statements address the table. `copyNormalTable` is for tables with rowids. -/
def Copied : Prop := T.Assembled ∧ (T.withoutRowid = false → T.Vacuumed)

/-- The names need no quotes, apart from those that the name of the table gets. -/
structure Plain : Prop where
  name : 39 ∉ T.name
  words : ∀ c ∈ T.columns, isWord c = true ∧ isReserved c = false
  -- in the `SELECT` the columns are expressions, and no column hides the rowid
  operands : T.withoutRowid = false → ∀ c ∈ T.columns,
    isOperand c = false ∧ same c (text "rowid") = false
  count : T.places.length ≤ maxVariableNumber

end Table

end Wcdb.CopyStatements
