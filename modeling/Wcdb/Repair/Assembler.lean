import Wcdb.Lib.Sql
import Wcdb.Repair.Master

/-!
# The assembler of a restored database

`AssembleHandleOperator` writes what the crawlers find into the database under restoration. One
assembler serves **all** source databases. Whether a row may replace another one, or may be left
out for it, is decided by two flags: `m_duplicatedIgnorable`, set for each database, and
`m_duplicatedReplaceable`, set for each page. The INSERT takes them in when it is prepared, and it
is finalized when the second one changes, but not when the first does.

`Restored` is what SQLite keeps: the schema, the rows, `sqlite_sequence`, and the triggers that the
sources brought along. Tables go by their names in lower case, as SQLite finds them in any case; the
rows of `sqlite_sequence` go by the name as it is spelled. What a row is, and what the text of a
statement of the schema means to SQLite, are parameters. Transactions are not modelled: every commit
succeeds.
-/

namespace Wcdb.Repair

open Sql

variable {ρ κ : Type}

/-- The name by which SQLite finds a table. -/
def fold (name : Name) : Name := name.map caseInsensitiveEqual.lower

/-- What a CREATE TABLE statement declares. The rows of a table without rowids are not kept track
of. -/
structure TableSchema (ρ κ : Type) where
  name : Name
  constraints : Schema ρ κ
  autoincrement : Bool := false
  withoutRowid : Bool := false

/-- The rows of the tables, and the rows of `sqlite_sequence`. -/
structure Contents (ρ : Type) where
  rows : Name → Table ρ
  sequence : Name → Option ℤ

/-- A trigger that runs after an insertion into a table. -/
structure Trigger (ρ : Type) where
  table : Name
  body : ℤ × ρ → Contents ρ → Contents ρ

/-- A statement of the schema, as SQLite takes its text. -/
inductive Definition (ρ κ : Type) where
  | table (schema : TableSchema ρ κ)
  | uniqueIndex (table : Name) (index : ρ → Option κ)
  | trigger (trigger : Trigger ρ)
  | other

structure Restored (ρ κ : Type) where
  schema : Name → Option (TableSchema ρ κ)
  contents : Contents ρ
  triggers : List (Trigger ρ)

/-- A file with nothing in it. -/
def Restored.empty : Restored ρ κ := ⟨fun _ => none, ⟨fun _ => Table.empty, fun _ => none⟩, []⟩

namespace Contents

variable (c : Contents ρ)

def setRows (table : Name) (rows : Table ρ) : Contents ρ :=
  { c with rows := fun other => if other = table then rows else c.rows other }

def setSequence (name : Name) (value : ℤ) : Contents ρ :=
  { c with sequence := fun other => if other = name then some value else c.sequence other }

/-- AUTOINCREMENT never lowers the counter of its table. -/
def raiseSequence (schema : TableSchema ρ κ) (rowid : ℤ) : Contents ρ :=
  if schema.autoincrement then
    c.setSequence schema.name (max ((c.sequence schema.name).getD 0) rowid)
  else c

end Contents

namespace Restored

variable [DecidableEq κ] (db : Restored ρ κ)

/-- A unique index can be created when no two rows agree in it. -/
def admits (index : ρ → Option κ) (t : Table ρ) : Bool :=
  t.rows.all fun a => t.rows.all fun b => a.1 = b.1 ∨ !sameIndex index a.2 b.2

def setSchema (table : Name) (schema : TableSchema ρ κ) : Restored ρ κ :=
  { db with schema := fun other => if other = table then some schema else db.schema other }

/-- `executeSQL`. A statement that fails has no effect. A table that exists already is the usual
case, and its error is ignored. -/
def execute : Definition ρ κ → Restored ρ κ
  | .table schema =>
    match db.schema (fold schema.name) with
    | none => { db.setSchema (fold schema.name) schema with
        contents := db.contents.setRows (fold schema.name) Table.empty }
    | some _ => db
  | .uniqueIndex table index =>
    match db.schema (fold table) with
    | none => db
    | some schema =>
      if admits index (db.contents.rows (fold table)) then
        let constraints :=
          { schema.constraints with uniques := schema.constraints.uniques ++ [index] }
        db.setSchema (fold table) { schema with constraints := constraints }
      else db
  | .trigger trigger => { db with triggers := db.triggers ++ [trigger] }
  | .other => db

/-- The triggers of a table, one after the other. -/
def fire (table : Name) (row : ℤ × ρ) (contents : Contents ρ) : Contents ρ :=
  (db.triggers.filter fun trigger => fold trigger.table = table).foldl
    (fun contents trigger => trigger.body row contents) contents

/-- The contents after an INSERT of a row with its rowid, before the triggers run; `none` when it
violates a constraint. A row that is ignored raises the counter like one that is inserted. -/
def store (mode : OnConflict ρ) (table : Name) (schema : TableSchema ρ κ) (row : ℤ × ρ) :
    Option (Contents ρ × Outcome) :=
  if schema.withoutRowid then some (db.contents, .inserted)
  else
    match schema.constraints.insertRow mode (db.contents.rows table) row with
    | none => none
    | some (rows, outcome) =>
      some ((db.contents.setRows table rows).raiseSequence schema row.1, outcome)

/-- The contents once the triggers have run. A row that is ignored sets off none. -/
def settle (table : Name) (row : ℤ × ρ) (contents : Contents ρ) (outcome : Outcome) :
    Restored ρ κ :=
  { db with contents :=
      if outcome = .inserted then db.fire table row contents else contents }

end Restored

/-- How serious an error is to a `Repairman`. An error of the level Notice is none. -/
inductive Severity where
  | none
  | normal
  | critical
  deriving DecidableEq, Repr

namespace Severity

/-- `tryUpgradeError`. -/
def upgrade : Severity → Severity → Severity
  | critical, _ | _, critical => critical
  | normal, _ | _, normal => normal
  | none, none => none

end Severity

/-- What came of a call. The error of a constraint is a notice. -/
inductive Result where
  | done
  | constraint
  | failed (severity : Severity)
  deriving DecidableEq, Repr

/-- The conflict clause of the INSERT. -/
inductive DuplicateMode where
  | abort
  | ignore
  | replace
  deriving DecidableEq, Repr

def DuplicateMode.onConflict : DuplicateMode → OnConflict ρ
  | abort => .abort
  | ignore => .ignore
  | replace => .replace

/-- `AssembleHandleOperator` and the database it writes to. `cellStatement` is the conflict clause
of the INSERT while that is prepared. -/
structure Assembler (ρ κ : Type) where
  db : Restored ρ κ
  duplicatedIgnorable : Bool := false
  duplicatedReplaceable : Bool := false
  table : Name := []
  withoutRowid : Bool := false
  cellStatement : Option DuplicateMode := none

namespace Assembler

variable [DecidableEq κ] (parse : Name → Definition ρ κ) (a : Assembler ρ κ)

def markDuplicatedAsIgnorable (ignorable : Bool) : Assembler ρ κ :=
  { a with duplicatedIgnorable := ignorable }

def markDuplicatedAsReplaceable (replaceable : Bool) : Assembler ρ κ :=
  { a with
    cellStatement := if a.duplicatedReplaceable ≠ replaceable then none else a.cellStatement
    duplicatedReplaceable := replaceable }

def markAsAssembled : Assembler ρ κ := { a with table := [], cellStatement := none }

def assembleSQL (sql : Name) : Assembler ρ κ := { a with db := a.db.execute (parse sql) }

/-- A table that is not there even now leaves `m_withoutRowid` as it was. -/
def assembleTable (tableName sql : Name) : Assembler ρ κ :=
  let db := a.db.execute (parse sql)
  { a with
    db := db
    table := tableName
    withoutRowid := ((db.schema (fold tableName)).map TableSchema.withoutRowid).getD a.withoutRowid
    cellStatement := none }

/-- The conflict clause of the INSERT for the next cell. -/
def mode : DuplicateMode :=
  a.cellStatement.getD <|
    if a.duplicatedReplaceable then .replace else if a.duplicatedIgnorable then .ignore else .abort

/-- The row of a cell goes into the table at work. -/
def assembleCell (row : ℤ × ρ) : Result × Assembler ρ κ :=
  let table := fold a.table
  match a.db.schema table with
  | none => (.failed .normal, a)
  | some schema =>
    let prepared := { a with cellStatement := some a.mode }
    match a.db.store a.mode.onConflict table schema row with
    | none => (.constraint, prepared)
    | some (contents, outcome) =>
      (.done, { prepared with db := a.db.settle table row contents outcome })

/-- `updateSequence`, and `insertSequence` when there was no row. -/
def assembleSequence (tableName : Name) (sequence : ℤ) : Assembler ρ κ :=
  { a with db := { a.db with contents := a.db.contents.setSequence tableName sequence } }

end Assembler

end Wcdb.Repair
