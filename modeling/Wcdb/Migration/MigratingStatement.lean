import Wcdb.Migration.MigrateRows
import Mathlib.Data.List.MinMax

/-!
# Statements on a table that is being migrated

`MigratingStatementDecorator` replaces a statement on the target table by several, which it runs in
one transaction:

* an **`INSERT`** is tried on the source table, the row is deleted there again by the last inserted
  rowid, and then inserted into the target table under a key that the decorator chooses;
* an **`UPDATE`** or **`DELETE`** selects keys from the unioned view and runs one statement for each
  key on the source table and one on the target table, while the select is still open;
* a **`DROP TABLE`** drops the target table and deletes the filtered rows of the source table.

The select of an `UPDATE` or `DELETE` is a cursor over the current content: it scans the target
table and then the source table, each in the order of an index, and looks for the next row that
satisfies the condition now. With `ORDER BY`, SQLite either sorts the rows of the view before it
delivers the first one, or merges the selects of the two tables; and a select whose scan has the
order already, as that of the primary key has, is not sorted but stays a scan of the current
content.
-/

namespace Wcdb

open Sql

variable {ρ κ ι : Type}

/-- A handle with a table that is being migrated. -/
structure Migrating (ρ : Type) where
  tables : Tables ρ
  /-- `Migration::markAsMigrated` was called: statements go to the target table alone. -/
  migrated : Bool := false
  lastInsertedRowID : ℤ := 0

/-! ### Insert -/

/-- The value that an `INSERT` gives the integer primary key. `other` is a key that SQLite gets and
the decorator does not record: a text or a double that is converted, or an integer that was bound
before the last `reset()`. -/
inductive PrimaryKeyValue where
  | absent
  | null
  | integer (n : ℤ)
  | other (n : ℤ)
  deriving DecidableEq, Repr

/-- The key that SQLite gets. -/
def PrimaryKeyValue.key : PrimaryKeyValue → Option ℤ
  | .integer n => some n
  | .other n => some n
  | _ => none

/-- `m_assignedPrimaryKey`. -/
def PrimaryKeyValue.assignedPrimaryKey : PrimaryKeyValue → Option ℤ
  | .integer n => some n
  | _ => none

/-- An `INSERT` of one row. -/
structure InsertSTMT (ρ : Type) where
  conflict : OnConflict ρ
  primaryKey : PrimaryKeyValue
  data : ρ
  random : Option ℤ := none

def InsertSTMT.newRow (stmt : InsertSTMT ρ) : NewRow ρ :=
  { key := stmt.primaryKey.key, data := stmt.data, random := stmt.random }

/-- `SELECT max(key) + 1`, read as an integer. Null reads as zero, and a sum that is too large is
a double, which reads as the largest integer. -/
def selectMaxID (keys : List ℤ) : ℤ :=
  match keys.max? with
  | none => 0
  | some m => min (m + 1) maxRowid

section Insert

variable (info : MigrationInfo ρ κ)

/-- The keys in the unioned view. -/
def Tables.viewKeys (s : Tables ρ) : List ℤ :=
  s.target.table.rows.map Prod.fst ++ (s.filtered info).rows.map Prod.fst

/-- `maxId`: the key under which the row is inserted into the target table. -/
def Tables.maxId (s : Tables ρ) (stmt : InsertSTMT ρ) (rowid : ℤ) : ℤ :=
  if info.integerPrimaryKey then
    match stmt.primaryKey.assignedPrimaryKey with
    | some n => n
    | none => max 1 (selectMaxID (s.viewKeys info))
  else max (max 1 rowid) (selectMaxID (s.target.table.rows.map Prod.fst))

/-- The row that is inserted into the target table. -/
def Tables.targetRow (s : Tables ρ) (stmt : InsertSTMT ρ) (rowid : ℤ) : NewRow ρ :=
  if info.autoincrement then stmt.newRow
  else { stmt.newRow with key := some (s.maxId info stmt rowid) }

variable [DecidableEq κ]

/-- `stepInsert`. -/
def stepInsert (stmt : InsertSTMT ρ) (s : Tables ρ) (lastInsertedRowID : ℤ) :
    Bool × Tables ρ × ℤ :=
  match s.source.insert info.schema info.autoincrement stmt.conflict stmt.newRow with
  | none => (false, s, lastInsertedRowID)
  | some (source, outcome, k) =>
      if outcome = .ignored then (true, { s with source }, lastInsertedRowID)
      else
        let rowid := if outcome = .inserted then k else lastInsertedRowID
        let s := { s with source := { source with table := source.table.erase rowid } }
        match s.target.insert info.schema info.autoincrement stmt.conflict
            (s.targetRow info stmt rowid) with
        | none => (false, s, rowid)
        | some (target, outcome, k) =>
            (true, { s with target }, if outcome = .inserted then k else rowid)

end Insert

/-! ### Update and delete -/

/-- How SQLite carries out the `ORDER BY` of a select from the view: it sorts all rows first, or
merges the selects of the two tables, of which it sorts the one or the other first. -/
inductive SelectPlan where
  | sort
  | merge (sortTarget sortSource : Bool)
  deriving DecidableEq, Repr

/-- Where the select of one table stands: in a scan, after a row, or in the list of sorted rows. -/
inductive Side (ρ ι : Type) where
  | scan (last : Option (ι ×ₗ ℤ))
  | sorted (rows : List (ℤ × ρ))

/-- One of the two selects of a merge: it is asked for its next row, or its next row waits to be
delivered, or it came to its end. -/
inductive Lane (ρ ι : Type) where
  | ask (side : Side ρ ι)
  | held (r : ℤ × ρ) (side : Side ρ ι)
  | done

/-- Where an open select stands. -/
inductive Cursor (ρ ι : Type) where
  /-- In a scan of the target table or of the source table, after a row, with so many rows still to
  be delivered. -/
  | scan (inSource : Bool) (last : Option (ι ×ₗ ℤ)) (left : Option ℕ)
  /-- In the list of sorted rows. -/
  | sorted (rows : List (ℤ × ρ))
  /-- Between the selects of the two tables. -/
  | merge (target source : Lane ρ ι) (left : Option ℕ)

section Select

variable [LinearOrder ι] (stmt : UpdateOrDelete ρ ι)

/-- A row lies ahead of the cursor. -/
def ahead (last : Option (ι ×ₗ ℤ)) (r : ℤ × ρ) : Bool :=
  last.all fun p => decide (p < stmt.position r)

/-- The first row of a table that lies ahead of the cursor and satisfies the condition. -/
def firstAhead (start current : Multiset (ℤ × ρ)) (last : Option (ι ×ₗ ℤ))
    (t : Table ρ) : Option (ℤ × ρ) :=
  (t.rows.filter fun r => ahead stmt last r && stmt.condition start current r).argmin stmt.position

variable (info : MigrationInfo ρ κ)

/-- The rows that the select delivers when nothing changes meanwhile. -/
def selected (s : Tables ρ) : List (ℤ × ρ) :=
  let view := s.unionedView info
  stmt.ordered (stmt.scanned view s.target.table ++ stmt.scanned view (s.filtered info))

omit [LinearOrder ι] in
theorem coe_ordered_le (rows : List (ℤ × ρ)) : (stmt.ordered rows : Multiset (ℤ × ρ)) ≤ rows := by
  have hsorted : ∀ le : ℤ × ρ → ℤ × ρ → Bool, (rows.mergeSort le).Perm rows :=
    List.mergeSort_perm rows
  rw [Multiset.coe_le]
  cases horder : stmt.orderBy <;> cases hlimit : stmt.limit <;>
    simp only [UpdateOrDelete.ordered, horder, hlimit]
  · exact List.Subperm.refl rows
  · exact (List.take_sublist _ rows).subperm
  · exact (hsorted _).subperm
  · exact (List.take_sublist _ _).subperm.trans (hsorted _).subperm

theorem scanned_subperm (content : Multiset (ℤ × ρ)) (t : Table ρ) :
    (stmt.scanned content t).Subperm t.rows :=
  (List.mergeSort_perm _ _).subperm.trans List.filter_sublist.subperm

theorem coe_selected_le (s : Tables ρ) :
    (selected stmt info s : Multiset (ℤ × ρ)) ≤ s.unionedView info :=
  (coe_ordered_le stmt _).trans
    (Multiset.coe_le.mpr ((scanned_subperm stmt _ s.target.table).append
      (scanned_subperm stmt _ (s.filtered info))))

/-- A select of one table before its first step. -/
def openSide (view : Multiset (ℤ × ρ)) (t : Table ρ) (sort : Bool) : Side ρ ι :=
  if sort then .sorted (stmt.ordered (stmt.scanned view t)) else .scan none

/-- The select before its first step. -/
def openSelect (plan : SelectPlan) (s : Tables ρ) : Cursor ρ ι :=
  match stmt.orderBy, plan with
  | none, _ => .scan false none stmt.limit
  | some _, .sort => .sorted (selected stmt info s)
  | some _, .merge sortTarget sortSource =>
      let view := s.unionedView info
      .merge (.ask (openSide stmt view s.target.table sortTarget))
        (.ask (openSide stmt view (s.filtered info) sortSource)) stmt.limit

/-- A step of the select of one table. -/
def nextOfSide (start current : Multiset (ℤ × ρ)) (t : Table ρ) :
    Side ρ ι → Option ((ℤ × ρ) × Side ρ ι)
  | .scan last =>
      (firstAhead stmt start current last t).map fun r => (r, .scan (some (stmt.position r)))
  | .sorted [] => none
  | .sorted (r :: rows) => some (r, .sorted rows)

/-- The row of a lane that is delivered next. -/
def Lane.head (start current : Multiset (ℤ × ρ)) (t : Table ρ) :
    Lane ρ ι → Option ((ℤ × ρ) × Side ρ ι)
  | .ask side => nextOfSide stmt start current t side
  | .held r side => some (r, side)
  | .done => none

omit [LinearOrder ι] in
/-- A step of a merge between the next rows of its lanes. Of two rows that are equal in the order
the one of the target table comes first. -/
def mergeNext (left : Option ℕ) :
    Option ((ℤ × ρ) × Side ρ ι) → Option ((ℤ × ρ) × Side ρ ι) → Option ((ℤ × ρ) × Cursor ρ ι)
  | none, none => none
  | some (r, side), none => some (r, .merge (.ask side) .done left)
  | none, some (r, side) => some (r, .merge .done (.ask side) left)
  | some (r, side), some (r', side') =>
      if stmt.orderBy.all fun le => le r r' then some (r, .merge (.ask side) (.held r' side') left)
      else some (r', .merge (.held r side) (.ask side') left)

/-- A step of the select: the row delivered, and the cursor after it. -/
def nextRow (start : Multiset (ℤ × ρ)) (s : Tables ρ) :
    Cursor ρ ι → Option ((ℤ × ρ) × Cursor ρ ι)
  | .sorted [] => none
  | .sorted (r :: rows) => some (r, .sorted rows)
  | .scan inSource last left =>
      let view := s.unionedView info
      let deliver := fun inSource r =>
        (r, Cursor.scan inSource (some (stmt.position r)) (left.map fun n => n - 1))
      if left = some 0 then none
      else if inSource then
        (firstAhead stmt start view last (s.filtered info)).map (deliver true)
      else
        match firstAhead stmt start view last s.target.table with
        | some r => some (deliver false r)
        | none => (firstAhead stmt start view none (s.filtered info)).map (deliver true)
  | .merge target source left =>
      let view := s.unionedView info
      if left = some 0 then none
      else
        mergeNext stmt (left.map fun n => n - 1) (target.head stmt start view s.target.table)
          (source.head stmt start view (s.filtered info))

end Select

section Write

variable [DecidableEq κ] (S : Schema ρ κ)

/-- The statement for one key on one table, with the rows it modified. Its subqueries are evaluated
again each time it is run. -/
def writeKey (action : RowAction ρ) (view : Multiset (ℤ × ρ)) (t : Table ρ) (k : ℤ) :
    Option (Table ρ × List (ℤ × ρ)) :=
  match t.find k with
  | none => some (t, [])
  | some r => (action.apply S view view t r).map fun t => (t, [r])

variable (info : MigrationInfo ρ κ)

/-- The two statements for one key. -/
def writeBoth (action : RowAction ρ) (s : Tables ρ) (k : ℤ) :
    Option (Tables ρ × List (ℤ × ρ)) := do
  let (source, hits) ← writeKey info.schema action (s.unionedView info) s.source.table k
  let s := { s with source := { s.source with table := source } }
  let (target, hits') ← writeKey info.schema action (s.unionedView info) s.target.table k
  return ({ s with target := { s.target with table := target } }, hits ++ hits')

variable [LinearOrder ι]

/-- The loop of `stepUpdateOrDelete`: the tables and the rows modified, or `some none` when a
statement fails; `none` when `fuel` does not suffice. -/
def stepLoop (stmt : UpdateOrDelete ρ ι) (start : Multiset (ℤ × ρ)) :
    ℕ → Tables ρ → Cursor ρ ι → Option (Option (Tables ρ × List (ℤ × ρ)))
  | 0, _, _ => none
  | fuel + 1, s, cursor =>
      match nextRow stmt info start s cursor with
      | none => some (some (s, []))
      | some (r, cursor) =>
          match writeBoth info stmt.action s r.1 with
          | none => some none
          | some (s, hits) =>
              (stepLoop stmt start fuel s cursor).map fun out =>
                out.map fun (s, trace) => (s, hits ++ trace)

/-- `stepUpdateOrDelete`. -/
def stepUpdateOrDelete (stmt : UpdateOrDelete ρ ι) (plan : SelectPlan) (fuel : ℕ) (s : Tables ρ) :
    Option (Option (Tables ρ × List (ℤ × ρ))) :=
  stepLoop info stmt (s.unionedView info) fuel s (openSelect stmt info plan s)

end Write

/-! ### Steps -/

/-- What happens to a table that is being migrated. -/
inductive MigratingAction (ρ ι : Type) where
  | insert (stmt : InsertSTMT ρ)
  | updateOrDelete (stmt : UpdateOrDelete ρ ι) (plan : SelectPlan) (fuel : ℕ)
  | dropTable
  | migrateRows (e : CallEvents)

section Step

variable [DecidableEq κ] [LinearOrder ι] (info : MigrationInfo ρ κ)

/-- `DROP TABLE` of the target table. -/
def Tables.dropTable (s : Tables ρ) : Tables ρ where
  target := { table := .empty }
  source := { s.source with table := s.source.table.filter fun r => !info.filterCondition r }

/-- A statement or a call of `migrateRows`, with its success; `none` when a statement does not come
to an end. A statement that fails is rolled back. -/
def Migrating.step (s : Migrating ρ) : MigratingAction ρ ι → Option (Bool × Migrating ρ)
  | .insert stmt =>
      if s.migrated then
        match s.tables.target.insert info.schema info.autoincrement stmt.conflict stmt.newRow with
        | none => some (false, s)
        | some (target, outcome, k) =>
            some (true, { s with
              tables := { s.tables with target }
              lastInsertedRowID := if outcome = .inserted then k else s.lastInsertedRowID })
      else
        let (ok, tables, lastInsertedRowID) := stepInsert info stmt s.tables s.lastInsertedRowID
        some (ok, { s with tables := if ok then tables else s.tables, lastInsertedRowID })
  | .updateOrDelete stmt plan fuel =>
      if s.migrated then
        match info.schema.updateOrDelete stmt s.tables.target.table with
        | none => some (false, s)
        | some t =>
            some (true, { s with
              tables := { s.tables with target := { s.tables.target with table := t } } })
      else
        (stepUpdateOrDelete info stmt plan fuel s.tables).map fun out =>
          match out with
          | none => (false, s)
          | some (tables, _) => (true, { s with tables })
  | .dropTable =>
      if s.migrated then
        some (true, { s with tables := { s.tables with target := { table := .empty } } })
      else some (true, { s with tables := s.tables.dropTable info })
  | .migrateRows e =>
      if s.migrated then some (true, s)
      else
        let (migrated, tables) := Wcdb.migrateRows info e s.tables
        some (migrated.isSome, { s with tables, migrated := migrated = some true })

end Step

end Wcdb
