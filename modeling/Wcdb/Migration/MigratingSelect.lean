import Wcdb.Winq.NameResolution

/-!
# Reading migrating tables

`MigratingStatementDecorator::process` lets a SELECT read the unioned view of a migrating table: it
replaces **every** pair of a schema and a table that stands for the migrating table, in `FROM`
clauses, in `IN` and in front of column names. It does not ask what the names mean: an alias or a
common table with the name of a migrating table is replaced too.

What a statement reads is the tree of its resolved names, `meaningVisitor`: the statement is
evaluated in a database in which a migrating table holds the rows of its unioned view. This file has
the condition under which it means the same after `process`, `Faithful`, and follows a single name
through its name contexts, in `resolve_iff` and `resolve_wildcard`.
-/

namespace Wcdb

open Winq

/-- `getUnionedView`. -/
def unionedView (table : String) : String := "wcdb_union_" ++ table

/-- The last column of a view, after those of the table: `rowid`, unless the table has a column of
that name. Then SQLite makes another name of it. -/
structure IsViewRowid (columns : List String) (rowid : String) : Prop where
  fresh : columns.any (same rowid) = false
  name : if columns.any (same "rowid") then isRowid rowid = false else rowid = "rowid"

/-- A database with the migrating tables and their unioned views, as `rebindViews` creates them: a
view has the columns of the table, which has rowids, and one for the rowid. -/
structure UnionedCatalog extends Catalog where
  migrating : List String
  migrating_ne : ∀ m ∈ migrating, m ≠ ""
  view : ∀ m ∈ migrating, ∃ base, locate "temp" (unionedView m) = some base ∧
    base.schema = "temp" ∧ base.stored = false ∧
    ∀ schema table, locate schema m = some table → table.schema = "main" →
      table.stored = true ∧ ∃ rowid, IsViewRowid table.columns rowid ∧
        ∀ name, base.columns.any (same name) = (table.columns.any (same name) || same name rowid)

namespace UnionedCatalog

variable (db : UnionedCatalog)

/-! ### The code -/

/-- What `bindTable` finds a migration for. -/
def binds (schema table : String) : Bool := isMain schema && db.migrating.any (· = table)

/-- `tryFallbackToUnionedView`. -/
def tryFallbackToUnionedView (schema table : String) : String × String :=
  if db.binds schema table then ("temp", unionedView table) else (schema, table)

/-- A column with its schema and table replaced. -/
def fallbackColumn (c : ColumnName) : ColumnName :=
  { c with
    schema := (db.tryFallbackToUnionedView c.schema c.table).1
    table := (db.tryFallbackToUnionedView c.schema c.table).2 }

/-- A table, also that of `IN`. -/
def fallbackTable (t : TableName) : TableName :=
  { t with
    schema := (db.tryFallbackToUnionedView t.schema t.table).1
    table := (db.tryFallbackToUnionedView t.schema t.table).2 }

/-- The iterator of `process`. -/
def fallbackVisitor : Visitor Unit ColumnName TableName ColumnName TableName where
  column _ c := db.fallbackColumn c
  table _ t := db.fallbackTable t
  inTable _ t := db.fallbackTable t

/-- `process`, for a SELECT. The bind parameters must be numeric and numbered. -/
def process (statement : Select) : Option Select :=
  if statement.allParameters fun questionSign n => questionSign && decide (0 < n) then
    some (db.fallbackVisitor.visit () statement)
  else none

end UnionedCatalog

/-! ### What a statement reads -/

/-- The rows that a table stands for. -/
inductive TableMeaning where
  /-- A table of the `WITH` clause at this depth. -/
  | common (depth : ℕ) (name : String)
  | base (schema name : String)
  /-- There is no such table, or no index of it. -/
  | unknown (schema name : String)
  deriving DecidableEq, Repr

def TableMeaning.name : TableMeaning → String
  | .common _ name | .base _ name | .unknown _ name => name

/-- The rows that a table stands for. An index of a view does not exist. -/
def tableMeaning (catalog : Catalog) (withs : List With) (t : TableName) : TableMeaning :=
  let depth := withs.findIdx? fun w => w.any fun e => same e.1 t.table
  match if t.schema = "" then depth else none with
  | some depth => .common depth t.table.toLower
  | none =>
      match catalog.locate t.schema t.table with
      | some base =>
          if t.indexed && !base.stored then .unknown t.schema t.table.toLower
          else .base base.schema t.table.toLower
      | none => .unknown t.schema t.table.toLower

/-- The statement that SQLite evaluates: what each column and each table of it is. `IN` needs the
columns of its table. -/
def resolveVisitor (catalog : Catalog) :
    Visitor Context ColumnName TableName Resolution (TableMeaning × List String) :=
  catalog.visitor (fun s c => s.resolve c)
    (fun s t => (tableMeaning catalog s.withs t, []))
    (fun s t => (tableMeaning catalog s.withs t, (tableSource catalog s.withs t).columns))
    (fun _ _ asName => asName)

namespace UnionedCatalog

variable (db : UnionedCatalog)

/-- The entry is a migrating table. -/
def isMigrating (e : Source) : Bool :=
  e.schema = some "main" && db.migrating.any fun m => same m e.table

/-- The table is a migrating one. -/
def meansMigrating (withs : List With) (t : TableName) : Bool :=
  db.isMigrating (tableSource db.toCatalog withs t)

/-- What is found in a name context, if the migrating tables hold the rows of their views: the rowid
of a migrating table is that column of its view. A table with a column `rowid` has no other. -/
def scopeMeaning (scope : Scope) : Resolution → Resolution
  | .rowid level index stored =>
      if (scope.sources[index]?).any fun e => db.isMigrating e && !e.hasColumn "rowid" then
        .column level index "rowid"
      else .rowid level index stored
  | resolution => resolution

/-- What is found in the name contexts, if the migrating tables hold the rows of their views. -/
def foundMeaning (s : Context) (resolution : Resolution) : Resolution :=
  match resolution.level.bind fun level => s.scopes[level]? with
  | some scope => db.scopeMeaning scope resolution
  | none => resolution

/-- What a name means, if the migrating tables hold the rows of their views. -/
def columnMeaning (s : Context) (c : ColumnName) : Resolution := db.foundMeaning s (s.resolve c)

/-- What a table means, if the migrating tables hold the rows of their views. -/
def migratingMeaning (withs : List With) (t : TableName) : TableMeaning :=
  if db.meansMigrating withs t then .base "temp" (unionedView t.table).toLower
  else tableMeaning db.toCatalog withs t

/-- The statement, evaluated where the migrating tables hold the rows of their views. -/
def meaningVisitor :
    Visitor Context ColumnName TableName Resolution (TableMeaning × List String) :=
  db.toCatalog.visitor db.columnMeaning
    (fun s t => (db.migratingMeaning s.withs t, []))
    (fun s t =>
      (db.migratingMeaning s.withs t, (tableSource db.toCatalog s.withs t).columns))
    (fun _ _ asName => asName)

/-! ### Statements that mean the same after `process` -/

/-- A table that is replaced is the migrating one, and the migrating one is replaced. It has no
index. -/
structure FaithfulTable (withs : List With) (t : TableName) : Prop where
  binds : db.binds t.schema t.table = db.meansMigrating withs t
  indexed : db.meansMigrating withs t = true → t.indexed = false

/-- The columns of the entry that a name with this qualifier may mean where the views are read: a
qualifier that is spelled like a migrating table is the name of its view in `temp`, and a migrating
table without alias is called like its view. -/
def called (c : ColumnName) (e : Source) : Bool :=
  c.table = "" ||
    if db.binds c.schema c.table then
      if db.isMigrating e && e.asName = "" then same c.table e.table
      else (db.isMigrating e || e.schema.any (same "temp")) && same (unionedView c.table) e.visible
    else if db.isMigrating e then
      (c.schema = "" || same c.schema "temp") &&
        same c.table (if e.asName = "" then unionedView e.table else e.asName)
    else e.matches c

/-- The columns of an entry where the views are read. -/
def columnsOf (e : Source) : List String :=
  if db.isMigrating e then (db.locate "temp" (unionedView e.table)).elim [] Base.columns
  else e.columns

/-- Where a name is found in a name context where the views are read. -/
def viewPlace (scope : Scope) (c : ColumnName) : Place :=
  placeOf c.name (db.called c) (fun e => (db.columnsOf e).any (same c.name)) scope.sources

/-- A name in one name context: it is found at the same entry, or at none, like before. The rowid of
a migrating table is called `rowid`, like the column of its view. -/
def FaithfulName (scope : Scope) (c : ColumnName) : Prop :=
  match placeOf c.name (·.matches c) (·.hasColumn c.name) scope.sources with
  | .rowid index =>
      if (scope.sources[index]?).any db.isMigrating then
        same c.name "rowid" = true ∧ db.viewPlace scope c = .column index
      else db.viewPlace scope c = .rowid index
  | place => db.viewPlace scope c = place

/-- A name in the name contexts up to the one in which it is found. -/
def FaithfulScopes (c : ColumnName) : ℕ → List Scope → Prop
  | _, [] => True
  | level, scope :: scopes =>
      db.FaithfulName scope c ∧ (scope.lookup level c = none → FaithfulScopes c (level + 1) scopes)

/-- A name of a column. In `ORDER BY` an alias of a result column comes first. -/
def FaithfulColumn (s : Context) (c : ColumnName) : Prop :=
  (s.isTerm = true ∧ ∃ scope, s.current = some scope ∧ (scope.asName 0 c).isSome = true) ∨
    db.FaithfulScopes c 0 s.scopes

/-- A wildcard stands for the columns of the same entries, and of no migrating table. -/
def FaithfulWildcard (s : Context) (c : ColumnName) : Prop :=
  ∀ scope, s.scopes.head? = some scope → ∀ e ∈ scope.sources,
    db.called c e = e.matches c ∧ (e.matches c = true → db.isMigrating e = false)

/-- The condition at one identifier. `IN` does not read a migrating table. -/
def FaithfulAt (s : Context) : Select → Prop
  | .column c => if c.name = "*" then db.FaithfulWildcard s c else db.FaithfulColumn s c
  | .table t => db.FaithfulTable s.withs t
  | .inTable _ t => db.FaithfulTable s.withs t ∧ db.meansMigrating s.withs t = false
  | _ => True

/-- The condition holds in a whole statement. -/
def Faithful (statement : Select) : Prop := db.meaningVisitor.Holds db.FaithfulAt {} statement

end UnionedCatalog

/-! ### The names of the views -/

theorem toLower_unionedView (table : String) :
    (unionedView table).toLower = "wcdb_union_" ++ table.toLower := by
  apply String.toList_inj.mp
  have hmap (s : String) : s.toLower.toList = s.toList.map Char.toLower := String.toList_map
  rw [hmap, unionedView, String.toList_append, String.toList_append, hmap, List.map_append]
  rfl

theorem same_unionedView {a b : String} :
    same (unionedView a) (unionedView b) = same a b := by
  rw [Bool.eq_iff_iff, same_iff, same_iff, toLower_unionedView, toLower_unionedView]
  constructor
  · intro h
    have hlist := congrArg String.toList h
    rw [String.toList_append, String.toList_append] at hlist
    exact String.toList_inj.mp (List.append_cancel_left hlist)
  · exact congrArg _

theorem toLower_unionedView_ne (table : String) : (unionedView table).toLower ≠ table.toLower := by
  intro h
  have hlength := congrArg String.length (toLower_unionedView table ▸ h)
  simp at hlength

theorem unionedView_ne (table : String) : unionedView table ≠ "" := by
  intro h
  have hlist := congrArg String.toList h
  rw [unionedView, String.toList_append] at hlist
  simp at hlist

namespace UnionedCatalog

variable {db : UnionedCatalog}

theorem binds_iff {schema table : String} :
    db.binds schema table = true ↔ isMain schema = true ∧ table ∈ db.migrating := by
  simp [binds]

theorem fallbackColumn_of_binds {c : ColumnName} (h : db.binds c.schema c.table = true) :
    db.fallbackColumn c = { schema := "temp", table := unionedView c.table, name := c.name } := by
  simp [fallbackColumn, tryFallbackToUnionedView, h]

theorem fallbackColumn_of_not_binds {c : ColumnName} (h : db.binds c.schema c.table = false) :
    db.fallbackColumn c = c := by
  simp [fallbackColumn, tryFallbackToUnionedView, h]

@[simp]
theorem fallbackColumn_name (c : ColumnName) : (db.fallbackColumn c).name = c.name := rfl

theorem fallbackColumn_table {c : ColumnName} :
    (db.fallbackColumn c).table = "" ↔ c.table = "" := by
  cases h : db.binds c.schema c.table with
  | false => rw [fallbackColumn_of_not_binds h]
  | true =>
    have htable := db.migrating_ne _ (binds_iff.mp h).2
    rw [fallbackColumn_of_binds h]
    exact iff_of_false (unionedView_ne _) htable

theorem fallbackTable_of_binds {t : TableName} (h : db.binds t.schema t.table = true) :
    db.fallbackTable t = { t with schema := "temp", table := unionedView t.table } := by
  simp [fallbackTable, tryFallbackToUnionedView, h]

theorem fallbackTable_of_not_binds {t : TableName} (h : db.binds t.schema t.table = false) :
    db.fallbackTable t = t := by
  simp [fallbackTable, tryFallbackToUnionedView, h]

/-! ### The tables -/

theorem isMigrating_congr {e e' : Source} (h : e.shape = e'.shape) :
    db.isMigrating e = db.isMigrating e' := by
  simp only [Source.shape, Prod.mk.injEq] at h
  simp only [isMigrating, h]

theorem isMigrating_iff {e : Source} : db.isMigrating e = true ↔
    e.schema = some "main" ∧ ∃ m ∈ db.migrating, same m e.table = true := by
  simp [isMigrating]

/-- Where a migrating table is found. -/
theorem exists_locate_of_meansMigrating {withs : List With} {t : TableName}
    (h : db.meansMigrating withs t = true) :
    ∃ table, db.locate t.schema t.table = some table ∧ table.schema = "main" ∧
      tableSource db.toCatalog withs t =
        ⟨t.asName, t.table, some "main", table.columns, table.stored, true⟩ := by
  obtain ⟨hschema, -⟩ := isMigrating_iff.mp h
  rw [tableSource] at hschema ⊢
  split at hschema
  next => cases hschema
  next =>
    split at hschema
    next table htable =>
      have hmain : table.schema = "main" := Option.some.inj hschema
      exact ⟨table, htable, hmain, by rw [hmain]⟩
    next => cases hschema

theorem tableMeaning_name (catalog : Catalog) (withs : List With) (t : TableName) :
    (tableMeaning catalog withs t).name = t.table.toLower := by
  rw [tableMeaning]
  split
  · rfl
  · split
    · split_ifs <;> rfl
    · rfl

theorem tableMeaning_congr (catalog : Catalog) {withs withs' : List With}
    (h : SameWith withs withs') (t : TableName) :
    tableMeaning catalog withs t = tableMeaning catalog withs' t := by
  have hfind (withs : List With) : (withs.findIdx? fun w => w.any fun e => same e.1 t.table) =
      (withs.map (List.map Prod.fst)).findIdx? fun names => names.any (same · t.table) := by
    rw [List.findIdx?_map]
    simp [Function.comp_def, List.any_map]
  rw [tableMeaning, tableMeaning, hfind, hfind, h]

/-- **A table means the same** after `process` just if it is faithful. -/
theorem tableMeaning_fallbackTable {withs withs' : List With} (hw : SameWith withs withs')
    {t : TableName} : db.migratingMeaning withs t =
      tableMeaning db.toCatalog withs' (db.fallbackTable t) ↔ db.FaithfulTable withs t := by
  rw [migratingMeaning]
  cases hmeans : db.meansMigrating withs t <;> cases hbinds : db.binds t.schema t.table
  · rw [fallbackTable_of_not_binds hbinds, if_neg Bool.false_ne_true, tableMeaning_congr _ hw]
    exact iff_of_true rfl ⟨hbinds.trans hmeans.symm, fun h => by rw [hmeans] at h; cases h⟩
  · -- only one of the two names is that of the view
    refine iff_of_false (fun h => ?_) fun h => by simpa [hmeans, hbinds] using h.binds
    have hname := congrArg TableMeaning.name h
    rw [if_neg Bool.false_ne_true, tableMeaning_name, tableMeaning_name,
      fallbackTable_of_binds hbinds] at hname
    exact toLower_unionedView_ne _ hname.symm
  · refine iff_of_false (fun h => ?_) fun h => by simpa [hmeans, hbinds] using h.binds
    have hname := congrArg TableMeaning.name h
    rw [if_pos rfl, tableMeaning_name, fallbackTable_of_not_binds hbinds] at hname
    exact toLower_unionedView_ne _ hname
  · obtain ⟨view, hview, hschema, hstored, -⟩ := db.view _ (binds_iff.mp hbinds).2
    rw [fallbackTable_of_binds hbinds, if_pos rfl, tableMeaning]
    cases hindexed : t.indexed with
    | false =>
      refine iff_of_true ?_ ⟨hbinds.trans hmeans.symm, fun _ => hindexed⟩
      simp [hview, hschema]
    | true =>
      refine iff_of_false ?_ fun h => by simpa [hindexed] using h.indexed hmeans
      simp [hview, hstored]

variable (db) in
/-- The entry of a table after `process`. -/
def rewritten (e : Source) : Source :=
  if db.isMigrating e then
    { asName := e.asName
      table := unionedView e.table
      schema := some "temp"
      columns := (db.locate "temp" (unionedView e.table)).elim [] Base.columns
      stored := false
      visibleRowid := true }
  else e

theorem rewritten_of_not {e : Source} (h : db.isMigrating e = false) : db.rewritten e = e := by
  rw [rewritten, h, if_neg Bool.false_ne_true]

theorem columns_rewritten (e : Source) : (db.rewritten e).columns = db.columnsOf e := by
  rw [rewritten, columnsOf]
  split_ifs <;> rfl

/-- The entry of a table that is replaced. -/
theorem tableSource_fallbackTable {withs : List With} {t : TableName}
    (h : db.binds t.schema t.table = db.meansMigrating withs t) :
    tableSource db.toCatalog withs (db.fallbackTable t) =
      db.rewritten (tableSource db.toCatalog withs t) := by
  cases hbinds : db.binds t.schema t.table with
  | false =>
    rw [fallbackTable_of_not_binds hbinds, rewritten_of_not]
    rw [← hbinds, h, meansMigrating]
  | true =>
    have hmeans : db.meansMigrating withs t = true := h ▸ hbinds
    obtain ⟨view, hview, hschema, hstored, -⟩ := db.view _ (binds_iff.mp hbinds).2
    obtain ⟨table, -, -, hsource⟩ := exists_locate_of_meansMigrating hmeans
    have hmigrating : db.isMigrating (tableSource db.toCatalog withs t) = true := hmeans
    rw [rewritten, if_pos hmigrating, fallbackTable_of_binds hbinds, hsource]
    simp [tableSource, hview, hschema, hstored]

/-- What is known of the entry of a migrating table. -/
structure Genuine (db : UnionedCatalog) (e : Source) : Prop where
  stored : e.stored = true
  visibleRowid : e.visibleRowid = true
  rowid : ∃ rowid, IsViewRowid e.columns rowid ∧
    ∀ name, (db.columnsOf e).any (same name) = (e.hasColumn name || same name rowid)

/-- A migrating table is as its view says. -/
theorem genuine_tableSource {withs : List With} {t : TableName}
    (h : db.binds t.schema t.table = db.meansMigrating withs t)
    (hmeans : db.meansMigrating withs t = true) :
    db.Genuine (tableSource db.toCatalog withs t) := by
  have hbinds : db.binds t.schema t.table = true := h.trans hmeans
  obtain ⟨view, hview, -, -, hcolumns⟩ := db.view _ (binds_iff.mp hbinds).2
  obtain ⟨table, htable, hmain, hsource⟩ := exists_locate_of_meansMigrating hmeans
  obtain ⟨hstored, rowid, hrowid, hsame⟩ := hcolumns _ _ htable hmain
  have hmigrating : db.isMigrating (tableSource db.toCatalog withs t) = true := hmeans
  rw [hsource] at hmigrating ⊢
  refine ⟨hstored, rfl, rowid, hrowid, fun name => ?_⟩
  rw [columnsOf, if_pos hmigrating, hview]
  exact hsame name

/-- The view has one column more. -/
theorem Genuine.columnsOf_ne {e : Source} (h : db.Genuine e) : db.columnsOf e ≠ e.columns := by
  obtain ⟨rowid, hrowid, hcolumns⟩ := h.rowid
  intro heq
  have hhas := hcolumns rowid
  rw [heq, Source.hasColumn, hrowid.fresh, same_refl] at hhas
  cases hhas

/-! ### One name context -/

/-- The qualifier, replaced, means the entry of the view. -/
theorem matches_fallbackColumn (c : ColumnName) (e : Source) :
    (db.rewritten e).matches (db.fallbackColumn c) = db.called c e := by
  rw [called]
  by_cases htable : c.table = ""
  · simp [Source.matches, htable, fallbackColumn_table.mpr htable]
  have hne : (db.fallbackColumn c).table ≠ "" := fun h => htable (fallbackColumn_table.mp h)
  rw [Source.matches, decide_eq_false hne, decide_eq_false htable, Bool.false_or, Bool.false_or]
  cases hbinds : db.binds c.schema c.table <;> cases hmigrating : db.isMigrating e
  · rw [fallbackColumn_of_not_binds hbinds, rewritten_of_not hmigrating, Source.matches]
    simp [htable]
  · rw [fallbackColumn_of_not_binds hbinds, rewritten, if_pos hmigrating]
    simp [Source.visible]
  · rw [fallbackColumn_of_binds hbinds, rewritten_of_not hmigrating]
    simp
  · rw [fallbackColumn_of_binds hbinds, rewritten, if_pos hmigrating]
    by_cases hname : e.asName = "" <;> simp [Source.visible, hname, same_unionedView]

variable (db) in
/-- A name context after `process`. -/
def rewrittenScope (scope : Scope) : Scope :=
  { scope with sources := scope.sources.map db.rewritten }

theorem asName_rewrittenScope (level : ℕ) (c : ColumnName) (scope : Scope) :
    (db.rewrittenScope scope).asName level (db.fallbackColumn c) = scope.asName level c := by
  rw [Scope.asName, Scope.asName, fallbackColumn_name, rewrittenScope]
  by_cases htable : c.table = ""
  · rw [if_pos htable, if_pos (fallbackColumn_table.mpr htable)]
  · rw [if_neg htable, if_neg (fun h => htable (fallbackColumn_table.mp h))]

/-- Where a replaced name is found in the entries of the views. -/
theorem placeOf_rewritten {scope : Scope} {c : ColumnName}
    (hgenuine : ∀ e ∈ scope.sources, db.isMigrating e = true → db.Genuine e) :
    placeOf c.name (·.matches (db.fallbackColumn c)) (·.hasColumn c.name)
      (db.rewrittenScope scope).sources = db.viewPlace scope c := by
  have hvisible : ∀ e ∈ scope.sources, (db.rewritten e).visibleRowid = e.visibleRowid := by
    intro e he
    cases hmigrating : db.isMigrating e with
    | false => rw [rewritten_of_not hmigrating]
    | true => rw [rewritten, if_pos hmigrating, (hgenuine e he hmigrating).visibleRowid]
  rw [placeOf, viewPlace, placeOf, rewrittenScope, List.findIdx?_map, List.zipIdx_map,
    List.filter_map]
  simp only [Function.comp_def, matches_fallbackColumn, Source.hasColumn, columns_rewritten,
    Prod.map_fst]
  cases scope.sources.findIdx? fun e => db.called c e && (db.columnsOf e).any (same c.name) with
  | some index => rfl
  | none =>
    cases hzip : scope.sources.zipIdx.filter fun e => db.called c e.1 with
    | nil => rfl
    | cons first rest =>
      cases rest with
      | cons => rfl
      | nil =>
        have hmem : first ∈ scope.sources.zipIdx.filter fun e => db.called c e.1 := by
          rw [hzip]
          exact List.mem_cons_self
        have he := List.mk_mem_zipIdx_iff_getElem?.mp (List.mem_filter.mp hmem).1
        simp only [List.map_cons, List.map_nil, Prod.map_fst, Prod.map_snd, id,
          hvisible _ (List.mem_of_getElem? he)]

/-- **What is found in a name context** after `process`. -/
theorem lookup_iff {scope : Scope} {c : ColumnName} (level : ℕ)
    (hgenuine : ∀ e ∈ scope.sources, db.isMigrating e = true → db.Genuine e) :
    (db.rewrittenScope scope).lookup level (db.fallbackColumn c) =
      (scope.lookup level c).map (db.scopeMeaning scope) ↔ db.FaithfulName scope c := by
  have hasName : ∀ resolution, (∀ index, resolution ≠ .resultColumn level index) →
      scope.asName level c ≠ some resolution := by
    intro resolution hne h
    obtain ⟨index, heq⟩ := Scope.asName_eq_some h
    exact hne index heq
  rw [Scope.lookup_eq, Scope.lookup_eq, fallbackColumn_name, placeOf_rewritten hgenuine,
    asName_rewrittenScope, FaithfulName]
  generalize db.viewPlace scope c = after
  cases hplace : placeOf c.name (·.matches c) (·.hasColumn c.name) scope.sources with
  | column index => cases after <;> simp [scopeMeaning, hasName]
  | rowid index =>
    obtain ⟨e, he, -, hhas⟩ := placeOf_rowid hplace
    have hstored : ((db.rewrittenScope scope).sources[index]?).any Source.stored =
        (db.rewritten e).stored := by simp [rewrittenScope, he]
    cases hmigrating : db.isMigrating e with
    | false =>
      rw [rewritten_of_not hmigrating] at hstored
      cases after with
      | rowid index' =>
        simp only [scopeMeaning, he, hmigrating, Option.any_some, Option.map_some, Bool.false_and,
          Bool.false_eq_true, if_false, Option.some.injEq, Resolution.rowid.injEq, true_and,
          Place.rowid.injEq]
        exact ⟨And.left, fun h => ⟨h, h ▸ hstored⟩⟩
      | column index' => simp [scopeMeaning, he, hmigrating]
      | none => simp [scopeMeaning, he, hmigrating, hasName]
    | true =>
      cases hown : e.hasColumn "rowid" with
      | false =>
        -- it is a column of the view
        have hlower : c.name.toLower = "rowid" ↔ same c.name "rowid" = true := by
          rw [same_iff, show "rowid".toLower = "rowid" by decide +kernel]
        cases after <;> simp [scopeMeaning, he, hmigrating, hown, hasName, hlower, and_comm]
      | true =>
        -- the view does not have it
        have hfalse : (db.rewritten e).stored = false := by rw [rewritten, if_pos hmigrating]
        have hname : ¬same c.name "rowid" = true := by
          intro hsame
          have hsame' : same c.name = same "rowid" := by
            funext name
            rw [same, same, same_iff.mp hsame]
          rw [Source.hasColumn, hsame'] at hhas
          exact absurd (hown.symm.trans hhas) (by decide)
        have htrue := (hgenuine e (List.mem_of_getElem? he) hmigrating).stored
        cases after with
        | rowid index' =>
          refine iff_of_false (fun h => ?_) fun h => ?_
          · simp only [scopeMeaning, he, hmigrating, hown, htrue, Option.any_some, Option.map_some,
              Bool.not_true, Bool.and_false, Bool.false_eq_true, if_false, Option.some.injEq,
              Resolution.rowid.injEq, true_and] at h
            obtain ⟨rfl, hstored'⟩ := h
            rw [hstored, hfalse] at hstored'
            cases hstored'
          · simp [he, hmigrating, hname] at h
        | column index' => simp [scopeMeaning, he, hmigrating, hown, hname]
        | none => simp [scopeMeaning, he, hmigrating, hown, hname, hasName]
  | none =>
    have hkept : (scope.asName level c).map (db.scopeMeaning scope) = scope.asName level c := by
      cases h : scope.asName level c with
      | none => rfl
      | some resolution =>
        obtain ⟨index, rfl⟩ := Scope.asName_eq_some h
        rfl
    cases after with
    | none => simp [hkept]
    | column | rowid =>
      exact iff_of_false (fun h => hasName _ (by simp) (h.trans hkept).symm) (by simp)

/-! ### The name contexts -/

variable (db) in
/-- The name contexts after `process`. -/
def rewrittenContext (s : Context) : Context :=
  { current := s.current.map db.rewrittenScope
    enclosing := s.enclosing.map db.rewrittenScope
    outer := s.outer.map db.rewrittenScope
    withs := s.withs
    isTerm := s.isTerm
    around := s.around.map (List.map (db.fallbackVisitor.visitAll ())) }

theorem scopes_rewrittenContext (s : Context) :
    (db.rewrittenContext s).scopes = s.scopes.map db.rewrittenScope := by
  cases h : s.current <;> simp [Context.scopes, rewrittenContext, h]

theorem level_foundMeaning (s : Context) (resolution : Resolution) :
    (db.foundMeaning s resolution).level = resolution.level := by
  rw [foundMeaning]
  split
  · cases resolution with
    | rowid =>
      rw [scopeMeaning]
      split_ifs <;> rfl
    | _ => rfl
  · rfl

/-- The name contexts from a level on. -/
theorem lookupName_iff {s : Context} {c : ColumnName} {scopes : List Scope} {level : ℕ}
    (hscopes : s.scopes.drop level = scopes)
    (hgenuine : ∀ scope ∈ scopes, ∀ e ∈ scope.sources, db.isMigrating e = true → db.Genuine e) :
    lookupName (db.fallbackColumn c) level (scopes.map db.rewrittenScope) =
      db.foundMeaning s (lookupName c level scopes) ↔ db.FaithfulScopes c level scopes := by
  induction scopes generalizing level with
  | nil => exact iff_of_true rfl trivial
  | cons scope scopes ih =>
    have hat : s.scopes[level]? = some scope := by
      rw [← Nat.add_zero level, ← List.getElem?_drop, hscopes]
      rfl
    have hrest : s.scopes.drop (level + 1) = scopes := by
      rw [← List.drop_drop, hscopes]
      rfl
    rw [List.map_cons, lookupName, lookupName, FaithfulScopes,
      ← lookup_iff level (hgenuine scope List.mem_cons_self)]
    cases hlookup : scope.lookup level c with
    | some resolution =>
      have hmeaning : db.foundMeaning s resolution = db.scopeMeaning scope resolution := by
        rw [foundMeaning, Scope.level_lookup hlookup, Option.bind_some, hat]
      have hlevel : (db.foundMeaning s resolution).level = some level :=
        (level_foundMeaning s resolution).trans (Scope.level_lookup hlookup)
      cases (db.rewrittenScope scope).lookup level (db.fallbackColumn c) with
      | some resolution' => simp [hmeaning]
      | none =>
        refine iff_of_false (fun h => ?_) (by simp)
        exact level_lookupName _ (Nat.lt_succ_self level) _ ((congrArg _ h).trans hlevel)
    | none =>
      cases hlookup' : (db.rewrittenScope scope).lookup level (db.fallbackColumn c) with
      | some resolution' =>
        refine iff_of_false (fun h => ?_) (by simp)
        refine level_lookupName c (Nat.lt_succ_self level) scopes ?_
        rw [← level_foundMeaning s, ← h, Scope.level_lookup hlookup']
      | none =>
        have hih := ih hrest fun scope' hscope' => hgenuine scope' (List.mem_cons_of_mem _ hscope')
        simpa using hih

/-- **A name of a column means the same** after `process` just if it is faithful. -/
theorem resolve_iff {s : Context} {c : ColumnName} (hname : c.name ≠ "*")
    (hgenuine : ∀ scope ∈ s.scopes, ∀ e ∈ scope.sources, db.isMigrating e = true → db.Genuine e) :
    db.columnMeaning s c = (db.rewrittenContext s).resolve (db.fallbackColumn c) ↔
      db.FaithfulColumn s c := by
  have hlookup := lookupName_iff (c := c) (List.drop_zero (l := s.scopes)) hgenuine
  rw [eq_comm, columnMeaning, Context.resolve, Context.resolve, scopes_rewrittenContext,
    fallbackColumn_name, if_neg hname, if_neg hname, FaithfulColumn]
  cases hcurrent : s.current with
  | none => simpa [rewrittenContext, hcurrent] using hlookup
  | some scope =>
    simp only [rewrittenContext, hcurrent, Option.map_some, asName_rewrittenScope]
    cases hterm : s.isTerm with
    | false => simpa using hlookup
    | true =>
      cases hasName : scope.asName 0 c with
      | none => simpa [hasName] using hlookup
      | some resolution =>
        obtain ⟨index, rfl⟩ := Scope.asName_eq_some hasName
        refine iff_of_true ?_ (.inl ⟨rfl, scope, rfl, by rw [hasName]; rfl⟩)
        have hat : s.scopes[0]? = some scope := by simp [Context.scopes, hcurrent]
        simp [foundMeaning, Resolution.level, hat, scopeMeaning]

/-- What a wildcard stands for. -/
theorem resolve_wildcard {s : Context} {c : ColumnName} (hname : c.name = "*")
    (hfaithful : db.FaithfulWildcard s c) :
    db.columnMeaning s c = (db.rewrittenContext s).resolve (db.fallbackColumn c) := by
  rw [columnMeaning, Context.resolve, Context.resolve, scopes_rewrittenContext,
    fallbackColumn_name, if_pos hname, if_pos hname]
  cases hs : s.scopes with
  | nil => rfl
  | cons scope scopes =>
    have hhead := hfaithful scope (by rw [hs]; rfl)
    have hmem : ∀ e ∈ scope.sources.zipIdx, e.1 ∈ scope.sources := fun e he =>
      List.mem_of_getElem? (List.mk_mem_zipIdx_iff_getElem?.mp he)
    simp only [foundMeaning, Resolution.level, Option.bind_none, List.map_cons, rewrittenScope,
      List.zipIdx_map, List.filter_map, List.map_map, Resolution.wildcard.injEq]
    have hfilter : scope.sources.zipIdx.filter
        ((fun e => e.1.matches (db.fallbackColumn c)) ∘ Prod.map db.rewritten id) =
          scope.sources.zipIdx.filter fun e => e.1.matches c := by
      refine List.filter_congr fun e he => ?_
      simp [matches_fallbackColumn, (hhead e.1 (hmem e he)).1]
    rw [hfilter]
    refine List.map_congr_left fun e he => ?_
    obtain ⟨hin, hmatch⟩ := List.mem_filter.mp he
    simp [rewritten_of_not ((hhead e.1 (hmem e hin)).2 hmatch)]

end UnionedCatalog

end Wcdb
