import Wcdb.Winq.Identifier
import Mathlib.Logic.Function.Iterate

/-!
# How SQLite resolves names

The rules of `resolve.c` and `select.c` for the names of a SELECT. A name is looked up in the name
contexts around it, from the inside out: first among the tables of the `FROM` clause, then, for the
rowid of the only table, then among the aliases of the result columns. A term of `ORDER BY` that
is just a name is looked up among the aliases first. A subquery in a `FROM` clause does not see the
tables beside it, and `ORDER BY` and `GROUP BY` do not see outer queries.

The tables of the database are a `Catalog`. `Catalog.visitor` carries the name contexts down a
statement, for whatever is to be done with the names.
-/

namespace Wcdb.Winq

/-- `sqlite3StrICmp`. -/
def same (a b : String) : Bool := a.toLower = b.toLower

theorem same_iff {a b : String} : same a b = true ↔ a.toLower = b.toLower := by
  rw [same, decide_eq_true_eq]

@[simp]
theorem same_refl (a : String) : same a a = true := same_iff.mpr rfl

theorem same_comm (a b : String) : same a b = same b a := by
  rw [Bool.eq_iff_iff, same_iff, same_iff, eq_comm]

theorem same_trans {a b c : String} (hab : same a b = true) (hbc : same b c = true) :
    same a c = true :=
  same_iff.mpr ((same_iff.mp hab).trans (same_iff.mp hbc))

/-- `Schema::isMain`. -/
def isMain (schema : String) : Bool := schema = "" || schema = "main"

/-- A table or a view of the database. -/
structure Base where
  schema : String
  columns : List String
  /-- A table with rowids, and no view. -/
  stored : Bool := true
  deriving DecidableEq, Repr

/-- What the database has. -/
structure Catalog where
  /-- `sqlite3LocateTable`: the table of a name. Without a schema, `temp` comes before `main`. -/
  locate : String → String → Option Base
  /-- The columns of a table-valued function. -/
  functionColumns : String → List String := fun _ => []
  locate_schema : ∀ schema name base, locate schema name = some base → schema ≠ "" →
    same base.schema schema = true

/-- An entry of `pSrcList`. Only a table or a view has a schema. A column without name has the
empty one. -/
structure Source where
  asName : String
  table : String
  schema : Option String
  columns : List String
  stored : Bool
  visibleRowid : Bool
  deriving DecidableEq, Repr

/-- The name that qualifies the columns of the entry. -/
def Source.visible (s : Source) : String := if s.asName = "" then s.table else s.asName

/-- The columns of the entry that a name with this qualifier may mean. -/
def Source.matches (c : ColumnName) (s : Source) : Bool :=
  c.table = "" || ((c.schema = "" || s.schema.any (same c.schema)) && same c.table s.visible)

def Source.hasColumn (name : String) (s : Source) : Bool := s.columns.any (same name)

/-- `sqlite3IsRowid`. -/
def isRowid (name : String) : Bool := same name "_rowid_" || same name "rowid" || same name "oid"

/-- A `WITH` clause: its tables and their columns. -/
abbrev With := List (String × List String)

/-- `searchWith`, from the innermost clause. -/
def searchWith (withs : List With) (name : String) : Option (List String) :=
  withs.findSome? fun w => (w.find? fun t => same t.1 name).map Prod.snd

abbrev Select := Identifier ColumnName TableName

variable (catalog : Catalog)

/-- The entry for a table. -/
def tableSource (withs : List With) (t : TableName) : Source :=
  match (if t.schema = "" then searchWith withs t.table else none) with
  | some columns => ⟨t.asName, t.table, none, columns, false, false⟩
  | none =>
      match catalog.locate t.schema t.table with
      | some base => ⟨t.asName, t.table, some base.schema, base.columns, base.stored, true⟩
      | none => ⟨t.asName, t.table, none, [], false, false⟩

/-- The names of a result column. Those of an expression without alias are not specified. -/
def resultNames (sources : List Source) : Select → List String
  | .resultColumn e asName =>
      if asName ≠ "" then [asName]
      else
        match e with
        | .column c =>
            if c.name = "*" then (sources.filter (·.matches c)).flatMap Source.columns else [c.name]
        | _ => [""]
  | _ => [""]

/-- The tables of a `WITH` clause, with the columns that are declared. -/
def declaredWith : List Select → With
  | [] => []
  | .commonTable name columns _ :: commonTables => (name, columns) :: declaredWith commonTables
  | _ :: commonTables => declaredWith commonTables

mutual

/-- The entries of a `FROM` clause. -/
def sourcesOf (withs : List With) : Select → List Source
  | .table t => [tableSource catalog withs t]
  | .function name _ asName =>
      [⟨asName, name, none, catalog.functionColumns name, false, true⟩]
  | .subquery query asName => [⟨asName, "", none, outputs withs query, false, true⟩]
  | .tables items => sourcesOfAll withs items
  | .joinClause items => sourcesOfAll withs items
  | _ => []

def sourcesOfAll (withs : List With) : List Select → List Source
  | [] => []
  | item :: items => sourcesOf withs item ++ sourcesOfAll withs items

/-- The names of the result columns of a query: those of its first core. -/
def outputs (withs : List With) : Select → List String
  | .core results sources _ _ =>
      results.flatMap (resultNames (sourcesOfAll withs sources))
  | .values (.expression operands :: _) => operands.mapIdx fun i _ => "column" ++ toString (i + 1)
  | .select commonTables (core :: _) _ _ =>
      -- the tables of a clause may use each other
      let clause := Nat.iterate (fun w => withOf (w :: withs) commonTables) commonTables.length
        (declaredWith commonTables)
      outputs (clause :: withs) core
  | _ => []

/-- The tables of a `WITH` clause. -/
def withOf (withs : List With) : List Select → With
  | [] => []
  | .commonTable name columns query :: commonTables =>
      (name, if columns = [] then outputs withs query else columns) :: withOf withs commonTables
  | _ :: commonTables => withOf withs commonTables

end

/-- The `WITH` clauses in a statement. -/
def extendWith (withs : List With) (commonTables : List Select) : List With :=
  Nat.iterate (fun w => withOf catalog (w :: withs) commonTables) commonTables.length
    (declaredWith commonTables) :: withs

/-! ### The entries without their columns -/

/-- The same tables in the `WITH` clauses. -/
def SameWith (withs withs' : List With) : Prop :=
  withs.map (List.map Prod.fst) = withs'.map (List.map Prod.fst)

theorem searchWith_isSome (withs : List With) (name : String) :
    (searchWith withs name).isSome =
      (withs.map (List.map Prod.fst)).any fun names => names.any (same · name) := by
  induction withs with
  | nil => rfl
  | cons w withs ih =>
    rw [searchWith, List.findSome?_cons, List.map_cons, List.any_cons, ← ih]
    cases h : w.find? fun t => same t.1 name with
    | none =>
      have hw : (w.map Prod.fst).any (same · name) = false := by
        simpa using List.find?_eq_none.mp h
      simp [hw, searchWith]
    | some t =>
      have hw : (w.map Prod.fst).any (same · name) = true := by
        rw [List.any_map]
        exact List.any_eq_true.mpr ⟨t, List.mem_of_find?_eq_some h, List.find?_some h⟩
      simp [hw]

/-- What an entry is called and where it comes from. -/
def Source.shape (s : Source) : String × String × Option String := (s.asName, s.table, s.schema)

theorem Source.visible_congr {s s' : Source} (h : s.shape = s'.shape) : s.visible = s'.visible := by
  simp only [Source.shape, Prod.mk.injEq] at h
  simp only [Source.visible, h]

theorem Source.matches_congr {s s' : Source} (h : s.shape = s'.shape) (c : ColumnName) :
    s.matches c = s'.matches c := by
  have hvisible := Source.visible_congr h
  simp only [Source.shape, Prod.mk.injEq] at h
  simp only [Source.matches, h, hvisible]

theorem tableSource_shape {withs withs' : List With} (h : SameWith withs withs') (t : TableName) :
    (tableSource catalog withs t).shape = (tableSource catalog withs' t).shape := by
  have hsome : (searchWith withs t.table).isSome = (searchWith withs' t.table).isSome := by
    rw [searchWith_isSome, searchWith_isSome, h]
  rw [tableSource, tableSource]
  by_cases hschema : t.schema = ""
  · rw [if_pos hschema, if_pos hschema]
    cases hw : searchWith withs t.table <;> cases hw' : searchWith withs' t.table <;>
      simp [hw, hw'] at hsome
    · rfl
    · rfl
  · rw [if_neg hschema, if_neg hschema]

mutual

theorem sourcesOf_shape {withs withs' : List With} (h : SameWith withs withs') : ∀ i : Select,
    (sourcesOf catalog withs i).map Source.shape = (sourcesOf catalog withs' i).map Source.shape
  | .table t => by simp [sourcesOf, tableSource_shape catalog h]
  | .function _ _ _ => by simp [sourcesOf]
  | .subquery _ _ => by simp [sourcesOf, Source.shape]
  | .tables items => by simp [sourcesOf, sourcesOfAll_shape h items]
  | .joinClause items => by simp [sourcesOf, sourcesOfAll_shape h items]
  | .column _ | .bindParameter _ _ | .expression _ | .collate _ | .inTable _ _ | .resultColumn _ _
  | .core _ _ _ _ | .values _ | .commonTable _ _ _ | .select _ _ _ _ => by simp [sourcesOf]

theorem sourcesOfAll_shape {withs withs' : List With} (h : SameWith withs withs') :
    ∀ is : List Select, (sourcesOfAll catalog withs is).map Source.shape =
      (sourcesOfAll catalog withs' is).map Source.shape
  | [] => by simp [sourcesOfAll]
  | i :: is => by
    simp only [sourcesOfAll, List.map_append, sourcesOf_shape h i, sourcesOfAll_shape h is]

end

theorem withOf_names (withs : List With) (commonTables : List Select) :
    (withOf catalog withs commonTables).map Prod.fst =
      (declaredWith commonTables).map Prod.fst := by
  induction commonTables with
  | nil => simp [withOf, declaredWith]
  | cons i is ih => cases i <;> simp [withOf, declaredWith, ih]

/-- The names of a `WITH` clause are known from the start. -/
theorem iterate_withOf_names (withs : List With) (commonTables : List Select) (n : ℕ) :
    (Nat.iterate (fun w => withOf catalog (w :: withs) commonTables) n
      (declaredWith commonTables)).map Prod.fst = (declaredWith commonTables).map Prod.fst := by
  cases n with
  | zero => rfl
  | succ n => rw [Function.iterate_succ_apply', withOf_names]

theorem extendWith_sameWith {withs withs' : List With} (h : SameWith withs withs')
    (commonTables : List Select) :
    SameWith (extendWith catalog withs commonTables) (extendWith catalog withs' commonTables) := by
  simp only [SameWith, extendWith, List.map_cons, iterate_withOf_names]
  rw [h]

/-! ### Name contexts -/

/-- A `NameContext`: the entries of a `FROM` clause and the aliases that can be used. -/
structure Scope where
  sources : List Source := []
  asNames : List String := []

/-- What a name means. `level` and `index` are the number of the name context, from the inside, and
the number of the entry there. -/
inductive Resolution where
  | column (level index : ℕ) (name : String)
  /-- The rowid of a view or a subquery is null. -/
  | rowid (level index : ℕ) (stored : Bool)
  | resultColumn (level index : ℕ)
  | wildcard (sources : List (ℕ × List String))
  | unresolved
  deriving DecidableEq, Repr

/-- The rule for rowids, if one entry matches. -/
def Scope.rowid (level : ℕ) (c : ColumnName) (scope : Scope) : Option Resolution :=
  match scope.sources.zipIdx.filter fun s => s.1.matches c with
  | [(s, index)] =>
      if isRowid c.name && s.visibleRowid then some (.rowid level index s.stored) else none
  | _ => none

/-- An alias of a result column. -/
def Scope.asName (level : ℕ) (c : ColumnName) (scope : Scope) : Option Resolution :=
  if c.table = "" then
    (scope.asNames.findIdx? fun asName => asName ≠ "" ∧
      same asName c.name).map (.resultColumn level)
  else none

/-- `lookupName` in one name context. A name that several entries have is an error, unless they
are joined by it; then it is the first one. -/
def Scope.lookup (level : ℕ) (c : ColumnName) (scope : Scope) : Option Resolution :=
  match scope.sources.findIdx? fun s => s.matches c && s.hasColumn c.name with
  | some index => some (.column level index c.name.toLower)
  | none => (scope.rowid level c).or (scope.asName level c)

/-- `lookupName`. -/
def lookupName (c : ColumnName) : ℕ → List Scope → Resolution
  | _, [] => .unresolved
  | level, scope :: scopes =>
      match scope.lookup level c with
      | some resolution => resolution
      | none => lookupName c (level + 1) scopes

/-- The name context that something is found in. -/
def Resolution.level : Resolution → Option ℕ
  | .column level _ _ | .rowid level _ _ | .resultColumn level _ => some level
  | .wildcard _ | .unresolved => none

theorem Scope.asName_eq_some {scope : Scope} {level : ℕ} {c : ColumnName} {resolution : Resolution}
    (h : scope.asName level c = some resolution) :
    ∃ index, resolution = .resultColumn level index := by
  rw [Scope.asName] at h
  split_ifs at h
  obtain ⟨index, -, rfl⟩ := Option.map_eq_some_iff.mp h
  exact ⟨index, rfl⟩

/-- Where a name is found in a `FROM` clause. -/
inductive Place where
  | column (index : ℕ)
  /-- The rowid of the only entry that the name may mean. -/
  | rowid (index : ℕ)
  | none
  deriving DecidableEq, Repr

/-- Where a name is found, if its qualifier means the entries that are `called`. -/
def placeOf (name : String) (called has : Source → Bool) (sources : List Source) : Place :=
  match sources.findIdx? fun e => called e && has e with
  | some index => .column index
  | none =>
      match sources.zipIdx.filter fun e => called e.1 with
      | [(e, index)] => if isRowid name && e.visibleRowid then .rowid index else .none
      | _ => .none

theorem placeOf_rowid {name : String} {called has : Source → Bool} {sources : List Source}
    {index : ℕ} (h : placeOf name called has sources = .rowid index) :
    ∃ e, sources[index]? = some e ∧ called e = true ∧ has e = false := by
  rw [placeOf] at h
  split at h
  next => cases h
  next hnone =>
    split at h
    next e i hzip =>
      split_ifs at h
      obtain rfl := Place.rowid.inj h
      have hmem : (e, i) ∈ sources.zipIdx.filter fun e => called e.1 := by
        rw [hzip]
        exact List.mem_cons_self
      obtain ⟨hin, hcalled⟩ := List.mem_filter.mp hmem
      have he := List.mk_mem_zipIdx_iff_getElem?.mp hin
      have hhas := List.findIdx?_eq_none_iff.mp hnone e (List.mem_of_getElem? he)
      exact ⟨e, he, hcalled, by simpa [hcalled] using hhas⟩
    next => cases h

/-- `lookupName` in one name context, by the place. -/
theorem Scope.lookup_eq (scope : Scope) (level : ℕ) (c : ColumnName) :
    scope.lookup level c =
      match placeOf c.name (·.matches c) (·.hasColumn c.name) scope.sources with
      | .column index => some (.column level index c.name.toLower)
      | .rowid index => some (.rowid level index ((scope.sources[index]?).any Source.stored))
      | .none => scope.asName level c := by
  rw [Scope.lookup, placeOf]
  cases scope.sources.findIdx? fun e => e.matches c && e.hasColumn c.name with
  | some index => rfl
  | none =>
    rw [Scope.rowid]
    cases hzip : scope.sources.zipIdx.filter fun e => e.1.matches c with
    | nil => rfl
    | cons first rest =>
      obtain ⟨e, index⟩ := first
      cases rest with
      | cons => rfl
      | nil =>
        have hmem : (e, index) ∈ scope.sources.zipIdx.filter fun e => e.1.matches c := by
          rw [hzip]
          exact List.mem_cons_self
        have he := List.mk_mem_zipIdx_iff_getElem?.mp (List.mem_filter.mp hmem).1
        dsimp only
        split_ifs
        · simp [he]
        · rfl

theorem Scope.level_lookup {scope : Scope} {level : ℕ} {c : ColumnName} {resolution : Resolution}
    (h : scope.lookup level c = some resolution) : resolution.level = some level := by
  rw [Scope.lookup_eq] at h
  split at h
  · obtain rfl := Option.some.inj h
    rfl
  · obtain rfl := Option.some.inj h
    rfl
  · obtain ⟨index, rfl⟩ := Scope.asName_eq_some h
    rfl

theorem level_lookupName (c : ColumnName) {level outer : ℕ} (hlt : level < outer)
    (scopes : List Scope) : (lookupName c outer scopes).level ≠ some level := by
  induction scopes generalizing outer with
  | nil => simp [lookupName, Resolution.level]
  | cons scope scopes ih =>
    rw [lookupName]
    cases h : scope.lookup outer c with
    | some resolution => simpa [Scope.level_lookup h] using Nat.ne_of_gt hlt
    | none => exact ih (Nat.lt_succ_of_lt hlt)

/-- The `FROM` clause of a core. -/
def tableOrSubqueries : Select → List Select
  | .core _ sources _ _ => sources
  | _ => []

/-- The state on the way down a statement. -/
structure Context where
  /-- The name context of the core, inside of one. -/
  current : Option Scope := none
  enclosing : List Scope := []
  /-- What a subquery in the `FROM` clause sees. -/
  outer : List Scope := []
  withs : List With := []
  /-- A term of `ORDER BY`. -/
  isTerm : Bool := false
  /-- The `FROM` clauses around, from the inside: that of a core, and those of all cores of a
  statement. No name is resolved with them. -/
  around : List (List (List Select)) := []

namespace Context

/-- The name contexts, from the inside. -/
def scopes (s : Context) : List Scope := s.current.toList ++ s.enclosing

/-- What a name means. -/
def resolve (s : Context) (c : ColumnName) : Resolution :=
  if c.name = "*" then
    match s.scopes with
    | [] => .unresolved
    | scope :: _ =>
        .wildcard ((scope.sources.zipIdx.filter fun s => s.1.matches c).map fun s =>
          (s.2, s.1.columns))
  else
    match s.current with
    | some scope =>
        -- an alias comes first for a term of `ORDER BY`
        ((if s.isTerm then scope.asName 0 c else none).getD (lookupName c 0 s.scopes))
    | none => lookupName c 0 s.scopes

end Context

/-- The aliases of the result columns. -/
def asNamesOf (results : List Select) : List String :=
  results.map fun
    | .resultColumn _ asName => asName
    | _ => ""

/-- The name context of a core, in the context of the core. -/
def coreScope (withs : List With) (results sources : List Select) (aliases : Bool) : Scope :=
  { sources := sourcesOfAll catalog withs sources
    asNames := if aliases then asNamesOf results else [] }

/-- The name context of the terms of `ORDER BY`. -/
def orderingScope (withs : List With) : Select → Scope
  | .core results sources _ _ => coreScope catalog withs results sources true
  | _ => {}

variable {γ' τ' : Type}

/-- The name contexts on the way down a statement. -/
def Catalog.visitor (column : Context → ColumnName → γ')
    (table inTable : Context → TableName → τ') (asName : Context → Select → String → String) :
    Visitor Context ColumnName TableName γ' τ' where
  column
  table
  inTable
  asName
  operand s := { s with isTerm := false }
  subquery s :=
    { current := none, enclosing := s.outer, withs := s.withs, around := s.around }
  values s :=
    { current := some {}, enclosing := s.scopes, withs := s.withs, around := [] :: s.around }
  results s results sources :=
    { current := some (coreScope catalog s.withs results sources false)
      enclosing := s.scopes
      withs := s.withs
      around := [sources] :: s.around }
  sources s results sources :=
    { current := some (coreScope catalog s.withs results sources true)
      enclosing := s.scopes
      outer := s.scopes
      withs := s.withs
      around := [sources] :: s.around }
  conditions s results sources :=
    { current := some (coreScope catalog s.withs results sources true)
      enclosing := s.scopes
      withs := s.withs
      around := [sources] :: s.around }
  groups s results sources :=
    { current := some (coreScope catalog s.withs results sources true)
      withs := s.withs
      around := [sources] :: s.around }
  commonTables s commonTables cores :=
    { enclosing := s.scopes
      withs := extendWith catalog s.withs commonTables
      around := [] :: cores.map tableOrSubqueries :: s.around }
  cores s commonTables cores :=
    { enclosing := s.scopes
      withs := extendWith catalog s.withs commonTables
      around := cores.map tableOrSubqueries :: s.around }
  ordering s commonTables cores :=
    let withs := extendWith catalog s.withs commonTables
    -- the terms of a compound are looked up in one core after the other
    { current := (cores.map (orderingScope catalog withs)).head?
      enclosing := (cores.map (orderingScope catalog withs)).tail
      withs
      isTerm := true
      around := cores.map tableOrSubqueries :: s.around }
  limit s commonTables cores :=
    { withs := extendWith catalog s.withs commonTables
      around := cores.map tableOrSubqueries :: s.around }

end Wcdb.Winq
