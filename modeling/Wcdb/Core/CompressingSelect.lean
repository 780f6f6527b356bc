import Wcdb.Winq.NameResolution
import Mathlib.Data.List.Induction
import Mathlib.Data.String.Basic

/-!
# Reading compressed columns

`CompressingStatementDecorator::adaptCompressingColumn` puts `wcdb_decompress` around the
compressing columns that a SELECT names. It finds the table of a name with a stack of maps, one map
for every select statement and select core on the way to the name; `parseTable` fills a map from a
`FROM` clause. It **stops at the first table** of the clause and does not look into join clauses; a
name without a table goes to the first entry of the innermost map, whatever its columns are, and a
common table is taken for the table of its name.

`adaptCompressingColumn` is compared with `decompressVisitor`, which asks SQLite for the meaning of
each name. They agree on a statement just if it is `Clear`: the entry of the `FROM` clauses around a
name that the code takes for its table has the column compressed if and only if SQLite resolves the
name to a compressing column.
-/

namespace Wcdb

open Winq

/-- A column after `adaptCompressingColumn`: as it was, or `wcdb_decompress(content, type)`. -/
inductive AdaptedColumn where
  | column (c : ColumnName)
  | decompress (content type : ColumnName)
  deriving DecidableEq, Repr

/-- The type column of a compressing column. -/
def typeColumnOf (name : String) : String := "WCDB_CT_" ++ name

/-- `TableInfos`: the compressing columns of a name, or `nullptr`. The entries are sorted. -/
abbrev TableInfos := List (String × Option (List String))

/-- `insert_or_assign`. -/
def insertOrAssign (key : String) (info : Option (List String)) : TableInfos → TableInfos
  | [] => [(key, info)]
  | e :: infos =>
      if key = e.1 then (key, info) :: infos
      else if key < e.1 then (key, info) :: e :: infos
      else e :: insertOrAssign key info infos

/-- The map with the alias, if there is one. -/
def insertAsName (asName : String) (info : Option (List String)) (infos : TableInfos) :
    TableInfos :=
  if asName = "" then infos else insertOrAssign asName info infos

section Code

-- the tables of the main schema that are compressed, with their compressing columns
variable (tables : List (String × List String))

/-- `tryGetCompressionInfo`. -/
def tryGetCompressionInfo (table : String) : Option (List String) :=
  (tables.find? fun t => t.1 = table).map Prod.snd

mutual

/-- `parseTable`. It returns at a table. -/
def parseTable (infos : TableInfos) : List Select → TableInfos
  | [] => infos
  | .table t :: _ =>
      if isMain t.schema then
        insertAsName t.asName (tryGetCompressionInfo tables t.table)
          (insertOrAssign t.table (tryGetCompressionInfo tables t.table) infos)
      else infos
  | entry :: rest => parseTable (parseEntry infos entry) rest

/-- An entry that is no table. -/
def parseEntry (infos : TableInfos) : Select → TableInfos
  | .tables items => parseTable infos items
  | .function _ _ asName => insertAsName asName none infos
  | .subquery _ asName => insertAsName asName none infos
  | _ => infos

end

/-- The map of a select statement, of all its cores. -/
def statementInfos (cores : List Select) : TableInfos :=
  cores.foldl (fun infos core => parseTable tables infos (tableOrSubqueries core)) []

/-- The table of a column. -/
def tableInfoOf (stack : List TableInfos) (c : ColumnName) : Option (List String) :=
  if c.table ≠ "" then
    (stack.findSome? fun infos => (infos.find? fun e => e.1 = c.table).map Prod.snd).join
  else (stack.head?.bind List.head?).bind Prod.snd

/-- The column is put into `compressingColumns`. -/
def isCompressing (stack : List TableInfos) (c : ColumnName) : Bool :=
  c.name ≠ "*" && isMain c.schema &&
    (tableInfoOf stack c).any fun columns => columns.any fun name => name = c.name

/-- The iterator of `adaptCompressingColumn`, with its stack of maps. -/
def adaptVisitor : Visitor (List TableInfos) ColumnName TableName AdaptedColumn TableName where
  column stack c :=
    if isCompressing stack c then
      .decompress { table := c.table, name := c.name }
        { table := c.table, name := typeColumnOf c.name }
    else .column c
  table _ t := t
  inTable _ t := t
  asName stack e asName :=
    match e with
    | .column c => if isCompressing stack c then c.name else asName
    | _ => asName
  values stack := [] :: stack
  results stack _ sources := parseTable tables [] sources :: stack
  sources stack _ sources := parseTable tables [] sources :: stack
  conditions stack _ sources := parseTable tables [] sources :: stack
  groups stack _ sources := parseTable tables [] sources :: stack
  commonTables stack _ cores := [] :: statementInfos tables cores :: stack
  cores stack _ cores := statementInfos tables cores :: stack
  ordering stack _ cores := statementInfos tables cores :: stack
  limit stack _ cores := statementInfos tables cores :: stack

/-- The bind parameters are numeric. -/
def numericParameters (statement : Select) : Bool :=
  statement.allParameters fun questionSign _ => questionSign

/-- `adaptCompressingColumn`, for a SELECT. It refuses other bind parameters. -/
def adaptCompressingColumn (statement : Select) : Option (Identifier AdaptedColumn TableName) :=
  if numericParameters statement then some ((adaptVisitor tables).visit [] statement) else none

end Code

/-! ### What the names mean -/

section Meaning

variable (tables : List (String × List String))

/-- The compressing columns of an entry of a `FROM` clause. -/
def compressionOf (s : Source) : Option (List String) :=
  if s.schema = some "main" then (tables.find? fun t => same t.1 s.table).map Prod.snd else none

/-- SQLite resolves the name to a compressing column of a table of the main schema. -/
def meansCompressing (s : Context) (c : ColumnName) : Bool :=
  match s.resolve c with
  | .column level index name =>
      ((s.scopes[level]?.bind fun scope => scope.sources[index]?).bind (compressionOf tables)).any
        fun columns => columns.any fun column => column.toLower = name
  | _ => false

/-- The statement as it should be: every name of a compressing column is decompressed, with its
qualifier, no other one is changed, and the result columns keep their names. -/
def decompressVisitor (catalog : Catalog) :
    Visitor Context ColumnName TableName AdaptedColumn TableName :=
  catalog.visitor
    (fun s c =>
      if meansCompressing tables s c then .decompress c { c with name := typeColumnOf c.name }
      else .column c)
    (fun _ t => t)
    (fun _ t => t)
    (fun s e asName =>
      match e with
      | .column c => if meansCompressing tables s c && asName = "" then c.name else asName
      | _ => asName)

end Meaning

/-! ### Which entry the code takes for the table of a name -/

section Clear

variable (tables : List (String × List String))

mutual

/-- The entries of a `FROM` clause that `parseTable` gets to. -/
def recordedEntries : List Select → List Select
  | [] => []
  | .table t :: _ => [.table t]
  | entry :: rest => entriesWithin entry ++ recordedEntries rest

/-- The entries in parentheses. Those of a join clause are not recorded. -/
def entriesWithin : Select → List Select
  | .tables items => recordedEntries items
  | .joinClause _ => []
  | entry => [entry]

end

/-- The names under which an entry is recorded, with its compressing columns. -/
def entryNames : Select → TableInfos
  | .table t =>
      if isMain t.schema then
        (t.table, tryGetCompressionInfo tables t.table) ::
          if t.asName = "" then [] else [(t.asName, tryGetCompressionInfo tables t.table)]
      else []
  | .function _ _ asName => if asName = "" then [] else [(asName, none)]
  | .subquery _ asName => if asName = "" then [] else [(asName, none)]
  | _ => []

/-- The names that are recorded for the `FROM` clauses of a core or of a statement. -/
def recordedNames (clauses : List (List Select)) : TableInfos :=
  (clauses.flatMap recordedEntries).flatMap (entryNames tables)

/-- The last entry of the name. It replaces the ones before. -/
def LastNamed (names : TableInfos) (name : String) (info : Option (List String)) : Prop :=
  ∃ before after, names = before ++ (name, info) :: after ∧ ∀ e ∈ after, e.1 ≠ name

/-- The code takes a name for a column of a table with these compressing columns. -/
inductive Takes (around : List (List (List Select))) (c : ColumnName) (columns : List String) : Prop
  /-- A name with a table: the innermost `FROM` clause that has the table recorded. -/
  | qualified (before after : List (List (List Select))) (clauses : List (List Select))
      (htable : c.table ≠ "") (haround : around = before ++ clauses :: after)
      (hbefore : ∀ clauses' ∈ before, ∀ e ∈ recordedNames tables clauses', e.1 ≠ c.table)
      (hlast : LastNamed (recordedNames tables clauses) c.table (some columns))
  /-- A name without a table: the first one, in alphabetical order, of the innermost clause. -/
  | unqualified (clauses : List (List Select)) (after : List (List (List Select))) (name : String)
      (htable : c.table = "") (haround : around = clauses :: after)
      (hfirst : ∀ e ∈ recordedNames tables clauses, name ≤ e.1)
      (hlast : LastNamed (recordedNames tables clauses) name (some columns))

/-- The entry that is taken for the table of a name has the column compressed, if the name means a
compressing column, which it does without a schema; otherwise it does not. -/
structure ClearColumn (s : Context) (c : ColumnName) : Prop where
  compressing : meansCompressing tables s c = true →
    c.schema = "" ∧ ∃ columns, Takes tables s.around c columns ∧ c.name ∈ columns
  other : meansCompressing tables s c = false → isMain c.schema = true →
    ∀ columns, Takes tables s.around c columns → c.name ∉ columns

/-- The condition at one identifier. An alias of a compressing column is its own name. -/
def ClearAt (s : Context) : Select → Prop
  | .column c => c.name ≠ "*" → ClearColumn tables s c
  | .resultColumn (.column c) asName =>
      (c.name ≠ "*" → ClearColumn tables s c) ∧
        (meansCompressing tables s c = true → asName = "" ∨ asName = c.name)
  | _ => True

/-- The condition holds in a whole statement. -/
def Clear (catalog : Catalog) (statement : Select) : Prop :=
  (decompressVisitor tables catalog).Holds (ClearAt tables) {} statement

end Clear

/-! ### The maps -/

section Maps

variable {tables : List (String × List String)}

theorem mem_insertOrAssign {key : String} {info : Option (List String)} {infos : TableInfos}
    {e : String × Option (List String)} (h : e ∈ insertOrAssign key info infos) :
    e = (key, info) ∨ e ∈ infos := by
  induction infos with
  | nil => exact Or.inl (List.mem_singleton.mp h)
  | cons a infos ih =>
    rw [insertOrAssign] at h
    split_ifs at h with hkey hlt
    · rcases List.mem_cons.mp h with rfl | h
      · exact Or.inl rfl
      · exact Or.inr (List.mem_cons_of_mem _ h)
    · rcases List.mem_cons.mp h with rfl | h
      · exact Or.inl rfl
      · exact Or.inr h
    · rcases List.mem_cons.mp h with rfl | h
      · exact Or.inr List.mem_cons_self
      · exact (ih h).imp_right (List.mem_cons_of_mem _)

theorem mem_keys_insertOrAssign {key k : String}
    {info : Option (List String)} {infos : TableInfos} :
    k ∈ (insertOrAssign key info infos).map Prod.fst ↔ k = key ∨ k ∈ infos.map Prod.fst := by
  induction infos with
  | nil => simp [insertOrAssign]
  | cons a infos ih =>
    rw [insertOrAssign]
    split_ifs with hkey hlt
    · simp [hkey]
    · simp
    · rw [List.map_cons, List.mem_cons, ih, List.map_cons, List.mem_cons]
      exact or_left_comm

/-- The map of a list of names. -/
def infosOf (names : TableInfos) : TableInfos :=
  names.foldl (fun infos e => insertOrAssign e.1 e.2 infos) []

theorem infosOf_concat (names : TableInfos) (e : String × Option (List String)) :
    infosOf (names ++ [e]) = insertOrAssign e.1 e.2 (infosOf names) := by
  rw [infosOf, infosOf, List.foldl_append, List.foldl_cons, List.foldl_nil]

theorem find?_insertOrAssign (key name : String) (info : Option (List String))
    (infos : TableInfos) :
    (insertOrAssign key info infos).find? (fun e => e.1 = name) =
      if key = name then some (key, info) else infos.find? fun e => e.1 = name := by
  induction infos with
  | nil => by_cases hname : key = name <;> simp [insertOrAssign, hname]
  | cons a infos ih =>
    rw [insertOrAssign]
    by_cases hname : key = name
    · subst hname
      rw [if_pos rfl] at ih ⊢
      split_ifs with hkey hlt
      · simp
      · simp
      · rw [List.find?_cons_of_neg (by simpa using Ne.symm hkey), ih]
    · split_ifs with hkey hlt
      · rw [List.find?_cons_of_neg (by simpa using hname),
          List.find?_cons_of_neg (by simpa [← hkey] using hname)]
      · rw [List.find?_cons_of_neg (by simpa using hname)]
      · rw [List.find?_cons, List.find?_cons, ih, if_neg hname]

/-- The keys of a map are in order. -/
theorem insertOrAssign_pairwise {key : String} {info : Option (List String)} {infos : TableInfos}
    (h : infos.Pairwise fun a b => a.1 < b.1) :
    (insertOrAssign key info infos).Pairwise fun a b => a.1 < b.1 := by
  induction infos with
  | nil => simp [insertOrAssign]
  | cons a infos ih =>
    obtain ⟨hhead, htail⟩ := List.pairwise_cons.mp h
    rw [insertOrAssign]
    split_ifs with hkey hlt
    · exact List.pairwise_cons.mpr ⟨fun b hb => hkey ▸ hhead b hb, htail⟩
    · refine List.pairwise_cons.mpr ⟨fun b hb => ?_, h⟩
      rcases List.mem_cons.mp hb with rfl | hb
      · exact hlt
      · exact hlt.trans (hhead b hb)
    · refine List.pairwise_cons.mpr ⟨fun b hb => ?_, ih htail⟩
      rcases mem_insertOrAssign hb with rfl | hb
      · exact lt_of_le_of_ne (not_lt.mp hlt) (Ne.symm hkey)
      · exact hhead b hb

theorem infosOf_pairwise (names : TableInfos) :
    (infosOf names).Pairwise fun a b => a.1 < b.1 := by
  induction names using List.reverseRecOn with
  | nil => exact List.Pairwise.nil
  | append_singleton names e ih =>
    rw [infosOf_concat]
    exact insertOrAssign_pairwise ih

theorem mem_keys_infosOf {names : TableInfos} {name : String} :
    name ∈ (infosOf names).map Prod.fst ↔ name ∈ names.map Prod.fst := by
  induction names using List.reverseRecOn with
  | nil => exact Iff.rfl
  | append_singleton names e ih =>
    rw [infosOf_concat, mem_keys_insertOrAssign, ih, List.map_append, List.mem_append, or_comm]
    exact or_congr_right List.mem_singleton.symm

theorem lastNamed_concat {names : TableInfos} {e : String × Option (List String)} {name : String}
    {info : Option (List String)} :
    LastNamed (names ++ [e]) name info ↔
      e = (name, info) ∨ e.1 ≠ name ∧ LastNamed names name info := by
  constructor
  · rintro ⟨before, after, hnames, hafter⟩
    rcases after.eq_nil_or_concat with rfl | ⟨after, last, rfl⟩
    · exact Or.inl (List.append_inj_right' hnames rfl |> List.singleton_inj.mp)
    · rw [List.concat_eq_append, ← List.cons_append, ← List.append_assoc] at hnames
      obtain ⟨rfl, hlast⟩ := List.append_inj' hnames rfl
      obtain rfl := List.singleton_inj.mp hlast
      exact Or.inr ⟨hafter e (by simp), before, after, rfl, fun e' he' => hafter e' (by simp [he'])⟩
  · rintro (rfl | ⟨hne, before, after, rfl, hafter⟩)
    · exact ⟨names, [], rfl, by simp⟩
    · refine ⟨before, after ++ [e], by simp, fun e' he' => ?_⟩
      rcases List.mem_append.mp he' with he' | he'
      · exact hafter e' he'
      · rwa [List.mem_singleton.mp he']

/-- A map has the last entry of a name. -/
theorem find?_infosOf {names : TableInfos} {name : String} {info : Option (List String)} :
    (infosOf names).find? (fun e => e.1 = name) = some (name, info) ↔
      LastNamed names name info := by
  induction names using List.reverseRecOn with
  | nil => simp [infosOf, LastNamed]
  | append_singleton names e ih =>
    rw [infosOf_concat, find?_insertOrAssign, lastNamed_concat]
    split_ifs with hname
    · simp [hname, Prod.ext_iff]
    · rw [ih]
      simp [hname, Prod.ext_iff]

/-- The first entry of a map. -/
theorem head?_infosOf {names : TableInfos} {name : String} {info : Option (List String)} :
    (infosOf names).head? = some (name, info) ↔
      LastNamed names name info ∧ ∀ e ∈ names, name ≤ e.1 := by
  have hpairwise := infosOf_pairwise names
  have hkeys : ∀ k, k ∈ (infosOf names).map Prod.fst ↔ k ∈ names.map Prod.fst :=
    fun k => mem_keys_infosOf
  rw [← find?_infosOf]
  cases hinfos : infosOf names with
  | nil => simp
  | cons a infos =>
    rw [hinfos] at hpairwise hkeys
    have hhead := (List.pairwise_cons.mp hpairwise).1
    constructor
    · rintro h
      obtain rfl := Option.some.inj h
      refine ⟨by simp, fun e he => ?_⟩
      have hmem := (hkeys e.1).mpr (List.mem_map_of_mem he)
      rcases List.mem_cons.mp hmem with heq | hmem
      · exact heq.ge
      · obtain ⟨b, hb, hbe⟩ := List.mem_map.mp hmem
        exact hbe ▸ (hhead b hb).le
    · rintro ⟨hfind, hle⟩
      obtain ⟨e, he, hea⟩ := List.mem_map.mp ((hkeys a.1).mp (by simp))
      by_cases hname : a.1 = name
      · rw [List.find?_cons_of_pos (by simpa using hname)] at hfind
        exact hfind
      · rw [List.find?_cons_of_neg (by simpa using hname)] at hfind
        have hlt := hhead _ (List.mem_of_find?_eq_some hfind)
        exact absurd (hea ▸ hle e he) (not_le.mpr hlt)

theorem insertAsName_infosOf (asName : String) (info : Option (List String)) (names : TableInfos) :
    insertAsName asName info (infosOf names) =
      infosOf (names ++ if asName = "" then [] else [(asName, info)]) := by
  rw [insertAsName]
  split_ifs
  · rw [List.append_nil]
  · rw [infosOf_concat]

mutual

/-- `parseTable` adds the recorded names of a `FROM` clause to the map. -/
theorem parseTable_infosOf (names : TableInfos) : ∀ sources : List Select,
    parseTable tables (infosOf names) sources =
      infosOf (names ++ (recordedEntries sources).flatMap (entryNames tables))
  | [] => by simp [parseTable, recordedEntries]
  | entry :: rest => by
    by_cases htable : ∃ t, entry = .table t
    · obtain ⟨t, rfl⟩ := htable
      by_cases hmain : isMain t.schema = true
      · rw [parseTable, if_pos hmain,
          ← infosOf_concat names (t.table, tryGetCompressionInfo tables t.table),
          insertAsName_infosOf]
        simp [recordedEntries, entryNames, hmain]
      · simp [parseTable, recordedEntries, entryNames, hmain]
    · have hne : ∀ t, entry ≠ .table t := fun t h => htable ⟨t, h⟩
      rw [parseTable, parseEntry_infosOf names entry hne, parseTable_infosOf, recordedEntries,
        List.flatMap_append, List.append_assoc]
      all_goals exact hne

theorem parseEntry_infosOf (names : TableInfos) : ∀ entry : Select, (∀ t, entry ≠ .table t) →
    parseEntry tables (infosOf names) entry =
      infosOf (names ++ (entriesWithin entry).flatMap (entryNames tables))
  | .tables items, _ => by rw [parseEntry, parseTable_infosOf, entriesWithin]
  | .function name args asName, _ => by
    simp [parseEntry, insertAsName_infosOf, entriesWithin, entryNames]
  | .subquery query asName, _ => by
    simp [parseEntry, insertAsName_infosOf, entriesWithin, entryNames]
  | .table t, h => absurd rfl (h t)
  | .column _, _ | .bindParameter _ _, _ | .expression _, _ | .collate _, _ | .inTable _ _, _
  | .resultColumn _ _, _ | .joinClause _, _ | .core _ _ _ _, _ | .values _, _
  | .commonTable _ _ _, _ | .select _ _ _ _, _ => by
    simp [parseEntry, entriesWithin, entryNames]

end

theorem parseTable_nil (sources : List Select) :
    parseTable tables [] sources = infosOf (recordedNames tables [sources]) := by
  simpa [infosOf, recordedNames] using parseTable_infosOf [] sources

theorem statementInfos_eq (cores : List Select) :
    statementInfos tables cores =
      infosOf (recordedNames tables (cores.map tableOrSubqueries)) := by
  induction cores using List.reverseRecOn with
  | nil => rfl
  | append_singleton cores core ih =>
    rw [statementInfos, List.foldl_append, List.foldl_cons, List.foldl_nil, ← statementInfos, ih,
      parseTable_infosOf]
    simp [recordedNames]

end Maps

/-! ### The code and SQLite -/

section Theorem

variable (tables : List (String × List String)) (catalog : Catalog)

/-- The stack of maps at a name. -/
def stackOf (s : Context) : List TableInfos :=
  s.around.map fun clauses => infosOf (recordedNames tables clauses)

/-- The stack has a map for every `FROM` clause around a name. -/
theorem decompressVisitor_parallel :
    (decompressVisitor tables catalog).Parallel (adaptVisitor tables) (stackOf tables) where
  operand _ := rfl
  subquery _ := rfl
  values _ := rfl
  results s _ sources := congrArg (· :: stackOf tables s) (parseTable_nil sources)
  sources s _ sources := congrArg (· :: stackOf tables s) (parseTable_nil sources)
  conditions s _ sources := congrArg (· :: stackOf tables s) (parseTable_nil sources)
  groups s _ sources := congrArg (· :: stackOf tables s) (parseTable_nil sources)
  commonTables s _ cores := congrArg ([] :: · :: stackOf tables s) (statementInfos_eq cores)
  cores s _ cores := congrArg (· :: stackOf tables s) (statementInfos_eq cores)
  ordering s _ cores := congrArg (· :: stackOf tables s) (statementInfos_eq cores)
  limit s _ cores := congrArg (· :: stackOf tables s) (statementInfos_eq cores)

variable {tables} {catalog}

theorem find?_infosOf_eq_none {names : TableInfos} {name : String} :
    (infosOf names).find? (fun e => e.1 = name) = none ↔ ∀ e ∈ names, e.1 ≠ name := by
  have hkeys := (@mem_keys_infosOf names name).not
  simp only [List.mem_map, not_exists, not_and] at hkeys
  simpa using hkeys

theorem find?_infosOf_map {names : TableInfos} {name : String} {info : Option (List String)} :
    ((infosOf names).find? fun e => e.1 = name).map Prod.snd = some info ↔
      LastNamed names name info := by
  rw [← find?_infosOf, Option.map_eq_some_iff]
  constructor
  · rintro ⟨⟨name', info'⟩, hfind, rfl⟩
    have hname : name' = name := by simpa using List.find?_some hfind
    rw [hfind, hname]
  · exact fun h => ⟨_, h, rfl⟩

/-- A name that some `FROM` clause has recorded is found in the innermost of them. -/
theorem findSome?_stack {around : List (List (List Select))} {name : String}
    {info : Option (List String)} :
    ((around.map fun clauses => infosOf (recordedNames tables clauses)).findSome? fun infos =>
        (infos.find? fun e => e.1 = name).map Prod.snd) = some info ↔
      ∃ before clauses after, around = before ++ clauses :: after ∧
        (∀ clauses' ∈ before, ∀ e ∈ recordedNames tables clauses', e.1 ≠ name) ∧
          LastNamed (recordedNames tables clauses) name info := by
  rw [List.findSome?_map, List.findSome?_eq_some_iff]
  simp only [Function.comp_apply, find?_infosOf_map, Option.map_eq_none_iff,
    find?_infosOf_eq_none]
  constructor
  · rintro ⟨before, clauses, after, haround, hlast, hbefore⟩
    exact ⟨before, clauses, after, haround, hbefore, hlast⟩
  · rintro ⟨before, clauses, after, haround, hbefore, hlast⟩
    exact ⟨before, clauses, after, haround, hlast, hbefore⟩

/-- The table that the code finds for a name. -/
theorem tableInfoOf_eq_some {around : List (List (List Select))} {c : ColumnName}
    {columns : List String} :
    tableInfoOf (around.map fun clauses => infosOf (recordedNames tables clauses)) c =
      some columns ↔ Takes tables around c columns := by
  rw [tableInfoOf]
  split_ifs with htable
  · rw [Option.join_eq_some_iff, findSome?_stack]
    constructor
    · rintro ⟨before, clauses, after, haround, hbefore, hlast⟩
      exact .qualified before after clauses htable haround hbefore hlast
    · rintro (⟨before, after, clauses, -, haround, hbefore, hlast⟩ | ⟨-, -, -, hempty, -⟩)
      · exact ⟨before, clauses, after, haround, hbefore, hlast⟩
      · exact absurd hempty htable
  · rw [not_not] at htable
    constructor
    · intro h
      obtain ⟨⟨name, info⟩, hhead, rfl⟩ := Option.bind_eq_some_iff.mp h
      obtain ⟨infos, hinfos, hname⟩ := Option.bind_eq_some_iff.mp hhead
      cases around with
      | nil => cases hinfos
      | cons clauses after =>
        obtain rfl := Option.some.inj hinfos
        obtain ⟨hlast, hfirst⟩ := head?_infosOf.mp hname
        exact .unqualified clauses after name htable rfl hfirst hlast
    · rintro (⟨-, -, -, hne, -⟩ | ⟨clauses, after, name, -, rfl, hfirst, hlast⟩)
      · exact absurd htable hne
      · have hhead := head?_infosOf.mpr ⟨hlast, hfirst⟩
        simp [hhead]

/-- What the code decompresses. -/
theorem isCompressing_iff {s : Context} {c : ColumnName} :
    isCompressing (stackOf tables s) c = true ↔ c.name ≠ "*" ∧ isMain c.schema = true ∧
      ∃ columns, Takes tables s.around c columns ∧ c.name ∈ columns := by
  simp only [isCompressing, Bool.and_eq_true, decide_eq_true_eq, Option.any_eq_true, stackOf,
    tableInfoOf_eq_some, List.any_eq_true, and_assoc]
  simp

/-- The wildcard is no compressing column. -/
theorem meansCompressing_wildcard {s : Context} {c : ColumnName} (h : c.name = "*") :
    meansCompressing tables s c = false := by
  rw [meansCompressing, Context.resolve, if_pos h]
  split
  next hresolve => split at hresolve <;> cases hresolve
  next => rfl

/-- The code and SQLite agree on what is decompressed. -/
theorem isCompressing_eq_iff {s : Context} {c : ColumnName} :
    (isCompressing (stackOf tables s) c = meansCompressing tables s c ∧
      (meansCompressing tables s c = true → c.schema = "")) ↔
        (c.name ≠ "*" → ClearColumn tables s c) := by
  by_cases hname : c.name = "*"
  · simp [isCompressing, meansCompressing_wildcard hname, hname]
  · rw [imp_iff_right hname]
    constructor
    · rintro ⟨heq, hschema⟩
      refine ⟨fun hmeans => ⟨hschema hmeans, ?_⟩, fun hmeans hmain columns htakes hmem => ?_⟩
      · rw [hmeans] at heq
        exact (isCompressing_iff.mp heq).2.2
      · rw [isCompressing_iff.mpr ⟨hname, hmain, columns, htakes, hmem⟩, hmeans] at heq
        cases heq
    · rintro ⟨hcompressing, hother⟩
      refine ⟨?_, fun hmeans => (hcompressing hmeans).1⟩
      cases hmeans : meansCompressing tables s c with
      | true =>
        obtain ⟨hschema, hcolumns⟩ := hcompressing hmeans
        exact isCompressing_iff.mpr ⟨hname, by simp [isMain, hschema], hcolumns⟩
      | false =>
        rw [← Bool.not_eq_true, isCompressing_iff]
        rintro ⟨-, hmain, columns, htakes, hmem⟩
        exact hother hmeans hmain columns htakes hmem

/-- The names of one identifier are adapted as they should be. -/
theorem sameNames_iff (s : Context) (i : Select) :
    (decompressVisitor tables catalog).SameNames (adaptVisitor tables) (stackOf tables) s i ↔
      ClearAt tables s i := by
  have hcolumn : ∀ c, (decompressVisitor tables catalog).column s c =
      (adaptVisitor tables).column (stackOf tables s) c ↔
        (c.name ≠ "*" → ClearColumn tables s c) := by
    intro c
    rw [← isCompressing_eq_iff]
    obtain ⟨schema, table, name⟩ := c
    change (if meansCompressing tables s _ = true then _ else _) =
      (if isCompressing (stackOf tables s) _ = true then _ else _) ↔ _
    cases hmeans : meansCompressing tables s ⟨schema, table, name⟩ <;>
      cases hcode : isCompressing (stackOf tables s) ⟨schema, table, name⟩ <;> simp
  cases i
  case column c => exact hcolumn c
  case resultColumn e asName =>
    cases e
    case column c =>
      refine (and_congr_left' (hcolumn c)).trans (and_congr_right fun hclear => ?_)
      obtain ⟨heq, -⟩ := isCompressing_eq_iff.mpr hclear
      change (if (meansCompressing tables s c && asName = "") = true then _ else _) =
        (if isCompressing (stackOf tables s) c = true then _ else _) ↔ _
      rw [heq]
      cases hmeans : meansCompressing tables s c
      · simp
      · by_cases hempty : asName = "" <;> simp [hempty]
    all_goals exact iff_of_true rfl trivial
  all_goals first | exact iff_of_true rfl trivial | exact iff_of_true trivial trivial

/-- A database with the tables `message` and `contact`. -/
def messageCatalog : Catalog where
  locate schema name :=
    if schema = "" ∨ same "main" schema then
      if same name "message" then some { schema := "main", columns := ["id", "content"] }
      else if same name "contact" then some { schema := "main", columns := ["name"] }
      else none
    else none
  locate_schema schema name base h hschema := by
    simp only [hschema, false_or] at h
    split_ifs at h with hmain hmessage hcontact
    all_goals
      obtain rfl := Option.some.inj h
      exact hmain

/-- `SELECT message.content FROM ...` -/
def selectContent (sources : List Select) : Select :=
  .select []
    [.core [.resultColumn (.column { table := "message", name := "content" }) ""] sources
      [] []] [] []

end Theorem

end Wcdb
