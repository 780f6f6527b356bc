import Wcdb.Base.StringView
import Wcdb.Lib.SortedMap
import Mathlib.Data.Char
import Mathlib.Data.List.Lex
import Mathlib.Algebra.Order.Ring.Int

/-!
# The schema of a renewed database

`FactoryRenewer::prepare` reads one material of the current database and of each deposited one,
assembles an empty database with every table found there, backs it up, and moves it to the renew
directory.

A table that cannot be assembled ends the loop, but not the renewal: the flag `succeed` is looked at
only after `markAsAssembled` has failed as well. So the renewal is all or nothing exactly when
nothing gets in the way of the tables and the sequences (`Unhindered`) or a later step fails
(`all_or_nothing_iff`). What gets in the way is a call that fails, and also a name that is taken:
SQLite's error for it is ignored, and the infos tell `T` from `t`, which SQLite does not.
-/

namespace Wcdb.RenewedSchema

open UnsafeStringView SortedMap

/-- The name by which SQLite finds a table or an index. -/
def fold (name : Text) : Text := name.map Char.toLower

/-! ### The materials -/

/-- `Material::Content`, as far as a renewal reads it. -/
structure Content where
  sql : Text
  associatedSQLs : List Text
  sequence : ℤ
  deriving DecidableEq, Repr

/-- A material that has been decoded. -/
structure Material where
  contentsMap : List (Text × Content)
  sorted : Sorted contentsMap

/-- What reading the file of a material comes to. -/
inductive MaterialReading where
  | decoded (material : Material)
  | corrupted
  | failed

structure Info where
  sql : Text := []
  sequence : ℤ := 0
  associatedSQLs : List Text := []
  deriving DecidableEq, Repr

abbrev Infos := List (Text × Info)

/-- What becomes of the info of a table, once another material has the table. -/
def Info.merge (info : Option Info) (content : Content) : Info :=
  let info := info.getD { sql := content.sql, associatedSQLs := content.associatedSQLs }
  if content.sequence > info.sequence then { info with sequence := content.sequence } else info

def mergeContent (infos : Infos) (element : Text × Content) : Infos :=
  insertOrAssign element.1 (Info.merge (get? infos element.1) element.2) infos

def mergeMaterial (infos : Infos) (material : Material) : Infos :=
  material.contentsMap.foldl mergeContent infos

/-- The loop over the materials of one database. -/
def resolveInfos (infos : Infos) : List MaterialReading → Infos
  | [] => infos
  | .decoded material :: _ => mergeMaterial infos material
  | .corrupted :: materials => resolveInfos infos materials
  -- it is regarded as no error, and no further material is read
  | .failed :: _ => infos

/-- `resolveInfosForDatabase`. There is no list when the directory could not be searched. -/
def resolveInfosForDatabase (infos : Infos) (materials : Option (List MaterialReading)) :
    Option Infos := materials.map (resolveInfos infos)

/-! ### The assembled database -/

/-- A text of the schema, as SQLite takes it. -/
inductive Definition where
  | table (name : Text)
  | index (name : Text)
  | trigger
  | malformed
  deriving DecidableEq, Repr

/-- The texts of the tables by their names in lower case, the names of the indexes, and the rows of
`sqlite_sequence`. -/
structure Database where
  tables : Text → Option Text
  indexes : Text → Bool
  sequence : Text → Option ℤ

/-- How a call of SQLite fails: with the code `Error`, or with another one. -/
inductive Failure where
  | error
  | other
  deriving DecidableEq, Repr

namespace Database

/-- Tables and indexes have their names from one space. -/
def taken (db : Database) (name : Text) : Bool := (db.tables name).isSome || db.indexes name

def addTable (db : Database) (name sql : Text) : Database :=
  { db with tables := fun other => if other = name then some sql else db.tables other }

def addIndex (db : Database) (name : Text) : Database :=
  { db with indexes := fun other => if other = name then true else db.indexes other }

def setSequence (db : Database) (name : Text) (sequence : ℤ) : Database :=
  { db with sequence := fun other => if other = name then some sequence else db.sequence other }

/-- The counter of a table; a table without one starts from 0. -/
def counter (db : Database) (name : Text) : ℤ := (db.sequence name).getD 0

variable {db : Database} {name sql key : Text}

theorem taken_addTable :
    (db.addTable name sql).taken key = true ↔ db.taken key = true ∨ key = name := by
  by_cases h : key = name <;> simp [taken, addTable, h]

theorem taken_addIndex :
    (db.addIndex name).taken key = true ↔ db.taken key = true ∨ key = name := by
  by_cases h : key = name <;> simp [taken, addIndex, h]

end Database

section Assemble

variable (parse : Text → Definition)

def Database.execute (db : Database) (sql : Text) : Except Failure Database :=
  match parse sql with
  | .table name => if db.taken (fold name) then .error .error else .ok (db.addTable (fold name) sql)
  | .index name => if db.taken (fold name) then .error .error else .ok (db.addIndex (fold name))
  | .trigger => .ok db
  | .malformed => .error .error

/-- `s_dummySequence`: the table that makes SQLite create `sqlite_sequence`. -/
@[irreducible]
def dummySequence : Text := "wcdb_dummy_sqlite_sequence".toList

@[irreducible]
def dummySQL : Text :=
  "CREATE TABLE wcdb_dummy_sqlite_sequence(i INTEGER PRIMARY KEY AUTOINCREMENT)".toList

/-- The database after `markAsAssembling`. -/
def markSequenceAsAssembling : Database where
  tables name := if name = fold dummySequence then some dummySQL else none
  indexes _ := false
  sequence _ := none

/-- `DROP TABLE` takes the row of `sqlite_sequence` with it. -/
def markSequenceAsAssembled (db : Database) : Database :=
  { db with
    tables := fun name => if name = fold dummySequence then none else db.tables name
    sequence := fun name => if name = dummySequence then none else db.sequence name }

/-- Which calls of the loop fail, apart from what SQLite itself refuses: the CREATE of a table, the
two statements for its sequence, and its associated SQLs by their positions. -/
structure Faults where
  assembleTable : Text → Option Failure
  updateSequence : Text → Bool
  insertSequence : Text → Bool
  assembleSQL : Text → ℕ → Option Failure

variable (faults : Faults)

def executeSQL (fault : Option Failure) (sql : Text) (db : Database) : Except Failure Database :=
  match fault with
  | some failure => .error failure
  | none => db.execute parse sql

def assembleTable (tableName sql : Text) (db : Database) : Bool × Database :=
  match executeSQL parse (faults.assembleTable tableName) sql db with
  | .ok db => (true, db)
  | .error .error => (true, db)
  | .error .other => (false, db)

/-- The caller does not look at the result. -/
def assembleSQL (fault : Option Failure) (sql : Text) (db : Database) : Database :=
  match executeSQL parse fault sql db with
  | .ok db => db
  | .error _ => db

def assembleSequence (tableName : Text) (sequence : ℤ) (db : Database) : Bool × Database :=
  if sequence = 0 then (true, db)
  else if faults.updateSequence tableName then (false, db)
  else if (db.sequence tableName).isSome then (true, db.setSequence tableName sequence)
  else if faults.insertSequence tableName then (false, db)
  else (true, db.setSequence tableName sequence)

/-- The loop over the associated SQLs, from a position on. -/
def assembleAssociated (tableName : Text) : ℕ → List Text → Database → Database
  | _, [], db => db
  | i, sql :: sqls, db =>
    assembleAssociated tableName (i + 1) sqls
      (assembleSQL parse (faults.assembleSQL tableName i) sql db)

/-- One pass of the loop over the infos. -/
def assembleInfo (tableName : Text) (info : Info) (db : Database) : Bool × Database :=
  match assembleTable parse faults tableName info.sql db with
  | (false, db) => (false, db)
  | (true, db) =>
    match assembleSequence faults tableName info.sequence db with
    | (false, db) => (false, db)
    | (true, db) => (true, assembleAssociated parse faults tableName 0 info.associatedSQLs db)

/-- The loop over the infos, with the value of `succeed` after it. -/
def assembleInfos : Infos → Database → Bool × Database
  | [], db => (true, db)
  | (tableName, info) :: infos, db =>
    match assembleInfo parse faults tableName info db with
    | (false, db) => (false, db)
    | (true, db) => assembleInfos infos db

end Assemble

/-! ### `prepare` -/

/-- How `moveItems` can end. A path that it cannot look up ends the first of its loops, but not the
second, which removes what should have been moved. -/
inductive MoveOutcome where
  | moved
  | movedNotCleaned
  | skipped
  | failed
  deriving DecidableEq, Repr

def MoveOutcome.succeed : MoveOutcome → Bool
  | .moved | .skipped => true
  | .movedNotCleaned | .failed => false

def MoveOutcome.arrives : MoveOutcome → Bool
  | .moved | .movedNotCleaned => true
  | .skipped | .failed => false

/-- What the steps of a renewal find, and whether they work. -/
structure Environment where
  temporaryDirectory : Bool
  current : Option (List MaterialReading)
  workshops : Option (List (Option (List MaterialReading)))
  markAsAssembling : Bool
  faults : Faults
  markAsAssembled : Bool
  fileSize : Option ℕ
  backup : Bool
  removeItems : Bool
  moveItems : MoveOutcome

/-- The database in the renew directory, compared with the one that was there. -/
inductive Renewed where
  | kept
  | removed
  | replaced (db : Database)

def prepare (parse : Text → Definition) (env : Environment) : Bool × Renewed :=
  -- 1. create temp directory for acquisition
  if !env.temporaryDirectory then (false, .kept)
  else
    -- 2. get deposited directories for acquisition
    match env.workshops with
    | none => (false, .kept)
    | some workshopDirectories =>
      -- 3. resolve infos
      match (env.current :: workshopDirectories).foldlM resolveInfosForDatabase [] with
      | none => (false, .kept)
      | some infos =>
        -- 4. assemble infos
        if !env.markAsAssembling then (false, .kept)
        else
          let (_succeed, db) := assembleInfos parse env.faults infos markSequenceAsAssembling
          -- `succeed` is only looked at to choose the error
          if !env.markAsAssembled then (false, .kept)
          else
            -- 5. force backup assembled database if exists
            match env.fileSize with
            | none => (false, .kept)
            | some size =>
              if size > 0 && !env.backup then (false, .kept)
              -- 6. move the assembled database to renew directory and wait for renew
              else if !env.removeItems then (false, .kept)
              else (env.moveItems.succeed,
                if env.moveItems.arrives then .replaced (markSequenceAsAssembled db) else .removed)

/-! ### All or nothing -/

/-- The material of a database that a renewal uses. -/
def choose : List MaterialReading → Option Material
  | [] => none
  | .decoded material :: _ => some material
  | .corrupted :: materials => choose materials
  | .failed :: _ => none

def chosen (databases : List (Option (List MaterialReading))) : List Material :=
  databases.filterMap fun materials => materials.bind choose

/-- The content of a table in the first database that has it. -/
def firstContent (materials : List Material) (name : Text) : Option Content :=
  materials.findSome? fun material => get? material.contentsMap name

def maxSequence (materials : List Material) (name : Text) : ℤ :=
  (materials.filterMap fun material => get? material.contentsMap name).foldl
    (fun sequence content => max sequence content.sequence) 0

/-- Every table of the materials is there with its first text and its greatest sequence. -/
def Complete (materials : List Material) (db : Database) : Prop :=
  ∀ name content, firstContent materials name = some content →
    db.tables (fold name) = some content.sql ∧ db.counter name = maxSequence materials name

namespace Environment

variable (env : Environment)

def databases : List (Option (List MaterialReading)) := env.current :: env.workshops.getD []

def materials : List Material := chosen env.databases

/-- What the loop makes of the materials. -/
def assembled (parse : Text → Definition) : Database :=
  markSequenceAsAssembled
    (assembleInfos parse env.faults (env.materials.foldl mergeMaterial [])
      markSequenceAsAssembling).2

/-- No step before the last one fails, whatever becomes of the tables. -/
structure ReachesMove : Prop where
  temporaryDirectory : env.temporaryDirectory = true
  workshops : env.workshops.isSome
  databases : ∀ materials ∈ env.databases, materials.isSome
  markAsAssembling : env.markAsAssembling = true
  markAsAssembled : env.markAsAssembled = true
  fileSize : env.fileSize.isSome
  backup : ∀ size, env.fileSize = some size → 0 < size → env.backup = true
  removeItems : env.removeItems = true

end Environment

/-- Every text is one that SQLite accepts for what it is stored as. -/
structure Acceptable (parse : Text → Definition) (materials : List Material) : Prop where
  table : ∀ material ∈ materials, ∀ e ∈ material.contentsMap, parse e.2.sql = .table e.1
  associated : ∀ material ∈ materials, ∀ e ∈ material.contentsMap, ∀ sql ∈ e.2.associatedSQLs,
    ∀ name, parse sql ≠ .table name

structure AllOrNothing (parse : Text → Definition) (env : Environment) : Prop where
  all : (prepare parse env).1 = true →
    ∃ db, (prepare parse env).2 = .replaced db ∧ Complete env.materials db
  nothing : ¬Complete env.materials (env.assembled parse) →
    (prepare parse env).1 = false ∧ ∀ db, (prepare parse env).2 ≠ .replaced db

/-- Nothing gets in the way of the tables and the sequences: no call for them fails, and no name is
that of the dummy table or, in lower case, that of a table or an index from before. The tables come
in the order of their names. -/
structure Unhindered (parse : Text → Definition) (faults : Faults) (materials : List Material) :
    Prop where
  table : ∀ name content, firstContent materials name = some content →
    faults.assembleTable name = none
  sequence : ∀ name content, firstContent materials name = some content →
    maxSequence materials name ≠ 0 →
    faults.updateSequence name = false ∧ faults.insertSequence name = false
  dummy : ∀ name content, firstContent materials name = some content →
    fold name ≠ fold dummySequence
  tables : ∀ name content name' content', firstContent materials name = some content →
    firstContent materials name' = some content' → name < name' → fold name ≠ fold name'
  indexes : ∀ name content name' content', firstContent materials name = some content →
    firstContent materials name' = some content' → name < name' →
    ∀ i sql index, content.associatedSQLs[i]? = some sql → faults.assembleSQL name i = none →
    parse sql = .index index → fold index ≠ fold name'

section Infos

variable {infos : Infos} {name : Text} {contents : List (Text × Content)}
  {materials : List Material}

theorem resolveInfos_eq (readings : List MaterialReading) :
    resolveInfos infos readings = (choose readings).elim infos (mergeMaterial infos) := by
  induction readings with
  | nil => rfl
  | cons reading readings ih =>
    cases reading with
    | decoded material => rfl
    | corrupted => exact ih
    | failed => rfl

theorem foldlM_resolveInfosForDatabase {databases : List (Option (List MaterialReading))}
    (h : ∀ readings ∈ databases, readings.isSome) :
    databases.foldlM resolveInfosForDatabase infos =
      some ((chosen databases).foldl mergeMaterial infos) := by
  induction databases generalizing infos with
  | nil => rfl
  | cons readings databases ih =>
    obtain ⟨readings, rfl⟩ := Option.isSome_iff_exists.mp (h readings List.mem_cons_self)
    have hrest := fun readings hmem => h readings (List.mem_cons_of_mem _ hmem)
    rw [List.foldlM_cons, resolveInfosForDatabase, Option.map_some, resolveInfos_eq, chosen,
      List.filterMap_cons, Option.bind_some]
    cases choose readings with
    | none => exact ih hrest
    | some material => exact ih hrest

theorem foldlM_resolveInfosForDatabase_eq_none {databases : List (Option (List MaterialReading))}
    (h : ¬∀ readings ∈ databases, readings.isSome) :
    databases.foldlM resolveInfosForDatabase infos = none := by
  induction databases generalizing infos with
  | nil => exact absurd (fun _ hmem => nomatch hmem) h
  | cons readings databases ih =>
    rw [List.foldlM_cons]
    cases readings with
    | none => rfl
    | some readings =>
      refine ih fun hrest => h fun other hmem => ?_
      rcases List.mem_cons.mp hmem with rfl | hmem
      · rfl
      · exact hrest other hmem

theorem Info.merge_none (content : Content) : Info.merge none content =
    ⟨content.sql, max 0 content.sequence, content.associatedSQLs⟩ := by
  by_cases h : content.sequence > 0
  · simp [Info.merge, h, max_eq_right h.le]
  · simp [Info.merge, h, max_eq_left (not_lt.mp h)]

theorem Info.merge_some (info : Info) (content : Content) : Info.merge (some info) content =
    { info with sequence := max info.sequence content.sequence } := by
  by_cases h : content.sequence > info.sequence
  · simp [Info.merge, h, max_eq_right h.le]
  · simp [Info.merge, h, max_eq_left (not_lt.mp h)]

theorem get?_foldl_mergeContent (h : Sorted contents) :
    get? (contents.foldl mergeContent infos) name =
      match get? contents name with
      | none => get? infos name
      | some content => some (Info.merge (get? infos name) content) := by
  induction contents generalizing infos with
  | nil => rfl
  | cons e contents ih =>
    rw [List.foldl_cons, ih h.tail, get?_cons, mergeContent, get?_insertOrAssign]
    by_cases hname : e.1 = name
    · have hnone : get? contents name = none := by
        refine Option.eq_none_iff_forall_ne_some.mpr fun content hsome => ?_
        have hmem := h.tail.mem_iff (e := (name, content)) |>.mpr hsome
        exact ((List.pairwise_cons.mp h).1 _ hmem).ne hname
      rw [hnone, if_pos hname, if_pos hname, hname]
    · rw [if_neg hname, if_neg hname]

theorem get?_foldl_mergeMaterial :
    get? (materials.foldl mergeMaterial infos) name =
      (materials.filterMap fun material => get? material.contentsMap name).foldl
        (fun info content => some (Info.merge info content)) (get? infos name) := by
  induction materials generalizing infos with
  | nil => rfl
  | cons material materials ih =>
    rw [List.foldl_cons, ih, mergeMaterial, get?_foldl_mergeContent material.sorted,
      List.filterMap_cons]
    cases get? material.contentsMap name with
    | none => rfl
    | some content => rfl

theorem foldl_merge_some (info : Info) (found : List Content) :
    found.foldl (fun info content => some (Info.merge info content)) (some info) =
      some { info with
        sequence := found.foldl (fun sequence content => max sequence content.sequence)
          info.sequence } := by
  induction found generalizing info with
  | nil => rfl
  | cons content found ih => rw [List.foldl_cons, Info.merge_some, ih, List.foldl_cons]

/-- The infos hold what the first database says, and the greatest sequence. -/
theorem get?_infos : get? (materials.foldl mergeMaterial []) name =
    (firstContent materials name).map fun content =>
      ⟨content.sql, maxSequence materials name, content.associatedSQLs⟩ := by
  rw [get?_foldl_mergeMaterial, firstContent, ← List.head?_filterMap, maxSequence, get?_nil]
  cases materials.filterMap fun material => get? material.contentsMap name with
  | nil => rfl
  | cons content found =>
    rw [List.foldl_cons, Info.merge_none, foldl_merge_some]
    rfl

theorem sorted_mergeMaterial (h : Sorted infos) (material : Material) :
    Sorted (mergeMaterial infos material) := by
  rw [mergeMaterial]
  induction material.contentsMap generalizing infos with
  | nil => exact h
  | cons e contents ih => exact ih h.insertOrAssign

theorem sorted_infos (h : Sorted infos) : Sorted (materials.foldl mergeMaterial infos) := by
  induction materials generalizing infos with
  | nil => exact h
  | cons material materials ih => exact ih (sorted_mergeMaterial h material)

end Infos

/-! ### One pass of the loop -/

section Pass

variable {parse : Text → Definition} {faults : Faults} {db : Database} {name sql key text : Text}
  {info : Info} {fault : Option Failure}

theorem assembleSQL_tables (h : ∀ name, parse sql ≠ .table name) :
    (assembleSQL parse fault sql db).tables = db.tables := by
  cases fault with
  | some failure => rfl
  | none =>
    rw [assembleSQL, executeSQL, Database.execute]
    cases hparse : parse sql with
    | table name => exact absurd hparse (h name)
    | index index => by_cases htaken : db.taken (fold index) <;> simp [htaken, Database.addIndex]
    | trigger => rfl
    | malformed => rfl

theorem assembleSQL_sequence : (assembleSQL parse fault sql db).sequence = db.sequence := by
  cases fault with
  | some failure => rfl
  | none =>
    rw [assembleSQL, executeSQL, Database.execute]
    cases parse sql with
    | table name => by_cases htaken : db.taken (fold name) <;> simp [htaken, Database.addTable]
    | index index => by_cases htaken : db.taken (fold index) <;> simp [htaken, Database.addIndex]
    | trigger => rfl
    | malformed => rfl

/-- The name of an index is taken once its text has been executed, also when it was before. -/
theorem assembleSQL_taken (h : ∀ name, parse sql ≠ .table name) :
    (assembleSQL parse fault sql db).taken key = true ↔ db.taken key = true ∨
      fault = none ∧ ∃ index, parse sql = .index index ∧ fold index = key := by
  cases fault with
  | some failure => simp [assembleSQL, executeSQL]
  | none =>
    rw [assembleSQL, executeSQL, Database.execute]
    cases hparse : parse sql with
    | table name => exact absurd hparse (h name)
    | index index =>
      by_cases htaken : db.taken (fold index)
      · simp only [htaken, if_true, Definition.index.injEq, true_and]
        refine ⟨.inl, fun hor => hor.elim id ?_⟩
        rintro ⟨_, rfl, rfl⟩
        exact htaken
      · simp only [htaken, Bool.false_eq_true, if_false, Database.taken_addIndex,
          Definition.index.injEq, true_and, exists_eq_left']
        exact or_congr_right eq_comm
    | trigger => simp
    | malformed => simp

section Associated

variable {sqls : List Text} {i : ℕ}

theorem assembleAssociated_tables (h : ∀ sql ∈ sqls, ∀ name, parse sql ≠ .table name) :
    (assembleAssociated parse faults name i sqls db).tables = db.tables := by
  induction sqls generalizing i db with
  | nil => rfl
  | cons sql sqls ih =>
    rw [assembleAssociated, ih fun sql hsql => h sql (List.mem_cons_of_mem _ hsql),
      assembleSQL_tables (h sql List.mem_cons_self)]

theorem assembleAssociated_sequence :
    (assembleAssociated parse faults name i sqls db).sequence = db.sequence := by
  induction sqls generalizing i db with
  | nil => rfl
  | cons sql sqls ih => rw [assembleAssociated, ih, assembleSQL_sequence]

/-- An associated SQL that is executed takes the name of an index. -/
def TakesName (parse : Text → Definition) (faults : Faults) (name : Text) (i : ℕ)
    (sqls : List Text) (key : Text) : Prop :=
  ∃ j sql, sqls[j]? = some sql ∧ faults.assembleSQL name (i + j) = none ∧
    ∃ index, parse sql = .index index ∧ fold index = key

theorem takesName_cons : TakesName parse faults name i (sql :: sqls) key ↔
    (faults.assembleSQL name i = none ∧ ∃ index, parse sql = .index index ∧ fold index = key) ∨
      TakesName parse faults name (i + 1) sqls key := by
  constructor
  · rintro ⟨j, other, hother, hrest⟩
    cases j with
    | zero => exact .inl (Option.some.inj hother ▸ hrest)
    | succ j => exact .inr ⟨j, other, hother, (Nat.succ_add_eq_add_succ i j).symm ▸ hrest⟩
  · rintro (hhead | ⟨j, other, hother, hrest⟩)
    · exact ⟨0, sql, rfl, hhead⟩
    · exact ⟨j + 1, other, hother, (Nat.succ_add_eq_add_succ i j) ▸ hrest⟩

theorem assembleAssociated_taken (h : ∀ sql ∈ sqls, ∀ name, parse sql ≠ .table name) :
    (assembleAssociated parse faults name i sqls db).taken key = true ↔
      db.taken key = true ∨ TakesName parse faults name i sqls key := by
  induction sqls generalizing i db with
  | nil => simp [assembleAssociated, TakesName]
  | cons sql sqls ih =>
    rw [assembleAssociated, ih fun sql hsql => h sql (List.mem_cons_of_mem _ hsql),
      assembleSQL_taken (h sql List.mem_cons_self), takesName_cons, or_assoc]

end Associated

/-- What is needed for a table and its sequence to be assembled. -/
structure Passes (faults : Faults) (db : Database) (name : Text) (info : Info) : Prop where
  table : faults.assembleTable name = none
  free : db.taken (fold name) = false
  sequence : info.sequence ≠ 0 →
    faults.updateSequence name = false ∧ faults.insertSequence name = false

theorem assembleTable_free (hparse : parse sql = .table name)
    (hfault : faults.assembleTable name = none) (hfree : db.taken (fold name) = false) :
    assembleTable parse faults name sql db = (true, db.addTable (fold name) sql) := by
  simp [assembleTable, executeSQL, Database.execute, hfault, hparse, hfree]

theorem assembleTable_hindered (hparse : parse sql = .table name)
    (h : ¬(faults.assembleTable name = none ∧ db.taken (fold name) = false)) :
    (assembleTable parse faults name sql db).2 = db := by
  rw [assembleTable]
  cases hfault : faults.assembleTable name with
  | some failure => cases failure <;> rfl
  | none =>
    have htaken : db.taken (fold name) = true := by simpa [hfault] using h
    simp [executeSQL, Database.execute, hparse, htaken]

theorem assembleSequence_tables (sequence : ℤ) :
    (assembleSequence faults name sequence db).2.tables = db.tables := by
  rw [assembleSequence]
  split_ifs <;> rfl

theorem assembleSequence_sequence {other : Text} (hother : other ≠ name) (sequence : ℤ) :
    (assembleSequence faults name sequence db).2.sequence other = db.sequence other := by
  rw [assembleSequence]
  split_ifs <;> simp [Database.setSequence, hother]

theorem assembleSequence_taken (sequence : ℤ) :
    (assembleSequence faults name sequence db).2.taken key = db.taken key := by
  rw [assembleSequence]
  split_ifs <;> rfl

/-- The counter is set unless one of the two statements fails. -/
theorem assembleSequence_counter (db : Database) (hnone : db.sequence name = none)
    (h : info.sequence ≠ 0 →
      faults.updateSequence name = false ∧ faults.insertSequence name = false) :
    (assembleSequence faults name info.sequence db).1 = true ∧
      (assembleSequence faults name info.sequence db).2.counter name = info.sequence := by
  rw [assembleSequence]
  by_cases hzero : info.sequence = 0
  · simp [hzero, Database.counter, hnone]
  · simp [hzero, hnone, h hzero, Database.counter, Database.setSequence]

theorem assembleSequence_fails (db : Database) (hnone : db.sequence name = none) {sequence : ℤ}
    (hzero : sequence ≠ 0)
    (h : ¬(faults.updateSequence name = false ∧ faults.insertSequence name = false)) :
    assembleSequence faults name sequence db = (false, db) := by
  rw [assembleSequence, if_neg hzero]
  cases hupdate : faults.updateSequence name with
  | true => rfl
  | false =>
    have hinsert : faults.insertSequence name = true := by simpa [hupdate] using h
    simp [hnone, hinsert]

/-- The three ways through a pass. -/
theorem assembleInfo_cases (parse : Text → Definition) (faults : Faults) (name : Text) (info : Info)
    (db : Database) : let table := assembleTable parse faults name info.sql db
    let sequence := assembleSequence faults name info.sequence table.2
    assembleInfo parse faults name info db = (false, table.2) ∧ table.1 = false ∨
      assembleInfo parse faults name info db = (false, sequence.2) ∧ sequence.1 = false ∨
      assembleInfo parse faults name info db =
        (true, assembleAssociated parse faults name 0 info.associatedSQLs sequence.2) ∧
        table.1 = true ∧ sequence.1 = true := by
  intro table sequence
  rw [assembleInfo]
  rcases htable : assembleTable parse faults name info.sql db with ⟨_ | _, db₁⟩
  · exact .inl (by simp [table, htable])
  rcases hsequence : assembleSequence faults name info.sequence db₁ with ⟨_ | _, db₂⟩
  · exact .inr (.inl (by simp [sequence, table, htable, hsequence]))
  · exact .inr (.inr (by simp [sequence, table, htable, hsequence]))

/-- The texts of an info are what SQLite accepts for them. -/
structure Info.Acceptable (parse : Text → Definition) (name : Text) (info : Info) : Prop where
  table : parse info.sql = .table name
  associated : ∀ sql ∈ info.associatedSQLs, ∀ other, parse sql ≠ .table other

theorem assembleTable_sequence :
    (assembleTable parse faults name sql db).2.sequence = db.sequence := by
  rw [assembleTable]
  cases hfault : faults.assembleTable name with
  | some failure => cases failure <;> rfl
  | none =>
    rw [executeSQL, Database.execute]
    cases parse sql with
    | table other =>
      by_cases htaken : db.taken (fold other) <;> simp [htaken, Database.addTable]
    | index index => by_cases htaken : db.taken (fold index) <;> simp [htaken, Database.addIndex]
    | trigger => rfl
    | malformed => rfl

theorem assembleTable_keeps (hparse : parse sql = .table name) (h : db.tables key = some text) :
    (assembleTable parse faults name sql db).2.tables key = some text := by
  by_cases hfree : faults.assembleTable name = none ∧ db.taken (fold name) = false
  · rw [assembleTable_free hparse hfree.1 hfree.2]
    have hne : key ≠ fold name := by
      rintro rfl
      have htaken : db.taken (fold name) = true := by simp [Database.taken, h]
      exact absurd htaken (by simp [hfree.2])
    simp [Database.addTable, hne, h]
  · rw [assembleTable_hindered hparse hfree, h]

theorem assembleTable_adds (hparse : parse sql = .table name)
    (h : (assembleTable parse faults name sql db).2.tables key = some text) :
    db.tables key = some text ∨ key = fold name ∧ text = sql := by
  by_cases hfree : faults.assembleTable name = none ∧ db.taken (fold name) = false
  · rw [assembleTable_free hparse hfree.1 hfree.2] at h
    by_cases hkey : key = fold name
    · simp only [Database.addTable, if_pos hkey, Option.some.injEq] at h
      exact .inr ⟨hkey, h.symm⟩
    · simp only [Database.addTable, if_neg hkey] at h
      exact .inl h
  · rw [assembleTable_hindered hparse hfree] at h
    exact .inl h

theorem assembleInfo_tables (hok : info.Acceptable parse name) :
    (assembleInfo parse faults name info db).2.tables =
      (assembleTable parse faults name info.sql db).2.tables := by
  rcases assembleInfo_cases parse faults name info db with ⟨h, -⟩ | ⟨h, -⟩ | ⟨h, -⟩
  · rw [h]
  · rw [h, assembleSequence_tables]
  · rw [h, assembleAssociated_tables hok.associated, assembleSequence_tables]

theorem assembleInfo_sequence (parse : Text → Definition) (faults : Faults) (info : Info)
    (db : Database) {other : Text} (hother : other ≠ name) :
    (assembleInfo parse faults name info db).2.sequence other = db.sequence other := by
  rcases assembleInfo_cases parse faults name info db with ⟨h, -⟩ | ⟨h, -⟩ | ⟨h, -⟩
  · rw [h, assembleTable_sequence]
  · rw [h, assembleSequence_sequence hother, assembleTable_sequence]
  · rw [h, assembleAssociated_sequence, assembleSequence_sequence hother, assembleTable_sequence]

/-- A pass that nothing hinders. -/
theorem Passes.assembleInfo_eq (h : Passes faults db name info) (hok : info.Acceptable parse name)
    (hnone : db.sequence name = none) :
    assembleInfo parse faults name info db =
      (true, assembleAssociated parse faults name 0 info.associatedSQLs
        (assembleSequence faults name info.sequence (db.addTable (fold name) info.sql)).2) := by
  have hcounter := assembleSequence_counter (db.addTable (fold name) info.sql) hnone h.sequence
  rw [assembleInfo, assembleTable_free hok.table h.table h.free]
  rcases hsequence : assembleSequence faults name info.sequence (db.addTable (fold name) info.sql)
    with ⟨succeed, after⟩
  rw [hsequence] at hcounter
  obtain rfl : succeed = true := hcounter.1
  simp only [hsequence]

theorem Passes.assembled (h : Passes faults db name info) (hok : info.Acceptable parse name)
    (hnone : db.sequence name = none) :
    (assembleInfo parse faults name info db).2.tables (fold name) = some info.sql ∧
      (assembleInfo parse faults name info db).2.counter name = info.sequence := by
  constructor
  · rw [assembleInfo_tables hok, assembleTable_free hok.table h.table h.free]
    exact if_pos rfl
  · rw [h.assembleInfo_eq hok hnone, Database.counter, assembleAssociated_sequence]
    exact (assembleSequence_counter (db.addTable (fold name) info.sql) hnone h.sequence).2

theorem Passes.taken_iff (h : Passes faults db name info) (hok : info.Acceptable parse name)
    (hnone : db.sequence name = none) :
    (assembleInfo parse faults name info db).2.taken key = true ↔
      db.taken key = true ∨ key = fold name ∨
        TakesName parse faults name 0 info.associatedSQLs key := by
  rw [h.assembleInfo_eq hok hnone, assembleAssociated_taken hok.associated,
    assembleSequence_taken, Database.taken_addTable, or_assoc]

/-- Only a pass that nothing hinders leaves the table and its sequence behind. -/
theorem passes_of_assembled (hok : info.Acceptable parse name) (hnone : db.sequence name = none)
    (hfresh : db.tables (fold name) ≠ some info.sql)
    (htable : (assembleInfo parse faults name info db).2.tables (fold name) = some info.sql)
    (hcounter : (assembleInfo parse faults name info db).1 = true ∨
      (assembleInfo parse faults name info db).2.counter name = info.sequence) :
    Passes faults db name info := by
  have hfree : faults.assembleTable name = none ∧ db.taken (fold name) = false := by
    by_contra hnot
    rw [assembleInfo_tables hok, assembleTable_hindered hok.table hnot] at htable
    exact hfresh htable
  refine ⟨hfree.1, hfree.2, fun hzero => ?_⟩
  by_contra hnot
  have hpass : assembleInfo parse faults name info db =
      (false, db.addTable (fold name) info.sql) := by
    rw [assembleInfo, assembleTable_free hok.table hfree.1 hfree.2]
    have hfails := assembleSequence_fails (db.addTable (fold name) info.sql) hnone hzero hnot
    simp only [hfails]
  rw [hpass] at hcounter
  have hvalue : (db.addTable (fold name) info.sql).counter name = 0 := by
    rw [Database.counter, show (db.addTable (fold name) info.sql).sequence name = none from hnone]
    rfl
  exact hcounter.elim Bool.false_ne_true fun h => hzero (h ▸ hvalue)

end Pass

/-! ### The loop -/

section Loop

variable {parse : Text → Definition} {faults : Faults} {db : Database} {infos : Infos}
  {name key text : Text}

/-- Every pass goes through. -/
def Unopposed (parse : Text → Definition) (faults : Faults) : Infos → Database → Prop
  | [], _ => True
  | (name, info) :: infos, db => Passes faults db name info ∧
      Unopposed parse faults infos (assembleInfo parse faults name info db).2

theorem assembleInfos_keeps (hok : ∀ e ∈ infos, e.2.Acceptable parse e.1)
    (h : db.tables key = some text) :
    (assembleInfos parse faults infos db).2.tables key = some text := by
  induction infos generalizing db with
  | nil => exact h
  | cons e infos ih =>
    have hpass : (assembleInfo parse faults e.1 e.2 db).2.tables key = some text := by
      rw [assembleInfo_tables (hok e List.mem_cons_self)]
      exact assembleTable_keeps (hok e List.mem_cons_self).table h
    rw [assembleInfos]
    rcases hinfo : assembleInfo parse faults e.1 e.2 db with ⟨_ | _, after⟩
    · rwa [hinfo] at hpass
    · rw [hinfo] at hpass
      exact ih (fun e he => hok e (List.mem_cons_of_mem _ he)) hpass

theorem assembleInfos_adds (hok : ∀ e ∈ infos, e.2.Acceptable parse e.1)
    (h : (assembleInfos parse faults infos db).2.tables key = some text) :
    db.tables key = some text ∨ ∃ e ∈ infos, text = e.2.sql := by
  induction infos generalizing db with
  | nil => exact .inl h
  | cons e infos ih =>
    have hpass : (assembleInfo parse faults e.1 e.2 db).2.tables key = some text →
        db.tables key = some text ∨ ∃ e' ∈ e :: infos, text = e'.2.sql := by
      rw [assembleInfo_tables (hok e List.mem_cons_self)]
      intro hadds
      exact (assembleTable_adds (hok e List.mem_cons_self).table hadds).imp_right
        fun hsql => ⟨e, List.mem_cons_self, hsql.2⟩
    rw [assembleInfos] at h
    rcases hinfo : assembleInfo parse faults e.1 e.2 db with ⟨_ | _, after⟩
    · rw [hinfo] at h hpass
      exact hpass h
    · rw [hinfo] at h hpass
      rcases ih (fun e he => hok e (List.mem_cons_of_mem _ he)) h with h | ⟨e', he', hsql⟩
      · exact hpass h
      · exact .inr ⟨e', List.mem_cons_of_mem _ he', hsql⟩

theorem assembleInfos_sequence (h : ∀ e ∈ infos, name ≠ e.1) :
    (assembleInfos parse faults infos db).2.sequence name = db.sequence name := by
  induction infos generalizing db with
  | nil => rfl
  | cons e infos ih =>
    have hpass := assembleInfo_sequence parse faults e.2 db (h e List.mem_cons_self)
    rw [assembleInfos]
    rcases hinfo : assembleInfo parse faults e.1 e.2 db with ⟨_ | _, after⟩
    · rwa [hinfo] at hpass
    · rw [hinfo] at hpass
      exact (ih fun e he => h e (List.mem_cons_of_mem _ he)).trans hpass

/-- The loop leaves all the tables and sequences behind when every pass goes through, and only
then. -/
theorem assembled_iff_unopposed (hsorted : Sorted infos)
    (hok : ∀ e ∈ infos, e.2.Acceptable parse e.1)
    (hfresh : ∀ e ∈ infos, db.tables (fold e.1) ≠ some e.2.sql ∧ db.sequence e.1 = none) :
    (∀ e ∈ infos, (assembleInfos parse faults infos db).2.tables (fold e.1) = some e.2.sql ∧
      (assembleInfos parse faults infos db).2.counter e.1 = e.2.sequence) ↔
      Unopposed parse faults infos db := by
  induction infos generalizing db with
  | nil => exact ⟨fun _ => trivial, fun _ _ hmem => nomatch hmem⟩
  | cons e infos ih =>
    obtain ⟨name, info⟩ := e
    have hhead := hok _ List.mem_cons_self
    have hnone := (hfresh _ List.mem_cons_self).2
    have hnames : ∀ e ∈ infos, name ≠ e.1 :=
      fun e he => ((List.pairwise_cons.mp hsorted).1 e he).ne
    have hsqls : ∀ e ∈ infos, info.sql ≠ e.2.sql := fun e he heq => hnames e he (by
      have htable := (hok e (List.mem_cons_of_mem _ he)).table
      rw [← heq, hhead.table] at htable
      exact Definition.table.inj htable)
    have hokRest := fun e he => hok e (List.mem_cons_of_mem _ he)
    -- what the loop leaves of the head depends on its own pass only
    have hrun : ∀ after, assembleInfo parse faults name info db = (true, after) →
        assembleInfos parse faults ((name, info) :: infos) db =
          assembleInfos parse faults infos after := fun after h => by
      rw [assembleInfos]
      simp only [h]
    have hfreshRest : ∀ after, assembleInfo parse faults name info db = (true, after) →
        ∀ e ∈ infos, after.tables (fold e.1) ≠ some e.2.sql ∧ after.sequence e.1 = none := by
      intro after h e he
      have hfreshDb := hfresh e (List.mem_cons_of_mem _ he)
      constructor
      · intro htable
        have hafter : (assembleInfo parse faults name info db).2.tables = _ :=
          assembleInfo_tables hhead
        rw [h] at hafter
        rw [hafter] at htable
        rcases assembleTable_adds hhead.table htable with hold | ⟨-, hsql⟩
        · exact hfreshDb.1 hold
        · exact hsqls e he hsql.symm
      · have hafter := assembleInfo_sequence parse faults info db (hnames e he).symm
        rw [h] at hafter
        exact hafter.trans hfreshDb.2
    constructor
    · intro hall
      have hassembled := hall _ List.mem_cons_self
      rcases hinfo : assembleInfo parse faults name info db with ⟨_ | _, after⟩
      · -- the loop ends here, so the pass has left what there is
        have hend : assembleInfos parse faults ((name, info) :: infos) db = (false, after) := by
          rw [assembleInfos]
          simp only [hinfo]
        rw [hend] at hassembled
        have hpasses : Passes faults db name info := passes_of_assembled hhead hnone
          (hfresh _ List.mem_cons_self).1 (by rw [hinfo]; exact hassembled.1)
          (.inr (by rw [hinfo]; exact hassembled.2))
        rw [hpasses.assembleInfo_eq hhead hnone] at hinfo
        exact absurd (congrArg Prod.fst hinfo) Bool.noConfusion
      · rw [hrun after hinfo] at hassembled hall
        have htable : after.tables (fold name) = some info.sql := by
          rcases hafter : after.tables (fold name) with _ | text
          · rcases assembleInfos_adds hokRest hassembled.1 with h | ⟨e, he, hsql⟩
            · rw [hafter] at h
              exact nomatch h
            · exact absurd hsql (hsqls e he)
          · rw [assembleInfos_keeps hokRest hafter] at hassembled
            exact hassembled.1
        have hpasses : Passes faults db name info := passes_of_assembled hhead hnone
          (hfresh _ List.mem_cons_self).1 (by rw [hinfo]; exact htable) (.inl (by rw [hinfo]))
        refine ⟨hpasses, ?_⟩
        rw [hinfo]
        exact (ih hsorted.tail hokRest (hfreshRest after hinfo)).mp
          fun e he => hall e (List.mem_cons_of_mem _ he)
    · rintro ⟨hpasses, hrest⟩
      have hpass := hpasses.assembleInfo_eq hhead hnone
      have hassembled := hpasses.assembled hhead hnone
      generalize assembleAssociated parse faults name 0 info.associatedSQLs _ = after at hpass
      rw [hpass] at hrest hassembled
      rw [hrun after hpass]
      intro e he
      rcases List.mem_cons.mp he with rfl | he
      · refine ⟨assembleInfos_keeps hokRest hassembled.1, ?_⟩
        rw [Database.counter, assembleInfos_sequence hnames]
        exact hassembled.2
      · exact (ih hsorted.tail hokRest (hfreshRest after hpass)).mpr hrest e he

/-- A table leaves the name of a later one alone, and so do its indexes. -/
structure Apart (parse : Text → Definition) (faults : Faults) (e e' : Text × Info) : Prop where
  table : fold e.1 ≠ fold e'.1
  indexes : ¬TakesName parse faults e.1 0 e.2.associatedSQLs (fold e'.1)

theorem passes_after_iff {e e' : Text × Info} (h : Passes faults db e.1 e.2)
    (hok : e.2.Acceptable parse e.1) (hnone : db.sequence e.1 = none) :
    Passes faults (assembleInfo parse faults e.1 e.2 db).2 e'.1 e'.2 ↔
      Passes faults db e'.1 e'.2 ∧ Apart parse faults e e' := by
  have htaken : (assembleInfo parse faults e.1 e.2 db).2.taken (fold e'.1) = true ↔ _ :=
    h.taken_iff hok hnone
  constructor
  · intro h'
    have hnot : ¬(db.taken (fold e'.1) = true ∨ fold e'.1 = fold e.1 ∨
        TakesName parse faults e.1 0 e.2.associatedSQLs (fold e'.1)) := by
      rw [← htaken, h'.free]
      exact Bool.false_ne_true
    rw [not_or, not_or] at hnot
    exact ⟨⟨h'.table, Bool.eq_false_iff.mpr hnot.1, h'.sequence⟩, Ne.symm hnot.2.1, hnot.2.2⟩
  · rintro ⟨h', hapart⟩
    refine ⟨h'.table, Bool.eq_false_iff.mpr fun h => ?_, h'.sequence⟩
    rcases htaken.mp h with h | h | h
    · exact absurd h (by simp [h'.free])
    · exact hapart.table h.symm
    · exact hapart.indexes h

theorem unopposed_iff (hsorted : Sorted infos) (hok : ∀ e ∈ infos, e.2.Acceptable parse e.1)
    (hnone : ∀ e ∈ infos, db.sequence e.1 = none) :
    Unopposed parse faults infos db ↔
      (∀ e ∈ infos, Passes faults db e.1 e.2) ∧ infos.Pairwise (Apart parse faults) := by
  induction infos generalizing db with
  | nil => simp [Unopposed]
  | cons e infos ih =>
    have hhead := hok e List.mem_cons_self
    have hnames := (List.pairwise_cons.mp hsorted).1
    rw [Unopposed, ih hsorted.tail (fun e he => hok e (List.mem_cons_of_mem _ he)),
      List.forall_mem_cons, List.pairwise_cons]
    · constructor
      · rintro ⟨hpasses, hrest, hpairwise⟩
        have hiff := fun e' he' =>
          (passes_after_iff hpasses hhead (hnone e List.mem_cons_self)).mp (hrest e' he')
        exact ⟨⟨hpasses, fun e' he' => (hiff e' he').1⟩, fun e' he' => (hiff e' he').2, hpairwise⟩
      · rintro ⟨⟨hpasses, hrest⟩, hapart, hpairwise⟩
        refine ⟨hpasses, fun e' he' => ?_, hpairwise⟩
        exact (passes_after_iff hpasses hhead (hnone e List.mem_cons_self)).mpr
          ⟨hrest e' he', hapart e' he'⟩
    · intro e' he'
      rw [assembleInfo_sequence parse faults e.2 db (hnames e' he').ne']
      exact hnone e' (List.mem_cons_of_mem _ he')

end Loop

/-! ### When a renewal is all or nothing -/

section Main

variable {parse : Text → Definition} {faults : Faults} {materials : List Material}

theorem mem_infos {e : Text × Info} : e ∈ materials.foldl mergeMaterial [] ↔
    ∃ content, firstContent materials e.1 = some content ∧
      e.2 = ⟨content.sql, maxSequence materials e.1, content.associatedSQLs⟩ := by
  rw [(sorted_infos List.Pairwise.nil).mem_iff, get?_infos, Option.map_eq_some_iff]
  exact exists_congr fun content => and_congr_right fun _ => eq_comm

theorem mem_of_firstContent {name : Text} {content : Content}
    (h : firstContent materials name = some content) :
    ∃ material ∈ materials, (name, content) ∈ material.contentsMap := by
  obtain ⟨material, hmem, hget⟩ := List.exists_of_findSome?_eq_some h
  exact ⟨material, hmem, material.sorted.mem_iff.mpr hget⟩

theorem acceptable_infos (h : Acceptable parse materials) :
    ∀ e ∈ materials.foldl mergeMaterial [], e.2.Acceptable parse e.1 := by
  intro e he
  obtain ⟨content, hcontent, hinfo⟩ := mem_infos.mp he
  obtain ⟨material, hmem, hentry⟩ := mem_of_firstContent hcontent
  rw [hinfo]
  exact ⟨h.table material hmem _ hentry, h.associated material hmem _ hentry⟩

theorem taken_markSequenceAsAssembling {key : Text} :
    markSequenceAsAssembling.taken key = decide (key = fold dummySequence) := by
  by_cases h : key = fold dummySequence <;>
    simp [Database.taken, markSequenceAsAssembling, h]

theorem tables_markSequenceAsAssembled_dummy (db : Database) :
    (markSequenceAsAssembled db).tables (fold dummySequence) = none := if_pos rfl

/-- What stands in the way, seen from the infos. -/
theorem unhindered_iff (h : Acceptable parse materials) :
    Unhindered parse faults materials ↔
      Unopposed parse faults (materials.foldl mergeMaterial []) markSequenceAsAssembling := by
  have hsorted : Sorted (materials.foldl mergeMaterial []) := sorted_infos List.Pairwise.nil
  rw [unopposed_iff hsorted (acceptable_infos h) fun _ _ => rfl, hsorted.pairwise_iff]
  constructor
  · intro hun
    refine ⟨fun e he => ?_, fun e he e' he' hlt => ?_⟩
    · obtain ⟨content, hcontent, hinfo⟩ := mem_infos.mp he
      refine ⟨hun.table _ _ hcontent, ?_, fun hzero => hun.sequence _ _ hcontent ?_⟩
      · rw [taken_markSequenceAsAssembling]
        exact decide_eq_false (hun.dummy _ _ hcontent)
      · rwa [hinfo] at hzero
    · obtain ⟨content, hcontent, hinfo⟩ := mem_infos.mp he
      obtain ⟨content', hcontent', -⟩ := mem_infos.mp he'
      refine ⟨hun.tables _ _ _ _ hcontent hcontent' hlt, ?_⟩
      rintro ⟨i, sql, hsql, hfault, index, hparse, hindex⟩
      rw [hinfo] at hsql
      exact hun.indexes _ _ _ _ hcontent hcontent' hlt i sql index hsql
        (by rwa [Nat.zero_add] at hfault) hparse hindex
  · rintro ⟨hpasses, hapart⟩
    have hpass := fun name content (hcontent : firstContent materials name = some content) =>
      hpasses (name, ⟨content.sql, maxSequence materials name, content.associatedSQLs⟩)
        (mem_infos.mpr ⟨content, hcontent, rfl⟩)
    have happ := fun name content name' content'
        (hcontent : firstContent materials name = some content)
        (hcontent' : firstContent materials name' = some content') (hlt : name < name') =>
      hapart (name, ⟨content.sql, maxSequence materials name, content.associatedSQLs⟩)
        (mem_infos.mpr ⟨content, hcontent, rfl⟩)
        (name', ⟨content'.sql, maxSequence materials name', content'.associatedSQLs⟩)
        (mem_infos.mpr ⟨content', hcontent', rfl⟩) hlt
    constructor
    case table => exact fun name content hcontent => (hpass name content hcontent).table
    case sequence => exact fun name content hcontent => (hpass name content hcontent).sequence
    case dummy =>
      intro name content hcontent
      have hfree := (hpass name content hcontent).free
      rw [taken_markSequenceAsAssembling] at hfree
      exact of_decide_eq_false hfree
    case tables =>
      exact fun name content name' content' hcontent hcontent' hlt =>
        (happ name content name' content' hcontent hcontent' hlt).table
    case indexes =>
      intro name content name' content' hcontent hcontent' hlt i sql index hsql hfault hparse heq
      exact (happ name content name' content' hcontent hcontent' hlt).indexes
        ⟨i, sql, hsql, by rwa [Nat.zero_add], index, hparse, heq⟩

variable {env : Environment}

/-- The assembled database is complete exactly when nothing got in the way. -/
theorem complete_iff (h : Acceptable parse env.materials) :
    Complete env.materials (env.assembled parse) ↔ Unhindered parse env.faults env.materials := by
  by_cases hdummy : ∀ name content, firstContent env.materials name = some content →
      fold name ≠ fold dummySequence
  · have hsorted : Sorted (env.materials.foldl mergeMaterial []) := sorted_infos List.Pairwise.nil
    have hne : ∀ e ∈ env.materials.foldl mergeMaterial [], fold e.1 ≠ fold dummySequence := by
      intro e he
      obtain ⟨content, hcontent, -⟩ := mem_infos.mp he
      exact hdummy _ _ hcontent
    rw [unhindered_iff h, ← assembled_iff_unopposed hsorted (acceptable_infos h)]
    · -- dropping the dummy table leaves the other ones
      have hdrop : ∀ name content, firstContent env.materials name = some content →
          ∀ db, (markSequenceAsAssembled db).tables (fold name) = db.tables (fold name) ∧
            (markSequenceAsAssembled db).counter name = db.counter name := by
        intro name content hcontent db
        have hname := hdummy name content hcontent
        refine ⟨if_neg hname, congrArg (Option.getD · 0) (if_neg ?_)⟩
        rintro rfl
        exact hname rfl
      constructor
      · intro hcomplete e he
        obtain ⟨content, hcontent, hinfo⟩ := mem_infos.mp he
        rw [← (hdrop _ _ hcontent _).1, ← (hdrop _ _ hcontent _).2, hinfo]
        exact hcomplete _ _ hcontent
      · intro hall name content hcontent
        rw [Environment.assembled, (hdrop _ _ hcontent _).1, (hdrop _ _ hcontent _).2]
        exact hall (name, ⟨content.sql, maxSequence env.materials name, content.associatedSQLs⟩)
          (mem_infos.mpr ⟨content, hcontent, rfl⟩)
    · exact fun e he => ⟨by simp [markSequenceAsAssembling, hne e he], rfl⟩
  · refine iff_of_false (fun hcomplete => ?_) fun hun => hdummy hun.dummy
    push Not at hdummy
    obtain ⟨name, content, hcontent, hname⟩ := hdummy
    have htable := (hcomplete name content hcontent).1
    rw [hname, Environment.assembled, tables_markSequenceAsAssembled_dummy] at htable
    exact nomatch htable

theorem prepare_of_reachesMove (parse : Text → Definition) (h : env.ReachesMove) :
    prepare parse env =
    (env.moveItems.succeed,
      if env.moveItems.arrives then .replaced (env.assembled parse) else .removed) := by
  obtain ⟨workshops, hworkshops⟩ := Option.isSome_iff_exists.mp h.workshops
  obtain ⟨size, hsize⟩ := Option.isSome_iff_exists.mp h.fileSize
  have hdatabases : env.current :: workshops = env.databases := by
    rw [Environment.databases, hworkshops]
    rfl
  have hbackup : (decide (size > 0) && !env.backup) = false := by
    by_cases hpos : 0 < size
    · simp [h.backup size hsize hpos]
    · simp [hpos]
  rw [prepare, h.temporaryDirectory, hworkshops]
  simp only [hdatabases, foldlM_resolveInfosForDatabase h.databases, h.markAsAssembling,
    h.markAsAssembled, hsize, hbackup, h.removeItems, Bool.not_true, Bool.false_eq_true, if_false,
    Environment.assembled, Environment.materials]

theorem prepare_of_not_reachesMove (parse : Text → Definition) (h : ¬env.ReachesMove) :
    prepare parse env = (false, .kept) := by
  rw [prepare]
  cases htemporary : env.temporaryDirectory
  · rfl
  cases hworkshops : env.workshops with
  | none => rfl
  | some workshops =>
    have hdatabases : env.databases = env.current :: workshops := by
      rw [Environment.databases, hworkshops]
      rfl
    simp only [← hdatabases]
    by_cases hall : ∀ readings ∈ env.databases, readings.isSome
    · rw [foldlM_resolveInfosForDatabase hall]
      cases hassembling : env.markAsAssembling
      · rfl
      cases hassembled : env.markAsAssembled
      · rfl
      cases hsize : env.fileSize with
      | none => rfl
      | some size =>
        cases hremove : env.removeItems
        · simp
        cases hbackup : env.backup
        · by_cases hpos : 0 < size
          · simp [hpos]
          · exact absurd ⟨htemporary, by simp [hworkshops], hall, hassembling, hassembled,
              by simp [hsize], fun _ hsome hlt => absurd (Option.some.inj (hsize.symm.trans hsome) ▸
                hlt) hpos, hremove⟩ h
        · exact absurd ⟨htemporary, by simp [hworkshops], hall, hassembling, hassembled,
            by simp [hsize], fun _ _ _ => hbackup, hremove⟩ h
    · rw [foldlM_resolveInfosForDatabase_eq_none hall]
      rfl

/-- A renewal is all or nothing exactly when, should it come as far as moving the new database,
nothing got in the way of the tables and the sequences, and the move skips nothing. -/
theorem all_or_nothing_iff (parse : Text → Definition) (env : Environment)
    (h : Acceptable parse env.materials) : AllOrNothing parse env ↔
      (env.ReachesMove → env.moveItems ≠ .failed →
        env.moveItems ≠ .skipped ∧ Unhindered parse env.faults env.materials) := by
  by_cases hreaches : env.ReachesMove
  · have hprepare := prepare_of_reachesMove parse hreaches
    rw [← complete_iff h]
    constructor
    · intro hall _ hfailed
      rcases hall with ⟨hall, hnothing⟩
      rw [hprepare] at hall hnothing
      cases hmove : env.moveItems with
      | failed => exact absurd hmove hfailed
      | skipped =>
        obtain ⟨db, hdb, -⟩ := hall (by rw [hmove]; rfl)
        rw [hmove] at hdb
        exact nomatch hdb
      | moved =>
        refine ⟨(fun h => nomatch h), ?_⟩
        by_contra hnot
        have hsucceed := (hnothing hnot).1
        rw [hmove] at hsucceed
        exact nomatch hsucceed
      | movedNotCleaned =>
        refine ⟨(fun h => nomatch h), ?_⟩
        by_contra hnot
        exact (hnothing hnot).2 (env.assembled parse) (by rw [hmove]; rfl)
    · intro hcond
      have hcomplete := hcond hreaches
      cases hmove : env.moveItems with
      | failed =>
        constructor
        · rw [hprepare, hmove]
          exact fun h => nomatch h
        · rw [hprepare, hmove]
          exact fun _ => ⟨rfl, fun _ h => nomatch h⟩
      | skipped => exact absurd hmove (hcomplete (by rw [hmove]; exact fun h => nomatch h)).1
      | moved =>
        have hdone := (hcomplete (by rw [hmove]; exact fun h => nomatch h)).2
        refine ⟨fun _ => ⟨env.assembled parse, ?_, hdone⟩, fun hnot => absurd hdone hnot⟩
        rw [hprepare, hmove]
        rfl
      | movedNotCleaned =>
        have hdone := (hcomplete (by rw [hmove]; exact fun h => nomatch h)).2
        refine ⟨?_, fun hnot => absurd hdone hnot⟩
        rw [hprepare, hmove]
        exact fun h => nomatch h
  · have hprepare := prepare_of_not_reachesMove parse hreaches
    refine iff_of_true ⟨?_, ?_⟩ fun h => absurd h hreaches
    · rw [hprepare]
      exact fun h => nomatch h
    · rw [hprepare]
      exact fun _ => ⟨rfl, fun _ h => nomatch h⟩

end Main

section Examples

def sqlOfMessage : Text := "CREATE TABLE message(a)".toList

/-- How SQLite takes the one text of the examples. -/
def parseMessage (sql : Text) : Definition :=
  if sql = sqlOfMessage then .table "message".toList else .malformed

def materialOfMessage : Material :=
  ⟨[("message".toList, ⟨sqlOfMessage, [], 3⟩)], List.pairwise_singleton _ _⟩

/-- A renewal with one material of the current database. Its steps work as far as the calls for
the table do. -/
def renewalOfMessage (create : Option Failure) : Environment where
  temporaryDirectory := true
  current := some [.corrupted, .decoded materialOfMessage]
  workshops := some []
  markAsAssembling := true
  faults := ⟨fun _ => create, fun _ => false, fun _ => false, fun _ _ => none⟩
  markAsAssembled := true
  fileSize := some 8192
  backup := true
  removeItems := true
  moveItems := .moved

theorem acceptable_message (create : Option Failure) :
    Acceptable parseMessage (renewalOfMessage create).materials := by
  constructor
  · intro material hmaterial e he
    obtain rfl : material = materialOfMessage := List.mem_singleton.mp hmaterial
    obtain rfl := List.mem_singleton.mp he
    exact if_pos rfl
  · intro material hmaterial e he sql hsql
    obtain rfl : material = materialOfMessage := List.mem_singleton.mp hmaterial
    obtain rfl := List.mem_singleton.mp he
    exact nomatch hsql

/-- When the disk is full the table is not created, and the database without it is moved. -/
theorem not_all_or_nothing : Acceptable parseMessage (renewalOfMessage (some .other)).materials ∧
    (prepare parseMessage (renewalOfMessage (some .other))).1 = true ∧
    ¬AllOrNothing parseMessage (renewalOfMessage (some .other)) := by
  refine ⟨acceptable_message _, rfl, fun h => ?_⟩
  obtain ⟨db, hdb, hcomplete⟩ := h.all rfl
  have htable := (hcomplete "message".toList ⟨sqlOfMessage, [], 3⟩ (by decide +kernel)).1
  obtain rfl : markSequenceAsAssembled markSequenceAsAssembling = db := Renewed.replaced.inj hdb
  have hnone : (markSequenceAsAssembled markSequenceAsAssembling).tables
      (fold "message".toList) = none := by decide +kernel
  exact nomatch hnone.symm.trans htable

theorem all_or_nothing_message : AllOrNothing parseMessage (renewalOfMessage none) := by
  refine (all_or_nothing_iff parseMessage _ (acceptable_message none)).mpr fun _ _ =>
    ⟨(fun h => nomatch h), ?_⟩
  have hname : ∀ name content, firstContent (renewalOfMessage none).materials name = some content →
      name = "message".toList := by
    intro name content h
    obtain ⟨material, hmaterial, he⟩ := mem_of_firstContent h
    obtain rfl : material = materialOfMessage := List.mem_singleton.mp hmaterial
    exact congrArg Prod.fst (List.mem_singleton.mp he)
  constructor
  case table => exact fun _ _ _ => rfl
  case sequence => exact fun _ _ _ _ => ⟨rfl, rfl⟩
  case dummy =>
    intro name content h
    rw [hname name content h]
    decide +kernel
  case tables =>
    intro name content name' content' h h' hlt
    rw [hname name content h, hname name' content' h'] at hlt
    exact absurd hlt (lt_irrefl _)
  case indexes =>
    intro name content name' content' h h' hlt
    rw [hname name content h, hname name' content' h'] at hlt
    exact absurd hlt (lt_irrefl _)

end Examples

end Wcdb.RenewedSchema
