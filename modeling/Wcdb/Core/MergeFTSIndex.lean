import Wcdb.Base.TimedQueue
import Wcdb.Lib.Run
import Mathlib.Data.List.Nodup
import Mathlib.Data.Nat.Basic
import Mathlib.Logic.Function.Basic
import Mathlib.Order.Basic

/-!
# Merging the index of FTS5 tables

A table that a statement creates or modifies is recorded by `AutoMergeFTSIndexConfig`, handed over
to the operation queue when a commit is reported, put into `m_mergingTables` by `triggerMerge` and
merged by `proccessMerge`, which runs on a queue of its own. The connections, the two queues and
their threads take turns in any order here; a step is a critical section of the source or a stretch
that touches nothing shared.

SQLite reports a commit from within the call of `sqlite3_step` that commits. A statement outside of
a transaction is therefore recorded after the report of its own commit (`Database.unnotified`).
Merging is enabled once for a database and stays enabled; errors other than a busy database do not
occur.
-/

namespace Wcdb

/-! ### Sets of names -/

/-- A `std::set` of names: its elements in their order. -/
structure StringViewSet (Name : Type) [LinearOrder Name] where
  toList : List Name
  sorted : toList.Pairwise (· < ·)

namespace StringViewSet

variable {Name : Type} [LinearOrder Name]

instance : Membership Name (StringViewSet Name) := ⟨fun s name => name ∈ s.toList⟩

/-- Membership in a list of names, decided by their order. -/
def decidableMem (name : Name) (names : List Name) : Decidable (name ∈ names) := inferInstance

instance (name : Name) (s : StringViewSet Name) : Decidable (name ∈ s) := decidableMem name s.toList

instance : EmptyCollection (StringViewSet Name) := ⟨⟨[], .nil⟩⟩

/-- The place of a name among the elements. -/
def emplaceList (name : Name) : List Name → List Name
  | [] => [name]
  | a :: l =>
    if name < a then name :: a :: l
    else if name = a then a :: l
    else a :: emplaceList name l

theorem mem_emplaceList {name other : Name} {l : List Name} :
    other ∈ emplaceList name l ↔ other = name ∨ other ∈ l := by
  induction l with
  | nil => simp [emplaceList]
  | cons a l ih =>
    rw [emplaceList]
    split_ifs with hlt heq
    · rw [List.mem_cons]
    · simp [heq]
    · rw [List.mem_cons, ih, List.mem_cons]
      tauto

theorem sorted_emplaceList {name : Name} {l : List Name} (h : l.Pairwise (· < ·)) :
    (emplaceList name l).Pairwise (· < ·) := by
  induction l with
  | nil => exact List.pairwise_singleton _ _
  | cons a l ih =>
    obtain ⟨hhead, htail⟩ := List.pairwise_cons.mp h
    rw [emplaceList]
    split_ifs with hlt heq
    · refine List.pairwise_cons.mpr ⟨fun b hb => ?_, h⟩
      rcases List.mem_cons.mp hb with rfl | hb
      · exact hlt
      · exact lt_trans hlt (hhead b hb)
    · exact h
    · refine List.pairwise_cons.mpr ⟨fun b hb => ?_, ih htail⟩
      rcases mem_emplaceList.mp hb with rfl | hb
      · exact lt_of_le_of_ne (not_lt.mp hlt) (Ne.symm heq)
      · exact hhead b hb

def emplace (s : StringViewSet Name) (name : Name) : StringViewSet Name :=
  ⟨emplaceList name s.toList, sorted_emplaceList s.sorted⟩

def erase (s : StringViewSet Name) (name : Name) : StringViewSet Name :=
  ⟨s.toList.erase name, s.sorted.sublist List.erase_sublist⟩

def ofList (l : List Name) : StringViewSet Name := l.foldl emplace ∅

/-- `*begin()`. -/
def begin? (s : StringViewSet Name) : Option Name := s.toList.head?

/-- The vector of the elements, and `nullptr` for a set that is not there. A map has no empty
set. -/
def assign (s : StringViewSet Name) : Option (List Name) :=
  if s.toList = [] then none else some s.toList

section Lemmas

variable {s : StringViewSet Name} {name other : Name}

theorem mem_empty : name ∉ (∅ : StringViewSet Name) := List.not_mem_nil

theorem mem_emplace : other ∈ s.emplace name ↔ other = name ∨ other ∈ s := mem_emplaceList

theorem mem_erase : other ∈ s.erase name ↔ other ≠ name ∧ other ∈ s :=
  List.Nodup.mem_erase_iff (s.sorted.imp fun h => ne_of_lt h)

theorem mem_ofList {l : List Name} : name ∈ ofList l ↔ name ∈ l := by
  have hfold : ∀ s : StringViewSet Name, name ∈ l.foldl emplace s ↔ name ∈ s ∨ name ∈ l := by
    induction l with
    | nil => simp
    | cons a l ih =>
      intro s
      rw [List.foldl_cons, ih, mem_emplace, List.mem_cons]
      tauto
  exact (hfold ∅).trans (or_iff_right mem_empty)

theorem mem_of_begin? (h : s.begin? = some name) : name ∈ s := List.mem_of_mem_head? h

theorem mem_assign : name ∈ s.assign.getD [] ↔ name ∈ s := by
  rw [assign]
  split_ifs with h
  · exact iff_of_false List.not_mem_nil fun hmem => by
      rw [show name ∈ s ↔ name ∈ s.toList from Iff.rfl, h] at hmem
      exact List.not_mem_nil hmem
  · exact Iff.rfl

theorem assign_isSome (h : name ∈ s) : s.assign.isSome := by
  rw [assign]
  split_ifs with hnil
  · rw [show name ∈ s ↔ name ∈ s.toList from Iff.rfl, hnil] at h
    exact absurd h List.not_mem_nil
  · rfl

end Lemmas

end StringViewSet

namespace MergeFTSIndex

/-! ### Operations -/

/-- `OperationQueue::Operation`. -/
inductive Operation (Path : Type) where
  | purge
  | integrity (path : Path)
  | notifyCorruption (path : Path)
  | checkpoint (path : Path)
  | backup (path : Path)
  | migrate (path : Path)
  | compress (path : Path)
  | mergeIndex (path : Path)
  deriving DecidableEq, Repr

/-- The fields of `OperationQueue::Parameter` that belong to `MergeIndex`, with `none` for
`nullptr`. -/
structure Parameter (Name : Type) where
  newTables : Option (List Name) := none
  modifiedTables : Option (List Name) := none
  deriving DecidableEq, Repr

def timeIntervalForMergeFTSIndex : ℕ := 1871

/-! ### Databases -/

/-- What a statement does to tables. `create` is any statement that names `table` as new, and `fts5`
says whether it creates an FTS5 table of this name. A statement that modifies a table may write its
name in other letters; `fts5` says whether it is an FTS5 table. -/
inductive Change (Name : Type) where
  | create (table : Name) (fts5 : Bool)
  | modify (written table : Name) (fts5 : Bool)
  deriving DecidableEq, Repr

namespace Change

variable {Name : Type}

def newTable : Change Name → Option Name
  | create table _ => some table
  | modify .. => none

def modifiedTable : Change Name → Option Name
  | create .. => none
  | modify written .. => some written

/-- The FTS5 table that is created or modified. -/
def touched : Change Name → Option Name
  | create table fts5 => if fts5 then some table else none
  | modify _ table fts5 => if fts5 then some table else none

end Change

/-- What there is for one path. -/
structure Database (Name : Type) [LinearOrder Name] where
  registeredForMergeFTSIndex : Bool := false
  newTables : StringViewSet Name := ∅
  modifiedTables : StringViewSet Name := ∅
  hasInit : Bool := false
  mergingTables : StringViewSet Name := ∅
  mergedTables : StringViewSet Name := ∅
  /-- The FTS5 tables in the database. -/
  fts5Tables : List Name := []
  /-- What the transaction has done that holds the write lock. -/
  writer : Option (List (Change Name)) := none
  /-- The commits that are to be reported; with the statement, if it was not in a transaction. -/
  commits : List (Option (Change Name)) := []
  /-- The statements not in a transaction that are to be recorded. -/
  unnotified : List (Change Name) := []
  /-- The FTS5 tables created or modified since the last merge of each began. -/
  unmerged : List Name := []

namespace Database

variable {Name : Type} [LinearOrder Name]

/-- `AutoMergeFTSIndexConfig::onTableModified`. -/
def onTableModified (db : Database Name) (newTable modifiedTable : Option Name) : Database Name :=
  { db with
    newTables := newTable.elim db.newTables db.newTables.emplace
    modifiedTables := modifiedTable.elim db.modifiedTables db.modifiedTables.emplace }

/-- A change is committed. -/
def apply (db : Database Name) (change : Change Name) : Database Name :=
  { db with
    fts5Tables := match change with
      | .create table true => table :: db.fts5Tables
      | _ => db.fts5Tables
    unmerged := change.touched.elim db.unmerged (· :: db.unmerged) }

/-- The change is possible behind others of its transaction. -/
def Admits (db : Database Name) (changes : List (Change Name)) : Change Name → Prop
  | .create table fts5 => fts5 = true → table ∉ db.fts5Tables ∧ .create table true ∉ changes
  | .modify _ table fts5 => fts5 = true ↔ table ∈ db.fts5Tables ∨ .create table true ∈ changes

instance (db : Database Name) (changes : List (Change Name)) (change : Change Name) :
    Decidable (db.Admits changes change) := by
  unfold Admits
  split <;> infer_instance

/-- `MergeFTSIndexLogic::tryInit`. -/
def tryInit (db : Database Name) : Database Name :=
  if db.hasInit then db
  else { db with mergedTables := ∅, mergingTables := .ofList db.fts5Tables, hasInit := true }

/-- The loop over `newTables` in `checkModifiedTables`. -/
def checkNewTable (db : Database Name) (element : Name) : Database Name :=
  let db := { db with mergedTables := db.mergedTables.erase element }
  if element ∈ db.fts5Tables then { db with mergingTables := db.mergingTables.emplace element }
  else db

/-- The loop over `modifiedTables`. -/
def checkModifiedTable (db : Database Name) (element : Name) : Database Name :=
  if element ∈ db.mergedTables then
    { db with
      mergedTables := db.mergedTables.erase element
      mergingTables := db.mergingTables.emplace element }
  else db

def checkModifiedTables (db : Database Name) (parameter : Parameter Name) : Database Name :=
  (parameter.modifiedTables.getD []).foldl checkModifiedTable
    ((parameter.newTables.getD []).foldl checkNewTable db)

end Database

/-! ### The system -/

/-- Where `proccessMerge` is. -/
inductive Process (Path Name : Type) where
  | idle
  /-- Before the first table is picked. -/
  | called (path : Path)
  /-- A table is picked, and its merge has not begun. -/
  | picked (path : Path) (table : Name)
  | merging (path : Path) (table : Name)
  deriving DecidableEq, Repr

structure State (Path Name : Type) [LinearOrder Name] where
  now : ℕ := 0
  databases : Path → Database Name := fun _ => {}
  /-- The timed queue of `OperationQueue`, and the operation that its thread has taken. -/
  operations : UniqueList (Operation Path) (Parameter Name) := []
  operating : Option (Operation Path × Parameter Name) := none
  /-- The timed queue of `MergeFTSIndexLogic::OperationQueue`, and what its thread does. -/
  merges : UniqueList Path Unit := []
  process : Process Path Name := .idle

inductive Event (Path Name : Type) where
  | tick (milliseconds : ℕ)
  /-- `enableAutoMergeFTSIndex`, with the FTS5 tables that are in the database. -/
  | enable (path : Path) (tables : List Name)
  /-- Another operation is queued. -/
  | other (operation : Operation Path) (delay : ℕ)
  /-- The operation queue takes an operation, and runs it. -/
  | expire
  | operate
  /-- The merge queue takes a path, and `proccessMerge` goes on. -/
  | call
  | pick
  | beginMerge
  | endMerge
  /-- The database is busy. -/
  | interrupt
  /-- A statement in a transaction, with its record. -/
  | write (path : Path) (change : Change Name)
  | commit (path : Path)
  | rollback (path : Path)
  /-- A statement not in a transaction. -/
  | autocommit (path : Path) (change : Change Name)
  /-- A commit of a handle whose tables are not monitored, such as that of the merge. -/
  | unmonitored (path : Path)
  /-- A commit is reported. -/
  | committed (path : Path) (commit : Option (Change Name)) (pages : ℕ)
  /-- A statement not in a transaction is recorded. -/
  | notify (path : Path) (change : Change Name)
  deriving DecidableEq, Repr

namespace State

variable {Path Name : Type} [DecidableEq Path] [LinearOrder Name]

def setDatabase (s : State Path Name) (path : Path) (db : Database Name) : State Path Name :=
  { s with databases := Function.update s.databases path db }

/-- `OperationQueue::asyncMergeFTSIndex`. -/
def asyncMergeFTSIndex (s : State Path Name) (path : Path)
    (newTables modifiedTables : Option (List Name)) : State Path Name :=
  if (s.databases path).registeredForMergeFTSIndex then
    { s with
      operations := TimedQueue.queue s.operations s.now (.mergeIndex path)
        timeIntervalForMergeFTSIndex ⟨newTables, modifiedTables⟩ .forwardOnly }
  else s

/-- `AutoMergeFTSIndexConfig::onCommitted`. -/
def onCommitted (s : State Path Name) (path : Path) (pages : ℕ) : State Path Name :=
  let db := s.databases path
  let cleared := s.setDatabase path { db with newTables := ∅, modifiedTables := ∅ }
  if pages = 0 then cleared
  else
    let newTables := db.newTables.assign
    let modifiedTables := db.modifiedTables.assign
    if newTables.isSome ∨ modifiedTables.isSome then
      cleared.asyncMergeFTSIndex path newTables modifiedTables
    else cleared

/-- `MergeFTSIndexLogic::triggerMerge`, which holds `m_lock`. `m_processing` is never set. -/
def triggerMerge (s : State Path Name) (path : Path) (parameter : Parameter Name) :
    State Path Name :=
  let db := (s.databases path).tryInit.checkModifiedTables parameter
  let s := s.setDatabase path db
  if db.mergingTables.toList = [] then s
  else { s with merges := TimedQueue.queue s.merges s.now path 0 () .forwardOnly }

end State

section Step

variable {Path Name : Type} [DecidableEq Path] [LinearOrder Name]

open State

/-- One step; `none` for an event that is not possible. -/
def step (s : State Path Name) : Event Path Name → Option (State Path Name)
  | .tick milliseconds => some { s with now := s.now + milliseconds }
  | .enable path tables =>
    if (s.databases path).registeredForMergeFTSIndex then none
    else
      some ((s.setDatabase path
        { registeredForMergeFTSIndex := true, fts5Tables := tables, unmerged := tables
          }).asyncMergeFTSIndex path none none)
  | .other operation delay =>
    match operation with
    | .mergeIndex _ => none
    | operation =>
      some { s with
        operations := TimedQueue.queue s.operations s.now operation delay {} .forwardOnly }
  | .expire =>
    match s.operating, TimedQueue.expire s.operations s.now with
    | none, some (operation, operations) => some { s with operating := some operation, operations }
    | _, _ => none
  | .operate =>
    match s.operating with
    | none => none
    | some (.mergeIndex path, parameter) =>
      some (({ s with operating := none } : State Path Name).triggerMerge path parameter)
    | some _ => some { s with operating := none }
  | .call =>
    match s.process, TimedQueue.expire s.merges s.now with
    | .idle, some ((path, _), merges) => some { s with merges, process := .called path }
    | _, _ => none
  | .pick =>
    match s.process with
    | .called path =>
      match (s.databases path).mergingTables.begin? with
      | none => some { s with process := .idle }
      | some table => some { s with process := .picked path table }
    | _ => none
  | .beginMerge =>
    match s.process with
    | .picked path table =>
      let db := s.databases path
      some (({ s with process := .merging path table } : State Path Name).setDatabase path
        { db with unmerged := db.unmerged.filter (· ≠ table) })
    | _ => none
  | .endMerge =>
    match s.process with
    | .merging path table =>
      let db := s.databases path
      let mergingTables := db.mergingTables.erase table
      let s := s.setDatabase path
        { db with mergingTables, mergedTables := db.mergedTables.emplace table }
      match mergingTables.begin? with
      | none => some { s with process := .idle }
      | some table => some { s with process := .picked path table }
    | _ => none
  | .interrupt =>
    match s.process with
    | .picked _ _ | .merging _ _ => some { s with process := .idle }
    | _ => none
  | .write path change =>
    let db := s.databases path
    let changes := db.writer.getD []
    if db.registeredForMergeFTSIndex ∧ db.Admits changes change then
      some (s.setDatabase path ({ db with writer := some (changes ++ [change])
        }.onTableModified change.newTable change.modifiedTable))
    else none
  | .commit path =>
    let db := s.databases path
    match db.writer with
    | none => none
    | some changes =>
      some (s.setDatabase path (changes.foldl Database.apply
        { db with writer := none, commits := none :: db.commits }))
  | .rollback path =>
    let db := s.databases path
    if db.writer.isSome then some (s.setDatabase path { db with writer := none }) else none
  | .autocommit path change =>
    let db := s.databases path
    if db.registeredForMergeFTSIndex ∧ db.writer = none ∧ db.Admits [] change then
      some (s.setDatabase path
        (Database.apply { db with commits := some change :: db.commits } change))
    else none
  | .unmonitored path =>
    let db := s.databases path
    if db.registeredForMergeFTSIndex ∧ db.writer = none then
      some (s.setDatabase path { db with commits := none :: db.commits })
    else none
  | .committed path commit pages =>
    let db := s.databases path
    if commit ∈ db.commits ∧ 0 < pages then
      some ((s.setDatabase path { db with
        commits := db.commits.erase commit
        unnotified := commit.toList ++ db.unnotified }).onCommitted path pages)
    else none
  | .notify path change =>
    let db := s.databases path
    if change ∈ db.unnotified then
      some (s.setDatabase path ({ db with unnotified := db.unnotified.erase change
        }.onTableModified change.newTable change.modifiedTable))
    else none

end Step

end MergeFTSIndex

end Wcdb
