import Wcdb.Lib.Run
import Mathlib.Data.Finset.Sort
import Mathlib.Data.Fintype.Basic

/-!
# `Migration`: the books of the tables to migrate

All handles of a database share one `Migration`: the infos whose rows are still migrated
(`m_migratings`), those some handle may use (`m_referenceds`, with a count), and those whose source
table is to be dropped (`m_dumpster`). Each locked section is one step here, and `Place` says where
in a longer function a handle is. An assertion that fails is recorded and the function goes on.

Two threads may each run a step, and nothing keeps them from picking the same info
(`twoSteppers`). In a run in which no step picks an info that another has in hand, the books are
right in every state (`booked_of_exec`).
-/

namespace Wcdb

namespace Migration

open Function (update)

/-- Infos are named by their addresses. -/
structure MigrationInfo (N : Type) where
  table : N
  isCrossDatabase : Bool
  deriving DecidableEq, Repr

/-- What `getTargetTableInfo` reads. -/
structure TargetTable (N : Type) where
  tableExists : Bool
  columns : List N
  deriving DecidableEq, Repr

/-- A source database, as its filter and the initializer see it for one table. -/
structure Source (N : Type) where
  shouldMigrate : Bool := true
  isCrossDatabase : Bool := false
  /-- `attachSourceDatabase`. -/
  attached : Bool := true
  /-- `checkSourceTableExistsAndHasRowid`. -/
  sourceTableExists : Option Bool := some true
  /-- `getTargetTableInfo`. -/
  target : Option (TargetTable N)
  deriving DecidableEq, Repr

/-- Where in `tryReduceBounds` or `step` a handle is. -/
inductive Place (N : Type) where
  | idle
  | reducing
  /-- At the start of a step. -/
  | starting
  | dropping (info : ℕ)
  /-- The source table was dropped; before the last assertions. -/
  | dropped (info : ℕ)
  /-- At the start of `tryMigrateRows`. -/
  | migrating
  | moving (info : ℕ)
  /-- At the start of `tryAcquireTables`. -/
  | acquiring
  | listing
  /-- Before the tables hinted are added to those read. -/
  | listed (tables : Finset N)
  | initializing (tables : Finset N)
  /-- After `tryAcquireTables` found nothing to do. -/
  | checking
  | completing
  deriving DecidableEq

/-- The fields of `Migration`; the `RecyclableMigrationInfo` values that are out, by the handles
that have them; `m_bindings` of the handles; where each handle is, and how often its step has called
itself. `marked` are the infos that were marked as migrated. `asserted` says that no assertion
failed, apart from those in `step` itself, for which there is `stepAsserted`. -/
structure State (H N : Type) where
  migratings : Finset ℕ := ∅
  dumpster : Finset ℕ := ∅
  /-- The keys of `m_referenceds`. -/
  referenceds : Finset ℕ := ∅
  /-- The values of `m_referenceds`. -/
  references : ℕ → ℕ := fun _ => 0
  holder : ℕ → Option (MigrationInfo N) := fun _ => none
  filted : N → Option (Option ℕ) := fun _ => none
  hints : Finset N := ∅
  tableAcquired : Bool := false
  migrated : Bool := true
  outstanding : List (H × ℕ) := []
  bindings : H → List (N × ℕ) := fun _ => []
  place : H → Place N := fun _ => .idle
  recursions : H → ℕ := fun _ => 0
  marked : Finset ℕ := ∅
  asserted : Bool := true
  stepAsserted : Bool := true

variable {H N : Type} [DecidableEq H] [DecidableEq N]

namespace State

def goto (s : State H N) (h : H) (place : Place N) : State H N :=
  { s with place := update s.place h place }

def wctAssert (s : State H N) (p : Prop) [Decidable p] : State H N :=
  { s with asserted := s.asserted && decide p }

/-- An assertion in `step` itself. -/
def assertInStep (s : State H N) (p : Prop) [Decidable p] : State H N :=
  { s with stepAsserted := s.stepAsserted && decide p }

/-- The assertions on `m_filted` and `m_hints` of all functions that take an info. -/
def isFilted (s : State H N) (info : ℕ) : Bool :=
  match s.holder info with
  | some ⟨table, _⟩ => (s.filted table).isSome && table ∉ s.hints
  | none => false

def purge (s : State H N) : State H N :=
  { s with
    migratings := ∅, dumpster := ∅, referenceds := ∅, references := fun _ => 0
    holder := fun _ => none, filted := fun _ => none, hints := ∅
    tableAcquired := false, migrated := false, marked := ∅ }

def markAsNoNeedToMigrate (s : State H N) (table : N) : State H N :=
  { s with
    filted := if s.filted table = none then update s.filted table (some none) else s.filted
    hints := s.hints.erase table }

/-- The locked section of `initInfo`. The info that is held gets the address `hold`. -/
def holdOrHint (s : State H N) (table : N) (isCrossDatabase : Bool) (target : TargetTable N)
    (hold : ℕ) : State H N :=
  if s.filted table = none then
    let s := { s with migrated := false }
    if !target.tableExists || target.columns.isEmpty then
      { s with hints := insert table s.hints, tableAcquired := false }
    else
      { s with
        holder := update s.holder hold (some { table, isCrossDatabase })
        migratings := insert hold s.migratings
        referenceds := insert hold s.referenceds
        references := update s.references hold 0
        filted := update s.filted table (some (some hold))
        hints := s.hints.erase table }
  else s

/-- `builtin` are the tables of SQLite and of WCDB. The first source database with the table
decides. -/
def initInfo (builtin : N → Bool) (s : State H N) (table : N) (sources : List (Source N))
    (hold : ℕ) : State H N × Bool :=
  if builtin table then (s.markAsNoNeedToMigrate table, true)
  else
    match sources.find? Source.shouldMigrate with
    | none => (s.markAsNoNeedToMigrate table, true)
    | some source =>
        if !source.attached then (s, false)
        else
          match source.sourceTableExists with
          | none => (s, false)
          | some false => (s.markAsNoNeedToMigrate table, true)
          | some true =>
              match source.target with
              | none => (s, false)
              | some target => (s.holdOrHint table source.isCrossDatabase target hold, true)

def markAsUnreferenced (s : State H N) (info : ℕ) : State H N :=
  let s := s.wctAssert (s.isFilted info ∧ info ∉ s.migratings ∧ info ∈ s.referenceds ∧
    s.references info = 0 ∧ info ∉ s.dumpster)
  { s with referenceds := s.referenceds.erase info, dumpster := insert info s.dumpster }

def markAsDropped (s : State H N) (info : ℕ) : State H N :=
  let s := s.wctAssert (s.isFilted info ∧ info ∉ s.migratings ∧ info ∉ s.referenceds ∧
    info ∈ s.dumpster)
  { s with dumpster := s.dumpster.erase info }

def markAsMigrated (s : State H N) (info : ℕ) : State H N :=
  let s := s.wctAssert (s.isFilted info ∧ info ∈ s.migratings ∧ info ∈ s.referenceds)
  let s := { s with
    migratings := s.migratings.erase info
    marked := insert info s.marked }
  if s.references info = 0 then s.markAsUnreferenced info else s

def retainInfo (s : State H N) (h : H) (info : ℕ) : State H N :=
  let s := s.wctAssert (s.isFilted info ∧ info ∈ s.migratings ∧ info ∉ s.dumpster ∧
    info ∈ s.referenceds)
  { s with
    references := update s.references info (s.references info + 1)
    outstanding := (h, info) :: s.outstanding }

def releaseInfo (s : State H N) (h : H) (info : ℕ) : State H N :=
  let s := s.wctAssert (s.isFilted info ∧ info ∉ s.dumpster ∧ info ∈ s.referenceds ∧
    0 < s.references info)
  let s := { s with
    references := update s.references info (s.references info - 1)
    outstanding := s.outstanding.erase (h, info) }
  if s.references info = 0 ∧ info ∉ s.migratings then s.markAsUnreferenced info else s

/-- No value is `NullOpt`, and `some none` is the null pointer. -/
def getInfo (s : State H N) (h : H) (table : N) : State H N × Option (Option ℕ) :=
  match s.filted table with
  | none => (s, none)
  | some none => (s, some none)
  | some (some info) =>
      if info ∈ s.migratings then (s.retainInfo h info, some (some info)) else (s, some none)

/-- The first section of `tryReduceBounds`. -/
def tryReduceBounds (s : State H N) (h : H) : State H N :=
  if (s.bindings h).any fun binding => binding.2 ∉ s.migratings then s.goto h .reducing else s

/-- The second section of `tryReduceBounds`. -/
def reduceBounds (s : State H N) (h : H) : State H N :=
  { s with bindings :=
      update s.bindings h ((s.bindings h).filter fun binding => binding.2 ∈ s.migratings) }.goto h
    .idle

/-- `*m_dumpster.begin()`, if there is one. -/
def unreferencedTable (s : State H N) : Option ℕ := s.dumpster.sort.head?

/-- The first info of another database, else the first. -/
def migratingTable (s : State H N) : Option ℕ :=
  (s.migratings.sort.find? fun info => (s.holder info).any MigrationInfo.isCrossDatabase).or
    s.migratings.sort.head?

/-- The first section of `tryDropUnreferencedTable`. -/
def tryDropUnreferencedTable (s : State H N) (h : H) : State H N :=
  match s.unreferencedTable with
  | some info => s.goto h (.dropping info)
  | none => s.goto h .migrating

/-- The second section of `tryDropUnreferencedTable`. -/
def didDrop (s : State H N) (h : H) (info : ℕ) : State H N :=
  (s.wctAssert (info ∉ s.migratings ∧ info ∉ s.referenceds ∧ info ∉ s.dumpster)).goto h .idle

/-- The first section of `tryMigrateRows`. -/
def tryMigrateRows (s : State H N) (h : H) : State H N :=
  match s.migratingTable with
  | some info => s.goto h (.moving info)
  | none => s.goto h .acquiring

/-- The rest of `tryMigrateRows`: whether the table exists, whether its sequence could be updated,
and what `migrateRows` comes to. -/
def migrateRows (s : State H N) (h : H) (info : ℕ) (tableExists : Option Bool) (updated : Bool)
    (migrated : Option Bool) : State H N :=
  match tableExists with
  | none => s.goto h .idle
  | some false => (s.markAsMigrated info).goto h .idle
  | some true =>
      if updated && migrated == some true then (s.markAsMigrated info).goto h .idle
      else s.goto h .idle

/-- The first section of `tryAcquireTables`. -/
def tryAcquireTables (s : State H N) (h : H) : State H N :=
  s.goto h (if s.tableAcquired then .checking else .listing)

def didGetAllTables (s : State H N) (h : H) : Option (List N) → State H N
  | none => s.goto h .idle
  | some tables => s.goto h (.listed tables.toFinset)

/-- `m_hints` is read without the lock. -/
def addHints (s : State H N) (h : H) (tables : Finset N) : State H N :=
  s.goto h (.initializing (tables ∪ s.hints))

/-- One round of the loop in `tryAcquireTables`. -/
def initNext (builtin : N → Bool) (s : State H N) (h : H) (tables : Finset N) (table : N)
    (sources : List (Source N)) (hold : ℕ) : State H N :=
  let (s, succeed) := (s.wctAssert (!builtin table)).initInfo builtin table sources hold
  s.goto h (if succeed then .initializing (tables.erase table) else .idle)

/-- The last section of `tryAcquireTables`, after which the step calls itself. -/
def didAcquire (s : State H N) (h : H) : State H N :=
  { s with
    tableAcquired := true
    recursions := update s.recursions h (s.recursions h + 1) }.goto h .starting

/-- The check of the containers in `step`. -/
def check (s : State H N) (h : H) : State H N :=
  let s := s.assertInStep s.tableAcquired
  if s.dumpster ≠ ∅ ∨ s.migratings ≠ ∅ ∨ s.referenceds ≠ ∅ then s.goto h .idle
  else s.goto h .completing

/-- The last section of `step`. -/
def complete (s : State H N) (h : H) : State H N :=
  { s.assertInStep (s.tableAcquired ∧ s.dumpster = ∅ ∧ s.migratings = ∅ ∧ s.referenceds = ∅ ∧
        s.hints = ∅) with
    migrated := true }.goto h .idle

end State

/-- What a handle does next. What the database says and what the stepper does are part of the
action. -/
inductive Action (H N : Type) where
  /-- For `hintThatTableWillBeCreated`, or in `getOrInitInfo`. -/
  | initInfo (h : H) (table : N) (sources : List (Source N)) (hold : ℕ)
  | getInfo (h : H) (table : N)
  | releaseInfo (h : H) (info : ℕ)
  /-- A referenced info is one of the bindings. -/
  | emplace (h : H) (table : N) (info : ℕ)
  | tryReduceBounds (h : H)
  | reduceBounds (h : H)
  | purge
  | step (h : H)
  | tryDropUnreferencedTable (h : H)
  | dropSourceTable (h : H) (succeed : Bool)
  | didDrop (h : H)
  | tryMigrateRows (h : H)
  | migrateRows (h : H) (tableExists : Option Bool) (updated : Bool) (migrated : Option Bool)
  | tryAcquireTables (h : H)
  | getAllTables (h : H) (tables : Option (List N))
  | addHints (h : H)
  | initNext (h : H) (table : N) (sources : List (Source N)) (hold : ℕ)
  | didAcquire (h : H)
  | check (h : H)
  | complete (h : H)
  deriving DecidableEq

open State in
/-- A new info has an address that is not taken. -/
def step (builtin : N → Bool) (s : State H N) : Action H N → Option (State H N)
  | .initInfo h table sources hold =>
      if s.place h = .idle ∧ s.holder hold = none then
        some (s.initInfo builtin table sources hold).1
      else none
  | .getInfo h table => if s.place h = .idle then some (s.getInfo h table).1 else none
  | .releaseInfo h info =>
      if s.place h = .idle ∧ (h, info) ∈ s.outstanding then some (s.releaseInfo h info) else none
  | .emplace h table info =>
      if s.place h = .idle ∧ (h, info) ∈ s.outstanding then
        some { s with bindings := update s.bindings h ((table, info) :: s.bindings h) }
      else none
  | .tryReduceBounds h => if s.place h = .idle then some (s.tryReduceBounds h) else none
  | .reduceBounds h => if s.place h = .reducing then some (s.reduceBounds h) else none
  | .purge => some s.purge
  | .step h =>
      if s.place h = .idle then
        some ({ s with recursions := update s.recursions h 0 }.goto h .starting)
      else none
  | .tryDropUnreferencedTable h =>
      if s.place h = .starting then some (s.tryDropUnreferencedTable h) else none
  | .dropSourceTable h succeed =>
      match s.place h with
      | .dropping info =>
          some (if succeed then (s.markAsDropped info).goto h (.dropped info) else s.goto h .idle)
      | _ => none
  | .didDrop h =>
      match s.place h with
      | .dropped info => some (s.didDrop h info)
      | _ => none
  | .tryMigrateRows h => if s.place h = .migrating then some (s.tryMigrateRows h) else none
  | .migrateRows h tableExists updated migrated =>
      match s.place h with
      | .moving info => some (s.migrateRows h info tableExists updated migrated)
      | _ => none
  | .tryAcquireTables h => if s.place h = .acquiring then some (s.tryAcquireTables h) else none
  | .getAllTables h tables =>
      if s.place h = .listing ∧ ∀ table ∈ tables.getD [], builtin table = false then
        some (s.didGetAllTables h tables)
      else none
  | .addHints h =>
      match s.place h with
      | .listed tables => some (s.addHints h tables)
      | _ => none
  | .initNext h table sources hold =>
      match s.place h with
      | .initializing tables =>
          if table ∈ tables ∧ s.holder hold = none then
            some (s.initNext builtin h tables table sources hold)
          else none
      | _ => none
  | .didAcquire h => if s.place h = .initializing ∅ then some (s.didAcquire h) else none
  | .check h => if s.place h = .checking then some (s.check h) else none
  | .complete h => if s.place h = .completing then some (s.complete h) else none

/-- The handle that acts. -/
def Action.handle : Action H N → Option H
  | .initInfo h _ _ _ | .getInfo h _ | .releaseInfo h _ | .emplace h _ _ | .tryReduceBounds h
  | .reduceBounds h | .step h | .tryDropUnreferencedTable h | .dropSourceTable h _ | .didDrop h
  | .tryMigrateRows h | .migrateRows h _ _ _ | .tryAcquireTables h | .getAllTables h _ | .addHints h
  | .initNext h _ _ _ | .didAcquire h | .check h | .complete h => some h
  | .purge => none

/-! ### The books -/

/-- The info that a step in progress has picked. -/
def Place.inHand : Place N → Option ℕ
  | .dropping info | .dropped info | .moving info => some info
  | _ => none

/-- The tables that a step in progress has still to initialize. -/
def Place.tables : Place N → Option (Finset N)
  | .listed tables | .initializing tables => some tables
  | _ => none

/-- How many values of an info are out. -/
def State.outstandingOf (s : State H N) (info : ℕ) : ℕ :=
  s.outstanding.countP fun value => value.2 = info

/-- **The books are right**: an info to migrate is referenced and not in the dumpster; no info is
both; an info that is referenced and not to migrate is in use, as often as its count says; no
assertion failed; and whenever a source table is dropped, its info was marked as migrated and nobody
has it. -/
structure Booked (s : State H N) : Prop where
  migratings : ∀ info ∈ s.migratings, info ∈ s.referenceds ∧ info ∉ s.dumpster
  disjoint : Disjoint s.referenceds s.dumpster
  counted : ∀ info ∈ s.referenceds, s.references info = s.outstandingOf info
  positive : ∀ info ∈ s.referenceds, info ∉ s.migratings → 0 < s.references info
  asserted : s.asserted = true
  dropping : ∀ h info, s.place h = .dropping info →
    info ∈ s.marked ∧ s.outstandingOf info = 0

/-- **No step picks an info that another step has in hand, and the books are purged only while
nobody has an info.** This is a condition on the state before the step. -/
def Orderly (s : State H N) : Action H N → Prop
  | .tryDropUnreferencedTable h => ∀ h' ≠ h, ∀ info ∈ s.unreferencedTable,
      (s.place h').inHand ≠ some info
  | .tryMigrateRows h => ∀ h' ≠ h, ∀ info ∈ s.migratingTable, (s.place h').inHand ≠ some info
  | .purge => s.outstanding = [] ∧ ∀ h, (s.place h).inHand = none
  | _ => True

instance Orderly.decidable [Fintype H] (s : State H N) :
    (a : Action H N) → Decidable (Orderly s a)
  | .tryDropUnreferencedTable h => inferInstanceAs (Decidable
      (∀ h' ≠ h, ∀ info ∈ s.unreferencedTable, (s.place h').inHand ≠ some info))
  | .tryMigrateRows h => inferInstanceAs (Decidable
      (∀ h' ≠ h, ∀ info ∈ s.migratingTable, (s.place h').inHand ≠ some info))
  | .purge => inferInstanceAs (Decidable (s.outstanding = [] ∧ ∀ h, (s.place h).inHand = none))
  | .initInfo _ _ _ _ | .getInfo _ _ | .releaseInfo _ _ | .emplace _ _ _ | .tryReduceBounds _
  | .reduceBounds _ | .step _ | .dropSourceTable _ _ | .didDrop _ | .migrateRows _ _ _ _
  | .tryAcquireTables _ | .getAllTables _ _ | .addHints _ | .initNext _ _ _ _ | .didAcquire _
  | .check _ | .complete _ => inferInstanceAs (Decidable True)

/-- What every state of an orderly run keeps. -/
structure Inv (builtin : N → Bool) (s : State H N) : Prop where
  migratings : ∀ i ∈ s.migratings, i ∈ s.referenceds
  dumpster : ∀ i ∈ s.dumpster, i ∉ s.referenceds
  positive : ∀ i ∈ s.referenceds, i ∉ s.migratings → 0 < s.references i
  counted : ∀ i ∈ s.referenceds, s.references i = s.outstandingOf i
  uncounted : ∀ i ∉ s.referenceds, s.outstandingOf i = 0
  held : ∀ i, i ∈ s.referenceds ∨ i ∈ s.dumpster → s.holder i ≠ none
  filted : ∀ i info, s.holder i = some info → s.filted info.table ≠ none
  hints : ∀ table ∈ s.hints, s.filted table = none ∧ builtin table = false
  marked : ∀ i, s.holder i ≠ none → i ∉ s.migratings → i ∈ s.marked
  dropping : ∀ h i, s.place h = .dropping i → i ∈ s.dumpster
  dropped : ∀ h i, s.place h = .dropped i →
    s.holder i ≠ none ∧ i ∉ s.referenceds ∧ i ∉ s.dumpster
  moving : ∀ h i, s.place h = .moving i → i ∈ s.migratings
  tables : ∀ h tables, (s.place h).tables = some tables →
    ∀ table ∈ tables, builtin table = false
  alone : ∀ h h' i, (s.place h).inHand = some i → (s.place h').inHand = some i → h = h'
  asserted : s.asserted = true

section Steps

variable {builtin : N → Bool} {s s' : State H N} {h : H} {i : ℕ}

omit [DecidableEq H] [DecidableEq N] in
theorem State.wctAssert_eq {p : Prop} [Decidable p] (hp : p) : s.wctAssert p = s := by
  simp [State.wctAssert, hp]

omit [DecidableEq H] in
theorem Inv.isFilted (hs : Inv builtin s) (hi : i ∈ s.referenceds ∨ i ∈ s.dumpster) :
    s.isFilted i = true := by
  have hheld := hs.held i hi
  unfold State.isFilted
  cases hinfo : s.holder i with
  | none => exact absurd hinfo hheld
  | some info =>
    have hfilted := hs.filted i info hinfo
    have hhint : info.table ∉ s.hints := fun hmem => hfilted (hs.hints _ hmem).1
    simp [hhint, Option.isSome_iff_ne_none.mpr hfilted]

omit [DecidableEq H] in
theorem State.markAsNoNeedToMigrate_filted (table t : N) :
    (s.markAsNoNeedToMigrate table).filted t =
      if t = table ∧ s.filted table = none then some none else s.filted t := by
  simp only [State.markAsNoNeedToMigrate]
  grind [Function.update_apply]

omit [DecidableEq H] in
theorem inv_markAsNoNeedToMigrate (hs : Inv builtin s) (table : N) :
    Inv builtin (s.markAsNoNeedToMigrate table) := by
  refine { hs with filted := fun i info hinfo => ?_, hints := fun t ht => ?_ }
  · have hfilted := hs.filted i info hinfo
    grind [State.markAsNoNeedToMigrate_filted]
  · have hhints := hs.hints t
    grind [State.markAsNoNeedToMigrate_filted, State.markAsNoNeedToMigrate]

omit [DecidableEq H] [DecidableEq N] in
/-- A new info is in none of the containers. -/
theorem Inv.fresh (hs : Inv builtin s) (hfresh : s.holder i = none) :
    i ∉ s.migratings ∧ i ∉ s.referenceds ∧ i ∉ s.dumpster := by
  have hheld := hs.held i
  have hmigratings := hs.migratings i
  grind

omit [DecidableEq H] in
theorem inv_holdOrHint (hs : Inv builtin s) {table : N} (hbuiltin : builtin table = false)
    (isCrossDatabase : Bool) (target : TargetTable N) (hfresh : s.holder i = none) :
    Inv builtin (s.holdOrHint table isCrossDatabase target i) := by
  unfold State.holdOrHint
  split_ifs with hnone hhint
  · refine { hs with hints := fun t ht => ?_ }
    have hhints := hs.hints t
    grind
  · obtain ⟨hmigratings, hreferenceds, hdumpster⟩ := hs.fresh hfresh
    obtain ⟨hsub, hdisjoint, hpositive, hcounted, huncounted, hheld, hfilted, hhints, hmarked,
      hdropping, hdropped, hmoving, htables, halone, hasserted⟩ := hs
    simp only [State.outstandingOf] at hcounted huncounted
    constructor <;> simp only [Function.update_apply, State.outstandingOf]
    all_goals grind
  · exact hs

omit [DecidableEq H] in
theorem inv_initInfo (hs : Inv builtin s) (table : N) (sources : List (Source N))
    (hfresh : s.holder i = none) : Inv builtin (s.initInfo builtin table sources i).1 := by
  unfold State.initInfo
  split
  · exact inv_markAsNoNeedToMigrate hs table
  next hbuiltin =>
    split
    · exact inv_markAsNoNeedToMigrate hs table
    · split
      · exact hs
      · split
        · exact hs
        · exact inv_markAsNoNeedToMigrate hs table
        · split
          · exact hs
          · exact inv_holdOrHint hs (by simpa using hbuiltin) _ _ hfresh

omit [DecidableEq H] in
/-- An info that nobody has and that is migrated goes to the dumpster. -/
theorem State.markAsUnreferenced_eq (hfilted : s.isFilted i = true) (hmigrated : i ∉ s.migratings)
    (hreferenced : i ∈ s.referenceds) (hcount : s.references i = 0) (hdumpster : i ∉ s.dumpster) :
    s.markAsUnreferenced i =
      { s with referenceds := s.referenceds.erase i, dumpster := insert i s.dumpster } := by
  rw [State.markAsUnreferenced,
    State.wctAssert_eq ⟨hfilted, hmigrated, hreferenced, hcount, hdumpster⟩]

omit [DecidableEq N] in
/-- A handle goes on without an info in hand. -/
theorem Inv.goto (hs : Inv builtin s) {place : Place N} (hfree : place.inHand = none)
    (hnext : ∀ tables, place.tables = some tables → ∀ table ∈ tables, builtin table = false) :
    Inv builtin (s.goto h place) := by
  obtain ⟨hsub, hdisjoint, hpositive, hcounted, huncounted, hheld, hfilted, hhints, hmarked,
    hdropping, hdropped, hmoving, htables, halone, hasserted⟩ := hs
  simp only [State.outstandingOf] at hcounted huncounted
  constructor <;> simp only [State.goto, Function.update_apply, State.outstandingOf]
  all_goals grind [Place.inHand, Place.tables]

omit [DecidableEq N] in
theorem Inv.goto_plain (hs : Inv builtin s) {place : Place N} (hfree : place.inHand = none)
    (hplain : place.tables = none) : Inv builtin (s.goto h place) :=
  hs.goto hfree fun tables heq => by simp [hplain] at heq

omit [DecidableEq N] in
/-- A step picks an info that no other step has in hand. -/
theorem Inv.pick (hs : Inv builtin s) {place : Place N} (hhand : place.inHand = some i)
    (hplace : place = .dropping i ∧ i ∈ s.dumpster ∨ place = .moving i ∧ i ∈ s.migratings)
    (hothers : ∀ h' ≠ h, (s.place h').inHand ≠ some i) : Inv builtin (s.goto h place) := by
  obtain ⟨hsub, hdisjoint, hpositive, hcounted, huncounted, hheld, hfilted, hhints, hmarked,
    hdropping, hdropped, hmoving, htables, halone, hasserted⟩ := hs
  simp only [State.outstandingOf] at hcounted huncounted
  constructor <;> simp only [State.goto, Function.update_apply, State.outstandingOf]
  all_goals grind [Place.inHand, Place.tables]

omit [DecidableEq H] [DecidableEq N] in
/-- What a step has in hand, no other step has. -/
theorem Inv.others (hs : Inv builtin s) (hhand : (s.place h).inHand = some i) (h' : H)
    (hne : h' ≠ h) :
    s.place h' ≠ .dropping i ∧ s.place h' ≠ .dropped i ∧ s.place h' ≠ .moving i := by
  have halone := hs.alone h' h i
  refine ⟨fun hplace => ?_, fun hplace => ?_, fun hplace => ?_⟩ <;>
    exact hne (halone (by rw [hplace]; rfl) hhand)

theorem inv_markAsDropped (hs : Inv builtin s) (hplace : s.place h = .dropping i) :
    Inv builtin ((s.markAsDropped i).goto h (.dropped i)) := by
  have hdumpster := hs.dropping h i hplace
  have hreferenced := hs.dumpster i hdumpster
  have hmigrated : i ∉ s.migratings := fun hmem => hreferenced (hs.migratings i hmem)
  have hothers := hs.others (h := h) (i := i) (by rw [hplace]; rfl)
  rw [State.markAsDropped,
    State.wctAssert_eq ⟨hs.isFilted (Or.inr hdumpster), hmigrated, hreferenced, hdumpster⟩]
  obtain ⟨hsub, hdisjoint, hpositive, hcounted, huncounted, hheld, hfilted, hhints, hmarked,
    hdropping, hdropped, hmoving, htables, halone, hasserted⟩ := hs
  simp only [State.outstandingOf] at hcounted huncounted
  constructor <;> simp only [State.goto, Function.update_apply, State.outstandingOf]
  all_goals grind [Place.inHand, Place.tables]

theorem inv_markAsMigrated (hs : Inv builtin s) (hplace : s.place h = .moving i) :
    Inv builtin ((s.markAsMigrated i).goto h .idle) := by
  have hmigrating := hs.moving h i hplace
  have hreferenced := hs.migratings i hmigrating
  have hdumpster : i ∉ s.dumpster := fun hmem => hs.dumpster i hmem hreferenced
  have hfilted' := hs.isFilted (Or.inl hreferenced)
  have hothers := hs.others (h := h) (i := i) (by rw [hplace]; rfl)
  rw [State.markAsMigrated, State.wctAssert_eq ⟨hfilted', hmigrating, hreferenced⟩]
  obtain ⟨hsub, hdisjoint, hpositive, hcounted, huncounted, hheld, hfilted, hhints, hmarked,
    hdropping, hdropped, hmoving, htables, halone, hasserted⟩ := hs
  simp only [State.outstandingOf] at hcounted huncounted ⊢
  split_ifs with hcount
  · rw [State.markAsUnreferenced_eq (s := { s with
      migratings := s.migratings.erase i
      marked := insert i s.marked }) hfilted' (by simp) hreferenced hcount hdumpster]
    constructor <;> simp only [State.goto, Function.update_apply, State.outstandingOf]
    all_goals grind [Place.inHand, Place.tables]
  · constructor <;> simp only [State.goto, Function.update_apply, State.outstandingOf]
    all_goals grind [Place.inHand, Place.tables]

omit [DecidableEq H] in
theorem inv_getInfo (hs : Inv builtin s) (h : H) (table : N) :
    Inv builtin (s.getInfo h table).1 := by
  unfold State.getInfo
  split
  · exact hs
  · exact hs
  next info hinfo =>
    split_ifs with hmigrating
    · have hreferenced := hs.migratings info hmigrating
      have hdumpster : info ∉ s.dumpster := fun hmem => hs.dumpster info hmem hreferenced
      rw [State.retainInfo, State.wctAssert_eq ⟨hs.isFilted (Or.inl hreferenced), hmigrating,
        hdumpster, hreferenced⟩]
      refine { hs with
        positive := fun j hj hj' => ?_
        counted := fun j hj => ?_
        uncounted := fun j hj => ?_ }
      · have hpositive := hs.positive j hj hj'
        grind [Function.update_apply]
      · have hcounted := hs.counted j hj
        simp only [Function.update_apply, State.outstandingOf, List.countP_cons] at hcounted ⊢
        grind
      · have huncounted := hs.uncounted j hj
        simp only [State.outstandingOf, List.countP_cons] at huncounted ⊢
        grind
    · exact hs

omit [DecidableEq N] in
/-- A value of an info is recycled. -/
theorem State.outstandingOf_erase (hvalue : (h, i) ∈ s.outstanding) (j : ℕ) :
    State.outstandingOf { s with outstanding := s.outstanding.erase (h, i) } j =
      if j = i then s.outstandingOf i - 1 else s.outstandingOf j := by
  simp only [State.outstandingOf, List.countP_erase, hvalue, true_and, decide_eq_true_eq]
  grind

omit [DecidableEq H] [DecidableEq N] in
theorem State.outstandingOf_pos (hvalue : (h, i) ∈ s.outstanding) : 0 < s.outstandingOf i :=
  List.countP_pos_iff.mpr ⟨(h, i), hvalue, by simp⟩

omit [DecidableEq H] [DecidableEq N] in
theorem Inv.referenced_of_outstanding (hs : Inv builtin s) (hvalue : (h, i) ∈ s.outstanding) :
    i ∈ s.referenceds := by
  by_contra hmem
  exact Nat.ne_of_gt (State.outstandingOf_pos hvalue) (hs.uncounted i hmem)

theorem inv_releaseInfo (hs : Inv builtin s) (hvalue : (h, i) ∈ s.outstanding) :
    Inv builtin (s.releaseInfo h i) := by
  have hpos := State.outstandingOf_pos hvalue
  have hreferenced := hs.referenced_of_outstanding hvalue
  have hcount := hs.counted i hreferenced
  have hdumpster : i ∉ s.dumpster := fun hmem => hs.dumpster i hmem hreferenced
  have hfilted := hs.isFilted (Or.inl hreferenced)
  have herase := State.outstandingOf_erase hvalue
  rw [State.releaseInfo, State.wctAssert_eq ⟨hfilted, hdumpster, hreferenced, hcount ▸ hpos⟩]
  simp only [Function.update_self]
  split_ifs with hlast
  · have hunreferenced := State.markAsUnreferenced_eq (s := { s with
      references := update s.references i (s.references i - 1)
      outstanding := s.outstanding.erase (h, i) }) hfilted hlast.2 hreferenced (by simp [hlast.1])
      hdumpster
    rw [hunreferenced]
    clear hunreferenced
    refine { hs with
      migratings := fun j hj => ?_
      dumpster := fun j hj => ?_
      positive := fun j hj hj' => ?_
      counted := fun j hj => ?_
      uncounted := fun j hj => ?_
      held := fun j hj => ?_
      dropping := fun h' j hj => Finset.mem_insert_of_mem (hs.dropping h' j hj)
      dropped := fun h' j hj => ?_ }
    · have hmigratings := hs.migratings j hj
      grind
    · have hdisjoint := hs.dumpster j
      grind
    · have hpositive := hs.positive j
      grind [Function.update_apply]
    · have hcounted := hs.counted j
      have herase := herase j
      simp only [State.outstandingOf, Function.update_apply] at herase hcounted hj ⊢
      grind
    · have huncounted := hs.uncounted j
      have herase := herase j
      simp only [State.outstandingOf] at herase huncounted hcount hj ⊢
      grind
    · have hheld := hs.held j
      grind
    · have hdropped := hs.dropped h' j hj
      grind
  · refine { hs with
      positive := fun j hj hj' => ?_
      counted := fun j hj => ?_
      uncounted := fun j hj => ?_ }
    · have hpositive := hs.positive j
      grind [Function.update_apply]
    · have hcounted := hs.counted j
      have herase := herase j
      simp only [State.outstandingOf, Function.update_apply] at herase hcounted hj ⊢
      grind
    · have huncounted := hs.uncounted j
      have herase := herase j
      simp only [State.outstandingOf] at herase huncounted hj ⊢
      grind

omit [DecidableEq H] [DecidableEq N] in
theorem State.unreferencedTable_mem (hi : s.unreferencedTable = some i) : i ∈ s.dumpster :=
  (Finset.mem_sort _).mp (List.mem_of_head? hi)

omit [DecidableEq H] [DecidableEq N] in
theorem State.migratingTable_mem (hi : s.migratingTable = some i) : i ∈ s.migratings := by
  rcases Option.or_eq_some_iff.mp hi with hfind | ⟨-, hhead⟩
  · exact (Finset.mem_sort _).mp (List.mem_of_find?_eq_some hfind)
  · exact (Finset.mem_sort _).mp (List.mem_of_head? hhead)

omit [DecidableEq H] [DecidableEq N] in
theorem inv_purge (hs : Inv builtin s) (hout : s.outstanding = [])
    (hhand : ∀ h, (s.place h).inHand = none) : Inv builtin s.purge := by
  have hnone (h : H) (place : Place N) (hsome : place.inHand ≠ none) : s.place h ≠ place := by
    rintro rfl
    exact hsome (hhand h)
  refine ⟨?_, ?_, ?_, ?_, ?_, ?_, ?_, ?_, ?_, fun h i hplace => ?_, fun h i hplace => ?_,
    fun h i hplace => ?_, hs.tables, hs.alone, hs.asserted⟩
  case refine_10 => exact absurd hplace (hnone h _ (by simp [Place.inHand]))
  case refine_11 => exact absurd hplace (hnone h _ (by simp [Place.inHand]))
  case refine_12 => exact absurd hplace (hnone h _ (by simp [Place.inHand]))
  all_goals simp [State.purge, State.outstandingOf, hout]

theorem inv_migrateRows (hs : Inv builtin s) (hplace : s.place h = .moving i)
    (tableExists : Option Bool) (updated : Bool) (migrated : Option Bool) :
    Inv builtin (s.migrateRows h i tableExists updated migrated) := by
  unfold State.migrateRows
  have hidle : Inv builtin (s.goto h .idle) := hs.goto_plain rfl rfl
  split
  · exact hidle
  · exact inv_markAsMigrated hs hplace
  · split_ifs
    · exact inv_markAsMigrated hs hplace
    · exact hidle

theorem inv_initNext (hs : Inv builtin s) {tables : Finset N}
    (hplace : s.place h = .initializing tables) {table : N} (htable : table ∈ tables)
    (sources : List (Source N)) (hfresh : s.holder i = none) :
    Inv builtin (s.initNext builtin h tables table sources i) := by
  have htables := hs.tables h tables (by rw [hplace]; rfl)
  have hbuiltin := htables table htable
  rw [State.initNext, State.wctAssert_eq (by simp [hbuiltin])]
  refine (inv_initInfo hs table sources hfresh).goto ?_ ?_
  · split_ifs <;> rfl
  · intro tables' heq t ht
    split_ifs at heq
    · cases heq
      exact htables t (Finset.mem_of_mem_erase ht)
    · cases heq

theorem step_inv (s : State H N) (a : Action H N) (s' : State H N) (hs : Inv builtin s)
    (hok : Orderly s a) (hstep : step builtin s a = some s') : Inv builtin s' := by
  cases a with
  | initInfo h table sources hold =>
    obtain ⟨⟨-, hfresh⟩, hs'⟩ := Option.ite_none_right_eq_some.mp hstep
    cases hs'
    exact inv_initInfo hs table sources hfresh
  | getInfo h table =>
    obtain ⟨-, hs'⟩ := Option.ite_none_right_eq_some.mp hstep
    cases hs'
    exact inv_getInfo hs h table
  | releaseInfo h info =>
    obtain ⟨⟨-, hvalue⟩, hs'⟩ := Option.ite_none_right_eq_some.mp hstep
    cases hs'
    exact inv_releaseInfo hs hvalue
  | emplace h table info =>
    obtain ⟨-, hs'⟩ := Option.ite_none_right_eq_some.mp hstep
    cases hs'
    exact { hs with }
  | tryReduceBounds h =>
    obtain ⟨-, hs'⟩ := Option.ite_none_right_eq_some.mp hstep
    cases hs'
    unfold State.tryReduceBounds
    split_ifs
    · exact hs.goto_plain rfl rfl
    · exact hs
  | reduceBounds h =>
    obtain ⟨-, hs'⟩ := Option.ite_none_right_eq_some.mp hstep
    cases hs'
    have hreduced : Inv builtin { s with
        bindings := update s.bindings h
          ((s.bindings h).filter fun binding => binding.2 ∈ s.migratings) } := { hs with }
    exact hreduced.goto_plain rfl rfl
  | purge =>
    cases hstep
    exact inv_purge hs hok.1 hok.2
  | step h =>
    obtain ⟨-, hs'⟩ := Option.ite_none_right_eq_some.mp hstep
    cases hs'
    have hstarted : Inv builtin { s with recursions := update s.recursions h 0 } := { hs with }
    exact hstarted.goto_plain rfl rfl
  | tryDropUnreferencedTable h =>
    obtain ⟨-, hs'⟩ := Option.ite_none_right_eq_some.mp hstep
    cases hs'
    unfold State.tryDropUnreferencedTable
    split
    next info hinfo =>
      exact hs.pick rfl (Or.inl ⟨rfl, State.unreferencedTable_mem hinfo⟩) fun h' hne =>
        hok h' hne info hinfo
    · exact hs.goto_plain rfl rfl
  | dropSourceTable h succeed =>
    simp only [step] at hstep
    split at hstep
    next info hplace =>
      cases hstep
      split_ifs
      · exact inv_markAsDropped hs hplace
      · exact hs.goto_plain rfl rfl
    · cases hstep
  | didDrop h =>
    simp only [step] at hstep
    split at hstep
    next info hplace =>
      cases hstep
      obtain ⟨-, hreferenced, hdumpster⟩ := hs.dropped h info hplace
      have hmigrated : info ∉ s.migratings := fun hmem => hreferenced (hs.migratings info hmem)
      rw [State.didDrop, State.wctAssert_eq ⟨hmigrated, hreferenced, hdumpster⟩]
      exact hs.goto_plain rfl rfl
    · cases hstep
  | tryMigrateRows h =>
    obtain ⟨-, hs'⟩ := Option.ite_none_right_eq_some.mp hstep
    cases hs'
    unfold State.tryMigrateRows
    split
    next info hinfo =>
      exact hs.pick rfl (Or.inr ⟨rfl, State.migratingTable_mem hinfo⟩) fun h' hne =>
        hok h' hne info hinfo
    · exact hs.goto_plain rfl rfl
  | migrateRows h tableExists updated migrated =>
    simp only [step] at hstep
    split at hstep
    next info hplace =>
      cases hstep
      exact inv_migrateRows hs hplace tableExists updated migrated
    · cases hstep
  | tryAcquireTables h =>
    obtain ⟨-, hs'⟩ := Option.ite_none_right_eq_some.mp hstep
    cases hs'
    unfold State.tryAcquireTables
    split_ifs
    · exact hs.goto_plain rfl rfl
    · exact hs.goto_plain rfl rfl
  | getAllTables h tables =>
    obtain ⟨⟨-, hbuiltin⟩, hs'⟩ := Option.ite_none_right_eq_some.mp hstep
    cases hs'
    cases tables with
    | none => exact hs.goto_plain rfl rfl
    | some tables =>
      refine hs.goto rfl fun tables' heq table htable => ?_
      cases heq
      exact hbuiltin table (List.mem_toFinset.mp htable)
  | addHints h =>
    simp only [step] at hstep
    split at hstep
    next tables hplace =>
      cases hstep
      refine hs.goto rfl fun tables' heq table htable => ?_
      cases heq
      rcases Finset.mem_union.mp htable with hmem | hmem
      · exact hs.tables h tables (by rw [hplace]; rfl) table hmem
      · exact (hs.hints table hmem).2
    · cases hstep
  | initNext h table sources hold =>
    simp only [step] at hstep
    split at hstep
    next tables hplace =>
      obtain ⟨⟨htable, hfresh⟩, hs'⟩ := Option.ite_none_right_eq_some.mp hstep
      cases hs'
      exact inv_initNext hs hplace htable sources hfresh
    · cases hstep
  | didAcquire h =>
    obtain ⟨-, hs'⟩ := Option.ite_none_right_eq_some.mp hstep
    cases hs'
    have hacquired : Inv builtin { s with
        tableAcquired := true
        recursions := update s.recursions h (s.recursions h + 1) } := { hs with }
    exact hacquired.goto_plain rfl rfl
  | check h =>
    obtain ⟨-, hs'⟩ := Option.ite_none_right_eq_some.mp hstep
    cases hs'
    have hasserted : Inv builtin (s.assertInStep s.tableAcquired) := { hs with }
    simp only [State.check]
    split_ifs
    · exact hasserted.goto_plain rfl rfl
    · exact hasserted.goto_plain rfl rfl
  | complete h =>
    obtain ⟨-, hs'⟩ := Option.ite_none_right_eq_some.mp hstep
    cases hs'
    have hcompleted : Inv builtin { s.assertInStep (s.tableAcquired ∧ s.dumpster = ∅ ∧
        s.migratings = ∅ ∧ s.referenceds = ∅ ∧ s.hints = ∅) with migrated := true } :=
      { hs with }
    exact hcompleted.goto_plain rfl rfl

omit [DecidableEq H] [DecidableEq N] in
theorem Inv.booked (hs : Inv builtin s) : Booked s where
  migratings := fun info hinfo =>
    ⟨hs.migratings info hinfo, fun hmem => hs.dumpster info hmem (hs.migratings info hinfo)⟩
  disjoint := Finset.disjoint_right.mpr hs.dumpster
  counted := hs.counted
  positive := hs.positive
  asserted := hs.asserted
  dropping := fun h info hplace => by
    have hdumpster := hs.dropping h info hplace
    have hreferenced := hs.dumpster info hdumpster
    exact ⟨hs.marked info (hs.held info (Or.inr hdumpster))
      fun hmem => hreferenced (hs.migratings info hmem), hs.uncounted info hreferenced⟩

omit [DecidableEq H] [DecidableEq N] in
theorem Inv.init : Inv builtin ({} : State H N) := by
  constructor <;> simp [State.outstandingOf, Place.inHand, Place.tables]

/-- **The books are right in every orderly run.** -/
theorem booked_of_exec {actions : List (Action H N)}
    (horderly : Run.Meets (step builtin) Orderly {} actions)
    (h : Run.exec (step builtin) {} actions = some s) : Booked s :=
  (Run.inv_exec step_inv Inv.init horderly h).booked

end Steps

/-- No table is builtin in the runs below. -/
def noBuiltin : ℕ → Bool := fun _ => false

/-- A source database with rows for a table that exists. -/
def migratingSource : Source ℕ := { target := some { tableExists := true, columns := [0] } }

/-- A step up to `migrateRows`. -/
def pickingUp (h : Fin 2) : List (Action (Fin 2) ℕ) :=
  [.step h, .tryDropUnreferencedTable h, .tryMigrateRows h]

/-- Two threads step at once, and both find the last rows migrated. -/
def twoSteppers : List (Action (Fin 2) ℕ) :=
  [.initInfo 0 7 [migratingSource] 0] ++ pickingUp 0 ++ pickingUp 1 ++
    [.migrateRows 0 (some true) true (some true), .migrateRows 1 (some true) true (some true)]

/-- The second to mark the info as migrated finds it neither to migrate nor referenced. -/
theorem not_booked_twoSteppers :
    ∃ s, Run.exec (step noBuiltin) {} twoSteppers = some s ∧ ¬ Booked s ∧ s.asserted = false := by
  have hview : (Run.exec (step noBuiltin) ({} : State (Fin 2) ℕ) twoSteppers).map
      State.asserted = some false := by decide +kernel
  obtain ⟨s, hs, hasserted⟩ := Option.map_eq_some_iff.mp hview
  exact ⟨s, hs, fun hbooked => absurd hbooked.asserted (by simp [hasserted]), hasserted⟩

/-- A table is migrated while another handle uses its info, and is dropped once it is recycled. -/
def oneStepper : List (Action (Fin 2) ℕ) :=
  [.initInfo 1 7 [migratingSource] 0, .getInfo 1 7, .emplace 1 7 0] ++ pickingUp 0 ++
    [.migrateRows 0 (some true) true (some true), .tryReduceBounds 1, .reduceBounds 1,
      .releaseInfo 1 0, .step 0, .tryDropUnreferencedTable 0, .dropSourceTable 0 true,
      .didDrop 0] ++ pickingUp 0 ++
    [.tryAcquireTables 0, .getAllTables 0 (some [7, 8]), .addHints 0,
      .initNext 0 7 [migratingSource] 1,
      .initNext 0 8 [] 1, .didAcquire 0, .tryDropUnreferencedTable 0, .tryMigrateRows 0,
      .tryAcquireTables 0, .check 0, .complete 0, .purge]

theorem booked_oneStepper :
    ∃ s, Run.exec (step noBuiltin) {} oneStepper = some s ∧ Booked s := by
  obtain ⟨s, hs⟩ : ∃ s, Run.exec (step noBuiltin) ({} : State (Fin 2) ℕ) oneStepper = some s :=
    Option.isSome_iff_exists.mp (by decide +kernel)
  exact ⟨s, hs, booked_of_exec (by decide +kernel) hs⟩

end Migration

end Wcdb
