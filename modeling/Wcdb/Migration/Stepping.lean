import Wcdb.Base.Acquisition
import Wcdb.Migration.Bookkeeping
import Mathlib.Data.Prod.Lex

/-!
# `Migration::step`: when it reports that all is migrated

Steps run while other handles hint, create and access tables (`World`). A step that found nothing to
drop and nothing to migrate acquires all tables and calls itself; once the tables are acquired and
the containers are empty, it returns true.

A table that is hinted and not created yet is hinted again while the tables are acquired, and the
flag that says so is overwritten at the end of the loop (`hintedAgain`). In a run in which the
tables count as acquired only when no hint is left, and no table is hinted behind the back of a
step, a step that returns true is right, and it calls itself at most once (`honest_of_exec`).
-/

namespace Wcdb

namespace Migration

variable {H N : Type} [DecidableEq H] [DecidableEq N]

open Acquisition (Phase View)

/-- What the acquisition of the tables sees of a place. -/
def Place.phase : Place N → Phase N
  | .starting | .migrating | .acquiring => .searching
  | .listing => .listing
  | .listed tables => .listed tables
  | .initializing tables => .initializing tables
  | .checking | .completing => .found
  | .idle | .reducing | .dropping _ | .dropped _ | .moving _ => .outside

def State.view (s : State H N) : View H N where
  filted := fun table => s.filted table ≠ none
  hints := s.hints
  tableAcquired := s.tableAcquired
  phase := fun h => (s.place h).phase
  recursions := s.recursions

/-! ### One initialization -/

/-- `initInfo` comes to hinting the table. -/
def hintsTable (builtin : N → Bool) (s : State H N) (table : N)
    (sources : List (Source N)) : Bool :=
  !builtin table && (s.filted table).isNone &&
    (sources.find? Source.shouldMigrate).any fun source =>
      source.attached && source.sourceTableExists == some true &&
        source.target.any fun target => !target.tableExists || target.columns.isEmpty

/-- What an `initInfo` leaves of the books. -/
structure Initialized (builtin : N → Bool) (s s' : State H N) (table : N)
    (sources : List (Source N)) (succeed : Bool) : Prop extends
    Acquisition.Initialized s.view s'.view table (hintsTable builtin s table sources) succeed where
  unheld : s'.migratings = s.migratings ∧ s'.referenceds = s.referenceds ∨
    builtin table = false ∧ s.filted table = none ∧
      ∃ source ∈ sources, ∃ target ∈ source.target, target.tableExists = true
  dumpster : s'.dumpster = s.dumpster

section Initialized

variable {builtin : N → Bool} {s : State H N}

omit [DecidableEq H] [DecidableEq N] in
theorem initialized_failed (table : N) (sources : List (Source N))
    (hhints : hintsTable builtin s table sources = false) :
    Initialized builtin s s table sources false where
  known := by simp
  kept := fun _ h => h
  unhinted := fun _ => ⟨rfl, Finset.Subset.refl _⟩
  hinted := fun h => by simp [hhints] at h
  unheld := Or.inl ⟨rfl, rfl⟩
  dumpster := rfl

omit [DecidableEq H] in
theorem initialized_markAsNoNeedToMigrate (table : N) (sources : List (Source N))
    (hhints : hintsTable builtin s table sources = false) :
    Initialized builtin s (s.markAsNoNeedToMigrate table) table sources true := by
  have hfilted := State.markAsNoNeedToMigrate_filted (s := s) table
  have hmem (t : N) : t ∈ (s.markAsNoNeedToMigrate table).hints ↔ t ≠ table ∧ t ∈ s.hints :=
    Finset.mem_erase
  refine ⟨⟨fun _ => ?_, fun t ht => ?_, fun _ => ⟨rfl, fun t ht => ?_⟩,
    fun h => by simp [hhints] at h⟩, Or.inl ⟨rfl, rfl⟩, rfl⟩
  · left
    simp only [State.view]
    grind
  · simp only [View.Known, State.view] at ht ⊢
    grind
  · exact ((hmem t).mp ht).2

omit [DecidableEq H] in
theorem initialized_holdOrHint {table : N} {sources : List (Source N)} {source : Source N}
    {target : TargetTable N} (hbuiltin : builtin table = false)
    (hsource : sources.find? Source.shouldMigrate = some source)
    (hattached : source.attached = true)
    (hexists : source.sourceTableExists = some true) (htarget : source.target = some target)
    (hold : ℕ) :
    Initialized builtin s (s.holdOrHint table source.isCrossDatabase target hold) table sources
      true := by
  have hhints : hintsTable builtin s table sources =
      ((s.filted table).isNone && (!target.tableExists || target.columns.isEmpty)) := by
    simp [hintsTable, hbuiltin, hsource, hattached, hexists, htarget]
  unfold State.holdOrHint
  split_ifs with hnone hhint
  · have htrue : hintsTable builtin s table sources = true := by
      rw [hhints, hnone, hhint]
      rfl
    refine ⟨⟨fun _ => Or.inr (Finset.mem_insert_self _ _), fun t ht => ?_,
      fun h => by simp [htrue] at h, fun _ => rfl⟩, Or.inl ⟨rfl, rfl⟩, rfl⟩
    exact ht.imp_right fun hmem => Finset.mem_insert_of_mem hmem
  · have hfalse : hintsTable builtin s table sources = false := by
      rw [hhints, (Bool.not_eq_true _).mp hhint, Bool.and_false]
    refine ⟨⟨fun _ => ?_, fun t ht => ?_, fun _ => ⟨rfl, fun t ht => ?_⟩,
      fun h => by simp [hfalse] at h⟩, Or.inr ⟨hbuiltin, hnone, source,
        List.mem_of_find?_eq_some hsource, target, htarget, ?_⟩, rfl⟩
    · left
      simp [State.view]
    · simp only [View.Known, State.view] at ht ⊢
      grind [Function.update_apply]
    · exact Finset.mem_of_mem_erase ht
    · simp only [Bool.or_eq_true, not_or, Bool.not_eq_true, Bool.not_eq_false'] at hhint
      exact hhint.1
  · have hfalse : hintsTable builtin s table sources = false := by
      rw [hhints, Option.isNone_eq_false_iff.mpr (Option.isSome_iff_ne_none.mpr hnone),
        Bool.false_and]
    exact ⟨⟨fun _ => Or.inl hnone, fun _ h => h, fun _ => ⟨rfl, Finset.Subset.refl _⟩,
      fun h => by simp [hfalse] at h⟩, Or.inl ⟨rfl, rfl⟩, rfl⟩

omit [DecidableEq H] in
theorem initialized_initInfo (builtin : N → Bool) (s : State H N) (table : N)
    (sources : List (Source N)) (hold : ℕ) :
    Initialized builtin s (s.initInfo builtin table sources hold).1 table sources
      (s.initInfo builtin table sources hold).2 := by
  unfold State.initInfo
  split
  next hbuiltin =>
    exact initialized_markAsNoNeedToMigrate table sources (by simp [hintsTable, hbuiltin])
  next hbuiltin =>
    rw [Bool.not_eq_true] at hbuiltin
    split
    next hnone =>
      exact initialized_markAsNoNeedToMigrate table sources (by simp [hintsTable, hnone])
    next source hsource =>
      split
      next hattached =>
        refine initialized_failed table sources ?_
        simp only [Bool.not_eq_eq_eq_not, Bool.not_true] at hattached
        simp [hintsTable, hsource, hattached]
      next hattached =>
        simp only [Bool.not_eq_eq_eq_not, Bool.not_true, Bool.not_eq_false] at hattached
        split
        next hexists =>
          exact initialized_failed table sources (by simp [hintsTable, hsource, hexists])
        next hexists =>
          exact initialized_markAsNoNeedToMigrate table sources
            (by simp [hintsTable, hsource, hexists])
        next hexists =>
          split
          next htarget =>
            exact initialized_failed table sources (by simp [hintsTable, hsource, htarget])
          next target htarget =>
            exact initialized_holdOrHint hbuiltin hsource hattached hexists htarget hold

/-- One round of the loop initializes the table, and goes on if it succeeded. -/
theorem initialized_initNext (builtin : N → Bool) (s : State H N) (h : H) (tables : Finset N)
    (table : N) (sources : List (Source N)) (hold : ℕ) :
    ∃ succeed, Initialized builtin s (s.initNext builtin h tables table sources hold) table sources
        succeed ∧
      (s.initNext builtin h tables table sources hold).place h =
        if succeed then .initializing (tables.erase table) else .idle := by
  have hinit := initialized_initInfo builtin (s.wctAssert (!builtin table)) table sources hold
  refine ⟨((s.wctAssert (!builtin table)).initInfo builtin table sources hold).2,
    ⟨⟨hinit.known, hinit.kept, hinit.unhinted, hinit.hinted⟩, hinit.unheld, hinit.dumpster⟩, ?_⟩
  simp [State.initNext, State.goto]

end Initialized

/-! ### Steps among other handles -/

/-- The books and the tables of the database. -/
structure World (H N : Type) where
  migration : State H N := {}
  catalog : TableCatalog H N

inductive World.Action (H N : Type) where
  | migration (a : Migration.Action H N)
  | catalog (a : TableCatalog.Action H N)

namespace World

/-- What is read from the database is so: a table that is found exists for the handle, and of the
tables that exist, those are read whose names the pattern of `getAllTables` does not leave out. -/
def Reads (listed : N → Bool) (w : World H N) : Migration.Action H N → Prop
  | .initInfo h table sources _ | .initNext h table sources _ =>
      ∀ source ∈ sources, ∀ target ∈ source.target,
        target.tableExists = true → table ∈ w.catalog.visible h
  | .getAllTables h tables => ∀ list ∈ tables,
      list.toFinset = (w.catalog.visible h).filter fun table => listed table = true
  | _ => True

instance Reads.decidable (listed : N → Bool) (w : World H N) :
    (a : Migration.Action H N) → Decidable (w.Reads listed a)
  | .initInfo h table sources _ | .initNext h table sources _ => inferInstanceAs (Decidable
      (∀ source ∈ sources, ∀ target ∈ source.target,
        target.tableExists = true → table ∈ w.catalog.visible h))
  | .getAllTables h tables => inferInstanceAs (Decidable (∀ list ∈ tables,
      list.toFinset = (w.catalog.visible h).filter fun table => listed table = true))
  | .getInfo _ _ | .releaseInfo _ _ | .emplace _ _ _ | .tryReduceBounds _ | .reduceBounds _ | .purge
  | .step _ | .tryDropUnreferencedTable _ | .dropSourceTable _ _ | .didDrop _ | .tryMigrateRows _
  | .migrateRows _ _ _ _ | .tryAcquireTables _ | .addHints _ | .didAcquire _ | .check _
  | .complete _ =>
      inferInstanceAs (Decidable True)

/-- An `initInfo` that succeeds lets the handle create the table. -/
def announced (builtin : N → Bool) (w : World H N) : Migration.Action H N → TableCatalog H N
  | .initInfo h table sources hold =>
      if (w.migration.initInfo builtin table sources hold).2 then w.catalog.announce h table
      else w.catalog
  | _ => w.catalog

/-- A step of the books or of the database. The books are not purged. -/
def step (builtin listed : N → Bool) (w : World H N) : World.Action H N → Option (World H N)
  | .migration a =>
      if w.Reads listed a ∧ a ≠ .purge then
        (Migration.step builtin w.migration a).map fun s => ⟨s, w.announced builtin a⟩
      else none
  | .catalog a => (w.catalog.step a).map fun c => { w with catalog := c }

end World

/-! ### What a step changes -/

section Changes

variable {builtin : N → Bool} {s s' : State H N} {a : Action H N}

/-- Nothing is left to drop or to migrate, and nobody has an info. -/
def State.Emptied (s : State H N) : Prop := s.dumpster = ∅ ∧ s.migratings = ∅ ∧ s.referenceds = ∅

/-- The tables known, the flag and the emptiness of the containers stay. -/
structure Quiet (s s' : State H N) : Prop extends Acquisition.Quiet s.view s'.view where
  emptied : s.Emptied → s'.Emptied

omit [DecidableEq H] [DecidableEq N] in
theorem Quiet.refl (s : State H N) : Quiet s s := ⟨⟨rfl, rfl, rfl⟩, id⟩

omit [DecidableEq N] in
theorem Quiet.goto (hquiet : Quiet s s') (h : H) (place : Place N) : Quiet s (s'.goto h place) :=
  ⟨⟨hquiet.filted, hquiet.hints, hquiet.tableAcquired⟩, hquiet.emptied⟩

omit [DecidableEq H] in
theorem Quiet.markAsUnreferenced {info : ℕ} (hquiet : Quiet s s') (hinfo : ¬ s.Emptied) :
    Quiet s (s'.markAsUnreferenced info) :=
  ⟨hquiet.toQuiet, fun hemptied => absurd hemptied hinfo⟩

omit [DecidableEq H] in
theorem quiet_markAsMigrated {info : ℕ} (hinfo : info ∈ s.migratings) :
    Quiet s (s.markAsMigrated info) := by
  have hemptied : ¬ s.Emptied := fun hemptied => by simp [hemptied.2.1] at hinfo
  have hmarked : Quiet s { s.wctAssert (s.isFilted info ∧ info ∈ s.migratings ∧
      info ∈ s.referenceds) with
    migratings := s.migratings.erase info
    marked := insert info s.marked } := ⟨⟨rfl, rfl, rfl⟩, fun h => absurd h hemptied⟩
  unfold State.markAsMigrated
  simp only
  split_ifs
  · exact hmarked.markAsUnreferenced hemptied
  · exact hmarked

theorem quiet_releaseInfo {h : H} {info : ℕ} (hinfo : info ∈ s.referenceds) :
    Quiet s (s.releaseInfo h info) := by
  have hemptied : ¬ s.Emptied := fun hemptied => by simp [hemptied.2.2] at hinfo
  have hreleased : Quiet s { s.wctAssert (s.isFilted info ∧ info ∉ s.dumpster ∧
      info ∈ s.referenceds ∧ 0 < s.references info) with
    references := Function.update s.references info (s.references info - 1)
    outstanding := s.outstanding.erase (h, info) } := ⟨⟨rfl, rfl, rfl⟩, fun h => absurd h hemptied⟩
  unfold State.releaseInfo
  simp only
  split_ifs
  · exact hreleased.markAsUnreferenced hemptied
  · exact hreleased

omit [DecidableEq H] in
theorem quiet_getInfo (h : H) (table : N) : Quiet s (s.getInfo h table).1 := by
  unfold State.getInfo
  split
  · exact Quiet.refl s
  · exact Quiet.refl s
  · split_ifs
    · exact ⟨⟨rfl, rfl, rfl⟩, id⟩
    · exact Quiet.refl s

/-- A step that neither initializes a table nor ends the acquisition is quiet. -/
theorem quiet_of_step (hs : Inv builtin s) (hstep : step builtin s a = some s')
    (hinit : ∀ h table sources hold, a ≠ .initInfo h table sources hold ∧
      a ≠ .initNext h table sources hold) (hpurge : a ≠ .purge) (hacquire :
        ∀ h, a ≠ .didAcquire h) :
    Quiet s s' := by
  have hrefl := Quiet.refl s
  cases a with
  | initInfo h table sources hold => exact absurd rfl (hinit h table sources hold).1
  | initNext h table sources hold => exact absurd rfl (hinit h table sources hold).2
  | purge => exact absurd rfl hpurge
  | didAcquire h => exact absurd rfl (hacquire h)
  | getInfo h table =>
    obtain ⟨-, hs'⟩ := Option.ite_none_right_eq_some.mp hstep
    cases hs'
    exact quiet_getInfo h table
  | releaseInfo h info =>
    obtain ⟨⟨-, hvalue⟩, hs'⟩ := Option.ite_none_right_eq_some.mp hstep
    cases hs'
    exact quiet_releaseInfo (hs.referenced_of_outstanding hvalue)
  | emplace | reduceBounds | step | complete =>
    obtain ⟨-, hs'⟩ := Option.ite_none_right_eq_some.mp hstep
    cases hs'
    exact ⟨⟨rfl, rfl, rfl⟩, id⟩
  | tryReduceBounds h =>
    obtain ⟨-, hs'⟩ := Option.ite_none_right_eq_some.mp hstep
    cases hs'
    unfold State.tryReduceBounds
    split_ifs
    · exact hrefl.goto h _
    · exact hrefl
  | tryDropUnreferencedTable h =>
    obtain ⟨-, hs'⟩ := Option.ite_none_right_eq_some.mp hstep
    cases hs'
    unfold State.tryDropUnreferencedTable
    split
    · exact hrefl.goto h _
    · exact hrefl.goto h _
  | dropSourceTable h succeed =>
    simp only [step] at hstep
    split at hstep
    next info hplace =>
      cases hstep
      split_ifs
      · refine ⟨⟨rfl, rfl, rfl⟩, fun hemptied => ⟨?_, hemptied.2⟩⟩
        change s.dumpster.erase info = ∅
        rw [hemptied.1, Finset.erase_empty]
      · exact hrefl.goto h _
    · cases hstep
  | didDrop h =>
    simp only [step] at hstep
    split at hstep
    · cases hstep
      exact ⟨⟨rfl, rfl, rfl⟩, id⟩
    · cases hstep
  | tryMigrateRows h =>
    obtain ⟨-, hs'⟩ := Option.ite_none_right_eq_some.mp hstep
    cases hs'
    unfold State.tryMigrateRows
    split
    · exact hrefl.goto h _
    · exact hrefl.goto h _
  | migrateRows h tableExists updated migrated =>
    simp only [step] at hstep
    split at hstep
    next info hplace =>
      cases hstep
      have hmarked := quiet_markAsMigrated (hs.moving h info hplace)
      unfold State.migrateRows
      split
      · exact hrefl.goto h _
      · exact hmarked.goto h _
      · split_ifs
        · exact hmarked.goto h _
        · exact hrefl.goto h _
    · cases hstep
  | tryAcquireTables h =>
    obtain ⟨-, hs'⟩ := Option.ite_none_right_eq_some.mp hstep
    cases hs'
    exact hrefl.goto h _
  | getAllTables h tables =>
    obtain ⟨-, hs'⟩ := Option.ite_none_right_eq_some.mp hstep
    cases hs'
    cases tables with
    | none => exact hrefl.goto h _
    | some tables => exact hrefl.goto h _
  | addHints h =>
    simp only [step] at hstep
    split at hstep
    · cases hstep
      exact hrefl.goto h _
    · cases hstep
  | check h =>
    obtain ⟨-, hs'⟩ := Option.ite_none_right_eq_some.mp hstep
    cases hs'
    have hasserted : Quiet s (s.assertInStep s.tableAcquired) := ⟨⟨rfl, rfl, rfl⟩, id⟩
    simp only [State.check]
    split_ifs
    · exact hasserted.goto h _
    · exact hasserted.goto h _

omit [DecidableEq H] in
@[simp] theorem State.markAsMigrated_place (info : ℕ) :
    (s.markAsMigrated info).place = s.place := by
  unfold State.markAsMigrated
  simp only
  split_ifs <;> rfl

omit [DecidableEq H] in
@[simp] theorem State.markAsMigrated_recursions (info : ℕ) :
    (s.markAsMigrated info).recursions = s.recursions := by
  unfold State.markAsMigrated
  simp only
  split_ifs <;> rfl

omit [DecidableEq H] in
theorem State.initInfo_place (builtin : N → Bool) (s : State H N) (table : N)
    (sources : List (Source N)) (hold : ℕ) :
    (s.initInfo builtin table sources hold).1.place = s.place ∧
      (s.initInfo builtin table sources hold).1.recursions = s.recursions := by
  unfold State.initInfo State.holdOrHint
  repeat' split
  all_goals exact ⟨rfl, rfl⟩

theorem State.releaseInfo_place (h : H) (info : ℕ) :
    (s.releaseInfo h info).place = s.place ∧ (s.releaseInfo h info).recursions = s.recursions := by
  unfold State.releaseInfo
  simp only
  split_ifs <;> exact ⟨rfl, rfl⟩

omit [DecidableEq H] in
theorem State.getInfo_place (h : H) (table : N) :
    (s.getInfo h table).1.place = s.place ∧
      (s.getInfo h table).1.recursions = s.recursions := by
  unfold State.getInfo
  split
  · exact ⟨rfl, rfl⟩
  · exact ⟨rfl, rfl⟩
  · split_ifs <;> exact ⟨rfl, rfl⟩

end Changes

/-! ### Where a step stands -/

/-- How far a step is from its end, for one call: `didAcquire` spends the first component, each
table initialized the last. -/
def Place.rank : Place N → ℕ ×ₗ ℕ
  | .idle | .reducing => toLex (0, 0)
  | .dropped _ | .moving _ | .completing => toLex (1, 0)
  | .dropping _ | .checking => toLex (2, 0)
  | .initializing tables => toLex (3, tables.card)
  | .listed _ => toLex (4, 0)
  | .listing => toLex (5, 0)
  | .acquiring => toLex (6, 0)
  | .migrating => toLex (7, 0)
  | .starting => toLex (8, 0)

def State.remaining (s : State H N) (h : H) : ℕ ×ₗ ℕ ×ₗ ℕ :=
  toLex (1 - s.recursions h, (s.place h).rank)

/-- The handle is in a step. -/
def Place.isStepping : Place N → Bool
  | .idle | .reducing => false
  | _ => true

/-- From one section of a step to the next. -/
inductive Next (s s' : State H N) (h : H) (a : Action H N) : Place N → Place N → Prop where
  | drop (info : ℕ) : Next s s' h a .starting (.dropping info)
  | migrate : Next s s' h a .starting .migrating
  | dropped (info : ℕ) : Next s s' h a (.dropping info) (.dropped info)
  | move (info : ℕ) : Next s s' h a .migrating (.moving info)
  | acquire : Next s s' h a .migrating .acquiring
  | check (hacquired : s.tableAcquired = true) : Next s s' h a .acquiring .checking
  | list (hacquired : s.tableAcquired = false) : Next s s' h a .acquiring .listing
  | listed (tables : List N) (haction : a = .getAllTables h (some tables)) :
      Next s s' h a .listing (.listed tables.toFinset)
  | addHints (tables : Finset N) :
      Next s s' h a (.listed tables) (.initializing (tables ∪ s.hints))
  | initialized (tables : Finset N) (table : N) (htable : table ∈ tables)
      (hknown : s'.view.Known table) :
      Next s s' h a (.initializing tables) (.initializing (tables.erase table))
  | complete (hemptied : s.Emptied) : Next s s' h a .checking .completing

/-- How a handle goes on. -/
inductive Moves (s s' : State H N) (h : H) (a : Action H N) : Prop where
  | outside (hbefore : (s.place h).isStepping = false) (hafter : (s'.place h).isStepping = false)
      (hsame : s'.recursions h = s.recursions h)
  | start (hbefore : (s.place h).isStepping = false) (hafter : s'.place h = .starting)
      (hzero : s'.recursions h = 0)
  | finish (hbefore : (s.place h).isStepping = true) (hafter : s'.place h = .idle)
      (hsame : s'.recursions h = s.recursions h)
  | next (hnext : Next s s' h a (s.place h) (s'.place h)) (hsame : s'.recursions h = s.recursions h)
  | recurse (hbefore : s.place h = .initializing ∅) (hafter : s'.place h = .starting)
      (haction : a = .didAcquire h) (hsucc : s'.recursions h = s.recursions h + 1)

/-- The handle goes on, and no other. -/
def MovesAlone (s s' : State H N) (h : H) (a : Action H N) : Prop :=
  Moves s s' h a ∧ ∀ h' ≠ h, s'.place h' = s.place h' ∧ s'.recursions h' = s.recursions h'

omit [DecidableEq H] in
theorem MovesAlone.view {s s' : State H N} {h : H} {a : Action H N} (hmoves : MovesAlone s s' h a)
    (h' : H) (hne : h' ≠ h) :
    s'.view.phase h' = s.view.phase h' ∧ s'.view.recursions h' = s.view.recursions h' :=
  (hmoves.2 h' hne).imp_left (congrArg Place.phase)

section MovesAlone

variable {s t : State H N} {h : H} {a : Action H N} {place : Place N}

omit [DecidableEq N] in
theorem others_goto (hplace : t.place = s.place) (hsame : t.recursions = s.recursions) (h' : H)
    (hne : h' ≠ h) : (t.goto h place).place h' = s.place h' ∧
      (t.goto h place).recursions h' = s.recursions h' := by
  simp [State.goto, hne, hplace, hsame]

theorem movesAlone_next (hplace : t.place = s.place) (hsame : t.recursions = s.recursions)
    (hnext : Next s (t.goto h place) h a (s.place h) place) :
    MovesAlone s (t.goto h place) h a :=
  ⟨.next (by simpa [State.goto] using hnext) (by simp [State.goto, hsame]),
    others_goto hplace hsame⟩

theorem movesAlone_finish (hplace : t.place = s.place) (hsame : t.recursions = s.recursions)
    (hbefore : (s.place h).isStepping = true) : MovesAlone s (t.goto h .idle) h a :=
  ⟨.finish hbefore (by simp [State.goto]) (by simp [State.goto, hsame]), others_goto hplace hsame⟩

omit [DecidableEq H] in
/-- Outside a step. -/
theorem movesAlone_idle (hplace : t.place = s.place) (hsame : t.recursions = s.recursions)
    (hbefore : (s.place h).isStepping = false) : MovesAlone s t h a :=
  ⟨.outside hbefore (by rw [hplace, hbefore]) (by rw [hsame]),
    fun h' _ => ⟨by rw [hplace], by rw [hsame]⟩⟩

theorem movesAlone_outside (hplace : t.place = s.place) (hsame : t.recursions = s.recursions)
    (hbefore : (s.place h).isStepping = false) (hafter : place.isStepping = false) :
    MovesAlone s (t.goto h place) h a :=
  ⟨.outside hbefore (by simpa [State.goto] using hafter) (by simp [State.goto, hsame]),
    others_goto hplace hsame⟩

end MovesAlone

/-- The handle that acts goes on, and no other. -/
theorem movesAlone_of_step {builtin : N → Bool} {s s' : State H N} {a : Action H N}
    (hstep : step builtin s a = some s') (hpurge : a ≠ .purge) :
    ∃ h, a.handle = some h ∧ MovesAlone s s' h a := by
  cases a with
  | purge => exact absurd rfl hpurge
  | initInfo h table sources hold =>
    obtain ⟨⟨hplace, -⟩, hs'⟩ := Option.ite_none_right_eq_some.mp hstep
    cases hs'
    obtain ⟨hp, hr⟩ := State.initInfo_place builtin s table sources hold
    exact ⟨h, rfl, movesAlone_idle hp hr (by rw [hplace]; rfl)⟩
  | getInfo h table =>
    obtain ⟨hplace, hs'⟩ := Option.ite_none_right_eq_some.mp hstep
    cases hs'
    obtain ⟨hp, hr⟩ := State.getInfo_place (s := s) h table
    exact ⟨h, rfl, movesAlone_idle hp hr (by rw [hplace]; rfl)⟩
  | releaseInfo h info =>
    obtain ⟨⟨hplace, -⟩, hs'⟩ := Option.ite_none_right_eq_some.mp hstep
    cases hs'
    obtain ⟨hp, hr⟩ := State.releaseInfo_place (s := s) h info
    exact ⟨h, rfl, movesAlone_idle hp hr (by rw [hplace]; rfl)⟩
  | emplace h table info =>
    obtain ⟨⟨hplace, -⟩, hs'⟩ := Option.ite_none_right_eq_some.mp hstep
    cases hs'
    exact ⟨h, rfl, movesAlone_idle rfl rfl (by rw [hplace]; rfl)⟩
  | tryReduceBounds h =>
    obtain ⟨hplace, hs'⟩ := Option.ite_none_right_eq_some.mp hstep
    cases hs'
    unfold State.tryReduceBounds
    split_ifs
    · exact ⟨h, rfl, movesAlone_outside rfl rfl (by rw [hplace]; rfl) rfl⟩
    · exact ⟨h, rfl, movesAlone_idle rfl rfl (by rw [hplace]; rfl)⟩
  | reduceBounds h =>
    obtain ⟨hplace, hs'⟩ := Option.ite_none_right_eq_some.mp hstep
    cases hs'
    exact ⟨h, rfl, movesAlone_outside rfl rfl (by rw [hplace]; rfl) rfl⟩
  | step h =>
    obtain ⟨hplace, hs'⟩ := Option.ite_none_right_eq_some.mp hstep
    cases hs'
    exact ⟨h, rfl, .start (by rw [hplace]; rfl) (by simp [State.goto]) (by simp [State.goto]),
      fun h' hne => by simp [State.goto, hne]⟩
  | tryDropUnreferencedTable h =>
    obtain ⟨hplace, hs'⟩ := Option.ite_none_right_eq_some.mp hstep
    cases hs'
    unfold State.tryDropUnreferencedTable
    split
    next info _ => exact ⟨h, rfl, movesAlone_next rfl rfl (hplace ▸ .drop info)⟩
    · exact ⟨h, rfl, movesAlone_next rfl rfl (hplace ▸ .migrate)⟩
  | dropSourceTable h succeed =>
    simp only [step] at hstep
    split at hstep
    next info hplace =>
      cases hstep
      split_ifs
      · exact ⟨h, rfl, movesAlone_next rfl rfl (hplace ▸ .dropped info)⟩
      · exact ⟨h, rfl, movesAlone_finish rfl rfl (by rw [hplace]; rfl)⟩
    · cases hstep
  | didDrop h =>
    simp only [step] at hstep
    split at hstep
    next info hplace =>
      cases hstep
      exact ⟨h, rfl, movesAlone_finish rfl rfl (by rw [hplace]; rfl)⟩
    · cases hstep
  | tryMigrateRows h =>
    obtain ⟨hplace, hs'⟩ := Option.ite_none_right_eq_some.mp hstep
    cases hs'
    unfold State.tryMigrateRows
    split
    next info _ => exact ⟨h, rfl, movesAlone_next rfl rfl (hplace ▸ .move info)⟩
    · exact ⟨h, rfl, movesAlone_next rfl rfl (hplace ▸ .acquire)⟩
  | migrateRows h tableExists updated migrated =>
    simp only [step] at hstep
    split at hstep
    next info hplace =>
      cases hstep
      have hstepping : (s.place h).isStepping = true := by rw [hplace]; rfl
      unfold State.migrateRows
      split
      · exact ⟨h, rfl, movesAlone_finish rfl rfl hstepping⟩
      · exact ⟨h, rfl, movesAlone_finish (by simp) (by simp) hstepping⟩
      · split_ifs
        · exact ⟨h, rfl, movesAlone_finish (by simp) (by simp) hstepping⟩
        · exact ⟨h, rfl, movesAlone_finish rfl rfl hstepping⟩
    · cases hstep
  | tryAcquireTables h =>
    obtain ⟨hplace, hs'⟩ := Option.ite_none_right_eq_some.mp hstep
    cases hs'
    unfold State.tryAcquireTables
    split_ifs with hacquired
    · exact ⟨h, rfl, movesAlone_next rfl rfl (hplace ▸ .check hacquired)⟩
    · exact ⟨h, rfl, movesAlone_next rfl rfl (hplace ▸ .list ((Bool.not_eq_true _).mp hacquired))⟩
  | getAllTables h tables =>
    obtain ⟨⟨hplace, -⟩, hs'⟩ := Option.ite_none_right_eq_some.mp hstep
    cases hs'
    cases tables with
    | none => exact ⟨h, rfl, movesAlone_finish rfl rfl (by rw [hplace]; rfl)⟩
    | some tables => exact ⟨h, rfl, movesAlone_next rfl rfl (hplace ▸ .listed tables rfl)⟩
  | addHints h =>
    simp only [step] at hstep
    split at hstep
    next tables hplace =>
      cases hstep
      exact ⟨h, rfl, movesAlone_next rfl rfl (hplace ▸ .addHints tables)⟩
    · cases hstep
  | initNext h table sources hold =>
    simp only [step] at hstep
    split at hstep
    next tables hplace =>
      obtain ⟨⟨htable, -⟩, hs'⟩ := Option.ite_none_right_eq_some.mp hstep
      cases hs'
      have hinit := initialized_initInfo builtin (s.wctAssert (!builtin table)) table sources hold
      obtain ⟨hp, hr⟩ :=
        State.initInfo_place builtin (s.wctAssert (!builtin table)) table sources hold
      unfold State.initNext
      simp only
      split_ifs with hsucceed
      · exact ⟨h, rfl, movesAlone_next hp hr
          (hplace ▸ .initialized tables table htable (hinit.known hsucceed))⟩
      · exact ⟨h, rfl, movesAlone_finish hp hr (by rw [hplace]; rfl)⟩
    · cases hstep
  | didAcquire h =>
    obtain ⟨hplace, hs'⟩ := Option.ite_none_right_eq_some.mp hstep
    cases hs'
    exact ⟨h, rfl, .recurse hplace (by simp [State.didAcquire, State.goto]) rfl
      (by simp [State.didAcquire, State.goto]),
      fun h' hne => by simp [State.didAcquire, State.goto, hne]⟩
  | check h =>
    obtain ⟨hplace, hs'⟩ := Option.ite_none_right_eq_some.mp hstep
    cases hs'
    unfold State.check
    simp only
    split_ifs with hleft
    · exact ⟨h, rfl, movesAlone_finish rfl rfl (by rw [hplace]; rfl)⟩
    · simp only [not_or, ne_eq, not_not] at hleft
      exact ⟨h, rfl, movesAlone_next rfl rfl (hplace ▸ .complete hleft)⟩
  | complete h =>
    obtain ⟨hplace, hs'⟩ := Option.ite_none_right_eq_some.mp hstep
    cases hs'
    exact ⟨h, rfl, movesAlone_finish rfl rfl (by rw [hplace]; rfl)⟩

omit [DecidableEq H] in
theorem Next.rank_lt {s s' : State H N} {h : H} {a : Action H N} {p p' : Place N}
    (hnext : Next s s' h a p p') : p'.rank < p.rank := by
  cases hnext with
  | initialized tables table htable =>
    exact Prod.Lex.toLex_lt_toLex.mpr (Or.inr ⟨rfl, Finset.card_erase_lt_of_mem htable⟩)
  | drop | migrate | dropped | move | acquire | check | list | listed | addHints | complete =>
    exact Prod.Lex.toLex_lt_toLex.mpr (Or.inl (by simp))

omit [DecidableEq N] in
theorem rank_idle_lt {place : Place N} (hstepping : place.isStepping = true) :
    Place.rank (.idle : Place N) < place.rank := by
  cases place with
  | idle | reducing => cases hstepping
  | starting | dropping | dropped | migrating | moving | acquiring | listing | listed
  | initializing | checking | completing =>
    exact Prod.Lex.toLex_lt_toLex.mpr (Or.inl (Nat.succ_pos _))

omit [DecidableEq H] in
theorem remaining_lt {s s' : State H N} {h : H} {a : Action H N}
    (hmoves : Moves s s' h a) (hstepping : (s.place h).isStepping = true)
    (htables : s.place h = .initializing ∅ → s.recursions h = 0) :
    s'.remaining h < s.remaining h := by
  cases hmoves with
  | outside hbefore => simp [hbefore] at hstepping
  | start hbefore => simp [hbefore] at hstepping
  | finish hbefore hafter hsame =>
    refine Prod.Lex.toLex_lt_toLex.mpr (Or.inr ⟨by rw [hsame], ?_⟩)
    rw [hafter]
    exact rank_idle_lt hbefore
  | next hnext hsame =>
    exact Prod.Lex.toLex_lt_toLex.mpr (Or.inr ⟨by rw [hsame], hnext.rank_lt⟩)
  | recurse hbefore _ _ hsucc =>
    refine Prod.Lex.toLex_lt_toLex.mpr (Or.inl ?_)
    rw [hsucc, htables hbefore]
    exact Nat.one_pos

omit [DecidableEq H] in
/-- The places of a step are those of the acquisition. -/
theorem Moves.acquisition {builtin : N → Bool} {s s' : State H N} {h : H} {a : Action H N}
    {c : TableCatalog H N} (hmoves : Moves s s' h a) (hacquire : a ≠ .didAcquire h)
    (htables : ∀ tables, a = .getAllTables h (some tables) →
      ∀ t ∈ c.committed, builtin t = false → t ∈ tables) :
    Acquisition.Moves builtin s.view s'.view c h := by
  cases hmoves with
  | outside hbefore hafter hsame =>
    refine .outside ?_ hsame
    change (s'.place h).phase = .outside
    cases hp : s'.place h <;> simp [hp, Place.isStepping, Place.phase] at hafter ⊢
  | start hbefore hafter hzero => exact .start (congrArg Place.phase hafter) hzero
  | finish hbefore hafter hsame => exact .outside (congrArg Place.phase hafter) hsame
  | recurse hbefore hafter haction => exact absurd haction hacquire
  | next hnext hsame =>
    generalize hfrom : s.place h = p at hnext
    generalize hto : s'.place h = p' at hnext
    have hbefore : s.view.phase h = p.phase := congrArg Place.phase hfrom
    have hafter : s'.view.phase h = p'.phase := congrArg Place.phase hto
    cases hnext with
    | drop info | dropped info | move info => exact .outside hafter hsame
    | migrate | acquire => exact .stay (hafter.trans hbefore.symm) hsame
    | check hacquired => exact .found hbefore hacquired hafter hsame
    | list hcleared => exact .list hbefore hcleared hafter hsame
    | listed tables haction =>
      refine .listed tables.toFinset hbefore (fun t ht hbuiltin => ?_) hafter hsame
      exact List.mem_toFinset.mpr (htables tables haction t ht hbuiltin)
    | addHints tables => exact .addHints tables hbefore hafter hsame
    | initialized tables table _ hknown =>
      exact .initialized tables table hknown hbefore hafter hsame
    | complete => exact .stay (hafter.trans hbefore.symm) hsame

namespace World

variable {builtin listed : N → Bool} {w w' : World H N}

/-- What every state of an orderly run keeps. -/
structure Inv (builtin : N → Bool) (w : World H N) : Prop extends
    Acquisition.Inv builtin w.migration.view w.catalog where
  books : Migration.Inv builtin w.migration
  completing : ∀ h, w.migration.place h = .completing → w.migration.Emptied

/-- **The tables count as acquired only when no hint is left, no table is hinted while a step has
found them acquired, and the names read are those of all tables that exist.** This is a condition on
the state before the step. -/
def Heeds (builtin listed : N → Bool) (w : World H N) : Migration.Action H N → Prop
  | .initInfo _ table sources _ | .initNext _ table sources _ =>
      hintsTable builtin w.migration table sources = true →
        ∀ h, ¬ w.migration.view.PastAcquisition h
  | .getAllTables _ _ => ∀ t ∈ w.catalog.committed, builtin t = true ∨ listed t = true
  | .didAcquire _ => w.migration.hints = ∅
  | _ => True

instance Heeds.decidable [Fintype H] (builtin listed : N → Bool) (w : World H N) :
    (a : Migration.Action H N) → Decidable (w.Heeds builtin listed a)
  | .initInfo _ table sources _ | .initNext _ table sources _ => inferInstanceAs (Decidable
      (hintsTable builtin w.migration table sources = true →
        ∀ h, ¬ w.migration.view.PastAcquisition h))
  | .getAllTables _ _ => inferInstanceAs (Decidable
      (∀ t ∈ w.catalog.committed, builtin t = true ∨ listed t = true))
  | .didAcquire _ => inferInstanceAs (Decidable (w.migration.hints = ∅))
  | .getInfo _ _ | .releaseInfo _ _ | .emplace _ _ _ | .tryReduceBounds _ | .reduceBounds _ | .purge
  | .step _ | .tryDropUnreferencedTable _ | .dropSourceTable _ _ | .didDrop _ | .tryMigrateRows _
  | .migrateRows _ _ _ _ | .tryAcquireTables _ | .addHints _ | .check _ | .complete _ =>
      inferInstanceAs (Decidable True)

def Orderly (builtin listed : N → Bool) (w : World H N) : World.Action H N → Prop
  | .migration a => Migration.Orderly w.migration a ∧ w.Heeds builtin listed a
  | .catalog _ => True

instance Orderly.decidable [Fintype H] (builtin listed : N → Bool) (w : World H N) :
    (a : World.Action H N) → Decidable (w.Orderly builtin listed a)
  | .migration a => inferInstanceAs (Decidable
      (Migration.Orderly w.migration a ∧ w.Heeds builtin listed a))
  | .catalog _ => inferInstanceAs (Decidable True)

/-- **A step that returns true is right**: nothing is left to migrate, to drop or to acquire, and
every table that exists was filtered, but for those of SQLite and of WCDB; a step calls itself at
most once; and each of its sections brings it nearer to its end, whatever the others do. -/
structure Honest (builtin listed : N → Bool) (w : World H N) : Prop where
  returns : ∀ h, w.migration.place h = .completing → w.migration.migratings = ∅ ∧
    w.migration.dumpster = ∅ ∧ w.migration.referenceds = ∅ ∧ w.migration.hints = ∅ ∧
      ∀ t ∈ w.catalog.existing, builtin t = false → w.migration.filted t ≠ none
  recursions : ∀ h, w.migration.recursions h ≤ 1
  progress : ∀ a w', w.step builtin listed (.migration a) = some w' →
    ∀ h, (w.migration.place h).isStepping = true →
      if a.handle = some h then w'.migration.remaining h < w.migration.remaining h
      else w'.migration.remaining h = w.migration.remaining h

section Steps

/-- One table is initialized by a handle that stays outside a step or goes on in its loop. -/
theorem inv_of_initialized (hw : Inv builtin w) {s' : State H N} {c' : TableCatalog H N} {h : H}
    {a : Migration.Action H N} {table : N} {sources : List (Source N)} {succeed : Bool}
    (hinit : Initialized builtin w.migration s' table sources succeed)
    (hbooks : Migration.Inv builtin s')
    (hheeds : hintsTable builtin w.migration table sources = true →
      ∀ h, ¬ w.migration.view.PastAcquisition h)
    (hreads : ∀ source ∈ sources, ∀ target ∈ source.target,
      target.tableExists = true → table ∈ w.catalog.visible h)
    (hmoves : MovesAlone w.migration s' h a)
    (hacquisition : Acquisition.Moves builtin w.migration.view s'.view w.catalog h)
    (helsewhere : s'.view.phase h ≠ .searching ∧ s'.view.phase h ≠ .found)
    (hcatalog : c' = w.catalog ∨ succeed = true ∧ c' = w.catalog.announce h table) :
    Inv builtin ⟨s', c'⟩ := by
  refine ⟨Acquisition.inv_of_initialized hw.toInv hinit.toInitialized hheeds
    ⟨hacquisition, hmoves.view⟩ helsewhere hcatalog, hbooks, fun u hu => ?_⟩
  have hne : u ≠ h := by
    rintro rfl
    exact helsewhere.2 (congrArg Place.phase hu)
  have hbefore : w.migration.place u = .completing := (hmoves.2 u hne).1 ▸ hu
  -- A table that exists was filtered, for the tables are acquired and no hint is left.
  have hfound : w.migration.view.phase u = .found := congrArg Place.phase hbefore
  obtain ⟨hdumpster, hcontainers⟩ := hw.completing u hbefore
  refine ⟨hinit.dumpster.trans hdumpster, ?_⟩
  rcases hinit.unheld with ⟨hm, hr⟩ | ⟨hbuiltin, hnone, source, hsource, target, htarget, hexists⟩
  · exact ⟨hm.trans hcontainers.1, hr.trans hcontainers.2⟩
  · have hvisible := hreads source hsource target htarget hexists
    have hfilted := (hw.toInv.found hfound).2 table (TableCatalog.mem_existing_of_visible hvisible)
      hbuiltin
    exact absurd hnone hfilted

/-- A section that is quiet. -/
theorem inv_of_quiet (hw : Inv builtin w) {s' : State H N} {h : H} {a : Migration.Action H N}
    (hquiet : Quiet w.migration s') (hbooks : Migration.Inv builtin s')
    (hmoves : MovesAlone w.migration s' h a)
    (hacquisition : Acquisition.Moves builtin w.migration.view s'.view w.catalog h) :
    Inv builtin ⟨s', w.catalog⟩ := by
  refine ⟨Acquisition.inv_of_quiet hw.toInv hquiet.toQuiet ⟨hacquisition, hmoves.view⟩, hbooks,
    fun u hu => ?_⟩
  by_cases heq : u = h
  · subst heq
    refine hquiet.emptied ?_
    -- Only the check of the containers leads here.
    cases hmoves.1 with
    | outside _ hafter => simp [show s'.place u = .completing from hu, Place.isStepping] at hafter
    | start _ hafter => cases hafter.symm.trans hu
    | finish _ hafter => cases hafter.symm.trans hu
    | recurse _ hafter => cases hafter.symm.trans hu
    | next hnext =>
      rw [show s'.place u = .completing from hu] at hnext
      generalize w.migration.place u = p at hnext
      cases hnext with
      | complete hemptied => exact hemptied
  · exact hquiet.emptied (hw.completing u ((hmoves.2 u heq).1 ▸ hu))

theorem step_inv (w : World H N) (a : World.Action H N) (w' : World H N) (hw : Inv builtin w)
    (hok : w.Orderly builtin listed a) (hstep : w.step builtin listed a = some w') :
    Inv builtin w' := by
  cases a with
  | catalog a =>
    obtain ⟨c', hc', hw'⟩ := Option.map_eq_some_iff.mp hstep
    cases hw'
    exact ⟨Acquisition.inv_catalog hw.toInv hc', hw.books, hw.completing⟩
  | migration a =>
    obtain ⟨⟨hreads, hpurge⟩, hmap⟩ := Option.ite_none_right_eq_some.mp hstep
    obtain ⟨s', hs', hw'⟩ := Option.map_eq_some_iff.mp hmap
    cases hw'
    obtain ⟨horderly, hheeds⟩ := hok
    have hbooks := Migration.step_inv _ a s' hw.books horderly hs'
    obtain ⟨h, hhandle, hmoves⟩ := movesAlone_of_step hs' hpurge
    have hacquisition (hacquire : a ≠ .didAcquire h) :
        Acquisition.Moves builtin w.migration.view s'.view w.catalog h := by
      refine hmoves.1.acquisition hacquire fun tables ha t ht hbuiltin => ?_
      subst ha
      have hlisted := (hheeds t ht).resolve_left (by simp [hbuiltin])
      rw [← List.mem_toFinset, hreads tables rfl]
      exact Finset.mem_filter.mpr ⟨Finset.mem_union_left _ ht, hlisted⟩
    cases a with
    | initInfo h' table sources hold =>
      obtain rfl : h' = h := Option.some.inj hhandle
      obtain ⟨⟨hplace, -⟩, hs'⟩ := Option.ite_none_right_eq_some.mp hs'
      cases hs'
      have hinit := initialized_initInfo builtin w.migration table sources hold
      have hp := congrFun (State.initInfo_place builtin w.migration table sources hold).1 h'
      rw [hplace] at hp
      have hphase := congrArg Place.phase hp
      refine inv_of_initialized hw hinit hbooks hheeds hreads hmoves (hacquisition (by simp)) ?_ ?_
      · simp only [State.view, hphase]
        exact ⟨by simp [Place.phase], by simp [Place.phase]⟩
      · unfold announced
        simp only
        split_ifs with hsucceed
        · exact Or.inr ⟨hsucceed, rfl⟩
        · exact Or.inl rfl
    | initNext h' table sources hold =>
      obtain rfl : h' = h := Option.some.inj hhandle
      simp only [Migration.step] at hs'
      split at hs'
      next tables hplace =>
        obtain ⟨-, hs'⟩ := Option.ite_none_right_eq_some.mp hs'
        cases hs'
        obtain ⟨succeed, hinit, hto⟩ :=
          initialized_initNext builtin w.migration h' tables table sources hold
        refine inv_of_initialized hw hinit hbooks hheeds hreads hmoves (hacquisition (by simp)) ?_
          (Or.inl rfl)
        have hphase := congrArg Place.phase hto
        simp only [State.view, hphase]
        cases succeed <;> exact ⟨by simp [Place.phase], by simp [Place.phase]⟩
      · cases hs'
    | didAcquire h' =>
      obtain rfl : h' = h := Option.some.inj hhandle
      obtain ⟨hplace, hs'⟩ := Option.ite_none_right_eq_some.mp hs'
      cases hs'
      refine ⟨Acquisition.inv_of_acquired hw.toInv (congrArg Place.phase hplace) hheeds rfl rfl rfl
        ?_ ?_ hmoves.view, hbooks, fun u hu => ?_⟩
      · simp [State.view, State.didAcquire, State.goto, Place.phase]
      · simp [State.view, State.didAcquire, State.goto]
      · by_cases heq : u = h'
        · subst heq
          simp [State.didAcquire, State.goto] at hu
        · exact hw.completing u ((hmoves.2 u heq).1 ▸ hu)
    | purge => exact absurd rfl hpurge
    | getInfo | releaseInfo | emplace | tryReduceBounds | reduceBounds | step
    | tryDropUnreferencedTable | dropSourceTable | didDrop | tryMigrateRows | migrateRows
    | tryAcquireTables | getAllTables | addHints | check | complete =>
      exact inv_of_quiet hw (quiet_of_step hw.books hs' (by simp) hpurge (by simp)) hbooks hmoves
        (hacquisition (by simp))

end Steps

omit [DecidableEq H] in
theorem Inv.init (committed : Finset N) :
    Inv builtin ({ catalog := { committed } } : World H N) where
  toInv := Acquisition.Inv.init rfl (fun _ => rfl) fun _ => rfl
  books := Migration.Inv.init
  completing := fun _ hp => by cases hp

theorem Inv.honest (hw : Inv builtin w) : Honest builtin listed w where
  returns := fun h hp => by
    obtain ⟨hdumpster, hmigratings, hreferenceds⟩ := hw.completing h hp
    exact ⟨hmigratings, hdumpster, hreferenceds, hw.toInv.found (congrArg Place.phase hp)⟩
  recursions := fun h => (hw.ready h).recursions
  progress := fun a w' hstep h hstepping => by
    obtain ⟨⟨-, hpurge⟩, hmap⟩ := Option.ite_none_right_eq_some.mp hstep
    obtain ⟨s', hs', hw'⟩ := Option.map_eq_some_iff.mp hmap
    cases hw'
    obtain ⟨h', hhandle, hmoves⟩ := movesAlone_of_step hs' hpurge
    split_ifs with heq
    · obtain rfl := Option.some.inj (hhandle.symm.trans heq)
      refine remaining_lt hmoves.1 hstepping fun hp => ?_
      have hphase : w.migration.view.phase h' = .initializing ∅ := congrArg Place.phase hp
      exact ((hw.ready h').tables ∅ (by rw [hphase]; rfl)).1
    · have hne : h ≠ h' := fun hh => heq (hh ▸ hhandle)
      obtain ⟨hplace, hsame⟩ := hmoves.2 h hne
      rw [State.remaining, State.remaining, hplace, hsame]

/-- **A step that returns true is right, in every orderly run.** -/
theorem honest_of_exec {committed : Finset N} {actions : List (World.Action H N)}
    (horderly : Run.Meets (step builtin listed) (Orderly builtin listed)
      { catalog := { committed } } actions)
    (h : Run.exec (step builtin listed) { catalog := { committed } } actions = some w) :
    Honest builtin listed w :=
  (Run.inv_exec step_inv (Inv.init committed) horderly h).honest

/-- A source database with the table, whose target is created later. -/
def hintedSource : Source ℕ := { target := some { tableExists := false, columns := [] } }

/-- A step until it looks whether the tables are acquired. -/
def searching (h : Fin 2) : List (World.Action (Fin 2) ℕ) :=
  [.migration (.tryDropUnreferencedTable h), .migration (.tryMigrateRows h),
    .migration (.tryAcquireTables h)]

/-- A table is hinted, and before it is created, a step acquires the tables: it hints the table
again and sets the flag. -/
def hintedAgain : List (World.Action (Fin 2) ℕ) :=
  [.migration (.initInfo 1 7 [hintedSource] 0), .migration (.step 0)] ++ searching 0 ++
    [.migration (.getAllTables 0 (some [])), .migration (.addHints 0),
      .migration (.initNext 0 7 [hintedSource] 0), .migration (.didAcquire 0)] ++ searching 0 ++
    [.migration (.check 0)]

/-- The step returns true with a table hinted. -/
theorem not_honest_hintedAgain :
    ∃ w, Run.exec (step noBuiltin fun _ => true) { catalog := { committed := ∅ } } hintedAgain =
        some w ∧ w.migration.place 0 = .completing ∧ w.migration.hints = {7} ∧
      ¬ Honest noBuiltin (fun _ => true) w := by
  have hview : (Run.exec (step noBuiltin fun _ => true)
      ({ catalog := { committed := ∅ } } : World (Fin 2) ℕ) hintedAgain).map
      (fun w => (w.migration.place 0, w.migration.hints)) = some (.completing, {7}) := by
    decide +kernel
  obtain ⟨w, hw, hpair⟩ := Option.map_eq_some_iff.mp hview
  have hplace : w.migration.place 0 = .completing := congrArg Prod.fst hpair
  have hhints : w.migration.hints = {7} := congrArg Prod.snd hpair
  refine ⟨w, hw, hplace, hhints, fun hhonest => ?_⟩
  have hempty := (hhonest.returns 0 hplace).2.2.2.1
  rw [hhints] at hempty
  exact absurd hempty (Finset.singleton_ne_empty 7)

/-- The table is created before the step acquires the tables, and its rows are migrated. -/
def hintedThenCreated : List (World.Action (Fin 2) ℕ) :=
  [.migration (.initInfo 1 7 [hintedSource] 0), .catalog (.create 1 7), .catalog (.commit 1),
    .migration (.step 0)] ++ searching 0 ++
    [.migration (.getAllTables 0 (some [7, 8])), .migration (.addHints 0),
      .migration (.initNext 0 7 [migratingSource] 0), .migration (.initNext 0 8 [] 1),
      .migration (.didAcquire 0), .migration (.tryDropUnreferencedTable 0),
      .migration (.tryMigrateRows 0), .migration (.migrateRows 0 (some true) true (some true)),
      .migration (.step 0), .migration (.tryDropUnreferencedTable 0),
      .migration (.dropSourceTable 0 true), .migration (.didDrop 0), .migration (.step 0)] ++
    searching 0 ++ [.migration (.check 0)]

end World

end Migration

end Wcdb
