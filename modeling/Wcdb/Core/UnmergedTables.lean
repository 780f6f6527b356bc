import Wcdb.Core.MergeFTSIndex

/-!
# No changed FTS5 table is forgotten

`merging_of_quiet`: in a run whose steps are `Orderly`, wherever both queues are quiet, every FTS5
table created or modified since its last merge began is in `m_mergingTables`. A change is lost where
a step is not.

* An operation that waits in the queue is replaced with all its tables when another commit hands
  over others (`replaced`).
* A statement not in a transaction is recorded behind the report of its commit, and waits for the
  next commit (`recordedLate`).
* While a table is being merged it is in `m_mergingTables`, so that an operation on it has no
  effect, and `proccessMerge` then takes it for merged (`mergedAgain`).
* A commit that is reported while another transaction is open hands over the tables of that
  transaction, too early for it.
* A statement that writes the name of a table in other letters names none of `m_mergedTables`.

The invariant is that of one path (`View.Inv`): the changes of every table are recorded, named by an
operation or waiting in `m_mergingTables`.
-/

namespace Wcdb.MergeFTSIndex

variable {Path Name : Type} [DecidableEq Path] [LinearOrder Name]

/-! ### What the loops do -/

namespace Database

variable {db : Database Name}

/-- A table that `m_mergingTables` or `m_mergedTables` has. -/
def Known (db : Database Name) (table : Name) : Prop :=
  table ∈ db.mergingTables ∨ table ∈ db.mergedTables

/-- `triggerMerge` on these tables puts the FTS5 table into `m_mergingTables`. -/
def Takes (db : Database Name) (parameter : Parameter Name) (table : Name) : Prop :=
  table ∈ parameter.newTables.getD [] ∨ table ∈ parameter.modifiedTables.getD [] ∧ db.Known table

/-- The same for the tables that are recorded. -/
def Recorded (db : Database Name) (table : Name) : Prop :=
  table ∈ db.newTables ∨ table ∈ db.modifiedTables ∧ db.Known table

theorem checkNewTables_spec (elements : List Name) (db : Database Name) :
    ∃ mergingTables mergedTables, elements.foldl checkNewTable db =
        { db with mergingTables, mergedTables } ∧
      (∀ table, table ∈ mergingTables ↔
        table ∈ db.mergingTables ∨ table ∈ elements ∧ table ∈ db.fts5Tables) ∧
      ∀ table, table ∈ mergedTables ↔ table ∈ db.mergedTables ∧ table ∉ elements := by
  induction elements generalizing db with
  | nil => exact ⟨_, _, rfl, by simp, by simp⟩
  | cons element elements ih =>
    obtain ⟨mergingTables, mergedTables, heq, hmerging, hmerged⟩ := ih (checkNewTable db element)
    rw [List.foldl_cons, heq]
    rw [checkNewTable] at hmerging hmerged ⊢
    dsimp only at hmerging hmerged ⊢
    split_ifs at hmerging hmerged ⊢ with hfts5
    · refine ⟨_, _, rfl, fun table => ?_, fun table => ?_⟩
      · rw [hmerging, StringViewSet.mem_emplace, List.mem_cons]
        constructor
        · rintro ((rfl | h) | ⟨h, h'⟩)
          · exact .inr ⟨.inl rfl, hfts5⟩
          · exact .inl h
          · exact .inr ⟨.inr h, h'⟩
        · rintro (h | ⟨rfl | h, h'⟩)
          · exact .inl (.inr h)
          · exact .inl (.inl rfl)
          · exact .inr ⟨h, h'⟩
      · rw [hmerged, StringViewSet.mem_erase, List.mem_cons]
        tauto
    · refine ⟨_, _, rfl, fun table => ?_, fun table => ?_⟩
      · rw [hmerging, List.mem_cons]
        constructor
        · rintro (h | ⟨h, h'⟩)
          · exact .inl h
          · exact .inr ⟨.inr h, h'⟩
        · rintro (h | ⟨rfl | h, h'⟩)
          · exact .inl h
          · exact absurd h' hfts5
          · exact .inr ⟨h, h'⟩
      · rw [hmerged, StringViewSet.mem_erase, List.mem_cons]
        tauto

theorem checkModifiedTables_loop (elements : List Name) (db : Database Name) :
    ∃ mergingTables mergedTables, elements.foldl checkModifiedTable db =
        { db with mergingTables, mergedTables } ∧
      (∀ table, table ∈ mergingTables ↔
        table ∈ db.mergingTables ∨ table ∈ elements ∧ table ∈ db.mergedTables) ∧
      ∀ table, table ∈ mergedTables ↔ table ∈ db.mergedTables ∧ table ∉ elements := by
  induction elements generalizing db with
  | nil => exact ⟨_, _, rfl, by simp, by simp⟩
  | cons element elements ih =>
    obtain ⟨mergingTables, mergedTables, heq, hmerging, hmerged⟩ :=
      ih (checkModifiedTable db element)
    rw [List.foldl_cons, heq]
    rw [checkModifiedTable] at hmerging hmerged ⊢
    split_ifs at hmerging hmerged ⊢ with hmem
    · refine ⟨_, _, rfl, fun table => ?_, fun table => ?_⟩
      · rw [hmerging]
        simp only [StringViewSet.mem_emplace, StringViewSet.mem_erase, List.mem_cons]
        by_cases h : table = element
        · simp [h, hmem]
        · simp [h]
      · rw [hmerged, StringViewSet.mem_erase, List.mem_cons]
        tauto
    · refine ⟨_, _, rfl, fun table => ?_, fun table => ?_⟩
      · rw [hmerging, List.mem_cons]
        by_cases h : table = element
        · simp [h, hmem]
        · simp [h]
      · rw [hmerged, List.mem_cons]
        by_cases h : table = element
        · simp [h, hmem]
        · simp [h]

/-- A table in `m_mergingTables` stays there, one that is taken gets there, and no table is
forgotten that is an FTS5 table. -/
theorem checkModifiedTables_spec (db : Database Name) (parameter : Parameter Name) :
    ∃ mergingTables mergedTables, db.checkModifiedTables parameter =
        { db with mergingTables, mergedTables } ∧
      (∀ table ∈ db.mergingTables, table ∈ mergingTables) ∧
      (∀ table ∈ db.fts5Tables, db.Takes parameter table → table ∈ mergingTables) ∧
      (∀ table ∈ db.fts5Tables, db.Known table → table ∈ mergingTables ∨ table ∈ mergedTables) ∧
      ((∀ table ∈ db.mergingTables, table ∉ db.mergedTables) →
        ∀ table ∈ mergingTables, table ∉ mergedTables) := by
  obtain ⟨merging, merged, heq, hmerging, hmerged⟩ :=
    checkNewTables_spec (parameter.newTables.getD []) db
  obtain ⟨mergingTables, mergedTables, heq', hmerging', hmerged'⟩ :=
    checkModifiedTables_loop (parameter.modifiedTables.getD []) { db with
      mergingTables := merging, mergedTables := merged }
  refine ⟨mergingTables, mergedTables, ?_, fun table h => ?_, fun table hfts5 h => ?_,
    fun table hfts5 h => ?_, fun hdisjoint table h => ?_⟩
  · rw [checkModifiedTables, heq, heq']
  · exact (hmerging' table).mpr (.inl ((hmerging table).mpr (.inl h)))
  · rcases h with h | ⟨h, h' | h'⟩
    · exact (hmerging' table).mpr (.inl ((hmerging table).mpr (.inr ⟨h, hfts5⟩)))
    · exact (hmerging' table).mpr (.inl ((hmerging table).mpr (.inl h')))
    · by_cases hnew : table ∈ parameter.newTables.getD []
      · exact (hmerging' table).mpr (.inl ((hmerging table).mpr (.inr ⟨hnew, hfts5⟩)))
      · exact (hmerging' table).mpr (.inr ⟨h, (hmerged table).mpr ⟨h', hnew⟩⟩)
  · by_cases hnew : table ∈ parameter.newTables.getD []
    · exact .inl ((hmerging' table).mpr (.inl ((hmerging table).mpr (.inr ⟨hnew, hfts5⟩))))
    rcases h with h | h
    · exact .inl ((hmerging' table).mpr (.inl ((hmerging table).mpr (.inl h))))
    · have hmem := (hmerged table).mpr ⟨h, hnew⟩
      by_cases hmodified : table ∈ parameter.modifiedTables.getD []
      · exact .inl ((hmerging' table).mpr (.inr ⟨hmodified, hmem⟩))
      · exact .inr ((hmerged' table).mpr ⟨hmem, hmodified⟩)
  · rw [hmerged']
    rintro ⟨hmem, hnot⟩
    have hmem' := (hmerged table).mp hmem
    rcases (hmerging' table).mp h with h | ⟨h, -⟩
    · rcases (hmerging table).mp h with h | ⟨h, -⟩
      · exact hdisjoint table h hmem'.1
      · exact hmem'.2 h
    · exact hnot h

theorem mem_newTables_onTableModified (newTable modifiedTable : Option Name) {table : Name} :
    table ∈ (db.onTableModified newTable modifiedTable).newTables ↔
      newTable = some table ∨ table ∈ db.newTables := by
  cases newTable with
  | none => simp [onTableModified]
  | some name =>
    rw [Option.some.injEq, eq_comm]
    exact StringViewSet.mem_emplace

theorem mem_modifiedTables_onTableModified (newTable modifiedTable : Option Name) {table : Name} :
    table ∈ (db.onTableModified newTable modifiedTable).modifiedTables ↔
      modifiedTable = some table ∨ table ∈ db.modifiedTables := by
  cases modifiedTable with
  | none => simp [onTableModified]
  | some name =>
    rw [Option.some.injEq, eq_comm]
    exact StringViewSet.mem_emplace

theorem mem_fts5Tables_apply {change : Change Name} {table : Name} :
    table ∈ (db.apply change).fts5Tables ↔
      table ∈ db.fts5Tables ∨ .create table true = change := by
  rcases change with ⟨created, _ | _⟩ | ⟨written, modified, fts5⟩
  · simp [apply]
  · simp only [apply, List.mem_cons, Change.create.injEq, and_true]
    exact or_comm
  · simp [apply]

theorem mem_unmerged_apply {change : Change Name} {table : Name} :
    table ∈ (db.apply change).unmerged ↔ table ∈ db.unmerged ∨ change.touched = some table := by
  show table ∈ change.touched.elim db.unmerged (· :: db.unmerged) ↔ _
  cases htouched : change.touched with
  | none => simp
  | some touched =>
    simp only [Option.elim_some, List.mem_cons, Option.some.injEq]
    rw [or_comm, eq_comm]

theorem apply_spec (changes : List (Change Name)) (db : Database Name) :
    ∃ fts5Tables unmerged, changes.foldl apply db = { db with fts5Tables, unmerged } ∧
      (∀ table, table ∈ fts5Tables ↔ table ∈ db.fts5Tables ∨ .create table true ∈ changes) ∧
      ∀ table, table ∈ unmerged ↔
        table ∈ db.unmerged ∨ ∃ change ∈ changes, change.touched = some table := by
  induction changes generalizing db with
  | nil => exact ⟨_, _, rfl, by simp, by simp⟩
  | cons change changes ih =>
    obtain ⟨fts5Tables, unmerged, heq, hfts5, hunmerged⟩ := ih (apply db change)
    refine ⟨fts5Tables, unmerged, by rw [List.foldl_cons, heq]; rfl, fun table => ?_,
      fun table => ?_⟩
    · rw [hfts5, mem_fts5Tables_apply, List.mem_cons, or_assoc]
    · rw [hunmerged, mem_unmerged_apply, or_assoc]
      simp only [List.mem_cons, exists_eq_or_imp]

end Database

/-! ### The state of one path -/

/-- `proccessMerge` as one path sees it. -/
inductive Progress (Name : Type) where
  | idle
  | called
  | picked (table : Name)
  | merging (table : Name)
  deriving DecidableEq, Repr

/-- What concerns one path. -/
structure View (Name : Type) [LinearOrder Name] where
  db : Database Name
  waiting : Option (Parameter Name)
  operating : Option (Parameter Name)
  queued : Bool
  progress : Progress Name

def Process.at (process : Process Path Name) (path : Path) : Progress Name :=
  match process with
  | .idle => .idle
  | .called other => if other = path then .called else .idle
  | .picked other table => if other = path then .picked table else .idle
  | .merging other table => if other = path then .merging table else .idle

def operatingAt (operating : Option (Operation Path × Parameter Name)) (path : Path) :
    Option (Parameter Name) :=
  match operating with
  | some (.mergeIndex other, parameter) => if other = path then some parameter else none
  | _ => none

def State.view (s : State Path Name) (path : Path) : View Name where
  db := s.databases path
  waiting := s.operations.value? (.mergeIndex path)
  operating := operatingAt s.operating path
  queued := (s.merges.value? path).isSome
  progress := s.process.at path

namespace View

/-- `triggerMerge` is still to read all tables, or the table is in `m_mergingTables` and its merge
is still to begin. -/
def Awaits (v : View Name) (table : Name) : Prop :=
  v.db.hasInit = false ∨ table ∈ v.db.mergingTables ∧ v.progress ≠ .merging table

/-- The operation is in the queue, or its thread has taken it. -/
def Named (v : View Name) (parameter : Parameter Name) : Prop :=
  v.waiting = some parameter ∨ v.operating = some parameter

/-- The changes of the table are on their way to `m_mergingTables`. -/
def Covered (v : View Name) (table : Name) : Prop :=
  v.Awaits table ∨ (∃ parameter, v.Named parameter ∧ v.db.Takes parameter table) ∨
    v.db.commits ≠ [] ∧ v.db.Recorded table

/-- Both queues have nothing for the path and do nothing for it, and every call of a commit or a
statement has returned. -/
def Quiet (v : View Name) : Prop :=
  v.waiting = none ∧ v.operating = none ∧ v.queued = false ∧ v.progress = .idle ∧
    v.db.commits = [] ∧ v.db.unnotified = []

end View

/-! ### The condition on a step -/

/-- What each step has to avoid.

* A statement in a transaction writes the name of an FTS5 table as it was created.
* A statement not in a transaction changes no FTS5 table, unless the table is to be merged anyway.
* A commit is not reported while a transaction is open that has changed an FTS5 table, and what is
  handed over has all the tables with changes of the operation that waits, unless they are to be
  merged anyway.
* No operation runs that takes a table while this table is being merged and has changed since. -/
def Orderly (s : State Path Name) : Event Path Name → Prop
  | .write _ (.modify written table true) => written = table
  | .autocommit path change => ∀ table ∈ change.touched.toList, (s.view path).Awaits table
  | .committed path _ _ =>
    let db := s.databases path
    (∀ change ∈ db.writer.getD [], change.touched = none) ∧
      ∀ parameter ∈ (s.view path).waiting.toList,
        db.newTables.assign.isSome ∨ db.modifiedTables.assign.isSome →
          ∀ table ∈ db.unmerged, db.Takes parameter table →
            (s.view path).Awaits table ∨ db.Recorded table
  | .operate =>
    match s.operating, s.process with
    | some (.mergeIndex path, parameter), .merging other table =>
      path = other → (s.databases path).Takes parameter table → table ∉ (s.databases path).unmerged
    | _, _ => True
  | _ => True

section Decidable

instance (db : Database Name) (table : Name) : Decidable (db.Known table) :=
  inferInstanceAs (Decidable (_ ∨ _))

instance (db : Database Name) (parameter : Parameter Name) (table : Name) :
    Decidable (db.Takes parameter table) := inferInstanceAs (Decidable (_ ∨ _ ∧ _))

instance (db : Database Name) (table : Name) : Decidable (db.Recorded table) :=
  inferInstanceAs (Decidable (_ ∨ _ ∧ _))

instance (v : View Name) (table : Name) : Decidable (v.Awaits table) :=
  inferInstanceAs (Decidable (_ ∨ _ ∧ _))

instance (v : View Name) : Decidable v.Quiet :=
  inferInstanceAs (Decidable (_ ∧ _ ∧ _ ∧ _ ∧ _ ∧ _))

instance (db : Database Name) (table : Name) : Decidable (table ∈ db.unmerged) :=
  StringViewSet.decidableMem table db.unmerged

instance (s : State Path Name) (event : Event Path Name) : Decidable (Orderly s event) := by
  unfold Orderly
  split
  · infer_instance
  · infer_instance
  · infer_instance
  · split <;> infer_instance
  · infer_instance

end Decidable

/-! ### The invariant -/

namespace View

/-- What holds between the steps: every FTS5 table with changes is on its way to be merged, and what
an open transaction has changed is recorded. -/
structure Inv (v : View Name) : Prop where
  unregistered : v.db.registeredForMergeFTSIndex = false →
    v.db.hasInit = false ∧ v.db.unmerged = [] ∧ v.db.writer = none ∧ v.waiting = none ∧
      v.operating = none
  asked : v.db.registeredForMergeFTSIndex = true → v.db.hasInit = false →
    ∃ parameter, v.Named parameter
  unstarted : v.db.hasInit = false → v.queued = false ∧ v.progress = .idle
  picked : ∀ table, v.progress = .picked table ∨ v.progress = .merging table →
    table ∈ v.db.mergingTables
  disjoint : ∀ table ∈ v.db.mergingTables, table ∉ v.db.mergedTables
  fts5 : ∀ table ∈ v.db.unmerged, table ∈ v.db.fts5Tables
  known : v.db.hasInit = true → ∀ table ∈ v.db.fts5Tables,
    table ∈ v.db.unmerged ∨ v.db.Known table
  admitted : ∀ changes, v.db.writer = some changes → ∀ change ∈ changes, ∀ table,
    change.touched = some table → table ∈ v.db.fts5Tables ∨ .create table true ∈ changes
  recorded : ∀ changes, v.db.writer = some changes → ∀ change ∈ changes, ∀ table,
    change.touched = some table →
      table ∈ v.db.newTables ∨ table ∈ v.db.modifiedTables ∧ table ∈ v.db.fts5Tables
  covered : ∀ table ∈ v.db.unmerged, v.Covered table

variable {v : View Name}

theorem Inv.registered (h : v.Inv) {table : Name} (hmem : table ∈ v.db.unmerged) :
    v.db.registeredForMergeFTSIndex = true := by
  by_contra hfalse
  rw [(h.unregistered (Bool.eq_false_iff.mpr hfalse)).2.1] at hmem
  exact List.not_mem_nil hmem

/-- Where both queues are quiet, a table with changes is recorded as one to be merged. -/
theorem Inv.quiet (h : v.Inv) (hquiet : v.Quiet) {table : Name} (hmem : table ∈ v.db.unmerged) :
    table ∈ v.db.mergingTables ∧ table ∉ v.db.mergedTables := by
  obtain ⟨hwaiting, hoperating, -, -, hcommits, -⟩ := hquiet
  have hnone : ∀ parameter, ¬v.Named parameter := by
    rintro parameter (h | h)
    · rw [hwaiting] at h
      exact nomatch h
    · rw [hoperating] at h
      exact nomatch h
  have hmerging : table ∈ v.db.mergingTables := by
    rcases h.covered table hmem with (hinit | ⟨h, -⟩) | ⟨parameter, hnamed, -⟩ | ⟨hne, -⟩
    · obtain ⟨parameter, hnamed⟩ := h.asked (h.registered hmem) hinit
      exact absurd hnamed (hnone parameter)
    · exact h
    · exact absurd hnamed (hnone parameter)
    · exact absurd hcommits hne
  exact ⟨hmerging, h.disjoint table hmerging⟩

/-! ### Transactions -/

/-- The sets of recorded tables grow, and a transaction goes on whose changes are recorded. -/
theorem Inv.extend (h : v.Inv) {newTables modifiedTables : StringViewSet Name}
    {writer : Option (List (Change Name))} {commits : List (Option (Change Name))}
    {unnotified : List (Change Name)} (hnew : ∀ table ∈ v.db.newTables, table ∈ newTables)
    (hmodified : ∀ table ∈ v.db.modifiedTables, table ∈ modifiedTables)
    (hcommits : v.db.commits ≠ [] → commits ≠ [])
    (hregistered : writer ≠ none → v.db.registeredForMergeFTSIndex = true)
    (hadmitted : ∀ changes, writer = some changes → ∀ change ∈ changes, ∀ table,
      change.touched = some table → table ∈ v.db.fts5Tables ∨ .create table true ∈ changes)
    (hrecorded : ∀ changes, writer = some changes → ∀ change ∈ changes, ∀ table,
      change.touched = some table →
        table ∈ newTables ∨ table ∈ modifiedTables ∧ table ∈ v.db.fts5Tables) :
    Inv { v with
      db := { v.db with newTables, modifiedTables, writer, commits, unnotified } } where
  unregistered hfalse := by
    obtain ⟨hinit, hunmerged, -, hnone⟩ := h.unregistered hfalse
    refine ⟨hinit, hunmerged, ?_, hnone⟩
    by_contra hne
    exact Bool.false_ne_true (hfalse.symm.trans (hregistered hne))
  asked := h.asked
  unstarted := h.unstarted
  picked := h.picked
  disjoint := h.disjoint
  fts5 := h.fts5
  known := h.known
  admitted := hadmitted
  recorded := hrecorded
  covered table hmem := by
    rcases h.covered table hmem with hawaits | hnamed | ⟨hne, hrecorded⟩
    · exact .inl hawaits
    · exact .inr (.inl hnamed)
    · exact .inr (.inr ⟨hcommits hne, hrecorded.imp (hnew table) fun ⟨h, hknown⟩ =>
        ⟨hmodified table h, hknown⟩⟩)

theorem Inv.onTableModified (h : v.Inv) (newTable modifiedTable : Option Name)
    (unnotified : List (Change Name)) :
    Inv { v with db := { v.db with unnotified }.onTableModified newTable modifiedTable } := by
  have hnew : ∀ table ∈ v.db.newTables, table ∈
      ({ v.db with unnotified }.onTableModified newTable modifiedTable).newTables :=
        fun table hmem =>
    (Database.mem_newTables_onTableModified newTable modifiedTable).mpr (.inr hmem)
  have hmodified : ∀ table ∈ v.db.modifiedTables, table ∈
      ({ v.db with unnotified }.onTableModified newTable modifiedTable).modifiedTables :=
    fun table hmem =>
      (Database.mem_modifiedTables_onTableModified newTable modifiedTable).mpr (.inr hmem)
  refine h.extend hnew hmodified id (fun hne => ?_) h.admitted
    fun changes hwriter change hchange table htouched =>
      (h.recorded changes hwriter change hchange table htouched).imp (hnew table)
        fun ⟨hmem, hfts5⟩ => ⟨hmodified table hmem, hfts5⟩
  by_contra hfalse
  exact hne (h.unregistered (Bool.eq_false_iff.mpr hfalse)).2.2.1

/-- A statement in a transaction. -/
theorem Inv.write (h : v.Inv) {change : Change Name}
    (hregistered : v.db.registeredForMergeFTSIndex = true)
    (hadmits : v.db.Admits (v.db.writer.getD []) change)
    (hwritten : ∀ written table, change = .modify written table true → written = table) :
    Inv { v with db := { v.db with writer := some (v.db.writer.getD [] ++ [change])
      }.onTableModified change.newTable change.modifiedTable } := by
  have hold : ∀ other ∈ v.db.writer.getD [], ∀ table, other.touched = some table →
      (table ∈ v.db.fts5Tables ∨ .create table true ∈ v.db.writer.getD []) ∧
        (table ∈ v.db.newTables ∨ table ∈ v.db.modifiedTables ∧ table ∈ v.db.fts5Tables) := by
    cases hwriter : v.db.writer with
    | none => exact fun other hother => absurd hother List.not_mem_nil
    | some changes => exact fun other hother table htouched =>
        ⟨h.admitted changes hwriter other hother table htouched,
          h.recorded changes hwriter other hother table htouched⟩
  have hadmitted : ∀ table, change.touched = some table →
      table ∈ v.db.fts5Tables ∨ .create table true ∈ v.db.writer.getD [] ++ [change] := by
    intro table htouched
    rw [List.mem_append, List.mem_singleton]
    rcases change with ⟨created, _ | _⟩ | ⟨written, modified, _ | _⟩
    · exact nomatch htouched
    · obtain rfl := Option.some.inj htouched
      exact .inr (.inr rfl)
    · exact nomatch htouched
    · obtain rfl := Option.some.inj htouched
      exact (hadmits.mp rfl).imp_right .inl
  refine h.extend (fun _ hmem =>
      (Database.mem_newTables_onTableModified change.newTable change.modifiedTable).mpr (.inr hmem))
    (fun _ hmem => (Database.mem_modifiedTables_onTableModified change.newTable
      change.modifiedTable).mpr (.inr hmem)) id
    (fun _ => hregistered) ?_ ?_
  · rintro _ ⟨rfl⟩ other hother table htouched
    rcases List.mem_append.mp hother with hother | hother
    · exact (hold other hother table htouched).1.imp_right (List.mem_append_left _)
    · obtain rfl := List.mem_singleton.mp hother
      exact hadmitted table htouched
  · rintro _ ⟨rfl⟩ other hother table htouched
    suffices hor : (change.newTable = some table ∨ table ∈ v.db.newTables) ∨
        (change.modifiedTable = some table ∨ table ∈ v.db.modifiedTables) ∧
          table ∈ v.db.fts5Tables from
      hor.imp (Database.mem_newTables_onTableModified change.newTable change.modifiedTable).mpr
        (And.imp_left (Database.mem_modifiedTables_onTableModified change.newTable
          change.modifiedTable).mpr)
    rcases List.mem_append.mp hother with hother | hother
    · exact (hold other hother table htouched).2.imp .inr fun ⟨hmem, hfts5⟩ => ⟨.inr hmem, hfts5⟩
    obtain rfl := List.mem_singleton.mp hother
    rcases other with ⟨created, _ | _⟩ | ⟨written, modified, _ | _⟩
    · exact nomatch htouched
    · exact .inl (.inl htouched)
    · exact nomatch htouched
    · obtain rfl := Option.some.inj htouched
      obtain rfl := hwritten written modified rfl
      -- A table that the transaction has created is recorded as new.
      rcases hadmits.mp rfl with hfts5 | hcreated
      · exact .inr ⟨.inl rfl, hfts5⟩
      · exact (hold _ hcreated written rfl).2.imp .inr fun ⟨hmem, hfts5⟩ => ⟨.inr hmem, hfts5⟩

/-- Changes are committed of which each is covered, or recorded. -/
theorem Inv.apply (h : v.Inv) {changes : List (Change Name)} (commit : Option (Change Name))
    (hregistered : v.db.registeredForMergeFTSIndex = true)
    (hadmitted : ∀ change ∈ changes, ∀ table, change.touched = some table →
      table ∈ v.db.fts5Tables ∨ .create table true ∈ changes)
    (hcovered : ∀ change ∈ changes, ∀ table, change.touched = some table →
      v.Covered table ∨ v.db.Recorded table) :
    Inv { v with db := (changes.foldl Database.apply
      { v.db with writer := none, commits := commit :: v.db.commits }) } := by
  obtain ⟨fts5Tables, unmerged, heq, hfts5, hunmerged⟩ := Database.apply_spec changes
    { v.db with writer := none, commits := commit :: v.db.commits }
  rw [heq]
  refine ⟨fun hfalse => absurd (hfalse.symm.trans hregistered) Bool.false_ne_true, h.asked,
    h.unstarted, h.picked, h.disjoint, fun table hmem => ?_, fun hinit table hmem => ?_,
    (fun _ hwriter => nomatch hwriter), (fun _ hwriter => nomatch hwriter), fun table hmem => ?_⟩
  · rcases (hunmerged table).mp hmem with hmem | ⟨change, hchange, htouched⟩
    · exact (hfts5 table).mpr (.inl (h.fts5 table hmem))
    · exact (hfts5 table).mpr (hadmitted change hchange table htouched)
  · rcases (hfts5 table).mp hmem with hmem | hcreated
    · exact (h.known hinit table hmem).imp_left fun hmem => (hunmerged table).mpr (.inl hmem)
    · exact .inl ((hunmerged table).mpr (.inr ⟨_, hcreated, rfl⟩))
  · have hcovered' : v.Covered table ∨ v.db.Recorded table := by
      rcases (hunmerged table).mp hmem with hmem | ⟨change, hchange, htouched⟩
      · exact .inl (h.covered table hmem)
      · exact hcovered change hchange table htouched
    rcases hcovered' with (hawaits | hnamed | ⟨-, hrecorded⟩) | hrecorded
    · exact .inl hawaits
    · exact .inr (.inl hnamed)
    · exact .inr (.inr ⟨List.cons_ne_nil _ _, hrecorded⟩)
    · exact .inr (.inr ⟨List.cons_ne_nil _ _, hrecorded⟩)

theorem Inv.commit (h : v.Inv) {changes : List (Change Name)}
    (hwriter : v.db.writer = some changes) :
    Inv { v with db := (changes.foldl Database.apply
      { v.db with writer := none, commits := none :: v.db.commits }) } := by
  have hregistered : v.db.registeredForMergeFTSIndex = true := by
    by_contra hfalse
    have hnone := (h.unregistered (Bool.eq_false_iff.mpr hfalse)).2.2.1
    exact nomatch hnone.symm.trans hwriter
  refine h.apply none hregistered
    (h.admitted changes hwriter) fun change hchange table htouched => ?_
  rcases h.recorded changes hwriter change hchange table htouched with hnew | ⟨hmodified, hfts5⟩
  · exact .inr (.inl hnew)
  cases hinit : v.db.hasInit with
  | false => exact .inl (.inl (.inl hinit))
  | true =>
    exact (h.known hinit table hfts5).imp (h.covered table) fun hknown => .inr ⟨hmodified, hknown⟩

/-- A statement not in a transaction, whose table is to be merged anyway. -/
theorem Inv.autocommit (h : v.Inv) {change : Change Name}
    (hregistered : v.db.registeredForMergeFTSIndex = true) (hwriter : v.db.writer = none)
    (hadmits : v.db.Admits [] change)
    (hawaits : ∀ table ∈ change.touched.toList, v.Awaits table) :
    Inv { v with
      db := Database.apply { v.db with commits := some change :: v.db.commits } change } := by
  have hdb : ({ v.db with commits := some change :: v.db.commits } : Database Name) =
      { v.db with writer := none, commits := some change :: v.db.commits } := by rw [← hwriter]
  rw [hdb]
  refine @Inv.apply _ _ v h [change] (some change) hregistered
    (fun other hother table htouched => ?_)
    fun other hother table htouched => ?_
  · obtain rfl := List.mem_singleton.mp hother
    rcases other with ⟨created, _ | _⟩ | ⟨written, modified, _ | _⟩
    · exact nomatch htouched
    · obtain rfl := Option.some.inj htouched
      exact .inr (List.mem_singleton.mpr rfl)
    · exact nomatch htouched
    · obtain rfl := Option.some.inj htouched
      exact .inl ((hadmits.mp rfl).resolve_right List.not_mem_nil)
  · obtain rfl := List.mem_singleton.mp hother
    exact .inl (.inl (hawaits table (Option.mem_toList.mpr htouched)))

/-- A commit is reported. -/
theorem Inv.committed (h : v.Inv) (commits : List (Option (Change Name)))
    (unnotified : List (Change Name))
    (hopen : ∀ change ∈ v.db.writer.getD [], change.touched = none)
    (hreplaced : ∀ parameter ∈ v.waiting.toList,
      v.db.newTables.assign.isSome ∨ v.db.modifiedTables.assign.isSome →
        ∀ table ∈ v.db.unmerged, v.db.Takes parameter table →
          v.Awaits table ∨ v.db.Recorded table) :
    Inv { v with
      db := { v.db with newTables := ∅, modifiedTables := ∅, commits, unnotified }
      waiting :=
        if v.db.registeredForMergeFTSIndex ∧
            (v.db.newTables.assign.isSome ∨ v.db.modifiedTables.assign.isSome) then
          some ⟨v.db.newTables.assign, v.db.modifiedTables.assign⟩
        else v.waiting } where
  unregistered hfalse := by
    obtain ⟨hinit, hunmerged, hwriter, hwaiting, hoperating⟩ := h.unregistered hfalse
    refine ⟨hinit, hunmerged, hwriter, ?_, hoperating⟩
    rw [if_neg fun hreg => Bool.false_ne_true (hfalse.symm.trans hreg.1)]
    exact hwaiting
  asked hregistered hinit := by
    obtain ⟨parameter, hwaiting | hoperating⟩ := h.asked hregistered hinit
    · by_cases hhanded : v.db.newTables.assign.isSome ∨ v.db.modifiedTables.assign.isSome
      · exact ⟨_, .inl (if_pos ⟨hregistered, hhanded⟩)⟩
      · exact ⟨parameter, .inl ((if_neg fun h => hhanded h.2).trans hwaiting)⟩
    · exact ⟨parameter, .inr hoperating⟩
  unstarted := h.unstarted
  picked := h.picked
  disjoint := h.disjoint
  fts5 := h.fts5
  known := h.known
  admitted := h.admitted
  recorded changes hwriter change hchange table htouched :=
    nomatch (hopen change (by rw [show v.db.writer = some changes from hwriter]; exact hchange)
      ).symm.trans htouched
  covered table hmem := by
    have hregistered := h.registered hmem
    have hrecorded : v.db.Recorded table →
        (v.db.newTables.assign.isSome ∨ v.db.modifiedTables.assign.isSome) ∧
          v.db.Takes ⟨v.db.newTables.assign, v.db.modifiedTables.assign⟩ table := by
      rintro (hnew | ⟨hmodified, hknown⟩)
      · exact ⟨.inl (StringViewSet.assign_isSome hnew),
          .inl (StringViewSet.mem_assign.mpr hnew)⟩
      · exact ⟨.inr (StringViewSet.assign_isSome hmodified),
          .inr ⟨StringViewSet.mem_assign.mpr hmodified, hknown⟩⟩
    rcases h.covered table hmem with hawaits | ⟨parameter, hwaiting | hoperating,
      htakes⟩ | ⟨-, hrec⟩
    · exact .inl hawaits
    · by_cases hhanded : v.db.newTables.assign.isSome ∨ v.db.modifiedTables.assign.isSome
      · rcases hreplaced parameter (Option.mem_toList.mpr hwaiting) hhanded table hmem htakes
          with hawaits | hrec
        · exact .inl hawaits
        · exact .inr (.inl ⟨_, .inl (if_pos ⟨hregistered, hhanded⟩), (hrecorded hrec).2⟩)
      · exact .inr (.inl ⟨parameter, .inl ((if_neg fun h => hhanded h.2).trans hwaiting), htakes⟩)
    · exact .inr (.inl ⟨parameter, .inr hoperating, htakes⟩)
    · exact .inr (.inl ⟨_, .inl (if_pos ⟨hregistered, (hrecorded hrec).1⟩), (hrecorded hrec).2⟩)

/-! ### The operation queue -/

/-- Merging is enabled. -/
theorem Inv.enable (h : v.Inv) (hregistered : v.db.registeredForMergeFTSIndex = false)
    (tables : List Name) (parameter : Parameter Name) :
    Inv { v with
      db := { registeredForMergeFTSIndex := true, fts5Tables := tables, unmerged := tables }
      waiting := some parameter } where
  unregistered hfalse := nomatch hfalse
  asked _ _ := ⟨parameter, .inl rfl⟩
  unstarted _ := h.unstarted (h.unregistered hregistered).1
  picked table hprogress := by
    have hidle : v.progress = .idle := (h.unstarted (h.unregistered hregistered).1).2
    rcases hprogress with hprogress | hprogress
    · exact nomatch hidle.symm.trans hprogress
    · exact nomatch hidle.symm.trans hprogress
  disjoint _ hmem := absurd hmem StringViewSet.mem_empty
  fts5 _ hmem := hmem
  known hinit := nomatch hinit
  admitted _ hwriter := nomatch hwriter
  recorded _ hwriter := nomatch hwriter
  covered _ _ := .inl (.inl rfl)

/-- The operation queue takes the operation. -/
theorem Inv.expire (h : v.Inv) {parameter : Parameter Name} (hwaiting : v.waiting = some parameter)
    (hoperating : v.operating = none) :
    Inv { v with waiting := none, operating := some parameter } := by
  have hnamed : ∀ other, v.Named other →
      Named { v with waiting := none, operating := some parameter } other := by
    rintro other (hother | hother)
    · exact .inr (hwaiting.symm.trans hother)
    · exact nomatch hoperating.symm.trans hother
  refine { h with
    unregistered := fun hfalse => ?_
    asked := fun hregistered hinit => (h.asked hregistered hinit).imp hnamed
    covered := fun table hmem => (h.covered table hmem).imp id
      (Or.imp_left fun ⟨other, hother, htakes⟩ => ⟨other, hnamed other hother, htakes⟩) }
  exact nomatch hwaiting.symm.trans (h.unregistered hfalse).2.2.2.1

/-- `triggerMerge` reads all tables the first time. -/
theorem Inv.tryInit (h : v.Inv) (hregistered : v.db.registeredForMergeFTSIndex = true) :
    Inv { v with db := v.db.tryInit } := by
  rw [Database.tryInit]
  split_ifs with hinit
  · exact h
  have hinit := Bool.eq_false_iff.mpr hinit
  have hidle := (h.unstarted hinit).2
  exact {
    unregistered := fun hfalse => nomatch hfalse.symm.trans hregistered
    asked := fun _ hfalse => nomatch hfalse
    unstarted := fun hfalse => nomatch hfalse
    picked := fun table hprogress => by
      rcases hprogress with hprogress | hprogress
      · exact nomatch hidle.symm.trans hprogress
      · exact nomatch hidle.symm.trans hprogress
    disjoint := fun _ _ => StringViewSet.mem_empty
    fts5 := h.fts5
    known := fun _ table hmem => .inr (.inl (StringViewSet.mem_ofList.mpr hmem))
    admitted := h.admitted
    recorded := h.recorded
    covered := fun table hmem => .inl (.inr ⟨StringViewSet.mem_ofList.mpr (h.fts5 table hmem),
      fun hprogress => nomatch hidle.symm.trans hprogress⟩) }

/-- `triggerMerge` puts the tables of the operation into `m_mergingTables`. -/
theorem Inv.checkModifiedTables (h : v.Inv) {parameter : Parameter Name} (queued : Bool)
    (hregistered : v.db.registeredForMergeFTSIndex = true) (hinit : v.db.hasInit = true)
    (hoperating : v.operating = some parameter)
    (horder : ∀ table, v.progress = .merging table → v.db.Takes parameter table →
      table ∉ v.db.unmerged) :
    Inv { v with db := v.db.checkModifiedTables parameter, operating := none, queued } := by
  obtain ⟨mergingTables, mergedTables, heq, hstay, htaken, hknown, hdisjoint⟩ :=
    Database.checkModifiedTables_spec v.db parameter
  rw [heq]
  refine {
    unregistered := fun hfalse => nomatch hfalse.symm.trans hregistered
    asked := fun _ hfalse => nomatch hfalse.symm.trans hinit
    unstarted := fun hfalse => nomatch hfalse.symm.trans hinit
    picked := fun table hprogress => hstay table (h.picked table hprogress)
    disjoint := hdisjoint h.disjoint
    fts5 := h.fts5
    known := fun _ table hmem => (h.known hinit table hmem).imp_right (hknown table hmem)
    admitted := h.admitted
    recorded := h.recorded
    covered := fun table hmem => ?_ }
  have hfts5 := h.fts5 table hmem
  rcases h.covered table hmem with (hfalse | ⟨hmerging, hprogress⟩) |
    ⟨other, hwaiting | hother, htakes⟩ | ⟨hne, hrecorded⟩
  · exact nomatch hfalse.symm.trans hinit
  · exact .inl (.inr ⟨hstay table hmerging, hprogress⟩)
  · exact .inr (.inl ⟨other, .inl hwaiting, htakes.imp_right fun ⟨hmodified, h⟩ =>
      ⟨hmodified, hknown table hfts5 h⟩⟩)
  · obtain rfl : parameter = other := Option.some.inj (hoperating.symm.trans hother)
    exact .inl (.inr ⟨htaken table hfts5 htakes, fun hprogress =>
      horder table hprogress htakes hmem⟩)
  · exact .inr (.inr ⟨hne, hrecorded.imp_right fun ⟨hmodified, h⟩ =>
      ⟨hmodified, hknown table hfts5 h⟩⟩)

/-! ### The merge queue -/

theorem Inv.hasInit (h : v.Inv) (hbusy : v.queued = true ∨ v.progress ≠ .idle) :
    v.db.hasInit = true := by
  by_contra hfalse
  obtain ⟨hqueued, hidle⟩ := h.unstarted (Bool.eq_false_iff.mpr hfalse)
  rcases hbusy with hbusy | hbusy
  · exact nomatch hqueued.symm.trans hbusy
  · exact hbusy hidle

/-- The thread of the merge queue goes on, and merges no table. -/
theorem Inv.turn (h : v.Inv) (hinit : v.db.hasInit = true) {progress : Progress Name}
    (queued : Bool)
    (hprogress : progress = .idle ∨ progress = .called ∨
      ∃ table ∈ v.db.mergingTables, progress = .picked table) :
    Inv { v with queued, progress } := by
  have hmerging : ∀ table, progress ≠ .merging table := by
    rintro table rfl
    rcases hprogress with h | h | ⟨_, -, h⟩ <;> exact nomatch h
  exact { h with
    unstarted := fun hfalse => nomatch hfalse.symm.trans hinit
    picked := fun table hpicked => by
      rcases hprogress with rfl | rfl | ⟨other, hmem, rfl⟩
      · exact hpicked.elim nofun nofun
      · exact hpicked.elim nofun nofun
      · rcases hpicked with hpicked | hpicked
        · obtain rfl := Progress.picked.inj hpicked
          exact hmem
        · exact nomatch hpicked
    covered := fun table hmem => (h.covered table hmem).imp_left
      (Or.imp_right fun ⟨hmem, _⟩ => ⟨hmem, hmerging table⟩) }

theorem Inv.beginMerge (h : v.Inv) {table : Name} (hprogress : v.progress = .picked table) :
    Inv { v with
      db := { v.db with unmerged := v.db.unmerged.filter (· ≠ table) }
      progress := .merging table } := by
  have hinit := h.hasInit (.inr fun hidle => nomatch hprogress.symm.trans hidle)
  have hfilter : ∀ other, other ∈ v.db.unmerged.filter (· ≠ table) ↔
      other ∈ v.db.unmerged ∧ other ≠ table := fun other => by
    rw [List.mem_filter, decide_eq_true_iff]
  exact { h with
    unregistered := fun hfalse => nomatch (h.unregistered hfalse).1.symm.trans hinit
    unstarted := fun hfalse => nomatch hfalse.symm.trans hinit
    picked := fun other hother => by
      rcases hother with hother | hother
      · exact nomatch hother
      · obtain rfl := Progress.merging.inj hother
        exact h.picked table (.inl hprogress)
    fts5 := fun other hmem => h.fts5 other ((hfilter other).mp hmem).1
    known := fun _ other hmem => by
      by_cases heq : other = table
      · exact .inr (.inl (heq ▸ h.picked table (.inl hprogress)))
      · exact (h.known hinit other hmem).imp_left fun hmem => (hfilter other).mpr ⟨hmem, heq⟩
    covered := fun other hmem => by
      obtain ⟨hmem, hne⟩ := (hfilter other).mp hmem
      refine (h.covered other hmem).imp_left (Or.imp_right fun ⟨hmem, _⟩ => ⟨hmem, fun heq => ?_⟩)
      exact hne (Progress.merging.inj heq).symm }

theorem Inv.endMerge (h : v.Inv) {table : Name} (hprogress : v.progress = .merging table) :
    Inv { v with
      db := { v.db with
        mergingTables := v.db.mergingTables.erase table
        mergedTables := v.db.mergedTables.emplace table }
      progress := .idle } := by
  have hinit := h.hasInit (.inr fun hidle => nomatch hprogress.symm.trans hidle)
  have hknown : ∀ other, v.db.Known other → other ∈ v.db.mergingTables.erase table ∨
      other ∈ v.db.mergedTables.emplace table := by
    rintro other (hmem | hmem)
    · by_cases heq : other = table
      · exact .inr (StringViewSet.mem_emplace.mpr (.inl heq))
      · exact .inl (StringViewSet.mem_erase.mpr ⟨heq, hmem⟩)
    · exact .inr (StringViewSet.mem_emplace.mpr (.inr hmem))
  exact { h with
    unstarted := fun hfalse => nomatch hfalse.symm.trans hinit
    picked := fun other hother => hother.elim nofun nofun
    disjoint := fun other hmem hmem' => by
      obtain ⟨hne, hmem⟩ := StringViewSet.mem_erase.mp hmem
      rcases StringViewSet.mem_emplace.mp hmem' with heq | hmem'
      · exact hne heq
      · exact h.disjoint other hmem hmem'
    known := fun _ other hmem => (h.known hinit other hmem).imp_right (hknown other)
    covered := fun other hmem => by
      rcases h.covered other hmem with (hfalse | ⟨hmerging, hne⟩) | ⟨parameter, hnamed, htakes⟩ |
        ⟨hne, hrecorded⟩
      · exact nomatch hfalse.symm.trans hinit
      · refine .inl (.inr ⟨StringViewSet.mem_erase.mpr ⟨fun heq => hne ?_, hmerging⟩, nofun⟩)
        rw [heq]
        exact hprogress
      · exact .inr (.inl ⟨parameter, hnamed, htakes.imp_right fun ⟨hmodified, h⟩ =>
          ⟨hmodified, hknown other h⟩⟩)
      · exact .inr (.inr ⟨hne, hrecorded.imp_right fun ⟨hmodified, h⟩ =>
          ⟨hmodified, hknown other h⟩⟩) }

end View

/-! ### Runs -/

omit [LinearOrder Name] in
theorem Process.at_of_ne {process : Process Path Name} {path other : Path} (h : path ≠ other)
    (hprocess : process = .called path ∨ (∃ table, process = .picked path table) ∨
      (∃ table, process = .merging path table) ∨ process = .idle) :
    process.at other = .idle := by
  rcases hprocess with rfl | ⟨table, rfl⟩ | ⟨table, rfl⟩ | rfl
  · exact if_neg h
  · exact if_neg h
  · exact if_neg h
  · rfl

namespace State

variable {s : State Path Name}

/-- The invariant of the whole system. -/
structure Inv (s : State Path Name) : Prop where
  operations : s.operations.Unique
  merges : s.merges.Unique
  view : ∀ path, (s.view path).Inv

theorem view_setDatabase (s : State Path Name) (path other : Path) (db : Database Name) :
    (s.setDatabase path db).view other =
      if other = path then { s.view other with db := db } else s.view other := by
  split_ifs with h
  · subst h
    simp [view, setDatabase]
  · simp [view, setDatabase, Function.update_of_ne h]

theorem Inv.setDatabase (h : s.Inv) {path : Path} {db : Database Name}
    (hview : View.Inv { s.view path with db := db }) : (s.setDatabase path db).Inv := by
  refine ⟨h.operations, h.merges, fun other => ?_⟩
  rw [view_setDatabase]
  split_ifs with heq
  · exact heq ▸ hview
  · exact h.view other

/-- The thread of the merge queue works on one path. -/
theorem Inv.merge (h : s.Inv) {path : Path} {process : Process Path Name} (db : Database Name)
    (hold : ∀ other, path ≠ other → s.process.at other = .idle)
    (hnew : ∀ other, path ≠ other → process.at other = .idle)
    (hview : View.Inv { s.view path with db := db, progress := process.at path }) :
    (({ s with process } : State Path Name).setDatabase path db).Inv := by
  refine ⟨h.operations, h.merges, fun other => ?_⟩
  rw [view_setDatabase]
  by_cases heq : path = other
  · subst heq
    rw [if_pos rfl]
    exact hview
  · have hother := h.view other
    rw [if_neg (Ne.symm heq), show ({ s with process } : State Path Name).view other =
      s.view other by simp [State.view, hold other heq, hnew other heq]]
    exact hother

theorem Inv.setProcess (h : s.Inv) {path : Path} {process : Process Path Name}
    (hold : ∀ other, path ≠ other → s.process.at other = .idle)
    (hnew : ∀ other, path ≠ other → process.at other = .idle)
    (hview : View.Inv { s.view path with progress := process.at path }) :
    Inv { s with process } := by
  have hmerge := h.merge (s.databases path) hold hnew hview
  rwa [State.setDatabase, Function.update_eq_self] at hmerge

theorem view_asyncMergeFTSIndex (h : s.operations.Unique) (path other : Path)
    (newTables modifiedTables : Option (List Name)) :
    (s.asyncMergeFTSIndex path newTables modifiedTables).view other =
      if path = other ∧ (s.databases path).registeredForMergeFTSIndex then
        { s.view other with waiting := some ⟨newTables, modifiedTables⟩ }
      else s.view other := by
  rw [asyncMergeFTSIndex]
  by_cases hregistered : (s.databases path).registeredForMergeFTSIndex = true
  · rw [if_pos hregistered]
    simp only [State.view, TimedQueue.value?_queue h, Operation.mergeIndex.injEq,
      hregistered, and_true]
    split_ifs <;> rfl
  · rw [if_neg hregistered, if_neg fun h => hregistered h.2]

theorem unique_asyncMergeFTSIndex (h : s.operations.Unique) (path : Path)
    (newTables modifiedTables : Option (List Name)) :
    (s.asyncMergeFTSIndex path newTables modifiedTables).operations.Unique := by
  rw [asyncMergeFTSIndex]
  split_ifs
  · exact TimedQueue.Unique.queue h
  · exact h

theorem merges_asyncMergeFTSIndex (s : State Path Name) (path : Path)
    (newTables modifiedTables : Option (List Name)) :
    (s.asyncMergeFTSIndex path newTables modifiedTables).merges = s.merges := by
  rw [asyncMergeFTSIndex]
  split_ifs <;> rfl

theorem Inv.enable (h : s.Inv) {path : Path} (tables : List Name)
    (hregistered : ¬(s.databases path).registeredForMergeFTSIndex = true) :
    ((s.setDatabase path
      { registeredForMergeFTSIndex := true, fts5Tables := tables, unmerged := tables
        }).asyncMergeFTSIndex path none none).Inv := by
  refine ⟨unique_asyncMergeFTSIndex (s := s.setDatabase path _) h.operations _ _ _,
    by rw [merges_asyncMergeFTSIndex]; exact h.merges, fun other => ?_⟩
  rw [view_asyncMergeFTSIndex (s := s.setDatabase path _) h.operations, view_setDatabase]
  by_cases heq : path = other
  · subst heq
    rw [if_pos ⟨rfl, by simp [State.setDatabase]⟩, if_pos rfl]
    exact (h.view path).enable (Bool.eq_false_iff.mpr hregistered) tables _
  · rw [if_neg fun h => heq h.1, if_neg (Ne.symm heq)]
    exact h.view other

theorem Inv.onCommitted (h : s.Inv) {path : Path} {pages : ℕ} (hpages : 0 < pages)
    (commits : List (Option (Change Name))) (unnotified : List (Change Name))
    (hopen : ∀ change ∈ (s.databases path).writer.getD [], change.touched = none)
    (hreplaced : ∀ parameter ∈ (s.view path).waiting.toList,
      (s.databases path).newTables.assign.isSome ∨ (s.databases path).modifiedTables.assign.isSome →
        ∀ table ∈ (s.databases path).unmerged, (s.databases path).Takes parameter table →
          (s.view path).Awaits table ∨ (s.databases path).Recorded table) :
    ((s.setDatabase path { s.databases path with commits, unnotified }).onCommitted path
      pages).Inv := by
  have hcommitted := (h.view path).committed commits unnotified hopen hreplaced
  rw [State.onCommitted, if_neg (Nat.pos_iff_ne_zero.mp hpages)]
  have hdb : (s.setDatabase path { s.databases path with commits, unnotified }).databases path =
      { s.databases path with commits, unnotified } := Function.update_self ..
  have htwice : ∀ db db', ((s.setDatabase path db).setDatabase path db') = s.setDatabase path db' :=
    fun db db' => by simp [State.setDatabase]
  simp only [hdb, htwice]
  split_ifs with hhanded
  · refine ⟨unique_asyncMergeFTSIndex (s := s.setDatabase path _) h.operations _ _ _,
      by rw [merges_asyncMergeFTSIndex]; exact h.merges, fun other => ?_⟩
    rw [view_asyncMergeFTSIndex (s := s.setDatabase path _) h.operations, view_setDatabase]
    by_cases heq : path = other
    · subst heq
      rw [if_pos rfl]
      by_cases hregistered : (s.databases path).registeredForMergeFTSIndex = true
      · rw [if_pos ⟨rfl, by simp [State.setDatabase, hregistered]⟩]
        rwa [if_pos ⟨hregistered, hhanded⟩] at hcommitted
      · rw [if_neg fun h => hregistered (by simpa [State.setDatabase] using h.2)]
        rwa [if_neg fun h => hregistered h.1] at hcommitted
    · rw [if_neg fun h => heq h.1, if_neg (Ne.symm heq)]
      exact h.view other
  · refine h.setDatabase ?_
    rwa [if_neg fun h => hhanded h.2] at hcommitted

theorem view_triggerMerge (h : s.merges.Unique) (path : Path) (parameter : Parameter Name) :
    (s.triggerMerge path parameter).merges.Unique ∧
      (∃ queued, (s.triggerMerge path parameter).view path =
        { s.view path with
          db := (s.databases path).tryInit.checkModifiedTables parameter
          queued }) ∧
      ∀ other, path ≠ other → (s.triggerMerge path parameter).view other = s.view other := by
  rw [triggerMerge]
  dsimp only
  split_ifs
  · refine ⟨h, ⟨(s.view path).queued, ?_⟩, fun other heq => ?_⟩
    · rw [view_setDatabase, if_pos rfl]
    · rw [view_setDatabase, if_neg (Ne.symm heq)]
  · refine ⟨TimedQueue.Unique.queue h, ⟨true, ?_⟩, fun other heq => ?_⟩
    · simp [State.view, setDatabase, TimedQueue.value?_queue h]
    · simp [State.view, setDatabase, TimedQueue.value?_queue h, heq,
        Function.update_of_ne (Ne.symm heq)]

theorem Inv.operate (h : s.Inv) {path : Path} {parameter : Parameter Name}
    (hoperating : s.operating = some (.mergeIndex path, parameter))
    (horder : ∀ table, s.process = .merging path table →
      (s.databases path).Takes parameter table → table ∉ (s.databases path).unmerged) :
    (({ s with operating := none } : State Path Name).triggerMerge path parameter).Inv := by
  have hview := h.view path
  have hat : (s.view path).operating = some parameter := by
    simp [State.view, operatingAt, hoperating]
  have hregistered : (s.view path).db.registeredForMergeFTSIndex = true := by
    by_contra hfalse
    cases hat.symm.trans (hview.unregistered (Bool.eq_false_iff.mpr hfalse)).2.2.2.2
  have hinit : ((s.view path).db.tryInit).hasInit = true := by
    rw [Database.tryInit]
    split_ifs with hinit
    · exact hinit
    · rfl
  have horder' : ∀ table, (s.view path).progress = .merging table →
      (s.view path).db.tryInit.Takes parameter table →
        table ∉ (s.view path).db.tryInit.unmerged := by
    intro table hprogress
    have hbusy := hview.hasInit (.inr (by simp [hprogress]))
    rw [Database.tryInit, if_pos hbusy]
    refine horder table ?_
    revert hprogress
    cases hprocess : s.process with
    | merging other table' =>
      simp only [State.view, Process.at, hprocess]
      split_ifs with heq
      · rintro ⟨rfl⟩
        rw [heq]
      · rintro ⟨⟩
    | picked | called =>
      simp only [State.view, Process.at, hprocess]
      split_ifs <;> rintro ⟨⟩
    | idle => simp [State.view, Process.at, hprocess]
  have hregistered' : (s.view path).db.tryInit.registeredForMergeFTSIndex = true := by
    rw [Database.tryInit]
    split_ifs <;> exact hregistered
  have hchecked := fun queued => (hview.tryInit hregistered).checkModifiedTables queued hregistered'
    hinit hat horder'
  obtain ⟨hmerges, ⟨queued, hself⟩, hother⟩ :=
    view_triggerMerge (s := { s with operating := none }) h.merges path parameter
  refine ⟨?_, hmerges, fun other => ?_⟩
  · rw [State.triggerMerge]
    dsimp only
    split_ifs <;> exact h.operations
  by_cases heq : path = other
  · subst heq
    rw [hself]
    exact hchecked queued
  · rw [hother other heq, show ({ s with operating := none } : State Path Name).view other =
      s.view other by simp [State.view, operatingAt, hoperating, heq]]
    exact h.view other

omit [LinearOrder Name] in
theorem operatingAt_of_ne {operation : Operation Path} {path : Path}
    (h : operation ≠ .mergeIndex path)
    (parameter : Parameter Name) : operatingAt (some (operation, parameter)) path = none := by
  cases operation with
  | mergeIndex other => exact if_neg fun heq : other = path => h (congrArg Operation.mergeIndex heq)
  | _ => rfl

theorem Inv.expire (h : s.Inv) {operation : Operation Path} {parameter : Parameter Name}
    {operations : UniqueList (Operation Path) (Parameter Name)} (hoperating : s.operating = none)
    (hexpire : TimedQueue.expire s.operations s.now = some ((operation, parameter), operations)) :
    Inv { s with operating := some (operation, parameter), operations } := by
  obtain ⟨hunique, htaken, hgone, hrest⟩ := TimedQueue.expire_spec h.operations hexpire
  refine ⟨hunique, h.merges, fun other => ?_⟩
  by_cases heq : operation = .mergeIndex other
  · subst heq
    have hview := (h.view other).expire htaken (by simp [State.view, operatingAt, hoperating])
    rw [show State.view
      { s with operating := some (.mergeIndex other, parameter), operations } other =
      { s.view other with waiting := none, operating := some parameter } by
        simp [State.view, operatingAt, hgone]]
    exact hview
  · rw [show State.view { s with operating := some (operation, parameter), operations } other =
      s.view other by
        rw [State.view, State.view, operatingAt_of_ne heq, hrest _ (Ne.symm heq), hoperating]
        rfl]
    exact h.view other

theorem Inv.call (h : s.Inv) {path : Path} {merges : UniqueList Path Unit}
    (hprocess : s.process = .idle)
    (hexpire : TimedQueue.expire s.merges s.now = some ((path, ()), merges)) :
    Inv { s with merges, process := .called path } := by
  obtain ⟨hunique, htaken, hgone, hrest⟩ := TimedQueue.expire_spec h.merges hexpire
  refine ⟨h.operations, hunique, fun other => ?_⟩
  by_cases heq : path = other
  · subst heq
    have hinit := (h.view path).hasInit (.inl (by simp [State.view, htaken]))
    have hview : View.Inv { s.view path with queued := false, progress := .called } :=
      (h.view path).turn hinit false (.inr (.inl rfl))
    rw [show State.view { s with merges, process := .called path } path =
      { s.view path with queued := false, progress := .called } by
        simp [State.view, Process.at, hgone]]
    exact hview
  · rw [show State.view { s with merges, process := .called path } other = s.view other by
      simp [State.view, Process.at, hrest _ (Ne.symm heq), heq, hprocess]]
    exact h.view other

theorem Inv.queueOther (h : s.Inv) {operation : Operation Path} (delay : ℕ)
    (hother : ∀ path, operation ≠ .mergeIndex path) :
    Inv { s with
      operations := TimedQueue.queue s.operations s.now operation delay {} .forwardOnly } := by
  refine ⟨TimedQueue.Unique.queue h.operations, h.merges, fun path => ?_⟩
  have hview := h.view path
  rw [State.view, TimedQueue.value?_queue h.operations, if_neg (hother path)]
  exact hview

theorem Inv.init : Inv ({} : State Path Name) := by
  refine ⟨List.nodup_nil, List.nodup_nil, fun path => ?_⟩
  exact {
    unregistered := fun _ => ⟨rfl, rfl, rfl, rfl, rfl⟩
    asked := nofun
    unstarted := fun _ => ⟨rfl, rfl⟩
    picked := fun table h => h.elim nofun nofun
    disjoint := fun _ hmem => absurd hmem StringViewSet.mem_empty
    fts5 := fun _ hmem => absurd hmem List.not_mem_nil
    known := nofun
    admitted := nofun
    recorded := nofun
    covered := fun _ hmem => absurd hmem List.not_mem_nil }

end State

/-- Every step that meets the condition keeps the invariant. -/
theorem step_inv (s : State Path Name) (event : Event Path Name) (t : State Path Name)
    (h : s.Inv) (horder : Orderly s event) (hstep : step s event = some t) : t.Inv := by
  cases event with
  | tick milliseconds =>
    obtain rfl := Option.some.inj hstep
    exact ⟨h.operations, h.merges, h.view⟩
  | enable path tables =>
    obtain ⟨hregistered, hstep⟩ := Option.ite_none_left_eq_some.mp hstep
    obtain rfl := Option.some.inj hstep
    exact h.enable tables hregistered
  | other operation delay =>
    have hother : ∀ path, operation ≠ .mergeIndex path := by
      rintro path rfl
      cases hstep
    have hqueue := h.queueOther delay hother
    cases operation with
    | mergeIndex path => cases hstep
    | _ =>
      obtain rfl := Option.some.inj hstep
      exact hqueue
  | expire =>
    simp only [step] at hstep
    split at hstep
    · next hoperating hexpire =>
      obtain rfl := Option.some.inj hstep
      exact h.expire hoperating hexpire
    · cases hstep
  | operate =>
    simp only [step] at hstep
    split at hstep
    · cases hstep
    · next path parameter hoperating =>
      obtain rfl := Option.some.inj hstep
      refine h.operate hoperating fun table hprocess => ?_
      rw [Orderly, hoperating, hprocess] at horder
      exact horder rfl
    · next operation hother hoperating =>
      obtain rfl := Option.some.inj hstep
      refine ⟨h.operations, h.merges, fun path => ?_⟩
      have hne : operation.1 ≠ .mergeIndex path :=
        fun heq => hother path operation.2 (Prod.ext heq rfl)
      have hview := h.view path
      rw [State.view, hoperating, State.operatingAt_of_ne hne] at hview
      exact hview
  | call =>
    simp only [step] at hstep
    split at hstep
    · next hprocess hexpire =>
      obtain rfl := Option.some.inj hstep
      exact h.call hprocess hexpire
    · cases hstep
  | pick =>
    simp only [step] at hstep
    split at hstep
    · next path hprocess =>
      have hold : ∀ other, path ≠ other → s.process.at other = .idle := fun other hne =>
        Process.at_of_ne hne (.inl hprocess)
      have hinit := (h.view path).hasInit (.inr (by simp [State.view, Process.at, hprocess]))
      split at hstep
      · obtain rfl := Option.some.inj hstep
        exact h.setProcess hold (fun _ _ => rfl) ((h.view path).turn hinit _ (.inl rfl))
      · next table hbegin =>
        obtain rfl := Option.some.inj hstep
        exact h.setProcess hold (fun other hne => if_neg hne) ((h.view path).turn hinit _
          (.inr (.inr ⟨table, StringViewSet.mem_of_begin? hbegin, if_pos rfl⟩)))
    · cases hstep
  | beginMerge =>
    simp only [step] at hstep
    split at hstep
    · next path table hprocess =>
      obtain rfl := Option.some.inj hstep
      have hprogress : (s.view path).progress = .picked table := by
        simp [State.view, Process.at, hprocess]
      refine h.merge _ (fun other hne => Process.at_of_ne hne (.inr (.inl ⟨table, hprocess⟩)))
        (fun other hne => if_neg hne) ?_
      rw [show (Process.merging path table).at path = .merging table from if_pos rfl]
      exact (h.view path).beginMerge hprogress
    · cases hstep
  | endMerge =>
    simp only [step] at hstep
    split at hstep
    · next path table hprocess =>
      have hprogress : (s.view path).progress = .merging table := by
        simp [State.view, Process.at, hprocess]
      have hold : ∀ other, path ≠ other → s.process.at other = .idle := fun other hne =>
        Process.at_of_ne hne (.inr (.inr (.inl ⟨table, hprocess⟩)))
      have hview := (h.view path).endMerge hprogress
      have hinit := (h.view path).hasInit (.inr (by simp [hprogress]))
      split at hstep
      · obtain rfl := Option.some.inj hstep
        show (({ s with process := .idle } : State Path Name).setDatabase path _).Inv
        exact h.merge _ hold (fun _ _ => rfl) hview
      · next following hbegin =>
        obtain rfl := Option.some.inj hstep
        show (({ s with process := .picked path following } : State Path
          Name).setDatabase path _).Inv
        exact h.merge _ hold (fun other hne => if_neg hne) (hview.turn hinit _
          (.inr (.inr ⟨following, StringViewSet.mem_of_begin? hbegin, if_pos rfl⟩)))
    · cases hstep
  | interrupt =>
    simp only [step] at hstep
    split at hstep
    · next path table hprocess =>
      obtain rfl := Option.some.inj hstep
      have hinit := (h.view path).hasInit (.inr (by simp [State.view, Process.at, hprocess]))
      exact h.setProcess (fun other hne => Process.at_of_ne hne (.inr (.inl ⟨table, hprocess⟩)))
        (fun _ _ => rfl) ((h.view path).turn hinit _ (.inl rfl))
    · next path table hprocess =>
      obtain rfl := Option.some.inj hstep
      have hinit := (h.view path).hasInit (.inr (by simp [State.view, Process.at, hprocess]))
      exact h.setProcess
        (fun other hne => Process.at_of_ne hne (.inr (.inr (.inl ⟨table, hprocess⟩))))
        (fun _ _ => rfl) ((h.view path).turn hinit _ (.inl rfl))
    · cases hstep
  | write path change =>
    obtain ⟨⟨hregistered, hadmits⟩, hstep⟩ := Option.ite_none_right_eq_some.mp hstep
    obtain rfl := Option.some.inj hstep
    refine h.setDatabase ((h.view path).write hregistered hadmits fun written table heq => ?_)
    subst heq
    exact horder
  | commit path =>
    simp only [step] at hstep
    split at hstep
    · cases hstep
    · next changes hwriter =>
      obtain rfl := Option.some.inj hstep
      exact h.setDatabase ((h.view path).commit hwriter)
  | rollback path =>
    obtain ⟨-, hstep⟩ := Option.ite_none_right_eq_some.mp hstep
    obtain rfl := Option.some.inj hstep
    exact h.setDatabase ((h.view path).extend (fun _ => id) (fun _ => id) id
      (fun hne => absurd rfl hne) (fun _ heq => by cases heq) (fun _ heq => by cases heq))
  | autocommit path change =>
    obtain ⟨⟨hregistered, hwriter, hadmits⟩, hstep⟩ := Option.ite_none_right_eq_some.mp hstep
    obtain rfl := Option.some.inj hstep
    exact h.setDatabase ((h.view path).autocommit hregistered hwriter hadmits horder)
  | unmonitored path =>
    obtain ⟨⟨hregistered, -⟩, hstep⟩ := Option.ite_none_right_eq_some.mp hstep
    obtain rfl := Option.some.inj hstep
    exact h.setDatabase ((h.view path).extend (fun _ => id) (fun _ => id)
      (fun _ => List.cons_ne_nil _ _) (fun _ => hregistered) (h.view path).admitted
      (h.view path).recorded)
  | committed path commit pages =>
    obtain ⟨⟨-, hpages⟩, hstep⟩ := Option.ite_none_right_eq_some.mp hstep
    obtain rfl := Option.some.inj hstep
    exact h.onCommitted hpages _ _ horder.1 horder.2
  | notify path change =>
    obtain ⟨-, hstep⟩ := Option.ite_none_right_eq_some.mp hstep
    obtain rfl := Option.some.inj hstep
    exact h.setDatabase ((h.view path).onTableModified _ _ _)

/-- **No changed table is forgotten**: in a run of steps that meet the condition, wherever both
queues are quiet, an FTS5 table created or modified since its last merge began is one to be
merged. -/
theorem merging_of_quiet {events : List (Event Path Name)} {s : State Path Name}
    (hmeets : Run.Meets step Orderly {} events) (hexec : Run.exec step {} events = some s)
    {path : Path} (hquiet : (s.view path).Quiet) :
    ∀ table ∈ (s.databases path).unmerged,
      table ∈ (s.databases path).mergingTables ∧ table ∉ (s.databases path).mergedTables :=
  fun _ hmem => ((Run.inv_exec step_inv State.Inv.init hmeets hexec).view path).quiet hquiet hmem

/-- Merging is enabled for a database with two FTS5 tables, and both are merged. -/
def enabled : List (Event ℕ ℕ) :=
  [.enable 0 [1, 2], .tick 1871, .expire, .operate, .call, .pick, .beginMerge, .endMerge,
    .beginMerge, .endMerge]

def modifying (tables : List ℕ) : List (Event ℕ ℕ) :=
  tables.map (fun table => .write 0 (.modify table table true)) ++ [.commit 0, .committed 0 none 1]

/-- Both tables are modified again, and one of them is merged. -/
def modifiedAgain : List (Event ℕ ℕ) :=
  enabled ++ modifying [1] ++ modifying [1, 2] ++
    [.tick 1871, .expire, .operate, .call, .pick, .beginMerge, .endMerge, .interrupt]

theorem merging_of_quiet_modifiedAgain :
    ∃ s, Run.exec step {} modifiedAgain = some s ∧ (s.databases 0).unmerged = [2] ∧
      2 ∈ (s.databases 0).mergingTables := by
  have hany : (Run.exec step ({} : State ℕ ℕ) modifiedAgain).any
      (fun s => decide ((s.view 0).Quiet ∧ (s.databases 0).unmerged = [2])) = true := by
    decide +kernel
  obtain ⟨s, hs, h⟩ := (Option.any_eq_true _ _).mp hany
  obtain ⟨hquiet, hunmerged⟩ := of_decide_eq_true h
  refine ⟨s, hs, hunmerged, (merging_of_quiet ?_ hs hquiet 2 ?_).1⟩
  · decide +kernel
  · rw [hunmerged]
    exact List.mem_singleton.mpr rfl

/-- The second commit replaces what the first has handed over. -/
def replaced : List (Event ℕ ℕ) :=
  enabled ++ modifying [1] ++ modifying [2] ++
    [.tick 1871, .expire, .operate, .call, .pick, .beginMerge, .endMerge]

/-- A statement not in a transaction. -/
def recordedLate : List (Event ℕ ℕ) :=
  enabled ++ [.autocommit 0 (.modify 1 1 true), .committed 0 (some (.modify 1 1 true)) 1,
    .notify 0 (.modify 1 1 true)]

/-- The table is modified while it is being merged. -/
def mergedAgain : List (Event ℕ ℕ) :=
  enabled ++ modifying [1] ++ [.tick 1871, .expire, .operate, .call, .pick, .beginMerge] ++
    modifying [1] ++ [.tick 1871, .expire, .operate, .endMerge, .call, .pick]

/-- A run that ends quietly with the table `1` merged, although it has changed since. -/
def Forgets (events : List (Event ℕ ℕ)) : Prop :=
  ∃ s, Run.exec step {} events = some s ∧ (s.view 0).Quiet ∧ 1 ∈ (s.databases 0).unmerged ∧
    1 ∉ (s.databases 0).mergingTables ∧ 1 ∈ (s.databases 0).mergedTables

theorem forgets_of_any {events : List (Event ℕ ℕ)}
    (hany : (Run.exec step ({} : State ℕ ℕ) events).any (fun s => decide ((s.view 0).Quiet ∧
      1 ∈ (s.databases 0).unmerged ∧ 1 ∉ (s.databases 0).mergingTables ∧
        1 ∈ (s.databases 0).mergedTables)) = true) : Forgets events := by
  obtain ⟨s, hs, h⟩ := (Option.any_eq_true _ _).mp hany
  exact ⟨s, hs, of_decide_eq_true h⟩

theorem forgotten : Forgets replaced ∧ Forgets recordedLate ∧ Forgets mergedAgain :=
  ⟨forgets_of_any (by decide +kernel), forgets_of_any (by decide +kernel),
    forgets_of_any (by decide +kernel)⟩

end Wcdb.MergeFTSIndex
