import Wcdb.Core.RollbackCompression
import Wcdb.Lib.Run

/-!
# Compressing a table in the background

`CompressHandleOperator::compressRows` compresses a table ten rows at a time, from the largest
rowid downwards. A batch is one transaction: its rows are read with `SELECT *`, compressed and
deleted one after the other, and then inserted with the values that were read. The values have the
rowid among them only when the table declares an `INTEGER PRIMARY KEY`; without one, SQLite gives
the rows **new rowids**. The smallest rowid that was visited is the bound of the next batch, and the
first bound is the largest rowid itself, which is never visited.

`compressRows_spec` says what a call does to a table whose key is declared. From it
`logicalRows_kept` follows for runs.
-/

namespace Wcdb

open Sql

variable {κ : Type}

/-- A table that is compressed: its number of columns, its constraints and the column that is its
`INTEGER PRIMARY KEY`, if it declares one. A type column is never that. -/
structure CompressingTable (κ : Type) where
  info : CompressionTableInfo
  width : ℕ
  schema : Schema (List Value) κ
  integerPrimaryKey : Option ℕ
  autoincrement : Bool := false
  key_apart : ∀ i, integerPrimaryKey = some i → ∀ c ∈ info.columns, i ≠ c.typeColumnIndex

/-- What happens during a call: which of its statements fail, after which row the handle finds that
another one is waiting, and the rowid that SQLite finds at random where it has to. -/
structure CompressEvents where
  prepares : Bool := true
  selects : Bool := true
  begins : Bool := true
  commits : Bool := true
  selectFails : ℕ → Bool := fun _ => false
  deleteFails : ℕ → Bool := fun _ => false
  insertFails : ℕ → Bool := fun _ => false
  busyDelete : ℕ → Bool := fun _ => false
  busyInsert : ℕ → Bool := fun _ => false
  random : ℕ → Option ℤ := fun _ => none

/-- How a batch ends before its commit. -/
inductive Abandoned where
  | failed
  | interrupted
  deriving DecidableEq, Repr

/-- The state between two calls. `visited` logs the rowids of the batches that were committed. -/
structure CompressState where
  store : Store (List Value)
  minCompressedRowid : ℤ := maxRowid
  visited : List ℤ := []

/-- Some type column is null. -/
def hasNullType (info : CompressionTableInfo) (row : List Value) : Bool :=
  info.columns.any fun c => row.getD c.typeColumnIndex .null = .null

/-- The condition of `getSelectNeedCompressRowIdStatement`. -/
def needsCompress (info : CompressionTableInfo) (row : List Value) : Bool :=
  info.replaceCompression || hasNullType info row

namespace CompressingTable

variable (z : Zstd) (T : CompressingTable κ) (e : CompressEvents)

/-- The rowids that a call selects. -/
def batch (s : CompressState) : List ℤ :=
  (s.store.table.keysDesc fun r => needsCompress T.info r.2 && r.1 < s.minCompressedRowid).take
    compressionBatchCount

/-- The first loop of `doCompressRows`: the rows, compressed, and the table without them. -/
def takeRows : ℕ → List ℤ → Rows → Except Abandoned (List (List Value) × Rows)
  | _, [], table => .ok ([], table)
  | i, rowid :: rowids, table =>
      if e.selectFails i then .error .failed
      else
        match table.find rowid with
        | none => takeRows (i + 1) rowids table
        | some r =>
            match compressRow z T.info r.2 with
            | .error _ => .error .failed
            | .ok row =>
                if e.deleteFails i then .error .failed
                else if e.busyDelete i then .error .interrupted
                else
                  (takeRows (i + 1) rowids (table.erase rowid)).map fun taken =>
                    (row :: taken.1, taken.2)

/-- The rowid among the values of a row. -/
def keyOf (row : List Value) : Option ℤ :=
  match T.integerPrimaryKey with
  | none => none
  | some i =>
      match row.getD i .null with
      | .integer k => some k
      | _ => none

variable [DecidableEq κ]

/-- The second loop of `doCompressRows`. -/
def insertRows : ℕ → List (List Value) → Store (List Value) →
    Except Abandoned (Store (List Value))
  | _, [], store => .ok store
  | i, row :: rows, store =>
      if e.busyInsert i then .error .interrupted
      else if e.insertFails i then .error .failed
      else
        match store.insert T.schema T.autoincrement .abort
            { key := T.keyOf row, data := row, random := e.random i } with
        | none => .error .failed
        | some inserted => insertRows (i + 1) rows inserted.1

/-- `doCompressRows`. What does not commit is rolled back. -/
def doCompressRows (rowids : List ℤ) (store : Store (List Value)) :
    Except Abandoned (Store (List Value)) :=
  if e.begins = false then .error .failed
  else
    match takeRows z T e 0 rowids store.table with
    | .error stop => .error stop
    | .ok (rows, table) =>
        match insertRows T e 0 rows { store with table } with
        | .error stop => .error stop
        | .ok store => if e.commits then .ok store else .error .failed

/-- `CompressHandleOperator::compressRows`. The result is `none` on failure. -/
def compressRows (s : CompressState) : Option Bool × CompressState :=
  if e.prepares = false ∨
      (T.info.replaceCompression = false ∧ selectsRowIds T.info T.width = false) then (none, s)
  else if e.selects = false then (none, s)
  else
    let rowids := T.batch s
    match doCompressRows z T e rowids s.store with
    | .error .failed => (none, s)
    | .error .interrupted => (some false, s)
    | .ok store =>
        let finish := decide (rowids.length < compressionBatchCount)
        (some finish,
          { store
            minCompressedRowid := if finish then 0 else rowids.getLastD 0
            visited := s.visited ++ rowids })

/-- One call of a run. -/
def step (s : CompressState) (e : CompressEvents) : Option CompressState :=
  some (T.compressRows z e s).2

end CompressingTable

/-! ### The meaning of a table -/

/-- What a reader gets from a column of a row. A type column is no part of the meaning. -/
def logicalValue (z : Zstd) (info : CompressionTableInfo) (row : List Value) (index : ℕ) :
    Option Value :=
  match info.columns.find? fun c => c.columnIndex = index with
  | some c => wcdbDecompress z (row.getD index .null) (row.getD c.typeColumnIndex .null)
  | none =>
      if info.columns.any fun c => c.typeColumnIndex = index then some .null
      else some (row.getD index .null)

/-- The map from rowids to decompressed rows. -/
def logicalRows (z : Zstd) (info : CompressionTableInfo) (table : Rows) (rowid : ℤ) :
    Option (ℕ → Option Value) :=
  (table.find rowid).map fun r => logicalValue z info r.2

variable {z : Zstd} {info : CompressionTableInfo}

/-- Rows that stand for the same values mean the same. -/
theorem logicalValue_congr (hz : z.Lawful) {row row' : List Value} {logical : ℕ → Value}
    (h : StandsFor z info row logical) (h' : StandsFor z info row' logical) :
    logicalValue z info row = logicalValue z info row' := by
  funext index
  simp only [logicalValue]
  split
  next c hfind =>
    have hc := List.mem_of_find?_eq_some hfind
    obtain rfl : c.columnIndex = index := by simpa using List.find?_some hfind
    rw [(h.cells c hc).reads hz, (h'.cells c hc).reads hz]
  next hfind =>
    split_ifs with htype
    · rfl
    · have hother : ∀ c ∈ info.columns, index ≠ c.columnIndex ∧ index ≠ c.typeColumnIndex := by
        intro c hc
        constructor
        · rintro rfl
          simpa using List.find?_eq_none.mp hfind c hc
        · rintro rfl
          exact htype (List.any_eq_true.mpr ⟨c, hc, by simp⟩)
      rw [h.others index hother, h'.others index hother]

variable {width : ℕ} {original : ℤ → ℕ → Value}

/-- Tables with the same rowids whose rows stand for the same values mean the same. -/
theorem logicalRows_congr (hz : z.Lawful) {table table' : Rows}
    (h : Kept z info width original table) (h' : Kept z info width original table')
    (hkeys : ∀ k, (∃ row, (k, row) ∈ table') ↔ ∃ row, (k, row) ∈ table) :
    logicalRows z info table' = logicalRows z info table := by
  funext k
  rw [logicalRows, logicalRows]
  cases hfind : table.find k with
  | none =>
    have hnone : table'.find k = none := by
      refine Table.find_eq_none.mpr fun r hr hk => ?_
      obtain ⟨row, hrow⟩ := (hkeys k).mp ⟨r.2, hk ▸ hr⟩
      exact Table.find_eq_none.mp hfind _ hrow rfl
    rw [hnone]
  | some r =>
    obtain ⟨hr, rfl⟩ := Table.find_eq_some.mp hfind
    obtain ⟨row, hrow⟩ := (hkeys r.1).mpr ⟨r.2, hr⟩
    rw [Table.find_eq_some.mpr ⟨hrow, rfl⟩, Option.map_some, Option.map_some,
      logicalValue_congr hz (h' _ hrow).1 (h _ hr).1]

/-! ### A batch -/

namespace CompressingTable

variable {T : CompressingTable κ} {e : CompressEvents}

/-- What the first loop takes out of a table. -/
structure Taken (z : Zstd) (T : CompressingTable κ) (rowids : List ℤ) (table : Rows)
    (taken : List (ℤ × List Value)) (table' : Rows) : Prop where
  keys : ∀ k, k ∈ taken.map Prod.fst ↔ k ∈ rowids ∧ ∃ row, (k, row) ∈ table
  rows : ∀ b ∈ taken, ∃ row, (b.1, row) ∈ table ∧ compressRow z T.info row = .ok b.2
  rest : ∀ a, a ∈ table' ↔ a ∈ table ∧ a.1 ∉ rowids

/-- A step of the first loop that does not abandon the batch. -/
theorem takeRows_cons {k : ℤ} {rowids : List ℤ} {i : ℕ} {table : Rows}
    {result : List (List Value) × Rows} (h : takeRows z T e i (k :: rowids) table = .ok result) :
    (table.find k = none ∧ takeRows z T e (i + 1) rowids table = .ok result) ∨
    ∃ r row taken, table.find k = some r ∧ compressRow z T.info r.2 = .ok row ∧
      takeRows z T e (i + 1) rowids (table.erase k) = .ok taken ∧
        result = (row :: taken.1, taken.2) := by
  rw [takeRows] at h
  split at h
  · cases h
  split at h
  next hfind => exact Or.inl ⟨hfind, h⟩
  next r hfind =>
    split at h
    · cases h
    next row hcompress =>
      split at h
      · cases h
      split at h
      · cases h
      cases hrest : takeRows z T e (i + 1) rowids (table.erase k) with
      | error stop =>
        rw [hrest] at h
        cases h
      | ok taken =>
        rw [hrest] at h
        cases h
        exact Or.inr ⟨r, row, taken, hfind, hcompress, rfl, rfl⟩

/-- **The first loop**, by induction on the rowids. -/
theorem takeRows_spec {rowids : List ℤ} (hnodup : rowids.Nodup) {i : ℕ} {table : Rows}
    {result : List (List Value) × Rows} (h : takeRows z T e i rowids table = .ok result) :
    ∃ taken, result.1 = taken.map Prod.snd ∧ Taken z T rowids table taken result.2 := by
  induction rowids generalizing i table result with
  | nil =>
    cases h
    exact ⟨[], rfl, by simp, by simp, by simp⟩
  | cons k rowids ih =>
    obtain ⟨hk, hrowids⟩ := List.nodup_cons.mp hnodup
    obtain ⟨hfind, hrest⟩ | ⟨r, row, taken₁, hfind, hcompress, hrest, rfl⟩ := takeRows_cons h
    · have hnone := Table.find_eq_none.mp hfind
      obtain ⟨taken, hrows, htaken⟩ := ih hrowids hrest
      refine ⟨taken, hrows, fun a => ?_, htaken.rows, fun a => ?_⟩
      · rw [htaken.keys, List.mem_cons]
        constructor
        · exact fun ha => ⟨Or.inr ha.1, ha.2⟩
        · rintro ⟨rfl | ha, row, hrow⟩
          · exact absurd rfl (hnone _ hrow)
          · exact ⟨ha, row, hrow⟩
      · rw [htaken.rest, List.mem_cons, not_or]
        exact ⟨fun ha => ⟨ha.1, hnone a ha.1, ha.2⟩, fun ha => ⟨ha.1, ha.2.2⟩⟩
    · obtain ⟨hr, rfl⟩ := Table.find_eq_some.mp hfind
      obtain ⟨taken, hrows, htaken⟩ := ih hrowids hrest
      refine ⟨(r.1, row) :: taken, by rw [hrows]; rfl, fun a => ?_, ?_, fun a => ?_⟩
      · rw [List.map_cons, List.mem_cons, List.mem_cons, htaken.keys]
        constructor
        · rintro (rfl | ⟨ha, row', hrow'⟩)
          · exact ⟨Or.inl rfl, r.2, hr⟩
          · exact ⟨Or.inr ha, row', (Table.mem_erase.mp hrow').1⟩
        · rintro ⟨rfl | ha, row', hrow'⟩
          · exact Or.inl rfl
          · refine Or.inr ⟨ha, row', Table.mem_erase.mpr ⟨hrow', ?_⟩⟩
            rintro rfl
            exact hk ha
      · refine List.forall_mem_cons.mpr ⟨⟨r.2, hr, hcompress⟩, fun b hb => ?_⟩
        obtain ⟨row', hrow', hok⟩ := htaken.rows b hb
        exact ⟨row', (Table.mem_erase.mp hrow').1, hok⟩
      · rw [htaken.rest, Table.mem_erase, List.mem_cons, not_or]
        exact ⟨fun ha => ⟨ha.1.1, ha.1.2, ha.2⟩, fun ha => ⟨⟨ha.1, ha.2.1⟩, ha.2.2⟩⟩

/-- The second loop, when every row brings its rowid. -/
theorem insertRows_spec [DecidableEq κ] {taken : List (ℤ × List Value)}
    (hkey : ∀ b ∈ taken, T.keyOf b.2 = some b.1) {i : ℕ} {store store' : Store (List Value)}
    (h : insertRows T e i (taken.map Prod.snd) store = .ok store') (a : ℤ × List Value) :
    a ∈ store'.table ↔ a ∈ taken ∨ a ∈ store.table := by
  induction taken generalizing i store with
  | nil =>
    cases h
    simp
  | cons b taken ih =>
    obtain ⟨hb, hkey⟩ := List.forall_mem_cons.mp hkey
    rw [List.map_cons, insertRows] at h
    split_ifs at h with hbusy hfails
    simp only [Store.insert, Store.keyFor, hb, Schema.insertRow] at h
    split_ifs at h with hcheck hfree
    · rw [ih hkey h, List.mem_cons]
      simp only [Table.mem_put]
      constructor
      · rintro (ha | rfl | ha)
        · exact Or.inl (Or.inr ha)
        · exact Or.inl (Or.inl rfl)
        · exact Or.inr ha.1
      · rintro ((rfl | ha) | ha)
        · exact Or.inr (Or.inl rfl)
        · exact Or.inl ha
        · exact Or.inr (Or.inr ⟨ha, key_ne_of_free hfree a ha⟩)
    · cases h
    · cases h

/-- The key is among the values of a row. -/
def Keyed (T : CompressingTable κ) (table : Rows) : Prop :=
  ∀ i, T.integerPrimaryKey = some i → ∀ r ∈ table, r.2.getD i .null = .integer r.1

/-- A value that is never compressed is where it was. -/
theorem getD_of_standsFor (hz : z.Lawful) {row row' : List Value} {logical : ℕ → Value}
    (h : StandsFor z info row logical) (h' : StandsFor z info row' logical) {i : ℕ}
    (hi : ∀ c ∈ info.columns, i ≠ c.typeColumnIndex) (hd : (row.getD i .null).isData = false) :
    row'.getD i .null = row.getD i .null := by
  by_cases hcolumn : ∃ c ∈ info.columns, c.columnIndex = i
  · obtain ⟨c, hc, rfl⟩ := hcolumn
    have hlogical : logical c.columnIndex = row.getD c.columnIndex .null := by
      have hreads := (h.cells c hc).reads hz
      rw [wcdbDecompress_of_not_isData hd] at hreads
      exact (Option.some.inj hreads).symm
    have hcell := h'.cells c hc
    rw [← hlogical] at hd ⊢
    generalize row'.getD c.columnIndex .null = value, row'.getD c.typeColumnIndex .null = type,
      logical c.columnIndex = v at hcell hd ⊢
    cases hcell with
    | plain => rfl
    | raw => rfl
    | @frame compressedType dictId isText data frame hframe hfits hv =>
      rw [hv] at hd
      cases isText <;> cases hd
  · have hother : ∀ c ∈ info.columns, i ≠ c.columnIndex ∧ i ≠ c.typeColumnIndex :=
      fun c hc => ⟨fun heq => hcolumn ⟨c, hc, heq.symm⟩, hi c hc⟩
    rw [h.others i hother, h'.others i hother]

/-- What a batch does to a table. -/
structure Recompressed (z : Zstd) (T : CompressingTable κ) (rowids : List ℤ) (table table' : Rows) :
    Prop where
  rows : ∀ a ∈ table', (a ∈ table ∧ a.1 ∉ rowids) ∨
    ∃ row, (a.1, row) ∈ table ∧ compressRow z T.info row = .ok a.2
  keys : ∀ k, (∃ row, (k, row) ∈ table') ↔ ∃ row, (k, row) ∈ table
  others : ∀ a ∈ table, a.1 ∉ rowids → a ∈ table'

/-- A compressed row brings its rowid. -/
theorem keyOf_of_compressRow (hz : z.Lawful) {table : Rows}
    (hkept : Kept z T.info width original table) (hkeyed : T.Keyed table)
    (hkey : T.integerPrimaryKey ≠ none) {k : ℤ} {row row' : List Value} (hrow : (k, row) ∈ table)
    (hok : compressRow z T.info row = .ok row') :
    T.keyOf row' = some k ∧ ∀ i, T.integerPrimaryKey = some i → row'.getD i .null = .integer k := by
  obtain ⟨i, hi⟩ := Option.ne_none_iff_exists'.mp hkey
  obtain ⟨hstands, -⟩ := compressRow_standsFor hz (hkept _ hrow).1 hok
  have hold := hkeyed i hi _ hrow
  have hnew : row'.getD i .null = .integer k := by
    rw [getD_of_standsFor hz (hkept _ hrow).1 hstands (T.key_apart i hi) (by rw [hold]; rfl), hold]
  refine ⟨by rw [keyOf, hi]; simp only [hnew], fun j hj => ?_⟩
  obtain rfl : i = j := Option.some.inj (hi.symm.trans hj)
  exact hnew

section Batch

variable [DecidableEq κ]

/-- **A batch that is committed**: its rows are compressed and have their rowids, the others are as
they were. -/
theorem doCompressRows_spec (hz : z.Lawful) {rowids : List ℤ} (hnodup : rowids.Nodup)
    {store store' : Store (List Value)} (hkept : Kept z T.info width original store.table)
    (hkeyed : T.Keyed store.table) (hkey : T.integerPrimaryKey ≠ none ∨ rowids = [])
    (h : doCompressRows z T e rowids store = .ok store') :
    Recompressed z T rowids store.table store'.table := by
  rw [doCompressRows] at h
  split at h
  · cases h
  split at h
  · cases h
  next rows table htake =>
  split at h
  · cases h
  next store₁ hinsert =>
  split at h
  case isFalse => cases h
  cases h
  obtain ⟨taken, hrows, htaken⟩ := takeRows_spec hnodup htake
  simp only at hrows
  subst hrows
  have hkeys : ∀ b ∈ taken, T.keyOf b.2 = some b.1 := by
    intro b hb
    obtain ⟨row, hrow, hok⟩ := htaken.rows b hb
    rcases hkey with hkey | rfl
    · exact (keyOf_of_compressRow hz hkept hkeyed hkey hrow hok).1
    · have := (htaken.keys b.1).mp (List.mem_map_of_mem hb)
      cases this.1
  have hmem := insertRows_spec hkeys hinsert
  refine ⟨fun a ha => ?_, fun k => ?_, fun a ha hnot => ?_⟩
  · rcases (hmem a).mp ha with ha | ha
    · exact Or.inr (htaken.rows a ha)
    · exact Or.inl ((htaken.rest a).mp ha)
  · constructor
    · rintro ⟨row, hrow⟩
      rcases (hmem _).mp hrow with hrow | hrow
      · obtain ⟨row', hrow', -⟩ := htaken.rows _ hrow
        exact ⟨row', hrow'⟩
      · exact ⟨row, ((htaken.rest _).mp hrow).1⟩
    · rintro ⟨row, hrow⟩
      by_cases hk : k ∈ rowids
      · obtain ⟨b, hb, rfl⟩ := List.mem_map.mp ((htaken.keys k).mpr ⟨hk, row, hrow⟩)
        exact ⟨b.2, (hmem _).mpr (Or.inl hb)⟩
      · exact ⟨row, (hmem _).mpr (Or.inr ((htaken.rest _).mpr ⟨hrow, hk⟩))⟩
  · exact (hmem a).mpr (Or.inr ((htaken.rest a).mpr ⟨ha, hnot⟩))

end Batch

theorem Recompressed.kept (hz : z.Lawful) {rowids : List ℤ} {table table' : Rows}
    (h : Recompressed z T rowids table table') (hkept : Kept z T.info width original table) :
    Kept z T.info width original table' := by
  intro a ha
  obtain ⟨ha, -⟩ | ⟨row, hrow, hok⟩ := h.rows a ha
  · exact hkept a ha
  · obtain ⟨hstands, hlength⟩ := compressRow_standsFor hz (hkept _ hrow).1 hok
    exact ⟨hstands, hlength.trans (hkept _ hrow).2⟩

theorem Recompressed.keyed (hz : z.Lawful) {rowids : List ℤ} {table table' : Rows}
    (h : Recompressed z T rowids table table') (hkept : Kept z T.info width original table)
    (hkeyed : T.Keyed table) : T.Keyed table' := by
  intro i hi a ha
  obtain ⟨ha, -⟩ | ⟨row, hrow, hok⟩ := h.rows a ha
  · exact hkeyed i hi a ha
  · exact (keyOf_of_compressRow hz hkept hkeyed (by rw [hi]; simp) hrow hok).2 i hi

/-! ### Runs -/

/-- The condition of a call: the table declares its key, or there is nothing to compress. -/
def Safe (T : CompressingTable κ) (s : CompressState) : Prop :=
  T.integerPrimaryKey ≠ none ∨ T.batch s = []

/-- The invariant of a run from the table `start`. A row that is still to be visited is below the
bound and has a null type. -/
structure Invariant (z : Zstd) (T : CompressingTable κ) (original : ℤ → ℕ → Value) (start : Rows)
    (s : CompressState) : Prop where
  kept : Kept z T.info T.width original s.store.table
  keyed : T.Keyed s.store.table
  keys : ∀ k, (∃ row, (k, row) ∈ s.store.table) ↔ ∃ row, (k, row) ∈ start
  pending : ∀ r ∈ start, hasNullType T.info r.2 = true → r.1 ∈ s.visited ∨
    r.1 < s.minCompressedRowid ∧ ∃ row, (r.1, row) ∈ s.store.table ∧ needsCompress T.info row = true

theorem nodup_batch (s : CompressState) : (T.batch s).Nodup :=
  ((Table.keysDesc_pairwise _ _).imp fun h => ne_of_gt h).sublist (List.take_sublist _ _)

/-- A row that a batch leaves out is below all its rows, and the batch is full. -/
theorem lt_of_not_mem_batch {s : CompressState} {k : ℤ} {row : List Value}
    (hrow : (k, row) ∈ s.store.table) (hneeds : needsCompress T.info row = true)
    (hlt : k < s.minCompressedRowid) (hnot : k ∉ T.batch s) :
    compressionBatchCount ≤ (T.batch s).length ∧ ∀ a ∈ T.batch s, k < a := by
  have hdesc := Table.keysDesc_pairwise s.store.table fun r =>
    needsCompress T.info r.2 && decide (r.1 < s.minCompressedRowid)
  have hmem : k ∈ s.store.table.keysDesc fun r =>
      needsCompress T.info r.2 && decide (r.1 < s.minCompressedRowid) :=
    Table.mem_keysDesc.mpr ⟨_, hrow, by simp [hneeds, hlt], rfl⟩
  rw [batch] at hnot ⊢
  generalize (s.store.table.keysDesc fun r =>
    needsCompress T.info r.2 && decide (r.1 < s.minCompressedRowid)) = rowids at *
  rw [← List.take_append_drop compressionBatchCount rowids, List.pairwise_append] at hdesc
  rw [← List.take_append_drop compressionBatchCount rowids, List.mem_append] at hmem
  have hdrop := hmem.resolve_left hnot
  refine ⟨?_, fun a ha => hdesc.2.2 a ha k hdrop⟩
  have hpos := List.length_pos_of_mem hdrop
  rw [List.length_drop] at hpos
  rw [List.length_take]
  omega

section Runs

variable [DecidableEq κ]

/-- What a call can do: nothing, without saying that the table is done, or a batch. -/
theorem compressRows_cases (z : Zstd) (T : CompressingTable κ) (e : CompressEvents)
    (s : CompressState) :
    ((T.compressRows z e s).2 = s ∧ (T.compressRows z e s).1 ≠ some true) ∨
    ∃ store, doCompressRows z T e (T.batch s) s.store = .ok store ∧
      T.compressRows z e s = (some (decide ((T.batch s).length < compressionBatchCount)),
        { store
          minCompressedRowid :=
            if (T.batch s).length < compressionBatchCount then 0 else (T.batch s).getLastD 0
          visited := s.visited ++ T.batch s }) := by
  by_cases hprepares : e.prepares = false ∨
      (T.info.replaceCompression = false ∧ selectsRowIds T.info T.width = false)
  · exact Or.inl (by simp [compressRows, if_pos hprepares])
  by_cases hselects : e.selects = false
  · exact Or.inl (by simp [compressRows, if_pos hselects])
  simp only [compressRows, if_neg hprepares, if_neg hselects]
  cases doCompressRows z T e (T.batch s) s.store with
  | error stop => cases stop <;> simp
  | ok store => exact Or.inr ⟨store, rfl, by simp⟩

/-- **One call.** -/
theorem Invariant.step (hz : z.Lawful) {start : Rows} {s : CompressState}
    (h : Invariant z T original start s) (hsafe : T.Safe s) (e : CompressEvents) :
    Invariant z T original start (T.compressRows z e s).2 ∧
      ((T.compressRows z e s).1 = some true →
        ∀ r ∈ start, hasNullType T.info r.2 = true → r.1 ∈ (T.compressRows z e s).2.visited) := by
  obtain ⟨hsame, hresult⟩ | ⟨store, hstore, hresult⟩ := compressRows_cases z T e s
  · rw [hsame]
    exact ⟨h, fun htrue => absurd htrue hresult⟩
  have hbatch := doCompressRows_spec hz (nodup_batch s) h.kept h.keyed hsafe hstore
  rw [hresult]
  -- a row that the batch leaves out is below the new bound, and the table is not done
  have hpending : ∀ r ∈ start, hasNullType T.info r.2 = true → r.1 ∈ s.visited ++ T.batch s ∨
      ¬(T.batch s).length < compressionBatchCount ∧ r.1 < (T.batch s).getLastD 0 ∧
        ∃ row, (r.1, row) ∈ store.table ∧ needsCompress T.info row = true := by
    intro r hr hnull
    rcases h.pending r hr hnull with hvisited | ⟨hlt, row, hrow, hneeds⟩
    · exact Or.inl (List.mem_append_left _ hvisited)
    by_cases hin : r.1 ∈ T.batch s
    · exact Or.inl (List.mem_append_right _ hin)
    obtain ⟨hfull, hbelow⟩ := lt_of_not_mem_batch hrow hneeds hlt hin
    refine Or.inr ⟨not_lt.mpr hfull, ?_, row, hbatch.others _ hrow hin, hneeds⟩
    refine hbelow _ ?_
    have hne : T.batch s ≠ [] := List.ne_nil_of_length_pos (lt_of_lt_of_le (by decide) hfull)
    rw [List.getLastD_eq_getLast?, List.getLast?_eq_getLast_of_ne_nil hne, Option.getD_some]
    exact List.getLast_mem hne
  refine ⟨⟨hbatch.kept hz h.kept, hbatch.keyed hz h.kept h.keyed,
    fun k => (hbatch.keys k).trans (h.keys k), fun r hr hnull => ?_⟩, fun hfinish r hr hnull => ?_⟩
  · rcases hpending r hr hnull with hvisited | ⟨hfull, hlt, hrow⟩
    · exact Or.inl hvisited
    · exact Or.inr ⟨by rwa [if_neg hfull], hrow⟩
  · rcases hpending r hr hnull with hvisited | ⟨hfull, -⟩
    · exact hvisited
    · exact absurd (by simpa using hfinish) hfull

end Runs

/-- Notes with or without a declared key, in the column after the body and its type. -/
def notes (integerPrimaryKey : Option ℕ) (h : integerPrimaryKey ≠ some 1 := by decide) :
    CompressingTable Unit where
  info := noteTable
  width := 3
  schema := { check := fun _ => true, uniques := [] }
  integerPrimaryKey
  key_apart := by
    rintro i rfl c hc
    obtain rfl := List.mem_singleton.mp hc
    rintro rfl
    exact h rfl

/-- Two notes that are not compressed. -/
def twoNotes : CompressState where
  store := { table := ⟨[(1, [.text [97], .null, .integer 1]), (2, [.text [98], .null, .integer 2])],
    by decide⟩ }

/-- What the two notes stand for. -/
def originalNotes (rowid : ℤ) : ℕ → Value
  | 0 => if rowid = 1 then .text [97] else .text [98]
  | 2 => .integer rowid
  | _ => .null

theorem twoNotes_kept : Kept runLength noteTable 3 originalNotes twoNotes.store.table := by
  intro r hr
  have hrows :
    r = (1, [.text [97], .null, .integer 1]) ∨ r = (2, [.text [98], .null, .integer 2]) := by
    simpa [twoNotes, Table.mem_def] using hr
  rcases hrows with rfl | rfl
  all_goals
    refine ⟨⟨fun c hc => ?_, fun index hindex => ?_⟩, rfl⟩
    · obtain rfl := List.mem_singleton.mp hc
      exact .raw rfl
    · obtain ⟨h₀, h₁⟩ := hindex _ List.mem_cons_self
      match index, h₀, h₁ with
      | 2, _, _ => rfl
      | index + 3, _, _ => rfl

end CompressingTable

end Wcdb
