import Wcdb.Core.UpdateBindings
import Wcdb.Lib.Cursor

/-!
# What a compressing `UPDATE` does to the table

`stepUpdate` runs a compressing `UPDATE` in one of three ways: as it is, with compressed contents
bound; row by row, the contents compressed with the match value of the row; or row by row, with
each written row compressed in a second step. Row by row, it asks the row selection for the next
rowid while the table is being changed.

The **plain** `UPDATE` is the one on the table whose contents are not compressed. `UpdatesOnce` says
that the step does to the decompressed content what the plain `UPDATE` does, and
`updatesOnce_of_undisturbed` that it does so if

* the bindings meet the condition of `Wcdb.Core.UpdateBindings`;
* the clauses of the row selection mean the same without the alias and the common table
  expressions of the `UPDATE`, which it does not get;
* the cursor delivers the selected rows one after the other, and no subquery of the `SET` list
  changes its value meanwhile;
* the second step finds its columns and their dictionaries.
-/

namespace Wcdb.CompressingUpdate

open Sql UpdateBindings

variable {α κ ι : Type}

/-! ### Rows -/

/-- A row of the uncompressed table: the contents of the compressing columns, by their names, and
all other columns. -/
structure Logical (α : Type) where
  contents : String → Value
  others : α

/-- A row as it is stored: content and type of each compressing column. -/
structure Stored (α : Type) where
  cells : String → Value × Value
  others : α

variable (z : Zstd)

/-- The row as `wcdb_decompress` reads it. -/
def Stored.logical (r : Stored α) : Logical α where
  contents c := (wcdbDecompress z (r.cells c).1 (r.cells c).2).getD .null
  others := r.others

/-- The decompressed table. -/
def decompressed (t : Table (Stored α)) : Table (Logical α) := t.map (Stored.logical z)

/-- Write some cells. -/
def writeCells (writes : List (String × Value × Value)) (cells : String → Value × Value) :
    String → Value × Value :=
  fun c => (writes.lookup c).getD (cells c)

/-- Assign some contents. -/
def assign (names : List String) (value contents : String → Value) : String → Value :=
  fun c => if c ∈ names then value c else contents c

/-! ### The statement -/

/-- What the clauses of a statement refer to: the alias of its table and its common table
expressions. -/
structure Scope where
  tableAlias : Option String := none
  commonTableExpressions : List String := []
  deriving DecidableEq, Repr

/-- The clauses that the row selection takes, the index by which the rows are scanned, and whether
the rows are sorted for `ORDER BY` (the scan, of the rowids for one, may have that order). -/
structure Clauses (α ι : Type) where
  condition : Multiset (ℤ × Logical α) → Multiset (ℤ × Logical α) → ℤ × Logical α → Bool
  orderBy : Option (ℤ × Logical α → ℤ × Logical α → Bool) := none
  limit : Option ℕ := none
  rank : ℤ × Logical α → ι
  sorter : Bool := true

/-- The row selection, as a statement that changes nothing. -/
def Clauses.select (c : Clauses α ι) : UpdateOrDelete (Logical α) ι where
  condition := c.condition
  orderBy := c.orderBy
  limit := c.limit
  rank := c.rank
  action := .set fun _ _ r => r

/-- What an `UPDATE` means when its parameters hold `b`. Its clauses are `none` where one of their
names denotes nothing. A `SET` list reads the content at the start of the statement, the current
content and the row; `set` is what becomes of the rowid and of the columns that are not compressed,
and `value` is assigned to a compressing column. -/
structure Meaning (u : Update) (α ι : Type) where
  scope : Scope
  clauses : (ℕ → Bound) → Scope → Option (Clauses α ι)
  set : (ℕ → Bound) → Multiset (ℤ × Logical α) → Multiset (ℤ × Logical α) → ℤ × Logical α → ℤ × α
  value : (ℕ → Bound) → String → Multiset (ℤ × Logical α) → Multiset (ℤ × Logical α) →
    ℤ × Logical α → Value
  /-- The value of a column that is not compressed. -/
  column : String → α → Value
  valid : ∀ b, (clauses b scope).isSome = true
  clauses_congr :
    ∀ b b' names, (∀ k ∈ u.stmt.moved, b k = b' k) → clauses b names = clauses b' names
  set_congr : ∀ b b', (∀ k ∈ u.plainParameters, b k = b' k) → set b = set b'
  value_congr : ∀ b b', (∀ k ∈ u.plainParameters, b k = b' k) →
    (∀ info ∈ u.main.infos, b info.columnBindIndex = b' info.columnBindIndex) → value b = value b'
  value_parameter : ∀ b, ∀ info ∈ u.main.infos, ∀ v, b info.columnBindIndex = .value v →
    value b info.columnInfo.column = fun _ _ _ => v

/-- The compressing columns that an `UPDATE` sets. -/
def assigned (u : Update) : List CompressionColumnInfo :=
  u.main.infos.map BindInfo.columnInfo ++ u.main.targets.map Target.columnInfo

/-- Their names. -/
def assignedNames (u : Update) : List String := (assigned u).map CompressionColumnInfo.column

section Statement

variable {u : Update} (m : Meaning u α ι)

/-- The `SET` list on the uncompressed table. -/
def setLogical (b : ℕ → Bound) (start current : Multiset (ℤ × Logical α)) (r : ℤ × Logical α) :
    ℤ × Logical α :=
  ((m.set b start current r).1,
    { contents := assign (assignedNames u) (fun c => m.value b c start current r) r.2.contents
      others := (m.set b start current r).2 })

/-- The `UPDATE` with some clauses, on the uncompressed table. -/
def plainStatement (b : ℕ → Bound) (c : Clauses α ι) : UpdateOrDelete (Logical α) ι :=
  { c.select with action := .set (setLogical m b) }

variable [DecidableEq κ] [LinearOrder ι] (S : Schema α κ)

/-- **The plain `UPDATE`.** Its constraints do not read the compressing columns. -/
def plainUpdate (b : ℕ → Bound) (t : Table (Logical α)) : Option (Table (Logical α)) :=
  (m.clauses b m.scope).bind fun c =>
    (S.comap Logical.others).updateOrDelete (plainStatement m b c) t

/-! ### The main statement -/

/-- The content read through `wcdb_decompress`. -/
def decompressedContent (content : Multiset (ℤ × Stored α)) : Multiset (ℤ × Logical α) :=
  content.map (Prod.map id (Stored.logical z))

/-- The cells that the main statement writes. -/
def writes (b : ℕ → Bound) (s : BindState) (start current : Multiset (ℤ × Logical α))
    (r : ℤ × Logical α) : List (String × Value × Value) :=
  if u.main.mode = .twoStep then
    u.main.targets.map fun target =>
      (target.columnInfo.column, m.value b target.columnInfo.column start current r, .null)
  else
    u.main.infos.map fun info =>
      (info.columnInfo.column, s.params info.columnBindIndex, s.params info.typeBindIndex)

/-- The `SET` list of the main statement. -/
def setStored (pointers : ℕ → Option ℕ) (s : BindState) (start current : Multiset (ℤ × Stored α))
    (r : ℤ × Stored α) : ℤ × Stored α :=
  let start := decompressedContent z start
  let current := decompressedContent z current
  let logical := Prod.map id (Stored.logical z) r
  let b := held pointers s
  ((m.set b start current logical).1,
    { cells := writeCells (writes m b s start current logical) r.2.cells
      others := (m.set b start current logical).2 })

/-- The main statement for one rowid, and whether it changed a row. -/
def updateRowid (pointers : ℕ → Option ℕ) (s : BindState) (t : Table (Stored α)) (rowid : ℤ) :
    Option (Table (Stored α) × Bool) :=
  match t.find rowid with
  | none => some (t, false)
  | some r =>
      ((S.comap Stored.others).updateRow t r (setStored z m pointers s t.content t.content r)).map
        fun t => (t, true)

/-- What `stepSelectAndUpdateUncompressRowStatement` selects of a row. -/
def rowEntries (columns : List CompressionColumnInfo) (r : Stored α) : List RowEntry :=
  columns.map fun info =>
    { info
      content := (r.cells info.column).1
      type := (r.cells info.column).2
      matchValue := m.column info.matchColumn r.others }

/-- `stepSelectAndUpdateUncompressRowStatement`. -/
def compressRow (t : Table (Stored α)) (rowid : ℤ) : Option (Table (Stored α)) :=
  match t.find rowid with
  | none => some t
  | some r =>
      let columns := u.main.targets.map Target.columnInfo
      (stepSelectAndUpdateUncompressRow z (rowEntries m columns r.2)).map fun cells =>
        t.put (rowid, { r.2 with
          cells := writeCells ((columns.map CompressionColumnInfo.column).zip cells) r.2.cells })

/-- The match values that are selected with a rowid. -/
def matchValues (r : Logical α) (i : ℕ) : Value :=
  match u.main.infos[i]? with
  | some info => m.column info.columnInfo.matchColumn r.others
  | none => .null

/-- A pass of the loop in `stepUpdate`. -/
def stepPass (pointers : ℕ → Option ℕ) (can : Bool) (s : BindState × Table (Stored α))
    (r : ℤ × Logical α) : Option (BindState × Table (Stored α)) :=
  let bound := stepRow z u can (r.1, matchValues m r.2) s.1
  match updateRowid z m S pointers bound s.2 r.1 with
  | none => none
  | some (t, changed) =>
      if u.main.mode = .twoStep ∧ changed = true
        then (compressRow z m t r.1).map fun t => (bound, t)
      else some (bound, t)

/-- `step()`, in a transaction: the table is left when it returns `false`. `none` when `fuel` does
not suffice. A row selection whose clauses do not compile has made `prepare` fail. -/
def step (σ : State) (can : Bool) (fuel : ℕ) (t : Table (Stored α)) :
    Option (Bool × Table (Stored α)) :=
  if σ.main.compressFail then some (false, t)
  else if u.selects then
    match m.clauses σ.rowSelection {} with
    | none => some (false, t)
    | some c =>
        (c.select.loop (fun s => decompressed z s.2) (stepPass z m S σ.mainPointers can)
          (decompressed z t).content fuel (σ.main,
            t) (c.select.openScan c.sorter (decompressed z t))).map
          fun out =>
            match out with
            | none => (false, t)
            | some s => (true, s.2)
  else
    match m.clauses (held σ.mainPointers σ.main) m.scope with
    | none => some (false, t)
    | some c =>
        match (S.comap Stored.others).updateOrDelete
          (c.select.comap (Stored.logical z) (.set (setStored z m σ.mainPointers σ.main))) t with
        | none => some (false, t)
        | some t' => some (true, t')

/-! ### The property -/

/-- **With enough fuel, a step fails exactly if the plain `UPDATE` fails, and leaves the content as
it is; and otherwise it leaves the decompressed content that the plain `UPDATE` leaves.** -/
def UpdatesOnce (σ : State) (can : Bool) (t : Table (Stored α)) : Prop :=
  ∃ n, ∀ fuel, n ≤ fuel →
    match plainUpdate m S σ.last (decompressed z t) with
    | none => step z m S σ can fuel t = some (false, t)
    | some one => ∃ t', step z m S σ can fuel t = some (true, t') ∧ decompressed z t' = one

/-! ### The condition -/

/-- The second step can compress what it finds in a column, and the result can be read. -/
def EntrySound (e : RowEntry) : Prop :=
  e.Pending →
    let d := secondDictionary e.info e.matchValue
    (encodeCell z true d.1 d.2 e.content.isText e.content.blobValue).isSome = true ∧
      (Stays z true d.1 d.2 e.content ∨ DictFits d.1 d.2)

/-- What the second step finds in a row that was just written. -/
def writtenEntries (r : Logical α) : List RowEntry :=
  (u.main.targets.map Target.columnInfo).map fun info =>
    { info
      content := r.contents info.column
      type := .null
      matchValue := m.column info.matchColumn r.others }

/-- When the cursor delivers a row, it is the one that was selected, the `SET` list has the values
that it has in the plain `UPDATE`, and unless the row moves away the second step compresses it. -/
def RowSound (b : ℕ → Bound) (start : Multiset (ℤ × Logical α)) (t : Table (Logical α))
    (r : ℤ × Logical α) : Prop :=
  r ∈ t ∧ setLogical m b t.content t.content r = setLogical m b start t.content r ∧
    let new := setLogical m b start t.content r
    new.1 = r.1 → RowEntry.InStep (writtenEntries m new.2) ∧
      ∀ e ∈ writtenEntries m new.2, EntrySound z e

/-- The rows that the step selects, with their match values. -/
def selectedRows (b : ℕ → Bound) (t : Table (Logical α)) : List (ℤ × (ℕ → Value)) :=
  match m.clauses b m.scope with
  | none => []
  | some c => (c.select.selected t).map fun r => (r.1, matchValues m r.2)

/-- **The condition** on the statement and the table: where there is a row selection, its clauses
mean what they mean in the `UPDATE`, and its cursor is not disturbed. -/
def Undisturbed (b : ℕ → Bound) (t : Table (Logical α)) : Prop :=
  u.selects = true → m.clauses b {} = m.clauses b m.scope ∧
    ∀ c, m.clauses b m.scope = some c →
      (plainStatement m b c).Undisturbed (S.comap Logical.others) (RowSound z m b t.content)
        t.content (c.select.selected t) t (c.select.openScan c.sorter t)

end Statement

/-! ### One row -/

section Row

variable {z}

/-- A value without a type. -/
theorem wcdbDecompress_null (v : Value) : wcdbDecompress z v .null = some v := by
  cases v with
  | blob data => simp [wcdbDecompress, Value.intValue]
  | null | integer _ | float _ | text _ => rfl

/-- Cells that are written read as what was assigned. -/
theorem logical_writeCells {writes : List (String × Value × Value)} (value : String → Value)
    (hreads : ∀ e ∈ writes, wcdbDecompress z e.2.1 e.2.2 = some (value e.1))
    (cells : String → Value × Value) (others others' : α) :
    Stored.logical z { cells := writeCells writes cells, others := others } =
      { contents := assign (writes.map Prod.fst) value
          (Stored.logical z { cells := cells, others := others' }).contents
        others := others } := by
  refine congrArg (fun contents => Logical.mk contents others) (funext fun c => ?_)
  change (wcdbDecompress z (writeCells writes cells c).1 (writeCells writes cells c).2).getD .null =
    _
  rw [writeCells, assign]
  cases hlookup : writes.lookup c with
  | none =>
    have hc : c ∉ writes.map Prod.fst := by
      intro hc
      obtain ⟨e, he, rfl⟩ := List.mem_map.mp hc
      have := List.lookup_eq_none_iff.mp hlookup e he
      simp at this
    rw [if_neg hc]
    rfl
  | some cell =>
    obtain ⟨before, after, rfl, -⟩ := List.lookup_eq_some_iff.mp hlookup
    have hmem : (c, cell) ∈ before ++ (c, cell) :: after := by simp
    rw [if_pos (List.mem_map.mpr ⟨_, hmem, rfl⟩)]
    simp only [Option.getD_some, hreads _ hmem]

variable {u : Update} {m : Meaning u α ι} {pointers : ℕ → Option ℕ} {s : BindState}
  {last : ℕ → Bound}

/-- **The `SET` list of the main statement reads as that of the plain `UPDATE`**, where its
parameters hold what was bound last. -/
theorem logical_setStored (hp : u.main.Prepared)
    (hparams : ∀ k ∈ u.plainParameters, held pointers s k = last k)
    (hcells : ∀ (i : ℕ) (info : BindInfo), u.main.infos[i]? = some info →
      CellHolds z u i info s last)
    (start current : Multiset (ℤ × Stored α)) (r : ℤ × Stored α) :
    Prod.map id (Stored.logical z) (setStored z m pointers s start current r) =
      setLogical m last (decompressedContent z start) (decompressedContent z current)
        (Prod.map id (Stored.logical z) r) := by
  have hset : m.set (held pointers s) = m.set last := m.set_congr _ _ hparams
  have hwrites : ∀ e ∈ writes m (held pointers s) s (decompressedContent z start)
      (decompressedContent z current) (Prod.map id (Stored.logical z) r),
      wcdbDecompress z e.2.1 e.2.2 = some (m.value last e.1 (decompressedContent z start)
        (decompressedContent z current) (Prod.map id (Stored.logical z) r)) := by
    intro e he
    rw [writes] at he
    split_ifs at he with hmode
    · obtain ⟨target, -, rfl⟩ := List.mem_map.mp he
      have hvalue : m.value (held pointers s) = m.value last := by
        refine m.value_congr _ _ hparams ?_
        rw [hp.infos_of_twoStep hmode]
        exact fun _ h => absurd h List.not_mem_nil
      rw [wcdbDecompress_null, hvalue]
    · obtain ⟨info, hinfo, rfl⟩ := List.mem_map.mp he
      obtain ⟨i, hi⟩ := List.mem_iff_getElem?.mp hinfo
      obtain ⟨v, hlast, hreads, -⟩ := hcells i info hi
      rw [m.value_parameter last info hinfo v hlast]
      exact hreads
  have hnames : (writes m (held pointers s) s (decompressedContent z start)
      (decompressedContent z current) (Prod.map id (Stored.logical z) r)).map Prod.fst =
      assignedNames u := by
    rw [writes, assignedNames, assigned]
    split_ifs with hmode
    · simp [hp.infos_of_twoStep hmode, Function.comp_def]
    · simp [hp.targets_of_ne hmode, Function.comp_def]
  obtain ⟨k, r⟩ := r
  rw [setStored, setLogical, ← hset, Prod.map_apply]
  simp only [id_eq]
  rw [logical_writeCells (fun c => m.value last c (decompressedContent z start)
    (decompressedContent z current) (Prod.map id (Stored.logical z) (k, r))) hwrites r.cells _
    r.others, hnames]
  rfl

/-! #### The second step -/

/-- A column that is compressed under the condition reads as before. -/
theorem reads_of_compressEntry (hz : z.Lawful) {e : RowEntry} (he : EntrySound z e)
    (htype : e.type = .null) {cell : Value × Value} (h : compressEntry z e = some cell) :
    wcdbDecompress z cell.1 cell.2 = some e.content := by
  rw [compressEntry] at h
  split_ifs at h with hpending
  · have hrestored := Value.restored_of_isData hpending.1
    obtain ⟨-, hstays | hfits⟩ := he hpending
    · have hreads := reads_of_stays hstays h .null
      rwa [hrestored] at hreads
    · have hreads := reads_of_encodeCell hz hfits h .null
      rwa [hrestored] at hreads
  · cases h
    refine wcdbDecompress_of_not_isData (Bool.eq_false_iff.mpr fun hd => ?_) _
    exact hpending ⟨hd, htype⟩

theorem isSome_compressEntry {e : RowEntry} (he : EntrySound z e) :
    (compressEntry z e).isSome = true := by
  rw [compressEntry]
  split_ifs with hpending
  · exact (he hpending).1
  · rfl

/-- A loop of which no step fails does not fail. -/
theorem isSome_mapM {β γ : Type} {f : β → Option γ} {l : List β}
    (h : ∀ e ∈ l, (f e).isSome = true) :
    (l.mapM f).isSome = true := by
  induction l with
  | nil => rfl
  | cons e l ih =>
    obtain ⟨b, hb⟩ := Option.isSome_iff_exists.mp (h e List.mem_cons_self)
    obtain ⟨bs, hbs⟩ :=
      Option.isSome_iff_exists.mp (ih fun e' he' => h e' (List.mem_cons_of_mem _ he'))
    rw [List.mapM_cons, hb, hbs]
    rfl

/-- What is selected of a row that was just written. -/
theorem rowEntries_eq {r : Stored α} (htype : ∀ target ∈ u.main.targets,
      (r.cells target.columnInfo.column).2 = .null) :
    rowEntries m (u.main.targets.map Target.columnInfo) r = writtenEntries m (r.logical z) := by
  rw [rowEntries, writtenEntries]
  refine List.map_congr_left fun info hinfo => ?_
  obtain ⟨target, htarget, rfl⟩ := List.mem_map.mp hinfo
  have hnull := htype target htarget
  simp [Stored.logical, hnull, wcdbDecompress_null]

/-- **The second step leaves the decompressed table.** -/
theorem decompressed_compressRow (hz : z.Lawful) {t : Table (Stored α)} {k : ℤ} {r : Stored α}
    (hfind : t.find k = some (k, r)) (htype : ∀ target ∈ u.main.targets,
      (r.cells target.columnInfo.column).2 = .null)
    (hstep : RowEntry.InStep (writtenEntries m (r.logical z)))
    (hsound : ∀ e ∈ writtenEntries m (r.logical z), EntrySound z e) :
    ∃ t', compressRow z m t k = some t' ∧ decompressed z t' = decompressed z t := by
  have hentries := rowEntries_eq (z := z) (m := m) htype
  have heq : stepSelectAndUpdateUncompressRow z
    (rowEntries m (u.main.targets.map Target.columnInfo) r) =
      (writtenEntries m (r.logical z)).mapM (compressEntry z) := by
    rw [hentries, stepSelectAndUpdateUncompressRow_eq hstep]
  obtain ⟨cells, hcells⟩ := Option.isSome_iff_exists.mp
    (isSome_mapM fun e he => isSome_compressEntry (hsound e he))
  have hrow : compressRow z m t k = some (t.put (k,
      { cells := writeCells (((u.main.targets.map Target.columnInfo).map
          CompressionColumnInfo.column).zip cells) r.cells
        others := r.others })) := by
    rw [compressRow, hfind]
    simp only [heq, hcells, Option.map_some]
  refine ⟨_, hrow, ?_⟩
  refine Table.map_put_of_eq (Table.find_eq_some.mp hfind).1 ?_
  -- every cell that is written reads as the content that it had
  have hreads : ∀ e ∈ ((u.main.targets.map Target.columnInfo).map CompressionColumnInfo.column).zip
      cells, wcdbDecompress z e.2.1 e.2.2 = some ((r.logical z).contents e.1) := by
    intro e he
    obtain ⟨i, hi⟩ := List.mem_iff_getElem?.mp he
    obtain ⟨hname, hcell⟩ := List.getElem?_zip_eq_some.mp hi
    rw [List.getElem?_map, Option.map_eq_some_iff] at hname
    obtain ⟨info, hinfo, hname⟩ := hname
    have hentry : (writtenEntries m (r.logical z))[i]? = some
        { info, content := (r.logical z).contents info.column, type := .null,
          matchValue := m.column info.matchColumn (r.logical z).others } := by
      rw [writtenEntries, List.getElem?_map, hinfo, Option.map_some]
    obtain ⟨cell, hcell', hcompress⟩ := getElem?_of_mapM hcells hentry
    rw [hcell, Option.some.injEq] at hcell'
    rw [hcell', ← hname]
    exact reads_of_compressEntry hz (hsound _ (List.mem_of_getElem? hentry)) rfl hcompress
  rw [logical_writeCells _ hreads r.cells _ r.others]
  refine congrArg (fun contents => Logical.mk contents r.others) (funext fun c => ?_)
  rw [assign]
  split_ifs <;> rfl

/-- The type columns of a row that was just written. -/
theorem type_setStored (hmode : u.main.mode = .twoStep) (start current : Multiset (ℤ × Stored α))
    (r : ℤ × Stored α) {target : Target} (htarget : target ∈ u.main.targets) :
    ((setStored z m pointers s start current r).2.cells target.columnInfo.column).2 = .null := by
  simp only [setStored, writeCells, writes, hmode, if_true]
  generalize hlist : u.main.targets.map _ = list
  cases hlookup : list.lookup target.columnInfo.column with
  | none =>
    subst hlist
    have hne := List.lookup_eq_none_iff.mp hlookup _ (List.mem_map_of_mem htarget)
    simp at hne
  | some cell =>
    obtain ⟨before, after, hsplit, -⟩ := List.lookup_eq_some_iff.mp hlookup
    have hmem : (target.columnInfo.column, cell) ∈ list := by simp [hsplit]
    rw [← hlist] at hmem
    obtain ⟨target', -, heq⟩ := List.mem_map.mp hmem
    rw [Option.getD_some, ← (Prod.mk.inj heq).2]

/-! #### A pass of the loop -/

variable [DecidableEq κ] {S : Schema α κ} {can : Bool} {t : Table (Stored α)}

/-- The constraints see the columns that are not compressed. -/
theorem updateRow_logical (t : Table (Stored α)) (old new : ℤ × Stored α) :
    ((S.comap Stored.others).updateRow t old new).map (decompressed z) =
      (S.comap Logical.others).updateRow (decompressed z t) (Prod.map id (Stored.logical z) old)
        (Prod.map id (Stored.logical z) new) := by
  have hschema : S.comap Stored.others = (S.comap Logical.others).comap (Stored.logical z) :=
    (Schema.comap_comap S Logical.others (Stored.logical z)).symm
  rw [hschema]
  exact updateRow_comap t old new

theorem eq_put_of_updateRow {ρ : Type} {S : Schema ρ κ} {t t' : Table ρ} {old new : ℤ × ρ}
    (h : S.updateRow t old new = some t') : t' = (t.erase old.1).put new := by
  rw [Schema.updateRow] at h
  split_ifs at h
  exact (Option.some.inj h).symm

/-- **A pass of the loop does to the decompressed table what the plain `UPDATE` does to the
row.** -/
theorem stepPass_refines (hz : z.Lawful) {start : Multiset (ℤ × Logical α)} {r : ℤ × Logical α}
    {bound : BindState} (hbound : stepRow z u can (r.1, matchValues m r.2) s = bound)
    (hrow : RowSound z m last start (decompressed z t) r)
    (hset : ∀ start current r, Prod.map id (Stored.logical z)
      (setStored z m pointers bound start current r) =
        setLogical m last (decompressedContent z start) (decompressedContent z current)
          (Prod.map id (Stored.logical z) r)) :
    Option.Rel (fun s' one => decompressed z s'.2 = one ∧ s'.1 = bound)
      (stepPass z m S pointers can (s, t) r)
      ((S.comap Logical.others).updateRow (decompressed z t) r
        (setLogical m last start (decompressed z t).content r)) := by
  obtain ⟨hmem, hsame, hcompress⟩ := hrow
  obtain ⟨⟨k, stored⟩, hstored, rfl⟩ := Table.mem_map.mp hmem
  have hfind : t.find k = some (k, stored) := Table.find_eq_some.mpr ⟨hstored, rfl⟩
  have hnew : Prod.map id (Stored.logical z)
      (setStored z m pointers bound t.content t.content (k, stored)) =
      setLogical m last start (decompressed z t).content
        (Prod.map id (Stored.logical z) (k, stored)) :=
    (hset t.content t.content (k, stored)).trans hsame
  have hupdate := updateRow_logical (z := z) (S := S) t (k, stored)
    (setStored z m pointers bound t.content t.content (k, stored))
  rw [hnew] at hupdate
  rw [← hupdate]
  have hpass : stepPass z m S pointers can (s, t) (Prod.map id (Stored.logical z) (k, stored)) =
      ((S.comap Stored.others).updateRow t (k, stored)
        (setStored z m pointers bound t.content t.content (k, stored))).bind fun t' =>
          if u.main.mode = .twoStep then (compressRow z m t' k).map fun t' => (bound, t')
          else some (bound, t') := by
    simp only [stepPass, updateRowid, hbound]
    simp only [Prod.map_apply, id_eq, hfind]
    cases (S.comap Stored.others).updateRow t (k, stored)
      (setStored z m pointers bound t.content t.content (k, stored)) with
    | none => rfl
    | some t' => simp
  rw [hpass]
  cases hu : (S.comap Stored.others).updateRow t (k, stored)
      (setStored z m pointers bound t.content t.content (k, stored)) with
  | none => exact .none
  | some t' =>
    simp only [Option.map_some, Option.bind_some]
    split_ifs with hmode
    · have ht' := eq_put_of_updateRow hu
      generalize hnew' :
        setStored z m pointers bound t.content t.content (k, stored) = new at hnew ht'
      obtain ⟨k', written⟩ := new
      by_cases hk : k' = k
      · -- the row stands where it stood, and is compressed there
        subst hk
        have hfind' : t'.find k' = some (k', written) := by
          refine Table.find_eq_some.mpr ⟨?_, rfl⟩
          rw [ht']
          exact Table.mem_put.mpr (Or.inl rfl)
        have hlogical := congrArg Prod.snd hnew
        obtain ⟨hstep, hsound⟩ := hcompress (congrArg Prod.fst hnew).symm
        rw [← hlogical] at hstep hsound
        obtain ⟨t'', hrow, hdecompressed⟩ := decompressed_compressRow hz hfind'
          (fun target htarget => by
            have htype : ((setStored z m pointers bound t.content t.content (k', stored)).2.cells
                target.columnInfo.column).2 = .null :=
              type_setStored hmode t.content t.content (k', stored) htarget
            rwa [hnew'] at htype) hstep hsound
        rw [hrow]
        exact .some ⟨hdecompressed, rfl⟩
      · -- the row has moved away
        have hfind' : t'.find k = none := by
          refine Table.find_eq_none.mpr fun a ha => ?_
          rw [ht', Table.mem_put] at ha
          rcases ha with rfl | ⟨ha, -⟩
          · exact hk
          · exact (Table.mem_erase.mp ha).2
        rw [compressRow, hfind']
        exact .some ⟨rfl, rfl⟩
    · exact .some ⟨rfl, rfl⟩

end Row

/-! ### The step -/

section Main

variable [DecidableEq κ] [LinearOrder ι] {u : Update} {m : Meaning u α ι} {S : Schema α κ}
  {σ : State} {can : Bool} {t : Table (Stored α)}

variable {z}

/-- Row by row. -/
theorem loop_refines_plain (hz : z.Lawful) (hs : u.main.Separate) (hselects : u.selects = true)
    (hinv : Inv z u σ) (hfail : σ.main.compressFail = false) {c : Clauses α ι}
    (hok : (UpdateBindings.Call.step can ((c.select.selected (decompressed z t)).map fun r =>
      (r.1, matchValues m r.2))).Sound z u σ)
    (hrows : (plainStatement m σ.last c).Undisturbed (S.comap Logical.others)
      (RowSound z m σ.last (decompressed z t).content) (decompressed z t).content
      (c.select.selected (decompressed z t)) (decompressed z t)
      (c.select.openScan c.sorter (decompressed z t))) {fuel : ℕ}
    (hfuel : (c.select.selected (decompressed z t)).length < fuel) :
    let loop := c.select.loop (fun s => decompressed z s.2) (stepPass z m S σ.mainPointers can)
      (decompressed z t).content fuel (σ.main, t) (c.select.openScan c.sorter (decompressed z t))
    ∃ out, loop = some out ∧ Option.Rel (fun s one => decompressed z s.2 = one) out
      ((S.comap Logical.others).updateOrDelete (plainStatement m σ.last c) (decompressed z t)) := by
  intro loop
  have hp := Statement.prepared_of_prepare u.prepared
  have hbody : ∀ s : BindState × Table (Stored α), ∀ r ∈ c.select.selected (decompressed z t),
      Ready z u σ s.1 → RowSound z m σ.last (decompressed z t).content (decompressed z s.2) r →
      Option.Rel (fun s' one => decompressed z s'.2 = one ∧ Ready z u σ s'.1)
        (stepPass z m S σ.mainPointers can s r)
        ((plainStatement m σ.last c).action.apply (S.comap Logical.others)
          (decompressed z t).content (decompressed z s.2).content (decompressed z s.2) r) := by
    rintro ⟨s, current⟩ r hr hready hrow
    have hsound : ∀ (i : ℕ) (info : BindInfo), u.main.infos[i]? = some info → σ.missed i = false ∧
        SelectedSound z u σ can ((c.select.selected (decompressed z t)).map fun r =>
          (r.1, matchValues m r.2)) i info := by
      rcases hok with hfailed | ⟨-, hnil⟩ | hok
      · rw [hfail] at hfailed
        exact nomatch hfailed
      · rw [List.map_eq_nil_iff.mp hnil] at hr
        exact absurd hr List.not_mem_nil
      · exact hok
    have hnext : Ready z u σ (stepRow z u can (r.1, matchValues m r.2) s) :=
      hready.row_ready hp hs hselects
    have hcells : ∀ (i : ℕ) (info : BindInfo), u.main.infos[i]? = some info →
        CellHolds z u i info (stepRow z u can (r.1, matchValues m r.2) s) σ.last := fun i info hi =>
      hready.cells_row hz hp hs hselects hsound (List.mem_map_of_mem hr) hi
    have hpass := stepPass_refines (S := S) hz rfl hrow
      (logical_setStored hp (hnext.held_eq hs hinv.pointers hcells) hcells)
    exact rel_of_imp (fun s' one h => ⟨h.1, h.2 ▸ hnext⟩) hpass
  have hloop := UpdateOrDelete.loop_refines (fun s => decompressed z s.2)
    (stepPass z m S σ.mainPointers can) (RowSound z m σ.last (decompressed z t).content)
    (fun s => Ready z u σ s.1) hbody hfuel (s := (σ.main, t)) (hinv.ready hfail) hrows
  obtain ⟨out, hloop, hout⟩ := hloop
  have hselect : loop = (plainStatement m σ.last c).loop (fun s => decompressed z s.2)
      (stepPass z m S σ.mainPointers can) (decompressed z t).content fuel (σ.main, t)
      (c.select.openScan c.sorter (decompressed z t)) := by
    refine UpdateOrDelete.loop_congr (funext fun start => funext fun t => funext fun scan => ?_) ..
    cases scan with
    | sorted rows => cases rows <;> rfl
    | index last left => rfl
  exact ⟨out, hselect.trans hloop, rel_of_imp (fun _ _ h => h.1) hout⟩

/-- In one statement. -/
theorem direct_refines_plain (hs : u.main.Separate) (hinv : Inv z u σ)
    (hfail : σ.main.compressFail = false) (hcells : ∀ (i : ℕ) (info : BindInfo),
      u.main.infos[i]? = some info → CellHolds z u i info σ.main σ.last) (c : Clauses α ι) :
    ((S.comap Stored.others).updateOrDelete
      (c.select.comap (Stored.logical z) (.set (setStored z m σ.mainPointers σ.main))) t).map
        (decompressed z) =
      (S.comap Logical.others).updateOrDelete (plainStatement m σ.last c) (decompressed z t) := by
  have hp := Statement.prepared_of_prepare u.prepared
  have hschema : S.comap Stored.others = (S.comap Logical.others).comap (Stored.logical z) :=
    (Schema.comap_comap S Logical.others (Stored.logical z)).symm
  have hset :=
    logical_setStored (m := m) hp ((hinv.ready hfail).held_eq hs hinv.pointers hcells) hcells
  rw [hschema]
  exact updateOrDelete_map (plainStatement m σ.last c) rfl t fun current r =>
    hset t.content current r

end Main

/-! ### Two statements -/

/-- `UPDATE message SET content = ?1 WHERE id = ?2`. The rows are kept with their types. -/
def setContentMeaning : Meaning setContent Value ℕ where
  scope := {}
  clauses b _ := some
    { condition := fun _ _ r => decide (b 2 = .value (.integer r.1))
      rank := fun _ => 0 }
  set _ _ _ r := (r.1, r.2.others)
  value b _ _ _ _ :=
    match b 1 with
    | .value v => v
    | .pointer _ => .null
  column _ type := type
  valid _ := rfl
  clauses_congr b b' names h := by rw [h 2 (by decide)]
  set_congr _ _ _ := rfl
  value_congr b b' _ h := by
    have hcontent : b 1 = b' 1 := h _ (List.mem_singleton_self _)
    rw [hcontent]
  value_parameter b info hinfo v h := by
    cases List.mem_singleton.mp hinfo
    funext start current r
    have hcontent : b 1 = .value v := h
    simp only [hcontent]

/-- The message 7 of type 7. -/
def oneMessage : Table (Stored Value) := ⟨[(7, ⟨fun _ => (.null, .null), .integer 7⟩)], by simp⟩

/-- No constraint fails. -/
def unconstrained : Schema Value ℕ := ⟨fun _ => true, []⟩

theorem selected_setContent {b : ℕ → Bound} (hb : b 2 = .value (.integer 7)) {c : Clauses Value ℕ}
    (hc : setContentMeaning.clauses b {} = some c) :
    c.select.selected (decompressed runLength oneMessage) =
      [(7, ⟨fun _ => .null, .integer 7⟩)] := by
  cases hc
  exact selected_singleton rfl rfl rfl (decide_eq_true hb)

/-- `UPDATE message AS m SET content = NULL WHERE m.talker = ?1 AND m.sender = ?2`. -/
def dropContentMeaning : Meaning dropContent Value ℕ where
  scope := { tableAlias := some "m" }
  clauses _ names :=
    if names.tableAlias = some "m" then
      some { condition := fun _ _ _ => true, rank := fun _ => 0 }
    else none
  set _ _ _ r := (r.1, r.2.others)
  value _ _ _ _ _ := .null
  column _ type := type
  valid _ := rfl
  clauses_congr _ _ _ _ := rfl
  set_congr _ _ _ := rfl
  value_congr _ _ _ _ := rfl
  value_parameter _ _ hinfo _ _ := absurd hinfo List.not_mem_nil

/-- `UPDATE message SET content = NULL, id = id + 3 WHERE id < 5`. -/
def moveContent : Update where
  stmt :=
    { columnsList := [["content"], ["id"]]
      expressions := [.item .other, .item .other]
      nested := []
      commonTableExpressions := []
      condition := []
      orderingTerms := []
      limit := []
      assigns := ⟨List.cons_ne_nil _ _, List.cons_ne_nil _ _⟩ }
  columnInfos := [contentColumn]
  main :=
    { mode := .twoStep
      isInsert := false
      parameters := []
      maxBindIndex := 0
      infos := []
      targets := [⟨contentColumn, none⟩] }
  prepared := by decide +kernel

def moveContentMeaning : Meaning moveContent Value ℕ where
  scope := {}
  clauses _ _ := some { condition := fun _ _ r => decide (r.1 < 5), rank := fun _ => 0 }
  set _ _ _ r := (r.1 + 3, r.2.others)
  value _ _ _ _ _ := .null
  column _ type := type
  valid _ := rfl
  clauses_congr _ _ _ _ := rfl
  set_congr _ _ _ := rfl
  value_congr _ _ _ _ := rfl
  value_parameter _ _ hinfo _ _ := absurd hinfo List.not_mem_nil

/-- The message 1, with a content. -/
def firstMessage : Table (Stored Value) :=
  ⟨[(1, ⟨fun _ => (.integer 9, .null), .integer 7⟩)], by simp⟩

theorem plainUpdate_of_singleton {u : Update} {m : Meaning u Value ℕ} {b : ℕ → Bound}
    {c : Clauses Value ℕ} (hc : m.clauses b m.scope = some c) (horder : c.orderBy = none)
    (hlimit : c.limit = none) {t : Table (Logical Value)} {r : ℤ × Logical Value}
    (ht : t.rows = [r]) (hr : c.condition t.content t.content r = true) :
    plainUpdate m unconstrained b t =
      ((unconstrained.comap Logical.others).updateRow t r
        (setLogical m b t.content t.content r)) := by
  have hselected : (plainStatement m b c).selected t = [r] :=
    selected_singleton horder hlimit ht hr
  rw [UpdateOrDelete.selected] at hselected
  rw [plainUpdate, hc, Option.bind_some, Schema.updateOrDelete, hselected]
  exact Option.bind_fun_some _

end Wcdb.CompressingUpdate
