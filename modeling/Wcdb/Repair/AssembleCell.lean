import Mathlib.Data.List.Induction
import Wcdb.Repair.Cell

/-!
# Assembling cells

`AssembleHandleOperator::assembleCell` writes a crawled cell into the table under repair. It
prepares **one** INSERT for the table, which names the rowid and every column, resets that statement
before each cell and binds what the cell holds: the rowid to the first parameter, value `i` to the
parameter of column `i`. `sqlite3_reset` keeps the bindings, so that a parameter past the end of a
record still carries what an earlier record left in it.

`CellStatement.row` follows SQLite's own resolution of the column list: a declared column takes the
first parameter that names it, and the rowid takes the last one that names it or its alias.
-/

namespace Wcdb.Repair

/-! ### Declared columns -/

/-- The declared types that the code knows, without regard to case, and any other type. -/
inductive TypeName where
  | integer
  | int
  | tinyint
  | smallint
  | mediumint
  | bigint
  | unsignedBigInt
  | int2
  | int8
  | other
  deriving DecidableEq, Repr

def isIntegerColumnType : TypeName → Bool
  | .other => false
  | _ => true

/-- A line of `PRAGMA table_info`. SQLite compares names without regard to case, so that `name` is
the name in lower case. -/
structure ColumnMeta where
  name : String
  type : TypeName
  primary : ℕ
  deriving DecidableEq, Repr

namespace ColumnMeta

/-- The loop of `getIndexOfIntegerPrimary` from column `i` on. -/
def indexOfIntegerPrimaryFrom : ℕ → ℤ → List ColumnMeta → ℤ
  | _, indexOfIntegerPrimary, [] => indexOfIntegerPrimary
  | i, indexOfIntegerPrimary, columnMeta :: rest =>
    if 0 < columnMeta.primary then
      if 1 < columnMeta.primary then -1
      else if isIntegerColumnType columnMeta.type then indexOfIntegerPrimaryFrom (i + 1) i rest
      else indexOfIntegerPrimaryFrom (i + 1) indexOfIntegerPrimary rest
    else indexOfIntegerPrimaryFrom (i + 1) indexOfIntegerPrimary rest

def getIndexOfIntegerPrimary (columnMetas : List ColumnMeta) : ℤ :=
  indexOfIntegerPrimaryFrom 0 (-1) columnMetas

/-- Columns outside the primary key leave the index as it is. -/
theorem indexOfIntegerPrimaryFrom_append {metas : List ColumnMeta}
    (hmetas : ∀ c ∈ metas, c.primary = 0) (rest : List ColumnMeta) (i : ℕ) (index : ℤ) :
    indexOfIntegerPrimaryFrom i index (metas ++ rest) =
      indexOfIntegerPrimaryFrom (i + metas.length) index rest := by
  induction metas generalizing i with
  | nil => rfl
  | cons c metas ih =>
    rw [List.cons_append, indexOfIntegerPrimaryFrom, hmetas c (by simp), if_neg (by omega),
      ih fun c hc => hmetas c (by simp [hc]), List.length_cons]
    congr 1
    omega

theorem indexOfIntegerPrimaryFrom_cases (metas : List ColumnMeta) (i : ℕ) (index : ℤ) :
    indexOfIntegerPrimaryFrom i index metas = index ∨
      indexOfIntegerPrimaryFrom i index metas = -1 ∨
      ∃ k c, metas[k]? = some c ∧ c.primary = 1 ∧
        indexOfIntegerPrimaryFrom i index metas = (i + k : ℕ) := by
  induction metas generalizing i index with
  | nil => exact .inl rfl
  | cons m metas ih =>
    have hlater : ∀ {index' : ℤ},
        (∃ k c, metas[k]? = some c ∧ c.primary = 1 ∧
          indexOfIntegerPrimaryFrom (i + 1) index' metas = (i + 1 + k : ℕ)) →
        ∃ k c, (m :: metas)[k]? = some c ∧ c.primary = 1 ∧
          indexOfIntegerPrimaryFrom (i + 1) index' metas = (i + k : ℕ) := by
      rintro index' ⟨k, c, hc, hprimary, heq⟩
      exact ⟨k + 1, c, hc, hprimary, by rw [heq]; congr 1; omega⟩
    rw [indexOfIntegerPrimaryFrom]
    split_ifs with hpos hmany htype
    · exact .inr (.inl rfl)
    · obtain heq | hother | hfound := ih (i + 1) i
      · exact .inr (.inr ⟨0, m, rfl, by omega, heq⟩)
      · exact .inr (.inl hother)
      · exact .inr (.inr (hlater hfound))
    · obtain heq | hother | hfound := ih (i + 1) index
      · exact .inl heq
      · exact .inr (.inl hother)
      · exact .inr (.inr (hlater hfound))
    · obtain heq | hother | hfound := ih (i + 1) index
      · exact .inl heq
      · exact .inr (.inl hother)
      · exact .inr (.inr (hlater hfound))

/-- The column that is found is the first of the primary key. -/
theorem primary_of_getIndexOfIntegerPrimary {columnMetas : List ColumnMeta} {j : ℕ}
    (hj : getIndexOfIntegerPrimary columnMetas = j) :
    ∃ c, columnMetas[j]? = some c ∧ c.primary = 1 := by
  obtain heq | heq | ⟨k, c, hc, hprimary, heq⟩ := indexOfIntegerPrimaryFrom_cases columnMetas 0 (-1)
  · exact absurd (heq.symm.trans hj) (by omega)
  · exact absurd (heq.symm.trans hj) (by omega)
  · rw [Nat.zero_add] at heq
    rw [Int.ofNat_inj.mp (hj.symm.trans heq)]
    exact ⟨c, hc, hprimary⟩

end ColumnMeta

/-- A declared table, as SQLite holds it: `iPKey` is the column that is an alias of the rowid. -/
structure Declaration where
  columns : List ColumnMeta
  iPKey : Option ℕ
  withoutRowid : Bool
  nodup_names : (columns.map ColumnMeta.name).Nodup

/-! ### The INSERT -/

/-- The prepared INSERT: the names of its column list and what is bound to their parameters. -/
structure CellStatement where
  ids : List String
  bindings : List Value
  deriving DecidableEq, Repr

/-- A row as the INSERT hands it to the table. A NULL `rowid` leaves the choice to SQLite, and a
table without rowids has none. -/
@[ext]
structure Row where
  rowid : Value
  values : List Value
  deriving DecidableEq, Repr

namespace CellStatement

/-- `sqlite3_bind_…`: parameters count from 1, and one that does not exist is an error that the code
does not read. -/
def bind (s : CellStatement) (value : Value) (index : ℕ) : CellStatement :=
  { s with bindings := s.bindings.set (index - 1) value }

/-- The declared column that a name of the column list stands for. -/
def idx (d : Declaration) (name : String) : Option ℕ :=
  d.columns.findIdx? fun c => c.name = name

/-- Whether a name of the column list stands for the rowid: it names its alias, or it names no
column and is the word itself. -/
def namesRowid (d : Declaration) (name : String) : Bool :=
  match idx d name with
  | some j => d.iPKey = some j
  | none => name = "rowid" && !d.withoutRowid

/-- The loop over the column list from name `i` on, which ends with the last name that stands for
the rowid. -/
def ipkColumnFrom (d : Declaration) : ℕ → Option ℕ → List String → Option ℕ
  | _, ipkColumn, [] => ipkColumn
  | i, ipkColumn, name :: rest =>
    ipkColumnFrom d (i + 1) (if namesRowid d name then some i else ipkColumn) rest

def ipkColumn (d : Declaration) (ids : List String) : Option ℕ := ipkColumnFrom d 0 none ids

/-- The row that a step of the statement hands to the table. -/
def row (d : Declaration) (s : CellStatement) : Row :=
  let rowid : Value :=
    match ipkColumn d s.ids with
    | some i => s.bindings.getD i .null
    | none => .null
  { rowid := rowid
    values := (List.range d.columns.length).map fun j =>
      if d.iPKey = some j then rowid
      else
        match s.ids.findIdx? fun name => idx d name = some j with
        | some i => s.bindings.getD i .null
        | none => .null }

end CellStatement

/-! ### `AssembleHandleOperator` -/

/-- The fields of the operator that a cell meets. -/
structure AssembleHandleOperator where
  integerPrimary : ℤ
  cellStatement : Option CellStatement
  deriving DecidableEq, Repr

namespace AssembleHandleOperator

/-- `assembleTable` finalizes the statement of the table before. -/
def assembleTable (op : AssembleHandleOperator) : AssembleHandleOperator :=
  { op with cellStatement := none }

/-- The statement, prepared when it is not yet: every parameter of a new statement is NULL. -/
def lazyPrepareCell (d : Declaration) (op : AssembleHandleOperator) :
    AssembleHandleOperator × CellStatement :=
  match op.cellStatement with
  | some statement => (op, statement)
  | none =>
    let ids := (if d.withoutRowid then [] else ["rowid"]) ++ d.columns.map ColumnMeta.name
    let statement : CellStatement := { ids := ids, bindings := List.replicate ids.length .null }
    ({ integerPrimary := ColumnMeta.getIndexOfIntegerPrimary d.columns
       cellStatement := some statement }, statement)

/-- What the loop binds for value `i` of the cell. -/
def boundValue (integerPrimary : ℤ) (cell : Cell) (i : ℕ) : Value :=
  match cell.getValueType i with
  | .integer => .integer (cell.integerValue i)
  | .text => .text (cell.textValue i)
  | .blob => .blob (cell.blobValue i)
  | .real => .real (cell.doubleValue i)
  | .null => if (i : ℤ) = integerPrimary then .integer cell.rowid else .null

/-- All the bindings of a cell. -/
def bindCell (d : Declaration) (integerPrimary : ℤ) (cell : Cell) (s : CellStatement) :
    CellStatement :=
  let s := if d.withoutRowid then s else s.bind (.integer cell.rowid) 1
  (List.range cell.getCount).foldl
    (fun s i => s.bind (boundValue integerPrimary cell i) (if d.withoutRowid then i + 1
      else i + 2)) s

/-- The row that the cell inserts, and the operator after it. -/
def assembleCell (d : Declaration) (op : AssembleHandleOperator) (cell : Cell) :
    Row × AssembleHandleOperator :=
  let (op, statement) := lazyPrepareCell d op
  let statement := bindCell d op.integerPrimary cell statement
  (statement.row d, { op with cellStatement := some statement })

/-- The operator after the cells of a table, with one prepared statement for all of them. -/
def assembleCells (d : Declaration) (op : AssembleHandleOperator) (cells : List Cell) :
    AssembleHandleOperator :=
  cells.foldl (fun op cell => (assembleCell d op cell).2) op.assembleTable

end AssembleHandleOperator

/-! ### Histories -/

/-- The column list of the INSERT of a table. -/
def Declaration.ids (d : Declaration) : List String :=
  (if d.withoutRowid then [] else ["rowid"]) ++ d.columns.map ColumnMeta.name

namespace AssembleHandleOperator

/-- The statement that the next cell finds after `before`. -/
def statementAfter (d : Declaration) (op : AssembleHandleOperator) (before : List Cell) :
    CellStatement :=
  (lazyPrepareCell d (assembleCells d op before)).2

/-- The row inserted for `cell` after `before`. -/
def rowAfter (d : Declaration) (op : AssembleHandleOperator) (before : List Cell) (cell : Cell) :
    Row :=
  (assembleCell d (assembleCells d op before) cell).1

/-- What a parameter still holds from the cells before: the value that the last of them to reach the
column bound to it. -/
def leftover (d : Declaration) (before : List Cell) (j : ℕ) : Value :=
  match before.reverse.find? fun cell => j < cell.getCount with
  | some cell => boundValue (ColumnMeta.getIndexOfIntegerPrimary d.columns) cell j
  | none => .null

theorem boundValue_eq (integerPrimary : ℤ) (cell : Cell) (i : ℕ) :
    boundValue integerPrimary cell i =
      if cell.value i = .null ∧ (i : ℤ) = integerPrimary then .integer cell.rowid
      else cell.value i := by
  unfold boundValue Cell.value
  cases cell.getValueType i <;> simp

theorem assembleCells_append (d : Declaration) (op : AssembleHandleOperator) (before : List Cell)
    (cell : Cell) : assembleCells d op (before ++ [cell]) =
      (assembleCell d (assembleCells d op before) cell).2 := by
  simp [assembleCells]

/-- Once a cell was assembled, the statement is prepared for the table. -/
theorem lazyPrepareCell_integerPrimary (d : Declaration) (op : AssembleHandleOperator)
    (before : List Cell) : (lazyPrepareCell d (assembleCells d op before)).1.integerPrimary =
      ColumnMeta.getIndexOfIntegerPrimary d.columns := by
  induction before using List.reverseRecOn with
  | nil => rfl
  | append_singleton before cell ih =>
    rw [assembleCells_append]
    exact ih

theorem statementAfter_nil (d : Declaration) (op : AssembleHandleOperator) :
    statementAfter d op [] = { ids := d.ids, bindings := List.replicate d.ids.length .null } := rfl

theorem statementAfter_append (d : Declaration) (op : AssembleHandleOperator) (before : List Cell)
    (cell : Cell) : statementAfter d op (before ++ [cell]) =
      bindCell d (ColumnMeta.getIndexOfIntegerPrimary d.columns) cell
        (statementAfter d op before) := by
  rw [← lazyPrepareCell_integerPrimary d op before, statementAfter, assembleCells_append]
  rfl

theorem rowAfter_eq (d : Declaration) (op : AssembleHandleOperator) (before : List Cell)
    (cell : Cell) : rowAfter d op before cell = (statementAfter d op (before ++ [cell])).row d := by
  rw [statementAfter_append, ← lazyPrepareCell_integerPrimary d op before]
  rfl

end AssembleHandleOperator

/-! ### The bindings after a history -/

namespace CellStatement

/-- The loop that binds the values of a record, whose first parameter stands at `start`. -/
def bindFrom (start n : ℕ) (f : ℕ → Value) (s : CellStatement) : CellStatement :=
  (List.range n).foldl (fun s i => s.bind (f i) (start + i + 1)) s

theorem bindFrom_succ (start n : ℕ) (f : ℕ → Value) (s : CellStatement) :
    s.bindFrom start (n + 1) f = (s.bindFrom start n f).bind (f n) (start + n + 1) := by
  simp [bindFrom, List.range_succ]

theorem bindFrom_ids (start n : ℕ) (f : ℕ → Value) (s : CellStatement) :
    (s.bindFrom start n f).ids = s.ids := by
  induction n with
  | zero => rfl
  | succ n ih => rw [bindFrom_succ, bind, ih]

theorem bindFrom_length (start n : ℕ) (f : ℕ → Value) (s : CellStatement) :
    (s.bindFrom start n f).bindings.length = s.bindings.length := by
  induction n with
  | zero => rfl
  | succ n ih => rw [bindFrom_succ, bind, List.length_set, ih]

theorem bindFrom_getD (start n : ℕ) (f : ℕ → Value) (s : CellStatement) {k : ℕ}
    (hk : k < s.bindings.length) :
    (s.bindFrom start n f).bindings.getD k .null =
      if start ≤ k ∧ k < start + n then f (k - start) else s.bindings.getD k .null := by
  induction n with
  | zero =>
    rw [if_neg (by omega)]
    rfl
  | succ n ih =>
    rw [bindFrom_succ, bind, Nat.add_sub_cancel]
    have hlength := s.bindFrom_length start n f
    by_cases hlast : start + n = k
    · subst hlast
      rw [if_pos (by omega), Nat.add_sub_cancel_left]
      simp [List.getD_eq_getElem?_getD, hlength, hk]
    · have hset : ((s.bindFrom start n f).bindings.set (start + n) (f n)).getD k .null =
          (s.bindFrom start n f).bindings.getD k .null := by
        simp [List.getD_eq_getElem?_getD, hlast]
      rw [hset, ih]
      refine if_congr ?_ rfl rfl
      omega

end CellStatement

namespace AssembleHandleOperator

/-- The parameters before those of the columns. -/
def columnStart (d : Declaration) : ℕ := if d.withoutRowid then 0 else 1

theorem length_ids (d : Declaration) : d.ids.length = columnStart d + d.columns.length := by
  unfold Declaration.ids columnStart
  split <;> simp [Nat.add_comm]

/-- The statement when the values of a cell come to be bound. -/
def bindRowid (d : Declaration) (cell : Cell) (s : CellStatement) : CellStatement :=
  if d.withoutRowid then s else s.bind (.integer cell.rowid) 1

theorem bindCell_eq (d : Declaration) (integerPrimary : ℤ) (cell : Cell) (s : CellStatement) :
    bindCell d integerPrimary cell s =
      (bindRowid d cell s).bindFrom (columnStart d) cell.getCount
        (boundValue integerPrimary cell) := by
  unfold bindCell bindRowid CellStatement.bindFrom columnStart
  split
  · simp
  · simp only [Nat.add_comm 1, Nat.add_assoc]

theorem bindRowid_ids (d : Declaration) (cell : Cell) (s : CellStatement) :
    (bindRowid d cell s).ids = s.ids := by
  unfold bindRowid
  split <;> rfl

theorem bindRowid_length (d : Declaration) (cell : Cell) (s : CellStatement) :
    (bindRowid d cell s).bindings.length = s.bindings.length := by
  unfold bindRowid
  split
  · rfl
  · exact List.length_set

/-- The rowid goes to a parameter of its own. -/
theorem bindRowid_column (d : Declaration) (cell : Cell) (s : CellStatement) (j : ℕ) :
    (bindRowid d cell s).bindings.getD (columnStart d + j) .null =
      s.bindings.getD (columnStart d + j) .null := by
  unfold bindRowid columnStart
  split
  · rfl
  · have hne : (0 : ℕ) ≠ 1 + j := by omega
    simp [CellStatement.bind, List.getD_eq_getElem?_getD, hne]

/-- What a cell leaves in the parameter of a column. -/
theorem bindCell_column (d : Declaration) (integerPrimary : ℤ) (cell : Cell)
    (s : CellStatement) {j : ℕ}
    (hj : columnStart d + j < s.bindings.length) :
    (bindCell d integerPrimary cell s).bindings.getD (columnStart d + j) .null =
      if j < cell.getCount then boundValue integerPrimary cell j
      else s.bindings.getD (columnStart d + j) .null := by
  rw [bindCell_eq, CellStatement.bindFrom_getD _ _ _ _ (by rwa [bindRowid_length]),
    bindRowid_column,
    Nat.add_sub_cancel_left]
  refine if_congr ?_ rfl rfl
  omega

/-- What a cell leaves in the parameter of the rowid. -/
theorem bindCell_rowid {d : Declaration} (hd : d.withoutRowid = false) (integerPrimary : ℤ)
    (cell : Cell) (s : CellStatement) (hs : 0 < s.bindings.length) :
    (bindCell d integerPrimary cell s).bindings.getD 0 .null = .integer cell.rowid := by
  rw [bindCell_eq, CellStatement.bindFrom_getD _ _ _ _ (by rwa [bindRowid_length]),
    if_neg (by simp [columnStart, hd])]
  simp [bindRowid, hd, CellStatement.bind, List.getD_eq_getElem?_getD, hs]

theorem statementAfter_ids (d : Declaration) (op : AssembleHandleOperator) (before : List Cell) :
    (statementAfter d op before).ids = d.ids := by
  induction before using List.reverseRecOn with
  | nil => rfl
  | append_singleton before cell ih =>
    rw [statementAfter_append, bindCell_eq, CellStatement.bindFrom_ids, bindRowid_ids, ih]

theorem statementAfter_length (d : Declaration) (op : AssembleHandleOperator) (before : List Cell) :
    (statementAfter d op before).bindings.length = columnStart d + d.columns.length := by
  induction before using List.reverseRecOn with
  | nil => rw [statementAfter_nil, List.length_replicate, length_ids]
  | append_singleton before cell ih =>
    rw [statementAfter_append, bindCell_eq, CellStatement.bindFrom_length, bindRowid_length, ih]

theorem leftover_append (d : Declaration) (before : List Cell) (cell : Cell) (j : ℕ) :
    leftover d (before ++ [cell]) j =
      if j < cell.getCount then boundValue (ColumnMeta.getIndexOfIntegerPrimary d.columns) cell j
      else leftover d before j := by
  unfold leftover
  rw [List.reverse_append, List.reverse_singleton, List.singleton_append, List.find?_cons]
  by_cases hj : j < cell.getCount <;> simp [hj]

/-- The parameter of a column holds what the last cell to reach it has left there. -/
theorem statementAfter_column (d : Declaration) (op : AssembleHandleOperator) (before : List Cell)
    {j : ℕ} (hj : j < d.columns.length) :
    (statementAfter d op before).bindings.getD (columnStart d + j) .null = leftover d before j := by
  induction before using List.reverseRecOn with
  | nil =>
    rw [statementAfter_nil, List.getD_replicate _ (by rw [length_ids]; omega)]
    rfl
  | append_singleton before cell ih =>
    rw [statementAfter_append, bindCell_column _ _ _ _ (by rw [statementAfter_length]; omega), ih,
      leftover_append]

end AssembleHandleOperator

/-! ### The parameters of the rowid and of the columns -/

namespace CellStatement

theorem idx_eq_some {d : Declaration} {j : ℕ} {c : ColumnMeta} (hc : d.columns[j]? = some c) :
    idx d c.name = some j := by
  obtain ⟨hj, rfl⟩ := List.getElem?_eq_some_iff.mp hc
  refine List.findIdx?_eq_some_iff_getElem.mpr ⟨hj, by simp, fun i hi => ?_⟩
  have hne : d.columns[i].name ≠ d.columns[j].name := by
    have hnodup := List.pairwise_iff_getElem.mp d.nodup_names i j (by simp; omega) (by simpa) hi
    simpa using hnodup
  simpa using hne

theorem idx_eq_none {d : Declaration} {name : String} :
    idx d name = none ↔ ∀ c ∈ d.columns, c.name ≠ name := by
  simp [idx]

theorem ipkColumnFrom_of_none {d : Declaration} {ids : List String}
    (hids : ∀ name ∈ ids, namesRowid d name = false) (i : ℕ) (ipkColumn : Option ℕ) :
    ipkColumnFrom d i ipkColumn ids = ipkColumn := by
  induction ids generalizing i with
  | nil => rfl
  | cons name rest ih =>
    rw [ipkColumnFrom, hids name (by simp)]
    exact ih (fun other hother => hids other (by simp [hother])) (i + 1)

/-- The last name that stands for the rowid decides. -/
theorem ipkColumnFrom_append {d : Declaration} {name : String} (hname : namesRowid d name = true)
    (before : List String) {after : List String} (hafter : ∀ other ∈ after,
      namesRowid d other = false)
    (i : ℕ) (ipkColumn : Option ℕ) :
    ipkColumnFrom d i ipkColumn (before ++ name :: after) = some (i + before.length) := by
  induction before generalizing i ipkColumn with
  | nil =>
    rw [List.nil_append, ipkColumnFrom, hname]
    exact ipkColumnFrom_of_none hafter (i + 1) (some i)
  | cons other before ih =>
    rw [List.cons_append, ipkColumnFrom, ih, List.length_cons]
    congr 1
    omega

end CellStatement

/-- Each column has a parameter of its own among the names of the columns. -/
theorem CellStatement.findIdx_names {d : Declaration} {j : ℕ} (hj : j < d.columns.length) :
    ((d.columns.map ColumnMeta.name).findIdx? fun name => CellStatement.idx d name = some j) =
      some j := by
  refine List.findIdx?_eq_some_iff_getElem.mpr ⟨by simpa, ?_, fun i hi => ?_⟩
  · simp [CellStatement.idx_eq_some (List.getElem?_eq_getElem hj)]
  · have hi' : d.columns[i]? = some d.columns[i] := List.getElem?_eq_getElem (by omega)
    simp [CellStatement.idx_eq_some hi']
    omega

end Wcdb.Repair
