import Wcdb.Repair.AssembleCell

/-!
# Rows of a table with rowids

The row that `assembleCell` inserts for a cell should be a function of that cell alone. It is
computed here **after any history** of cells of the same table, and `rowAfter_eq_rowOf_iff` says
exactly when it is the row of the cell. Three things stand in the way: the bindings that longer
records left behind, a column that is named like the rowid, and a primary key that
`getIndexOfIntegerPrimary` takes for an alias of the rowid although SQLite does not, such as one of
type INT.
-/

namespace Wcdb.Repair

/-- A table with rowids. Only a lone primary key of type INTEGER is an alias of the rowid. -/
structure RowidTable extends Declaration where
  hasRowid : withoutRowid = false
  iPKey_spec : ∀ a, iPKey = some a → ∃ c, columns[a]? = some c ∧ c.type = .integer ∧ c.primary = 1 ∧
    ∀ b c', columns[b]? = some c' → b ≠ a → c'.primary = 0

namespace RowidTable

open CellStatement

variable (t : RowidTable)

theorem ids_eq : t.ids = "rowid" :: t.columns.map ColumnMeta.name := by
  simp [Declaration.ids, t.hasRowid]

theorem namesRowid_column {j : ℕ} {c : ColumnMeta} (hc : t.columns[j]? = some c) :
    namesRowid t.toDeclaration c.name = decide (t.iPKey = some j) := by
  simp [namesRowid, idx_eq_some hc]

/-- With an alias, the rowid is what is bound for the alias. -/
theorem ipkColumn_of_alias {a : ℕ} (ha : t.iPKey = some a) :
    ipkColumn t.toDeclaration t.ids = some (a + 1) := by
  obtain ⟨c, hc, -⟩ := t.iPKey_spec a ha
  obtain ⟨hlt, rfl⟩ := List.getElem?_eq_some_iff.mp hc
  have hsplit : t.ids = ("rowid" :: (t.columns.take a).map ColumnMeta.name) ++
      t.columns[a].name :: (t.columns.drop (a + 1)).map ColumnMeta.name := by
    rw [ids_eq, List.cons_append, ← List.map_cons, ← List.map_append, ← List.drop_eq_getElem_cons,
      List.take_append_drop]
  have hafter : ∀ name ∈ (t.columns.drop (a + 1)).map ColumnMeta.name,
      namesRowid t.toDeclaration name = false := by
    intro name hname
    obtain ⟨c, hmem, rfl⟩ := List.mem_map.mp hname
    obtain ⟨i, hi, rfl⟩ := List.mem_iff_getElem.mp hmem
    have hci : t.columns[a + 1 + i]? = some (t.columns.drop (a + 1))[i] := by
      rw [← List.getElem?_drop, List.getElem?_eq_getElem hi]
    rw [t.namesRowid_column hci, ha]
    exact decide_eq_false fun h => by
      have := Option.some.inj h
      omega
  have hname : namesRowid t.toDeclaration t.columns[a].name = true := by
    rw [t.namesRowid_column hc, ha]
    exact decide_eq_true rfl
  rw [ipkColumn, hsplit, ipkColumnFrom_append hname _ hafter]
  simp [Nat.min_eq_left hlt.le]

/-- Without an alias, the rowid is the first parameter, unless a column has that name. -/
theorem ipkColumn_of_noAlias (ha : t.iPKey = none) :
    ipkColumn t.toDeclaration t.ids =
      if ∃ c ∈ t.columns, c.name = "rowid" then none else some 0 := by
  have hcolumns : ∀ name ∈ t.columns.map ColumnMeta.name,
      namesRowid t.toDeclaration name = false := by
    intro name hname
    obtain ⟨c, hmem, rfl⟩ := List.mem_map.mp hname
    obtain ⟨j, hj⟩ := List.mem_iff_getElem?.mp hmem
    rw [t.namesRowid_column hj, ha]
    exact decide_eq_false (by simp)
  have hrowid :
    namesRowid t.toDeclaration "rowid" = decide (¬∃ c ∈ t.columns, c.name = "rowid") := by
    unfold namesRowid
    cases hidx : idx t.toDeclaration "rowid" with
    | none =>
      have hnone := idx_eq_none.mp hidx
      have hno : ¬∃ c ∈ t.columns, c.name = "rowid" := fun ⟨c, hc, hname⟩ => hnone c hc hname
      simp [hno, t.hasRowid]
    | some j =>
      have hsome : ∃ c ∈ t.columns, c.name = "rowid" := by
        by_contra hno
        rw [idx_eq_none.mpr fun c hc hname => hno ⟨c, hc, hname⟩] at hidx
        exact Option.some_ne_none j hidx.symm
      simp [hsome, ha]
  rw [ipkColumn, ids_eq, ipkColumnFrom, ipkColumnFrom_of_none hcolumns, hrowid]
  by_cases h : ∃ c ∈ t.columns, c.name = "rowid" <;> simp [h]

/-- The parameter of a declared column. -/
theorem findIdx_column {j : ℕ} {c : ColumnMeta} (hc : t.columns[j]? = some c) :
    (t.ids.findIdx? fun name => idx t.toDeclaration name = some j) =
      some (if c.name = "rowid" then 0 else j + 1) := by
  obtain ⟨hj, rfl⟩ := List.getElem?_eq_some_iff.mp hc
  rw [ids_eq, List.findIdx?_cons]
  by_cases hname : t.columns[j].name = "rowid"
  · rw [← hname, idx_eq_some hc]
    simp
  · have hne : idx t.toDeclaration "rowid" ≠ some j := by
      intro hidx
      obtain ⟨_, hrowid, -⟩ := List.findIdx?_eq_some_iff_getElem.mp hidx
      exact hname (by simpa using hrowid)
    simp [hne, findIdx_names hj, hname]

/-- The column that the code takes for the alias of the rowid is the alias, when there is one. -/
theorem getIndexOfIntegerPrimary_of_alias {a : ℕ} (ha : t.iPKey = some a) :
    ColumnMeta.getIndexOfIntegerPrimary t.columns = a := by
  obtain ⟨c, hc, htype, hprimary, hrest⟩ := t.iPKey_spec a ha
  obtain ⟨hlt, rfl⟩ := List.getElem?_eq_some_iff.mp hc
  have hbefore : ∀ c ∈ t.columns.take a, c.primary = 0 := by
    intro c hmem
    obtain ⟨i, hi, rfl⟩ := List.mem_iff_getElem.mp hmem
    have hia : i < a := by simp at hi; omega
    exact hrest i _ (by rw [List.getElem_take, List.getElem?_eq_getElem]) (by omega)
  have hafter : ∀ c ∈ t.columns.drop (a + 1), c.primary = 0 := by
    intro c hmem
    obtain ⟨i, hi, rfl⟩ := List.mem_iff_getElem.mp hmem
    refine hrest (a + 1 + i) _ ?_ (by omega)
    rw [← List.getElem?_drop, List.getElem?_eq_getElem hi]
  rw [ColumnMeta.getIndexOfIntegerPrimary, ← List.take_append_drop a t.columns,
    List.drop_eq_getElem_cons hlt, ColumnMeta.indexOfIntegerPrimaryFrom_append hbefore,
    ColumnMeta.indexOfIntegerPrimaryFrom, hprimary, if_pos (by omega), if_neg (by omega), htype,
    if_pos (by rfl), ← List.append_nil (t.columns.drop (a + 1)),
    ColumnMeta.indexOfIntegerPrimaryFrom_append hafter, ColumnMeta.indexOfIntegerPrimaryFrom,
    List.length_take, Nat.zero_add, Nat.min_eq_left hlt.le]

/-! ### Rows of a table with rowids -/

/-- A cell of the table: a record has at most one value for each column, and the alias of the rowid
is stored as NULL. -/
def Stores (cell : Cell) : Prop :=
  cell.getCount ≤ t.columns.length ∧
    ∀ a, t.iPKey = some a → a < cell.getCount ∧ cell.value a = .null

/-- The row that a cell stands for. -/
def rowOf (cell : Cell) : Row where
  rowid := .integer cell.rowid
  values := (List.range t.columns.length).map fun i =>
    if t.iPKey = some i then .integer cell.rowid
    else if i < cell.getCount then cell.value i
    else .null

/-- When the cell inserts its own row after `before`: a column that is named like the rowid but is
not its alias holds the rowid, a column past the record was NULL in the last record to reach it, and
the column that the code takes for the alias without being it is not NULL. -/
structure Keeps (before : List Cell) (cell : Cell) : Prop where
  named : ∀ j c, t.columns[j]? = some c → c.name = "rowid" → t.iPKey ≠ some j →
    t.iPKey ≠ none ∧ j < cell.getCount ∧ cell.value j = .integer cell.rowid
  past : ∀ j < t.columns.length, cell.getCount ≤ j → ∀ earlier,
    before.reverse.find? (fun c => j < c.getCount) = some earlier →
      earlier.value j = .null ∧ ColumnMeta.getIndexOfIntegerPrimary t.columns ≠ j
  primary : ∀ j < cell.getCount, ColumnMeta.getIndexOfIntegerPrimary t.columns = j →
    t.iPKey ≠ some j → cell.value j ≠ .null

open AssembleHandleOperator

variable {t} {cell : Cell} (op : AssembleHandleOperator) (before : List Cell)

/-- The first parameter always holds the rowid of the cell. -/
theorem statementAfter_first (t : RowidTable) (cell : Cell) :
    (statementAfter t.toDeclaration op (before ++ [cell])).bindings.getD 0 .null =
      .integer cell.rowid := by
  rw [statementAfter_append]
  refine bindCell_rowid t.hasRowid _ _ _ ?_
  rw [statementAfter_length, columnStart, t.hasRowid]
  simp

/-- The rowid of the row: with an alias it is the rowid of the cell, bound for the alias. -/
theorem rowAfter_rowid (hcell : t.Stores cell) :
    (rowAfter t.toDeclaration op before cell).rowid =
      if t.iPKey = none ∧ ∃ c ∈ t.columns, c.name = "rowid" then .null
      else .integer cell.rowid := by
  rw [rowAfter_eq, row, statementAfter_ids]
  cases ha : t.iPKey with
  | none =>
    rw [t.ipkColumn_of_noAlias ha]
    by_cases h : ∃ c ∈ t.columns, c.name = "rowid"
    · simp [h]
    · simp only [h, if_false, and_false]
      exact statementAfter_first op before t cell
  | some a =>
    obtain ⟨hlt, hnull⟩ := hcell.2 a ha
    have hcolumn := statementAfter_column t.toDeclaration op (before ++ [cell])
      (Nat.lt_of_lt_of_le hlt hcell.1)
    rw [columnStart, t.hasRowid, if_neg (by simp), leftover_append, if_pos hlt, boundValue_eq,
      if_pos ⟨hnull, (t.getIndexOfIntegerPrimary_of_alias ha).symm⟩, Nat.add_comm] at hcolumn
    rw [t.ipkColumn_of_alias ha]
    simpa using hcolumn

/-- The value of a column that is not an alias of the rowid. -/
theorem rowAfter_value (cell : Cell) {j : ℕ} {c : ColumnMeta} (hc : t.columns[j]? = some c)
    (hj : t.iPKey ≠ some j) :
    (rowAfter t.toDeclaration op before cell).values[j]? =
      some (if c.name = "rowid" then .integer cell.rowid
        else leftover t.toDeclaration (before ++ [cell]) j) := by
  have hlt : j < t.columns.length := (List.getElem?_eq_some_iff.mp hc).1
  have hcolumn := statementAfter_column t.toDeclaration op (before ++ [cell]) hlt
  rw [columnStart, t.hasRowid, if_neg (by simp), Nat.add_comm] at hcolumn
  rw [rowAfter_eq, row, statementAfter_ids]
  simp only [List.getElem?_map, List.getElem?_range hlt, Option.map_some, if_neg hj,
    t.findIdx_column hc]
  by_cases hname : c.name = "rowid"
  · simp only [hname, if_true, statementAfter_first]
  · simp only [hname, if_false, hcolumn]

theorem rowAfter_alias {a : ℕ} (ha : t.iPKey = some a) :
    (rowAfter t.toDeclaration op before cell).values[a]? =
      some (rowAfter t.toDeclaration op before cell).rowid := by
  obtain ⟨c, hc, -⟩ := t.iPKey_spec a ha
  have hlt : a < t.columns.length := (List.getElem?_eq_some_iff.mp hc).1
  rw [rowAfter_eq, row]
  simp only [List.getElem?_map, List.getElem?_range hlt, Option.map_some, if_pos ha]

theorem length_rowAfter :
    (rowAfter t.toDeclaration op before cell).values.length = t.columns.length := by
  simp [rowAfter_eq, row]

theorem rowOf_value {j : ℕ} (hj : j < t.columns.length) :
    (t.rowOf cell).values[j]? = some (if t.iPKey = some j then .integer cell.rowid
      else if j < cell.getCount then cell.value j else .null) := by
  simp only [rowOf, List.getElem?_map, List.getElem?_range hj, Option.map_some]

/-- A value is bound as it is, unless a NULL is taken for the alias of the rowid. -/
theorem boundValue_eq_value {integerPrimary : ℤ} {j : ℕ} :
    boundValue integerPrimary cell j = cell.value j ↔
      (integerPrimary = j → cell.value j ≠ .null) := by
  rw [boundValue_eq]
  by_cases h : cell.value j = .null ∧ (j : ℤ) = integerPrimary
  · simp [h]
  · rw [if_neg h]
    exact iff_of_true rfl fun hj hnull => h ⟨hnull, hj.symm⟩

theorem boundValue_eq_null {integerPrimary : ℤ} {j : ℕ} :
    boundValue integerPrimary cell j = .null ↔ cell.value j = .null ∧ integerPrimary ≠ j := by
  rw [boundValue_eq]
  by_cases h : cell.value j = .null ∧ (j : ℤ) = integerPrimary
  · simp [h]
  · rw [if_neg h]
    exact ⟨fun hnull => ⟨hnull, fun hj => h ⟨hnull, hj.symm⟩⟩, And.left⟩

theorem leftover_eq_null {d : Declaration} {j : ℕ} :
    leftover d before j = .null ↔ ∀ earlier,
      before.reverse.find? (fun c => j < c.getCount) = some earlier →
        earlier.value j = .null ∧ ColumnMeta.getIndexOfIntegerPrimary d.columns ≠ j := by
  unfold leftover
  cases before.reverse.find? fun c => decide (j < c.getCount) with
  | none => simp
  | some earlier => simp [boundValue_eq_null]

/-- What a column of the row owes to the cell: the value of the record, or NULL past its end. -/
def Column (before : List Cell) (cell : Cell) (j : ℕ) (c : ColumnMeta) : Prop :=
  (if c.name = "rowid" then .integer cell.rowid
    else leftover t.toDeclaration (before ++ [cell]) j) =
  if j < cell.getCount then cell.value j else .null

theorem rowAfter_eq_rowOf (hcell : t.Stores cell) :
    rowAfter t.toDeclaration op before cell = t.rowOf cell ↔
      ¬(t.iPKey = none ∧ ∃ c ∈ t.columns, c.name = "rowid") ∧
      ∀ j c, t.columns[j]? = some c → t.iPKey ≠ some j → t.Column before cell j c := by
  have hrowid := rowAfter_rowid op before hcell
  constructor
  · intro hrow
    refine ⟨fun hno => ?_, fun j c hc hj => ?_⟩
    · rw [if_pos hno, hrow] at hrowid
      exact Value.noConfusion hrowid
    · have hlt : j < t.columns.length := (List.getElem?_eq_some_iff.mp hc).1
      have hvalue := rowAfter_value op before cell hc hj
      rw [hrow, rowOf_value hlt, if_neg hj] at hvalue
      exact (Option.some.inj hvalue).symm
  · rintro ⟨hno, hcolumns⟩
    rw [if_neg hno] at hrowid
    have hvalues : (rowAfter t.toDeclaration op before cell).values = (t.rowOf cell).values := by
      refine List.ext_getElem? fun j => ?_
      by_cases hlt : j < t.columns.length
      · have hc : t.columns[j]? = some t.columns[j] := List.getElem?_eq_getElem hlt
        rw [rowOf_value hlt]
        by_cases hj : t.iPKey = some j
        · rw [rowAfter_alias op before hj, hrowid, if_pos hj]
        · rw [rowAfter_value op before cell hc hj, if_neg hj, hcolumns j _ hc hj]
      · rw [List.getElem?_eq_none (by rw [length_rowAfter]; omega),
          List.getElem?_eq_none (by simp [rowOf]; omega)]
    exact Row.ext hrowid hvalues

theorem column_of_named {j : ℕ} {c : ColumnMeta} (hname : c.name = "rowid") :
    t.Column before cell j c ↔ j < cell.getCount ∧ cell.value j = .integer cell.rowid := by
  unfold Column
  rw [if_pos hname]
  by_cases hlt : j < cell.getCount
  · simp [hlt, eq_comm]
  · simp [hlt]

theorem column_of_past {j : ℕ} {c : ColumnMeta} (hname : c.name ≠ "rowid")
    (hge : cell.getCount ≤ j) :
    t.Column before cell j c ↔ ∀ earlier,
      before.reverse.find? (fun c => j < c.getCount) = some earlier →
        earlier.value j = .null ∧ ColumnMeta.getIndexOfIntegerPrimary t.columns ≠ j := by
  unfold Column
  rw [if_neg hname, leftover_append, if_neg (by omega), if_neg (by omega), leftover_eq_null]

theorem column_of_stored {j : ℕ} {c : ColumnMeta} (hname : c.name ≠ "rowid")
    (hlt : j < cell.getCount) :
    t.Column before cell j c ↔
      (ColumnMeta.getIndexOfIntegerPrimary t.columns = j → cell.value j ≠ .null) := by
  unfold Column
  rw [if_neg hname, leftover_append, if_pos hlt, if_pos hlt, boundValue_eq_value]

/-- The table `messages(id INTEGER PRIMARY KEY, text, mark)`. -/
def messages : RowidTable where
  columns := [⟨"id", .integer, 1⟩, ⟨"text", .other, 0⟩, ⟨"mark", .other, 0⟩]
  iPKey := some 0
  withoutRowid := false
  nodup_names := by decide
  hasRowid := rfl
  iPKey_spec := by
    rintro a ⟨⟩
    refine ⟨_, rfl, rfl, rfl, fun b c' hc' hb => ?_⟩
    match b with
    | 0 => exact absurd rfl hb
    | 1 | 2 => rw [← Option.some.inj hc']
    | b + 3 => simp at hc'

/-- A record of three values. -/
def marked : Cell :=
  { leftChild := 0, rowid := 4, payload := [], columns := [(0, 0), (8, 0), (9, 0)] }

/-- A record from before the column `mark` was added. -/
def unmarked : Cell := { leftChild := 0, rowid := 7, payload := [], columns := [(0, 0), (8, 0)] }

end RowidTable

end Wcdb.Repair
