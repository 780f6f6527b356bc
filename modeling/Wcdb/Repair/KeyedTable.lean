import Mathlib.Data.List.Perm.Basic
import Mathlib.Data.List.Nodup
import Wcdb.Repair.AssembleCell

/-!
# Rows of a table without rowids

A table without rowids is an index b-tree. By the file format its records hold the columns of the
primary key first, **in key order**, and then the other columns in the order of their declaration,
while `assembleCell` pairs value `i` of a record with column `i` of the declaration.
`rowAfter_holds_iff` says for which tables the two agree: those whose key is a prefix of the
declaration.
-/

namespace Wcdb.Repair

open AssembleHandleOperator

/-- A table without rowids. `key` lists the columns of its primary key, in key order. -/
structure KeyedTable extends Declaration where
  key : List ℕ
  noRowid : withoutRowid = true
  noAlias : iPKey = none
  nodup_key : key.Nodup
  key_lt : ∀ j ∈ key, j < columns.length
  primary_spec : ∀ j c, columns[j]? = some c →
    c.primary = if j ∈ key then key.idxOf j + 1 else 0

namespace KeyedTable

variable (t : KeyedTable)

/-! ### The order of the values in a record -/

/-- The columns in the order in which a record stores them. -/
def storageOrder : List ℕ := t.key ++ (List.range t.columns.length).filter fun j => j ∉ t.key

/-- The place of column `j` in a record. -/
def storageIndex (j : ℕ) : ℕ := t.storageOrder.idxOf j

theorem mem_storageOrder {j : ℕ} : j ∈ t.storageOrder ↔ j < t.columns.length := by
  simp only [storageOrder, List.mem_append, List.mem_filter, List.mem_range, decide_eq_true_eq]
  constructor
  · rintro (hkey | ⟨hlt, -⟩)
    · exact t.key_lt j hkey
    · exact hlt
  · intro hlt
    by_cases hkey : j ∈ t.key
    · exact .inl hkey
    · exact .inr ⟨hlt, hkey⟩

theorem nodup_storageOrder : t.storageOrder.Nodup := by
  refine List.Nodup.append t.nodup_key (List.nodup_range.filter _) fun j hkey hother => ?_
  simp only [List.mem_filter, decide_eq_true_eq] at hother
  exact hother.2 hkey

theorem length_storageOrder : t.storageOrder.length = t.columns.length := by
  have hperm : t.storageOrder.Perm (List.range t.columns.length) :=
    (List.perm_ext_iff_of_nodup t.nodup_storageOrder List.nodup_range).mpr fun j => by
      rw [mem_storageOrder, List.mem_range]
  rw [hperm.length_eq, List.length_range]

theorem storageIndex_lt {j : ℕ} (hj : j < t.columns.length) :
    t.storageIndex j < t.columns.length := by
  rw [← length_storageOrder]
  exact List.idxOf_lt_length_of_mem (t.mem_storageOrder.mpr hj)

theorem length_key_le : t.key.length ≤ t.columns.length := by
  rw [← length_storageOrder, storageOrder, List.length_append]
  omega

/-- A record keeps the order of the declaration exactly when the key is a prefix of it. -/
theorem storageIndex_eq_iff :
    (∀ j < t.columns.length, t.storageIndex j = j) ↔ t.key = List.range t.key.length := by
  constructor
  · intro hindex
    have horder : t.storageOrder = List.range t.columns.length := by
      refine List.ext_getElem (by rw [length_storageOrder, List.length_range]) fun j hj hj' => ?_
      have hlt : j < t.columns.length := by rwa [List.length_range] at hj'
      have hself : t.storageOrder[t.storageOrder.idxOf j]? = some j :=
        List.getElem?_idxOf (t.mem_storageOrder.mpr hlt)
      have hidx : t.storageOrder.idxOf j = j := hindex j hlt
      rw [hidx, List.getElem?_eq_getElem hj] at hself
      rw [List.getElem_range, Option.some.inj hself]
    have htake := congrArg (List.take t.key.length) horder
    rwa [storageOrder, List.take_left, List.take_range, Nat.min_eq_left t.length_key_le] at htake
  · intro hkey j hj
    have hrest : (List.range t.columns.length).filter (fun j => j ∉ t.key) =
        (List.range (t.columns.length - t.key.length)).map (t.key.length + ·) := by
      have hsplit : t.columns.length = t.key.length + (t.columns.length - t.key.length) := by
        have := t.length_key_le
        omega
      rw [hsplit, List.range_add, List.filter_append, List.filter_eq_nil_iff.mpr,
        List.filter_eq_self.mpr, List.nil_append, Nat.add_sub_cancel_left]
      · intro i hi
        obtain ⟨k, -, rfl⟩ := List.mem_map.mp hi
        rw [hkey]
        simp
      · intro i hi
        rw [hkey]
        simpa using hi
    have horder : t.storageOrder = List.range t.columns.length := by
      rw [storageOrder, hrest]
      nth_rewrite 1 [hkey]
      rw [← List.range_add, Nat.add_sub_cancel' t.length_key_le]
    have hget := List.get_idxOf (List.nodup_range (n := t.columns.length)) ⟨j, by simpa using hj⟩
    rw [storageIndex, horder]
    simpa using hget

/-! ### Rows of the table -/

/-- A record of the table: it has at most one value for each column, and the columns of the key are
never NULL. -/
def Stores (cell : Cell) : Prop :=
  cell.getCount ≤ t.columns.length ∧
    ∀ i < t.key.length, i < cell.getCount ∧ cell.value i ≠ .null

/-- The row has in every column the value that the record stores for that column. -/
def Holds (cell : Cell) (row : Row) : Prop :=
  ∀ j < t.columns.length, t.storageIndex j < cell.getCount →
    row.values[j]? = some (cell.value (t.storageIndex j))

/-- The code takes a column for the alias of the rowid only when it belongs to the key. -/
theorem mem_key_of_integerPrimary {j : ℕ}
    (hj : ColumnMeta.getIndexOfIntegerPrimary t.columns = j) : j ∈ t.key := by
  obtain ⟨c, hc, hprimary⟩ := ColumnMeta.primary_of_getIndexOfIntegerPrimary hj
  by_contra hkey
  rw [t.primary_spec j c hc, if_neg hkey] at hprimary
  exact absurd hprimary (by omega)

theorem rowAfter_value (op : AssembleHandleOperator) (before : List Cell) (cell : Cell) {j : ℕ}
    (hj : j < t.columns.length) :
    (rowAfter t.toDeclaration op before cell).values[j]? =
      some (leftover t.toDeclaration (before ++ [cell]) j) := by
  have hcolumn := statementAfter_column t.toDeclaration op (before ++ [cell]) hj
  have hids : t.ids = t.columns.map ColumnMeta.name := by simp [Declaration.ids, t.noRowid]
  rw [columnStart, t.noRowid, if_pos rfl, Nat.zero_add] at hcolumn
  rw [rowAfter_eq, CellStatement.row, statementAfter_ids, hids]
  simp only [List.getElem?_map, List.getElem?_range hj, Option.map_some, t.noAlias,
    CellStatement.findIdx_names hj, hcolumn]
  simp

/-- A record of ones and zeros, with a one at a single place. -/
def oneAt (n k : ℕ) : Cell where
  leftChild := 0
  rowid := 0
  payload := []
  columns := (List.range n).map fun i => if i = k then (9, 0) else (8, 0)

theorem value_oneAt {n k i : ℕ} (hi : i < n) :
    (oneAt n k).value i = .integer (if i = k then 1 else 0) := by
  have hcolumn : (oneAt n k).column i = if i = k then (9, 0) else (8, 0) := by
    simp [Cell.column, oneAt, List.getD_eq_getElem?_getD, List.getElem?_range hi]
  by_cases h : i = k
  · rw [if_pos h] at hcolumn ⊢
    simp [Cell.value, Cell.getValueType, Cell.integerValue, hcolumn]
  · rw [if_neg h] at hcolumn ⊢
    simp [Cell.value, Cell.getValueType, Cell.integerValue, hcolumn]

theorem stores_oneAt (k : ℕ) : t.Stores (oneAt t.columns.length k) := by
  refine ⟨by simp [Cell.getCount, oneAt], fun i hi => ?_⟩
  have hlt : i < t.columns.length := Nat.lt_of_lt_of_le hi t.length_key_le
  refine ⟨by simpa [Cell.getCount, oneAt] using hlt, ?_⟩
  rw [value_oneAt hlt]
  exact Value.noConfusion

/-- The cells of a table without rowids keep each value in its column, whatever records they are and
whatever was assembled before, exactly when the key is a prefix of the declaration. -/
theorem rowAfter_holds_iff (t : KeyedTable) :
    (∀ (op : AssembleHandleOperator) (before : List Cell) (cell : Cell), t.Stores cell →
      t.Holds cell (rowAfter t.toDeclaration op before cell)) ↔
    t.key = List.range t.key.length := by
  rw [← storageIndex_eq_iff]
  constructor
  · intro hholds j hj
    by_contra hne
    have hcount : t.storageIndex j < (oneAt t.columns.length (t.storageIndex j)).getCount := by
      simpa [Cell.getCount, oneAt] using t.storageIndex_lt hj
    have hrow := hholds ⟨-1, none⟩ [] _ (t.stores_oneAt (t.storageIndex j)) j hj hcount
    have hlt : j < (oneAt t.columns.length (t.storageIndex j)).getCount := by
      simpa [Cell.getCount, oneAt] using hj
    rw [rowAfter_value _ _ _ _ hj, leftover_append, if_pos hlt, boundValue_eq, value_oneAt hj,
      if_neg (fun h => Value.noConfusion h.1), value_oneAt (t.storageIndex_lt hj),
      if_neg (Ne.symm hne), if_pos rfl] at hrow
    exact absurd hrow (by simp)
  · intro hindex op before cell hcell j hj hstored
    rw [hindex j hj] at hstored ⊢
    rw [rowAfter_value _ _ _ _ hj, leftover_append, if_pos hstored, boundValue_eq, if_neg]
    rintro ⟨hnull, hprimary⟩
    have hkey : j < t.key.length := by
      rw [storageIndex_eq_iff] at hindex
      have hmem := t.mem_key_of_integerPrimary hprimary.symm
      rwa [hindex, List.mem_range] at hmem
    exact (hcell.2 j hkey).2 hnull

/-- The table `names(name, id, PRIMARY KEY(id)) WITHOUT ROWID`. -/
def names : KeyedTable where
  columns := [⟨"name", .other, 0⟩, ⟨"id", .integer, 1⟩]
  iPKey := none
  withoutRowid := true
  nodup_names := by decide
  key := [1]
  noRowid := rfl
  noAlias := rfl
  nodup_key := by decide
  key_lt := by decide
  primary_spec := by
    intro j c hc
    match j with
    | 0 | 1 => rw [← Option.some.inj hc]; decide
    | j + 2 => simp at hc

/-- The record stores the key 1 and the name 0, and the row has the name 1 and the key 0. -/
theorem not_rowAfter_holds_names :
    names.Stores (oneAt 2 0) ∧
      (rowAfter names.toDeclaration ⟨-1, none⟩ [] (oneAt 2 0)).values = [.integer 1, .integer 0] ∧
      ¬names.Holds (oneAt 2 0) (rowAfter names.toDeclaration ⟨-1, none⟩ [] (oneAt 2 0)) := by
  refine ⟨names.stores_oneAt 0, by decide +kernel, fun hholds => ?_⟩
  exact absurd (hholds 0 (by decide) (by decide +kernel)) (by decide +kernel)

end KeyedTable

end Wcdb.Repair
