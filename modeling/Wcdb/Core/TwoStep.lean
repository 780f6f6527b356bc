import Wcdb.Core.CompressRow

/-!
# Compressing a written row in a second step

`ColumnCorrect` is what the second step should do: every compressing column goes on to read as it
did, and text and blobs without a type are compressed or marked as not compressible.

`columnCorrect_iff` is exact for rows on which the running offset stays right (`InStep`). Where a
column of various dictionaries is left as it is, the offset is one short for all columns after it:
they are overwritten with values of the columns before them. Some rows survive that (one of nulls
only), but every list of columns with a column of various dictionaries before its end has a row
that does not (`exists_not_columnCorrect`).
-/

namespace Wcdb

variable (z : Zstd)

/-- Compressed, or marked as not compressible. -/
def CompressedOrMarked (content : Value) (cell : Value × Value) : Prop :=
  (∃ frame compressedType, compressedType ≠ .none ∧ frame.length < content.blobValue.length ∧
    cell = (.blob frame, .integer (mergeCompressionType compressedType content.isText))) ∨
  cell.1 = content ∧ cell.2 = .integer (mergeCompressionType .none content.isText)

/-- What a column should be after the second step. -/
structure RowEntry.Kept (e : RowEntry) (cell : Value × Value) : Prop where
  reads : wcdbDecompress z cell.1 cell.2 = wcdbDecompress z e.content e.type
  done : e.Pending → CompressedOrMarked e.content cell

/-- If the second step succeeds, it leaves every column as it should be. -/
def ColumnCorrect (entries : List RowEntry) : Prop :=
  ∀ cells, stepSelectAndUpdateUncompressRow z entries = some cells →
    ∀ (i : ℕ) (e : RowEntry), entries[i]? = some e → ∃ cell, cells[i]? = some cell ∧ e.Kept z cell

/-- The compression center does not fail on the column. -/
def RowEntry.Compresses (e : RowEntry) : Prop :=
  e.Pending →
    (compressContent z e.content.blobValue (secondDictionary e.info e.matchValue).2).isSome = true

/-- If the content of the column becomes shorter, its dictionary id goes with its type. -/
def RowEntry.Fits (e : RowEntry) : Prop :=
  e.Pending → Shrinks z true (secondDictionary e.info e.matchValue).2 e.content →
    DictFits (secondDictionary e.info e.matchValue).1 (secondDictionary e.info e.matchValue).2

variable {z}

/-! ### In step -/

theorem secondDictionary_type (column : CompressionColumnInfo) (matchValue : Value) :
    (secondDictionary column matchValue).1 = .zstdDict ∨
      secondDictionary column matchValue = (.zstdNormal, 0) := by
  rw [secondDictionary, ownDictionary]
  split_ifs
  · exact Or.inl rfl
  · exact Or.inl rfl
  · exact Or.inr rfl

theorem encodeCell_eq_none_iff {compressedType : CompressedType} {dictId : ℕ} {isText : Bool}
    {data : List UInt8} :
    encodeCell z true compressedType dictId isText data = none ↔
      compressContent z data dictId = none := by
  cases hcompressed : compressContent z data dictId with
  | none => simp [encodeCell, hcompressed]
  | some compressed =>
    simp only [encodeCell, if_true, hcompressed]
    split_ifs <;> simp

theorem compressEntry_isSome_iff {e : RowEntry} :
    (compressEntry z e).isSome = true ↔ e.Compresses z := by
  rw [compressEntry, RowEntry.Compresses]
  split_ifs with hpending
  · simp only [hpending, forall_const, Option.isSome_iff_ne_none, ne_eq, encodeCell_eq_none_iff]
  · simp [hpending]

/-- A cell that was encoded is compressed or marked. -/
theorem compressedOrMarked_encodeCell {content : Value} (hd : content.isData = true)
    {d : CompressedType × ℕ} (htype : d.1 = .zstdDict ∨ d = (.zstdNormal, 0)) {cell : Value × Value}
    (h : encodeCell z true d.1 d.2 content.isText content.blobValue = some cell) :
    CompressedOrMarked content cell := by
  cases hcompressed : compressContent z content.blobValue d.2 with
  | none =>
    rw [encodeCell_eq_none_iff.mpr hcompressed] at h
    cases h
  | some compressed =>
    simp only [encodeCell, if_true, hcompressed, dataValue_of_isData hd] at h
    split_ifs at h with hshort
    · refine Or.inl ⟨compressed, d.1, ?_, hshort, (Option.some.inj h).symm⟩
      rcases htype with htype | rfl
      · simp [htype]
      · simp
    · cases Option.some.inj h
      exact Or.inr ⟨rfl, rfl⟩

/-- **What the second step leaves of a column**, if it finds it in its place. -/
theorem kept_compressEntry_iff (hz : z.Lawful) {e : RowEntry} {cell : Value × Value}
    (h : compressEntry z e = some cell) : e.Kept z cell ↔ e.Fits z := by
  rw [compressEntry] at h
  split_ifs at h with hpending
  · obtain ⟨hd, htype⟩ := hpending
    have hbefore : wcdbDecompress z e.content e.type = some e.content := by
      have hraw : StoredAs z e.content e.content e.type := .raw (by rw [htype]; rfl)
      exact hraw.reads hz
    constructor
    · intro hkept _ hshrinks
      exact fits_of_reads hz (secondDictionary_type e.info e.matchValue) h
        (hkept.reads.trans hbefore) hshrinks
    · intro hfits
      have hstored := storedAs_of_fits hd h (hfits ⟨hd, htype⟩)
      exact ⟨(hstored.reads hz).trans hbefore.symm, fun _ =>
        compressedOrMarked_encodeCell hd (secondDictionary_type e.info e.matchValue) h⟩
  · cases h
    exact ⟨fun _ h => absurd h hpending, fun _ => ⟨rfl, fun h => absurd h hpending⟩⟩

theorem mapM_isSome_iff {α β : Type} {f : α → Option β} {as : List α} :
    (as.mapM f).isSome = true ↔ ∀ a ∈ as, (f a).isSome = true := by
  induction as with
  | nil => simp
  | cons a as ih =>
    rw [List.mapM_cons, List.forall_mem_cons, ← ih]
    cases f a with
    | none => simp
    | some b => cases as.mapM f <;> simp

/-- **The second step on a row that is in step**: it does what it should exactly when the
dictionaries fit, or when it fails. -/
theorem columnCorrect_iff (hz : z.Lawful) {entries : List RowEntry}
    (hstep : RowEntry.InStep entries) :
    ColumnCorrect z entries ↔ ((∀ e ∈ entries, e.Compresses z) → ∀ e ∈ entries, e.Fits z) := by
  rw [ColumnCorrect, stepSelectAndUpdateUncompressRow_eq hstep]
  constructor
  · intro h hcompresses e he
    have hsome : (entries.mapM (compressEntry z)).isSome = true :=
      mapM_isSome_iff.mpr fun e he => compressEntry_isSome_iff.mpr (hcompresses e he)
    obtain ⟨cells, hcells⟩ := Option.isSome_iff_exists.mp hsome
    obtain ⟨i, hi⟩ := List.getElem?_of_mem he
    obtain ⟨cell, hcell, hentry⟩ := getElem?_of_mapM hcells hi
    obtain ⟨cell', hcell', hkept⟩ := h cells hcells i e hi
    obtain rfl : cell = cell' := Option.some.inj (hcell.symm.trans hcell')
    exact (kept_compressEntry_iff hz hentry).mp hkept
  · intro h cells hcells i e hi
    have hcompresses : ∀ e ∈ entries, e.Compresses z := fun e he =>
      compressEntry_isSome_iff.mp (mapM_isSome_iff.mp (by rw [hcells]; rfl) e he)
    obtain ⟨cell, hcell, hentry⟩ := getElem?_of_mapM hcells hi
    exact ⟨cell, hcell,
      (kept_compressEntry_iff hz hentry).mpr (h hcompresses e (List.mem_of_getElem? hi))⟩

/-! ### Out of step -/

/-- The loop over a row with nothing to compress copies what stands at the places that it
computes. -/
theorem compressColumns_of_not_isData {row : List Value}
    (hrow : ∀ k, (row.getD k .null).isData = false) (columns : List CompressionColumnInfo)
    (columnIndex preOffset : ℕ) :
    ∃ cells, compressColumns z row columns columnIndex preOffset = some cells ∧
      ∀ k, k < columns.length → ∃ type,
        cells[k]? = some (row.getD (2 * (columnIndex + k) + preOffset) .null, type) := by
  induction columns generalizing columnIndex with
  | nil => exact ⟨[], rfl, fun k hk => absurd hk (Nat.not_lt_zero k)⟩
  | cons column columns ih =>
    obtain ⟨cells, hcells, hget⟩ := ih (columnIndex + 1)
    have hstep : compressColumns z row (column :: columns) columnIndex preOffset =
        some ((row.getD (2 * columnIndex + preOffset) .null,
          .integer (row.getD (2 * columnIndex + preOffset + 1) .null).intValue) :: cells) := by
      rw [compressColumns]
      simp only [hrow, Bool.false_eq_true, false_and, if_false, hcells, Option.map_some]
    refine ⟨_, hstep, fun k hk => ?_⟩
    cases k with
    | zero => exact ⟨_, rfl⟩
    | succ k =>
      obtain ⟨type, htype⟩ := hget k (by simpa using hk)
      refine ⟨type, ?_⟩
      rw [List.getElem?_cons_succ, htype]
      congr 4
      omega

/-- A column of nulls. -/
private def emptyEntry (info : CompressionColumnInfo) : RowEntry := ⟨info, .null, .null, .null⟩

private theorem selected_emptyEntry (info : CompressionColumnInfo) :
    ∀ v ∈ (emptyEntry info).selected, v = .null := by
  intro v hv
  by_cases hvarious : info.compressionType = .variousDict
  · simpa [RowEntry.selected, emptyEntry, hvarious] using hv
  · simpa [RowEntry.selected, emptyEntry, hvarious] using hv

/-- Columns before the first one of various dictionaries have two values each. -/
private theorem length_selected {columns : List CompressionColumnInfo}
    (h : ∀ c ∈ columns, c.compressionType ≠ .variousDict) :
    ((columns.map emptyEntry).flatMap RowEntry.selected).length = 2 * columns.length := by
  induction columns with
  | nil => rfl
  | cons column columns ih =>
    obtain ⟨hne, hrest⟩ := List.forall_mem_cons.mp h
    rw [List.map_cons, List.flatMap_cons, List.length_append, ih hrest, RowEntry.selected,
      emptyEntry, if_neg hne]
    simp
    omega

/-- **A column of various dictionaries before the end of the list is a trap.** -/
theorem exists_not_columnCorrect {columns : List CompressionColumnInfo}
    (h : ∃ before column after, columns = before ++ column :: after ∧
      column.compressionType = .variousDict ∧ after ≠ []) :
    ∃ entries : List RowEntry, entries.map RowEntry.info = columns ∧ ¬ColumnCorrect z entries := by
  -- the first column of various dictionaries, and the one after it
  obtain ⟨before, column, next, after, rfl, hvarious, hbefore⟩ : ∃ before column next after,
      columns = before ++ column :: next :: after ∧ column.compressionType = .variousDict ∧
        ∀ c ∈ before, c.compressionType ≠ .variousDict := by
    obtain ⟨before, column, after, rfl, hvarious, hafter⟩ := h
    induction before with
    | nil =>
      obtain ⟨next, after, rfl⟩ := List.exists_cons_of_ne_nil hafter
      exact ⟨[], column, next, after, rfl, hvarious, by simp⟩
    | cons first before ih =>
      by_cases hfirst : first.compressionType = .variousDict
      · obtain ⟨next, rest, hrest⟩ := List.exists_cons_of_ne_nil
          (show before ++ column :: after ≠ [] by simp)
        exact ⟨[], first, next, rest, by simp [hrest], hfirst, by simp⟩
      · obtain ⟨before', column', next, after', heq, hvarious', hbefore'⟩ := ih
        exact ⟨first :: before', column', next, after', by simp [heq], hvarious',
          List.forall_mem_cons.mpr ⟨hfirst, hbefore'⟩⟩
  -- everything is null but the match value of that column
  let entries := before.map emptyEntry ++ ⟨column, .null, .null, .integer 1⟩ :: emptyEntry next ::
    after.map emptyEntry
  have hinfo : entries.map RowEntry.info = before ++ column :: next :: after := by
    simp [entries, emptyEntry, Function.comp_def]
  refine ⟨entries, hinfo, fun hcorrect => ?_⟩
  have hrow : ∀ k, ((entries.flatMap RowEntry.selected).getD k .null).isData = false := by
    have hall : ∀ v ∈ entries.flatMap RowEntry.selected, v = .null ∨ v = .integer 1 := by
      intro v hv
      obtain ⟨e, he, hv⟩ := List.mem_flatMap.mp hv
      have hcases : (∃ info, e = emptyEntry info) ∨ e = ⟨column, .null, .null, .integer 1⟩ := by
        simp only [entries, List.mem_append, List.mem_cons, List.mem_map] at he
        rcases he with ⟨info, -, rfl⟩ | rfl | rfl | ⟨info, -, rfl⟩
        · exact Or.inl ⟨info, rfl⟩
        · exact Or.inr rfl
        · exact Or.inl ⟨next, rfl⟩
        · exact Or.inl ⟨info, rfl⟩
      rcases hcases with ⟨info, rfl⟩ | rfl
      · exact Or.inl (selected_emptyEntry info v hv)
      · simpa [RowEntry.selected, hvarious] using hv
    intro k
    rw [List.getD_eq_getElem?_getD]
    cases hk : (entries.flatMap RowEntry.selected)[k]? with
    | none => rfl
    | some v => rcases hall v (List.mem_of_getElem? hk) with rfl | rfl <;> rfl
  obtain ⟨cells, hcells, hget⟩ := compressColumns_of_not_isData (z := z) hrow
    (entries.map RowEntry.info) 0 0
  -- the column after it is given the match value
  have hentry : entries[before.length + 1]? = some (emptyEntry next) := by
    simp [entries]
  obtain ⟨cell, hcell, hkept⟩ := hcorrect cells hcells _ _ hentry
  obtain ⟨type, htype⟩ := hget (before.length + 1) (by simp [hinfo])
  have hvalue : (entries.flatMap RowEntry.selected).getD (2 * (0 + (before.length + 1)) + 0) .null =
      .integer 1 := by
    have hlength := length_selected hbefore
    rw [List.flatMap_append, List.flatMap_cons, List.getD_eq_getElem?_getD,
      List.getElem?_append_right (by omega), hlength,
      show 2 * (0 + (before.length + 1)) + 0 - 2 * before.length = 2 by omega]
    simp [RowEntry.selected, hvarious]
  rw [hvalue] at htype
  obtain rfl : cell = (.integer 1, type) := Option.some.inj (hcell.symm.trans htype)
  have hreads := hkept.reads
  simp [wcdbDecompress, emptyEntry] at hreads

/-- **Where the second step is column-correct.** On a row that is in step it is, exactly when it
fails or the dictionaries fit; and no list of columns with one of various dictionaries before its
end is safe for every row. -/
theorem twoStep_columnCorrect (hz : z.Lawful) :
    (∀ entries : List RowEntry, RowEntry.InStep entries → (ColumnCorrect z entries ↔
      ((∀ e ∈ entries, e.Compresses z) → ∀ e ∈ entries, e.Fits z))) ∧
    ∀ columns : List CompressionColumnInfo, (∃ before column after,
      columns = before ++ column :: after ∧ column.compressionType = .variousDict ∧ after ≠ []) →
        ∃ entries : List RowEntry, entries.map RowEntry.info = columns ∧ ¬ColumnCorrect z entries :=
  ⟨fun _ hstep => columnCorrect_iff hz hstep, fun _ h => exists_not_columnCorrect h⟩

/-- A message with a content for the dictionary of its type and a body that compresses on its own;
neither has a type yet. -/
def messageRow (content : Value) : List RowEntry :=
  [⟨contentColumn, content, .null, .integer 7⟩,
    ⟨noteColumn "body", .text (List.replicate 8 98), .null, .null⟩]

/-- A content that is compressed keeps the loop in step. -/
theorem columnCorrect_messageRow :
    ColumnCorrect runLength (messageRow (.text (List.replicate 8 97))) ∧
      stepSelectAndUpdateUncompressRow runLength (messageRow (.text (List.replicate 8 97))) =
        some [(.blob [1, 0, 97, 8], .integer 2), (.blob [0, 0, 98, 8], .integer 4)] := by
  have hstep : RowEntry.InStep (messageRow (.text (List.replicate 8 97))) := by
    refine ⟨fun _ hpending => absurd ⟨rfl, rfl⟩ hpending, fun h => ?_, trivial⟩
    cases h
  refine ⟨((twoStep_columnCorrect runLength_lawful).1 _ hstep).mpr fun _ => ?_, by decide +kernel⟩
  refine List.forall_mem_cons.mpr ⟨fun _ _ => ?_, List.forall_mem_singleton.mpr fun _ _ => ?_⟩
  · exact Or.inl ⟨rfl, one_ne_zero⟩
  · exact Or.inr ⟨rfl, rfl⟩

/-- A content that is null: the body is overwritten with the type of the message. -/
theorem not_columnCorrect_messageRow :
    stepSelectAndUpdateUncompressRow runLength (messageRow .null) =
        some [(.null, .integer 0), (.integer 7, .integer 0)] ∧
      ¬∀ z : Zstd, z.Lawful → ∀ entries : List RowEntry, ColumnCorrect z entries := by
  have hstep : stepSelectAndUpdateUncompressRow runLength (messageRow .null) =
      some [(.null, .integer 0), (.integer 7, .integer 0)] := by decide +kernel
  refine ⟨hstep, fun hall => ?_⟩
  obtain ⟨cell, hcell, hkept⟩ := hall runLength runLength_lawful (messageRow .null) _ hstep 1 _ rfl
  cases hcell
  exact absurd hkept.reads (by decide +kernel)

end Wcdb
