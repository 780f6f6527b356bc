import Wcdb.Core.FirstBinding

/-!
# Compressing the rows that are there

`CompressHandleOperator::compressRow` compresses the compressing columns of a row that is already
in the table, one after the other and in place: a column that is compressed is left alone or, with
`replaceCompression`, decompressed and compressed anew. Before a frame is taken it is decompressed
for a test, so that, unlike a binding, it never leaves a frame that cannot be read.

`StandsFor` says what a row of the table means: the values that were stored, with every
compressing column in one of the states of `StoredAs`. `compressRow_standsFor` is the invariant.
`cells_transparent` puts the routes that write a type column together.
-/

namespace Wcdb

variable (z : Zstd)

/-- `CompressionCenter::testContentCanBeDecompressed`. -/
def testContentCanBeDecompressed (data : List UInt8) (usingDict : Bool) : Bool :=
  match frameDictId z data usingDict with
  | none => false
  | some id => (z.decompress data id).isSome

/-- A compressing column and its places in the rows of the table. -/
structure PlacedColumn where
  info : CompressionColumnInfo
  columnIndex : ℕ
  typeColumnIndex : ℕ
  matchColumnIndex : ℕ := 2 ^ 16 - 1
  deriving DecidableEq, Repr

/-- `getTypeColumn()`. -/
def CompressionColumnInfo.typeColumn (info : CompressionColumnInfo) : String :=
  "WCDB_CT_" ++ info.column

/-- `CompressionTableInfo`, as far as the rows are concerned. The places are those of different
columns of the table. -/
structure CompressionTableInfo where
  columns : List PlacedColumn
  replaceCompression : Bool := false
  own : ∀ c ∈ columns, c.columnIndex ≠ c.typeColumnIndex
  apart : columns.Pairwise fun a b =>
    a.columnIndex ≠ b.columnIndex ∧ a.columnIndex ≠ b.typeColumnIndex ∧
      a.typeColumnIndex ≠ b.columnIndex ∧ a.typeColumnIndex ≠ b.typeColumnIndex

/-- Why `compressRow` fails. The last one is an error that the compression center reports. -/
inductive CompressRowError where
  | columnOutOfRange (column : String) (index : ℕ)
  | typeColumnOutOfRange (typeColumn : String) (index : ℕ)
  | matchColumnOutOfRange (matchColumn : String) (index : ℕ)
  | compressionCenter
  deriving DecidableEq, Repr

/-- The dictionary for a column of a row. -/
def PlacedColumn.dictionary (column : PlacedColumn) (row : List Value) :
    Except CompressRowError (CompressedType × ℕ) :=
  match column.info.compressionType with
  | .normal => .ok (.zstdNormal, 0)
  | .dict => .ok (.zstdDict, column.info.commonDictID)
  | .variousDict =>
      if row.length ≤ column.matchColumnIndex then
        .error (.matchColumnOutOfRange column.info.matchColumn column.matchColumnIndex)
      else
        let matchValue := row.getD column.matchColumnIndex .null
        .ok (.zstdDict, column.info.getMatchDictId matchValue.intValue)

/-- The second half of the loop of `compressRow`: the cell for text or a blob. -/
def compressValue (column : PlacedColumn) (row : List Value) (value : Value) :
    Except CompressRowError (Value × Value) :=
  match column.dictionary row with
  | .error e => .error e
  | .ok (toCompressedType, dictId) =>
      let data := value.blobValue
      match compressContent z data dictId with
      | none => .error .compressionCenter
      | some compressedValue =>
          if compressedValue.length < data.length then
            if testContentCanBeDecompressed z compressedValue (toCompressedType = .zstdDict) then
              .ok (.blob compressedValue,
                .integer (mergeCompressionType toCompressedType value.isText))
            else .error .compressionCenter
          else .ok (value, .integer (mergeCompressionType .none value.isText))

/-- The value before it was compressed. -/
def originalValue (value : Value) (compressedType : ℤ) : Option Value :=
  if compressedType / 2 = 0 then some value
  else (decompressContent z value.blobValue (compressedType / 2 = 1)).map
    (dataValue (compressedType % 2 = 0))

/-- The loop of `compressRow`, for one column. -/
def compressColumn (replaceCompression : Bool) (row : List Value) (column : PlacedColumn) :
    Except CompressRowError (List Value) :=
  if row.length ≤ column.columnIndex then
    .error (.columnOutOfRange column.info.column column.columnIndex)
  else if row.length ≤ column.typeColumnIndex then
    .error (.typeColumnOutOfRange column.info.typeColumn column.typeColumnIndex)
  else
    let value := row.getD column.columnIndex .null
    let compressedType := (row.getD column.typeColumnIndex .null).intValue
    if value.isData = false then
      .ok (row.set column.typeColumnIndex (.integer CompressedType.none.toInt))
    else if compressedType / 2 ≠ 0 ∧ replaceCompression = false then .ok row
    else
      match originalValue z value compressedType with
      | none => .error .compressionCenter
      | some value =>
          (compressValue z column (row.set column.columnIndex value) value).map fun cell =>
            (row.set column.columnIndex cell.1).set column.typeColumnIndex cell.2

/-- `CompressHandleOperator::compressRow`. -/
def compressRow (info : CompressionTableInfo) (row : List Value) :
    Except CompressRowError (List Value) :=
  info.columns.foldlM (compressColumn z info.replaceCompression) row

/-- The row stands for the values `logical`. What it has in a type column is no part of them. -/
structure StandsFor (info : CompressionTableInfo) (row : List Value) (logical : ℕ → Value) :
    Prop where
  cells : ∀ c ∈ info.columns, StoredAs z (logical c.columnIndex)
    (row.getD c.columnIndex .null) (row.getD c.typeColumnIndex .null)
  others : ∀ index, (∀ c ∈ info.columns, index ≠ c.columnIndex ∧ index ≠ c.typeColumnIndex) →
    row.getD index .null = logical index

variable {z}

/-! ### One cell -/

/-- A frame that passes the test was made with the dictionary that its type names. -/
theorem dictFits_of_test (hz : z.Lawful) {data frame : List UInt8} {d : CompressedType × ℕ}
    (htype : d.1 = .zstdDict ∨ d = (.zstdNormal, 0)) (hframe : z.compress data d.2 = some frame)
    (htest : testContentCanBeDecompressed z frame (d.1 = .zstdDict) = true) : DictFits d.1 d.2 := by
  rcases htype with htype | rfl
  · refine Or.inl ⟨htype, fun hid => ?_⟩
    have hdict := hz.frame_dict _ _ _ hframe
    rw [hid] at hdict
    simp [testContentCanBeDecompressed, frameDictId, htype, hdict] at htest
  · exact Or.inr ⟨rfl, rfl⟩

theorem PlacedColumn.dictionary_type {column : PlacedColumn} {row : List Value}
    {d : CompressedType × ℕ} (h : column.dictionary row = .ok d) :
    d.1 = .zstdDict ∨ d = (.zstdNormal, 0) := by
  rw [PlacedColumn.dictionary] at h
  split at h
  · cases h
    exact Or.inr rfl
  · cases h
    exact Or.inl rfl
  · split_ifs at h
    cases h
    exact Or.inl rfl

/-- **Text or a blob that is compressed in place stands for itself.** -/
theorem compressValue_storedAs (hz : z.Lawful) {column : PlacedColumn} {row : List Value}
    {value : Value} (hd : value.isData = true) {cell : Value × Value}
    (h : compressValue z column row value = .ok cell) : StoredAs z value cell.1 cell.2 := by
  simp only [compressValue] at h
  split at h
  · cases h
  next toCompressedType dictId hdict =>
  have htype := PlacedColumn.dictionary_type hdict
  -- the same cell would be bound
  have hencode : ∀ compressed, compressContent z value.blobValue dictId = some compressed →
      encodeCell z true toCompressedType dictId value.isText value.blobValue =
        some (if compressed.length < value.blobValue.length then
          (.blob compressed, .integer (mergeCompressionType toCompressedType value.isText))
        else (value, .integer (mergeCompressionType .none value.isText))) := by
    intro compressed hcompressed
    simp only [encodeCell, if_true, hcompressed, dataValue_of_isData hd]
    split_ifs <;> rfl
  split at h
  · cases h
  next compressed hcompressed =>
  have hcell := hencode compressed hcompressed
  have hstored := storedAs_of_fits (d := (toCompressedType, dictId)) hd hcell
  split_ifs at h hcell hstored with hshort htest
  · cases h
    refine hstored fun _ => ?_
    obtain ⟨-, frame, hframe, -, heq⟩ | ⟨-, hraw, -⟩ := encodeCell_cases hcell
    · cases heq
      exact dictFits_of_test hz htype hframe htest
    · obtain rfl : Value.blob compressed = value := hraw.trans (dataValue_of_isData hd)
      exact absurd hshort (lt_irrefl _)
  · cases h
    refine hstored fun hshrinks => ?_
    obtain ⟨-, frame, hframe, hlt, heq⟩ | ⟨hlong, -, -⟩ := encodeCell_cases hcell
    · obtain rfl : value = .blob frame := (Prod.ext_iff.mp heq).1
      exact absurd hlt (lt_irrefl _)
    · obtain ⟨hcan, frame, hframe, hlt⟩ := hshrinks
      exact absurd (hlong hcan frame hframe) (not_le.mpr hlt)

/-- A frame is decompressed to what it stands for. -/
theorem decompressContent_frame (hz : z.Lawful) {compressedType : CompressedType} {dictId : ℕ}
    (hfits : DictFits compressedType dictId) {data frame : List UInt8}
    (hframe : z.compress data dictId = some frame) :
    decompressContent z frame (compressedType = .zstdDict) = some data := by
  have hsize := hz.frame_sizeKnown _ _ _ hframe
  have hdict := hz.frame_dict _ _ _ hframe
  have hinverse := hz.inverse _ _ _ hframe
  rcases hfits with ⟨rfl, hid⟩ | ⟨rfl, rfl⟩
  · simp [decompressContent, frameDictId, hsize, hdict, hid, hz.frame_hasDict _ _ _ hframe hid,
      hinverse]
  · simp [decompressContent, frameDictId, hsize, hinverse]

/-- What the loop of `compressRow` finds in a cell that stands for text or a blob. -/
theorem StoredAs.origin (hz : z.Lawful) {v value type : Value} (h : StoredAs z v value type)
    (hd : value.isData = true) :
    v.isData = true ∧ originalValue z value type.intValue = some v := by
  cases h with
  | plain hd' type =>
    rw [hd'] at hd
    cases hd
  | raw htype => exact ⟨hd, by rw [originalValue, if_pos htype]⟩
  | @frame compressedType dictId isText data frame hframe hfits hv =>
    have hcontent := decompressContent_frame hz hfits hframe
    refine ⟨by rw [hv]; cases isText <;> rfl, ?_⟩
    rcases hfits with ⟨rfl, hid⟩ | ⟨rfl, rfl⟩
    · cases isText <;> simpa [originalValue, mergeCompressionType, CompressedType.toInt,
        Value.intValue, Value.blobValue, hv, dataValue] using hcontent
    · cases isText <;> simpa [originalValue, mergeCompressionType, CompressedType.toInt,
        Value.intValue, Value.blobValue, hv, dataValue] using hcontent

/-! ### A row -/

/-- What compressing a column does to a row: only the two places of the column change, and its
cell goes on to stand for the same value. -/
theorem compressColumn_spec (hz : z.Lawful) {replaceCompression : Bool} {row row' : List Value}
    {column : PlacedColumn} (hown : column.columnIndex ≠ column.typeColumnIndex) {v : Value}
    (h : StoredAs z v (row.getD column.columnIndex .null) (row.getD column.typeColumnIndex .null))
    (hok : compressColumn z replaceCompression row column = .ok row') :
    row'.length = row.length ∧
      StoredAs z v (row'.getD column.columnIndex .null) (row'.getD column.typeColumnIndex .null) ∧
      ∀ index, index ≠ column.columnIndex → index ≠ column.typeColumnIndex →
        row'.getD index .null = row.getD index .null := by
  simp only [compressColumn] at hok
  split_ifs at hok with hcolumn htype hd hleft
  · -- a value that is never compressed
    cases hok
    have hv : v = row.getD column.columnIndex .null := by
      have hreads :=
        wcdbDecompress_of_not_isData (z := z) hd (row.getD column.typeColumnIndex .null)
      exact Option.some.inj ((h.reads hz).symm.trans hreads)
    refine ⟨List.length_set, ?_, fun index _ hindex => ?_⟩
    · rw [List.getD_eq_getElem?_getD, List.getElem?_set_ne hown.symm, ← List.getD_eq_getElem?_getD,
        ← hv]
      exact .plain (hv ▸ hd) _
    · rw [List.getD_eq_getElem?_getD, List.getElem?_set_ne hindex.symm, List.getD_eq_getElem?_getD]
  · cases hok
    exact ⟨rfl, h, fun _ _ _ => rfl⟩
  · obtain ⟨hdata, horigin⟩ := h.origin hz (Bool.not_eq_false _ ▸ hd)
    simp only [horigin] at hok
    cases hcompress : compressValue z column (row.set column.columnIndex v) v with
    | error e =>
      rw [hcompress] at hok
      cases hok
    | ok cell =>
      rw [hcompress] at hok
      cases hok
      have hstored := compressValue_storedAs hz hdata hcompress
      refine ⟨by simp, ?_, fun index h₁ h₂ => ?_⟩
      · rw [List.getD_eq_getElem?_getD, List.getElem?_set_ne hown.symm,
          List.getElem?_set_self (not_le.mp hcolumn), List.getD_eq_getElem?_getD,
          List.getElem?_set_self (by simpa using htype)]
        exact hstored
      · rw [List.getD_eq_getElem?_getD, List.getElem?_set_ne h₂.symm, List.getElem?_set_ne h₁.symm,
          List.getD_eq_getElem?_getD]

/-- Compressing the columns one after the other. -/
theorem foldlM_compressColumn (hz : z.Lawful) {replaceCompression : Bool}
    {columns : List PlacedColumn} (hown : ∀ c ∈ columns, c.columnIndex ≠ c.typeColumnIndex)
    (hapart : columns.Pairwise fun a b =>
      a.columnIndex ≠ b.columnIndex ∧ a.columnIndex ≠ b.typeColumnIndex ∧
        a.typeColumnIndex ≠ b.columnIndex ∧ a.typeColumnIndex ≠ b.typeColumnIndex)
    {row row' : List Value} {logical : ℕ → Value}
    (h : ∀ c ∈ columns, StoredAs z (logical c.columnIndex)
      (row.getD c.columnIndex .null) (row.getD c.typeColumnIndex .null))
    (hok : columns.foldlM (compressColumn z replaceCompression) row = .ok row') :
    row'.length = row.length ∧
      (∀ c ∈ columns, StoredAs z (logical c.columnIndex)
        (row'.getD c.columnIndex .null) (row'.getD c.typeColumnIndex .null)) ∧
      ∀ index, (∀ c ∈ columns, index ≠ c.columnIndex ∧ index ≠ c.typeColumnIndex) →
        row'.getD index .null = row.getD index .null := by
  induction columns generalizing row with
  | nil =>
    cases hok
    exact ⟨rfl, by simp, fun _ _ => rfl⟩
  | cons column columns ih =>
    rw [List.foldlM_cons] at hok
    cases hstep : compressColumn z replaceCompression row column with
    | error e =>
      rw [hstep] at hok
      cases hok
    | ok row₁ =>
      rw [hstep] at hok
      obtain ⟨hahead, hapart⟩ := List.pairwise_cons.mp hapart
      obtain ⟨hlength₁, hcell₁, hothers₁⟩ :=
        compressColumn_spec hz (hown column List.mem_cons_self) (h column List.mem_cons_self) hstep
      obtain ⟨hlength, hcells, hothers⟩ :=
        ih (fun c hc => hown c (List.mem_cons_of_mem _ hc)) hapart
        (fun c hc => by
          obtain ⟨h₁, h₂, h₃, h₄⟩ := hahead c hc
          rw [hothers₁ _ h₁.symm h₃.symm, hothers₁ _ h₂.symm h₄.symm]
          exact h c (List.mem_cons_of_mem _ hc)) hok
      refine ⟨hlength.trans hlength₁, List.forall_mem_cons.mpr ⟨?_, hcells⟩, fun index hindex => ?_⟩
      · rw [hothers _ fun c hc => ⟨(hahead c hc).1, (hahead c hc).2.1⟩,
          hothers _ fun c hc => (hahead c hc).2.2]
        exact hcell₁
      · obtain ⟨⟨h₁, h₂⟩, hrest⟩ := List.forall_mem_cons.mp hindex
        rw [hothers index hrest, hothers₁ index h₁ h₂]

/-- **`compressRow` keeps what a row stands for.** -/
theorem compressRow_standsFor (hz : z.Lawful) {info : CompressionTableInfo} {row row' : List Value}
    {logical : ℕ → Value} (h : StandsFor z info row logical)
    (hok : compressRow z info row = .ok row') :
    StandsFor z info row' logical ∧ row'.length = row.length := by
  obtain ⟨hlength, hcells, hothers⟩ := foldlM_compressColumn hz info.own info.apart h.cells hok
  refine ⟨⟨hcells, fun index hindex => ?_⟩, hlength⟩
  rw [hothers index hindex, h.others index hindex]

/-! ### The routes together -/

/-- **Compression is transparent, cell by cell.** The first round of a fresh statement stores a
content so that it is read as it was bound exactly under the condition `StoredRight`, and then in a
state from which `compressRow` goes on; `compressRow` keeps every value without condition. -/
theorem cells_transparent (hz : z.Lawful) :
    (∀ (write : WriteSTMT) (columnInfos : List CompressionColumnInfo) (stmt : Statement),
      prepare write columnInfos = some stmt → ∀ r : Round, r.WellFormed stmt →
      ∀ rows s, round z stmt .fresh r = (some rows, s) → s.compressFail = false →
      ∀ (k : ℕ) (row : WrittenRow) (i : ℕ) (info : BindInfo) (v : Value), rows[k]? = some row →
        stmt.infos[i]? = some info → (info.columnBindIndex, v) ∈ r.binds →
          ∃ cell, row.cells[i]? = some cell ∧
            (wcdbDecompress z cell.1 cell.2 = some v ↔
              r.StoredRight z stmt (r.rows.getD k []) i info v) ∧
            (r.StoredRight z stmt (r.rows.getD k []) i info v → StoredAs z v cell.1 cell.2)) ∧
    ∀ (info : CompressionTableInfo) (row row' : List Value) (logical : ℕ → Value),
      StandsFor z info row logical → compressRow z info row = .ok row' →
        StandsFor z info row' logical ∧ ∀ c ∈ info.columns,
          wcdbDecompress z (row'.getD c.columnIndex .null) (row'.getD c.typeColumnIndex .null) =
            some (logical c.columnIndex) := by
  constructor
  · intro write columnInfos stmt hprepare r hr rows s hround hfail k row i info v hrow hi hv
    have hp := Statement.prepared_of_prepare hprepare
    obtain ⟨cell, hcell, hstored, hright⟩ :=
      storedRight_first_round hz hp hr hround hfail hrow hi hv
    exact ⟨cell, hcell, ⟨hright, fun h => (hstored h).reads hz⟩, hstored⟩
  · intro info row row' logical h hok
    obtain ⟨hstands, -⟩ := compressRow_standsFor hz h hok
    exact ⟨hstands, fun c hc => (hstands.cells c hc).reads hz⟩

/-- The first message is compressed with the dictionary of its type, and read as it was bound. -/
theorem transparent_firstMessage :
    ∃ cell, ((round runLength preparedInsertMessage .fresh (messageRound true 97)).1.bind
        fun rows => rows[0]?.bind fun row => row.cells[0]?) = some cell ∧
      cell = (.blob [1, 0, 97, 8], .integer 2) ∧
        wcdbDecompress runLength cell.1 cell.2 = some (.text (List.replicate 8 97)) := by
  obtain ⟨cell, hcell, hreads, -⟩ := (cells_transparent runLength_lawful).1 insertMessage
    [contentColumn] preparedInsertMessage prepare_insertMessage (messageRound true 97)
    (messageRound_wellFormed true 97) _ _ rfl rfl 0 _ 0 _ (.text (List.replicate 8 97)) rfl rfl
    List.mem_cons_self
  refine ⟨cell, hcell, ?_, hreads.mpr fun _ => ?_⟩
  · cases hcell
    decide +kernel
  · exact ⟨0, _, _, rfl, rfl, fun _ => ⟨rfl, Or.inl ⟨rfl, one_ne_zero⟩⟩⟩

/-- `INSERT INTO note(title, body) VALUES(?1, ?1)`, with two columns that compress on their own. -/
def insertTwice : WriteSTMT :=
  { isInsert := true
    columnsList := [["title"], ["body"]]
    expressions := [.item (.bindParameter 1), .item (.bindParameter 1)] }

/-- The columns of `insertTwice`. -/
def noteColumn (column : String) : CompressionColumnInfo := { column, compressionType := .normal }

/-- `insertTwice` as it is prepared. -/
def preparedInsertTwice : Statement :=
  { mode := .direct
    isInsert := true
    parameters := [1]
    maxBindIndex := 1
    infos := [{ columnInfo := noteColumn "title"
                columnParaIndex := some (0, 0)
                matchColumnParaIndex := none
                columnBindIndex := 1
                typeBindIndex := 2 },
              { columnInfo := noteColumn "body"
                columnParaIndex := some (1, 0)
                matchColumnParaIndex := none
                columnBindIndex := 1
                typeBindIndex := 3 }]
    targets := [] }

/-- Eight times the byte 97 for both columns. -/
def noteRound : Round :=
  { clear := false, can := true, rows := [], binds := [(1, .text (List.replicate 8 97))] }

/-- A parameter that is the content of two columns: the second one gets the frame without its
type. -/
theorem not_transparent_insertTwice :
    ¬∀ z : Zstd, z.Lawful → ∀ (write : WriteSTMT) (columnInfos : List CompressionColumnInfo)
      (stmt : Statement), prepare write columnInfos = some stmt → ∀ r : Round, r.WellFormed stmt →
      ∀ rows s, round z stmt .fresh r = (some rows, s) → s.compressFail = false →
      ∀ (k : ℕ) (row : WrittenRow) (i : ℕ) (info : BindInfo) (v : Value), rows[k]? = some row →
        stmt.infos[i]? = some info → (info.columnBindIndex, v) ∈ r.binds →
          ∃ cell, row.cells[i]? = some cell ∧ wcdbDecompress z cell.1 cell.2 = some v := by
  intro hall
  have hprepare : prepare insertTwice [noteColumn "title", noteColumn "body"] =
      some preparedInsertTwice := by decide +kernel
  have hwell : noteRound.WellFormed preparedInsertTwice := by
    refine ⟨List.Perm.refl _, fun info hinfo v hv => ?_⟩
    have hmatch : info.matchColumnBindIndex = 0 := by
      rcases hinfo with _ | ⟨_, _ | ⟨_, hinfo⟩⟩
      · rfl
      · rfl
      · cases hinfo
    rw [hmatch] at hv
    simp [noteRound] at hv
  obtain ⟨cell, hcell, hreads⟩ := hall runLength runLength_lawful insertTwice _ _ hprepare noteRound
    hwell _ _ rfl rfl 0 _ 1 _ (.text (List.replicate 8 97)) rfl rfl List.mem_cons_self
  cases hcell
  exact absurd hreads (by decide +kernel)

end Wcdb
