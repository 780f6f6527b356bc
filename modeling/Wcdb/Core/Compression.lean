import Mathlib.Data.List.Basic
import Mathlib.Data.Nat.Bitwise

/-!
# Compressed cells

A compressing column keeps its content in the column itself and, in a second column, an integer
that says how the content was compressed and whether it was text. `encodeCell` is the piece of
code that every writer repeats: compress, keep the frame if it is shorter, and choose the type.
`wcdbDecompress` is the SQL function that reads a cell back.

The compression library is a parameter, `Zstd`; `Zstd.Lawful` states what the code relies on:
a frame is not empty, records its size and its dictionary, and decompresses to what was
compressed.
`wcdbDecompress_encodeCell` is the round trip of one cell. It needs a dictionary id other than
zero where the type says that a dictionary was used: the id zero selects compression **without**
dictionary, and the reader then refuses the frame.
-/

namespace Wcdb

/-- `Value`: a value of SQLite. A double is known by its bits. -/
inductive Value where
  | null
  | integer (n : ℤ)
  | float (bits : UInt64)
  | text (bytes : List UInt8)
  | blob (bytes : List UInt8)
  deriving DecidableEq, Repr

namespace Value

/-- Text and blobs are what is compressed. -/
def isData : Value → Bool
  | .text _ => true
  | .blob _ => true
  | _ => false

/-- The decimal digits of a number, after those in `acc`. `fuel` bounds their count. -/
def digits : ℕ → ℕ → List UInt8 → List UInt8
  | 0, _, acc => acc
  | fuel + 1, n, acc =>
      let acc := UInt8.ofNat (48 + n % 10) :: acc
      if n / 10 = 0 then acc else digits fuel (n / 10) acc

/-- `StringView::formatted("%lld", n)`. -/
def formatted (n : ℤ) : List UInt8 :=
  if n < 0 then 45 :: digits 20 n.natAbs [] else digits 20 n.natAbs []

/-- The digits at the front. -/
def leadingNumber : List UInt8 → ℤ → ℤ
  | [], acc => acc
  | b :: bytes, acc =>
      if 48 ≤ b ∧ b ≤ 57 then leadingNumber bytes (acc * 10 + (b.toNat - 48)) else acc

/-- `atoll`, on numbers in range: white space, a sign, digits. -/
def atoll : List UInt8 → ℤ
  | [] => 0
  | b :: bytes =>
      if b = 32 ∨ (9 ≤ b ∧ b ≤ 13) then atoll bytes
      else if b = 45 then -leadingNumber bytes 0
      else if b = 43 then leadingNumber bytes 0
      else leadingNumber (b :: bytes) 0

/-- A double as a 64-bit integer: the fraction is cut off, and a number out of range becomes the
nearest one in range. -/
def truncated (bits : UInt64) : ℤ :=
  let exponent := bits.toNat / 2 ^ 52 % 2 ^ 11
  let significand : ℤ := 2 ^ 52 + (bits.toNat % 2 ^ 52 : ℕ)
  let magnitude := if exponent < 1023 then 0 else significand * 2 ^ (exponent - 1023) / 2 ^ 52
  if bits.toNat < 2 ^ 63 then min magnitude (2 ^ 63 - 1) else max (-magnitude) (-2 ^ 63)

/-- `Value::intValue`. -/
def intValue : Value → ℤ
  | .integer n => n
  | .float bits => truncated bits
  | .text bytes => atoll bytes
  | .blob bytes => atoll bytes
  | _ => 0

/-- `Value::blobValue`; a double is never asked for it here. -/
def blobValue : Value → List UInt8
  | .integer n => formatted n
  | .text bytes => bytes
  | .blob bytes => bytes
  | _ => []

/-- The value that a cached value is bound as: text stays text, everything else is a blob. -/
def restored : Value → Value
  | .text bytes => .text bytes
  | v => .blob v.blobValue

theorem restored_of_isData {v : Value} (h : v.isData = true) : v.restored = v := by
  cases v with
  | null => cases h
  | integer n => cases h
  | float bits => cases h
  | text bytes => rfl
  | blob bytes => rfl

theorem isData_restored (v : Value) : v.restored.isData = true := by
  cases v <;> rfl

theorem restored_eq_text_or_blob (v : Value) :
    v.restored = .text v.blobValue ∨ v.restored = .blob v.blobValue := by
  cases v
  case text bytes => exact Or.inl rfl
  all_goals exact Or.inr rfl

end Value

/-! ### The type of a compressed cell -/

/-- `CompressedType`. -/
inductive CompressedType where
  | none
  | zstdDict
  | zstdNormal
  deriving DecidableEq, Repr

/-- The number of a compressed type. -/
def CompressedType.toInt : CompressedType → ℤ
  | .none => 0
  | .zstdDict => 1
  | .zstdNormal => 2

/-- `WCDBMergeCompressionType`. -/
def mergeCompressionType (compressedType : CompressedType) (isText : Bool) : ℤ :=
  compressedType.toInt * 2 + if isText then 0 else 1

/-! ### The compression library -/

/-- What the code uses of the compression library and of the registered dictionaries. `compress`
with the id zero uses no dictionary; it fails on an unknown or damaged dictionary, for want of
memory, and where the library reports an error. -/
structure Zstd where
  compress : List UInt8 → ℕ → Option (List UInt8)
  /-- `ZSTD_getFrameContentSize` knows the size of the content, and there is memory for it. -/
  sizeKnown : List UInt8 → Bool
  /-- `ZSTD_getDictID_fromFrame`. -/
  frameDict : List UInt8 → ℕ
  /-- `getDict` finds a dictionary. -/
  hasDict : ℕ → Bool
  /-- Decompression with a dictionary, or without one for the id zero. -/
  decompress : List UInt8 → ℕ → Option (List UInt8)

/-- What the code relies on. -/
structure Zstd.Lawful (z : Zstd) : Prop where
  frame_ne_nil : ∀ data id frame, z.compress data id = some frame → frame ≠ []
  frame_sizeKnown : ∀ data id frame, z.compress data id = some frame → z.sizeKnown frame = true
  frame_dict : ∀ data id frame, z.compress data id = some frame → z.frameDict frame = id
  frame_hasDict : ∀ data id frame, z.compress data id = some frame → id ≠ 0 → z.hasDict id = true
  inverse : ∀ data id frame, z.compress data id = some frame → z.decompress frame id = some data

variable (z : Zstd)

/-- `CompressionCenter::compressContent`. -/
def compressContent (data : List UInt8) (dictId : ℕ) : Option (List UInt8) :=
  if data = [] then some data
  else
    match z.compress data dictId with
    | none => none
    | some frame => if data.length ≤ frame.length then some data else some frame

/-- The id of the dictionary of a frame, zero for none. `none` is an error: the size of the content
or the dictionary is not known. -/
def frameDictId (data : List UInt8) (usingDict : Bool) : Option ℕ :=
  if z.sizeKnown data = false then none
  else if usingDict then
    if z.frameDict data = 0 ∨ z.hasDict (z.frameDict data) = false then none
    else some (z.frameDict data)
  else some 0

/-- `CompressionCenter::decompressContent`. A frame that is damaged decompresses to nothing. -/
def decompressContent (data : List UInt8) (usingDict : Bool) : Option (List UInt8) :=
  (frameDictId z data usingDict).map fun id => (z.decompress data id).getD []

/-- Text or a blob. -/
def dataValue (isText : Bool) (bytes : List UInt8) : Value :=
  if isText then .text bytes else .blob bytes

/-- `wcdb_decompress`; `none` is an error result. -/
def wcdbDecompress (value type : Value) : Option Value :=
  let type := type.intValue
  let compressionType := type / 2
  match value with
  | .blob data =>
      if compressionType ≤ 0 ∨ 2 < compressionType ∨ data = [] then some value
      else (decompressContent z data (compressionType = 1)).map (dataValue (type % 2 = 0))
  | _ => some value

/-- The content and the type that are bound for text or a blob. `can` is
`canCompressNewData()`; the result is `none` when compression fails. -/
def encodeCell (can : Bool) (compressedType : CompressedType) (dictId : ℕ) (isText : Bool)
    (data : List UInt8) : Option (Value × Value) :=
  let compressedValue := if can then compressContent z data dictId else some data
  match compressedValue with
  | none => none
  | some compressed =>
      if compressed.length < data.length then
        some (.blob compressed, .integer (mergeCompressionType compressedType isText))
      else if can then
        some (dataValue isText data, .integer (mergeCompressionType .none isText))
      else some (dataValue isText data, .null)

/-- The id zero goes with the type that names no dictionary. -/
def DictFits (compressedType : CompressedType) (dictId : ℕ) : Prop :=
  compressedType = .zstdDict ∧ dictId ≠ 0 ∨ compressedType = .zstdNormal ∧ dictId = 0

variable {z}

/-- Data that is stored as it is. -/
theorem wcdbDecompress_raw (isText : Bool) (data : List UInt8) {type : Value}
    (htype : type.intValue / 2 = 0) :
    wcdbDecompress z (dataValue isText data) type = some (dataValue isText data) := by
  cases isText with
  | true => rfl
  | false => simp [wcdbDecompress, dataValue, htype]

/-- What is bound for text or a blob: a frame that is shorter, or the data as it is. -/
theorem encodeCell_cases {can : Bool} {compressedType : CompressedType} {dictId : ℕ} {isText : Bool}
    {data : List UInt8} {cell : Value × Value}
    (h : encodeCell z can compressedType dictId isText data = some cell) :
    (can = true ∧ ∃ frame, z.compress data dictId = some frame ∧ frame.length < data.length ∧
      cell = (.blob frame, .integer (mergeCompressionType compressedType isText))) ∨
    ((can = true → ∀ frame, z.compress data dictId = some frame → data.length ≤ frame.length) ∧
      cell.1 = dataValue isText data ∧ cell.2.intValue / 2 = 0) := by
  cases can with
  | false =>
    simp only [encodeCell, Bool.false_eq_true, if_false, lt_irrefl, Option.some.injEq] at h
    subst h
    exact Or.inr ⟨by simp, rfl, rfl⟩
  | true =>
    have htype : (mergeCompressionType .none isText) / 2 = 0 := by cases isText <;> rfl
    simp only [encodeCell, if_true, compressContent] at h
    split_ifs at h with hnil
    · subst hnil
      simp only [List.length_nil, lt_irrefl, if_false, Option.some.injEq] at h
      subst h
      exact Or.inr ⟨by simp, rfl, htype⟩
    · cases hframe : z.compress data dictId with
      | none => simp [hframe] at h
      | some frame =>
        simp only [hframe] at h
        split_ifs at h with hlong
        · simp only [lt_irrefl, if_false, Option.some.injEq] at h
          subst h
          exact Or.inr ⟨by simpa [hframe] using hlong, rfl, htype⟩
        · simp only [if_pos (not_le.mp hlong), Option.some.injEq] at h
          exact Or.inl ⟨rfl, frame, rfl, not_le.mp hlong, h.symm⟩

/-- A frame is read back as what was compressed. -/
theorem wcdbDecompress_frame (hz : z.Lawful) {compressedType : CompressedType} {dictId : ℕ}
    (hfits : DictFits compressedType dictId) {isText : Bool} {data frame : List UInt8}
    (hframe : z.compress data dictId = some frame) :
    wcdbDecompress z (.blob frame) (.integer (mergeCompressionType compressedType isText)) =
      some (dataValue isText data) := by
  have hne := hz.frame_ne_nil _ _ _ hframe
  have hsize := hz.frame_sizeKnown _ _ _ hframe
  have hdict := hz.frame_dict _ _ _ hframe
  have hinverse := hz.inverse _ _ _ hframe
  rcases hfits with ⟨rfl, hid⟩ | ⟨rfl, rfl⟩
  · have hhas := hz.frame_hasDict _ _ _ hframe hid
    cases isText <;> simp [wcdbDecompress, mergeCompressionType, CompressedType.toInt,
      Value.intValue, hne, decompressContent, frameDictId, hsize, hdict, hid, hhas, hinverse,
      dataValue]
  · cases isText <;> simp [wcdbDecompress, mergeCompressionType, CompressedType.toInt,
      Value.intValue, hne, decompressContent, frameDictId, hsize, hinverse, dataValue]

/-- A value that is not text or a blob is stored as it is. -/
theorem wcdbDecompress_of_not_isData {v : Value} (h : v.isData = false) (type : Value) :
    wcdbDecompress z v type = some v := by
  cases v with
  | blob bytes => cases h
  | null => rfl
  | integer n => rfl
  | float bits => rfl
  | text bytes => cases h

variable (z) in
/-- The states of a cell that stands for `v`: the value as it is, with a type that says so or, for
a value that is never compressed, with any type; or a frame of it. -/
inductive StoredAs (v : Value) : Value → Value → Prop where
  | plain (hd : v.isData = false) (type : Value) : StoredAs v v type
  | raw {type : Value} (htype : type.intValue / 2 = 0) : StoredAs v v type
  | frame {compressedType : CompressedType} {dictId : ℕ} {isText : Bool} {data frame : List UInt8}
      (hframe : z.compress data dictId = some frame) (hfits : DictFits compressedType dictId)
      (hv : v = dataValue isText data) :
      StoredAs v (.blob frame) (.integer (mergeCompressionType compressedType isText))

/-- **A cell that stands for a value reads as that value.** -/
theorem StoredAs.reads (hz : z.Lawful) {v value type : Value} (h : StoredAs z v value type) :
    wcdbDecompress z value type = some v := by
  cases h with
  | plain hd type => exact wcdbDecompress_of_not_isData hd type
  | raw htype =>
    cases v with
    | blob data => exact wcdbDecompress_raw false data htype
    | text data => rfl
    | null => rfl
    | integer n => rfl
    | float bits => rfl
  | frame hframe hfits hv =>
    rw [hv]
    exact wcdbDecompress_frame hz hfits hframe

/-- What is bound for text or a blob stands for it. -/
theorem storedAs_encodeCell {can : Bool} {compressedType : CompressedType} {dictId : ℕ}
    {isText : Bool} {data : List UInt8} {cell : Value × Value}
    (h : encodeCell z can compressedType dictId isText data = some cell)
    (hfits : ∀ frame, can = true → z.compress data dictId = some frame →
      frame.length < data.length → DictFits compressedType dictId) :
    StoredAs z (dataValue isText data) cell.1 cell.2 := by
  obtain ⟨hcan, frame, hframe, hshort, rfl⟩ | ⟨-, hraw, htype⟩ := encodeCell_cases h
  · exact .frame hframe (hfits frame hcan hframe hshort) rfl
  · rw [hraw]
    exact .raw htype

/-- **A cell is read back as it was bound.** -/
theorem wcdbDecompress_encodeCell (hz : z.Lawful) {can : Bool} {compressedType : CompressedType}
    {dictId : ℕ} (hfits : DictFits compressedType dictId) {isText : Bool} {data : List UInt8}
    {cell : Value × Value} (h : encodeCell z can compressedType dictId isText data = some cell) :
    wcdbDecompress z cell.1 cell.2 = some (dataValue isText data) :=
  (storedAs_encodeCell h fun _ _ _ _ => hfits).reads hz

/-! ### Compressing columns -/

/-- `CompressionType`: how a column compresses. -/
inductive CompressionType where
  | normal
  | dict
  | variousDict
  deriving DecidableEq, Repr

/-- What the writers read of `CompressionColumnInfo`. Only a column of various dictionaries has a
match column; the others have an empty name there. -/
structure CompressionColumnInfo where
  column : String
  matchColumn : String := ""
  compressionType : CompressionType
  commonDictID : ℕ := 0
  matchDicts : List (ℤ × ℕ) := []
  deriving DecidableEq, Repr

/-- `getMatchDictId`. -/
def CompressionColumnInfo.getMatchDictId (info : CompressionColumnInfo) (matchValue : ℤ) : ℕ :=
  (info.matchDicts.lookup matchValue).getD info.commonDictID

end Wcdb
