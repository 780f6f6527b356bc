import Wcdb.Base.FileHandle
import Wcdb.Repair.Page

/-!
# Cells

`Cell::doInitialize` decodes one cell of a page: the left child of an interior page, the size of
the payload, the rowid of a table, the payload itself, which may continue on a chain of overflow
pages, and the header of the record, from which the serial type and the offset of every column
follow. The accessors then read single columns.

The `int` variables of the source are integers here, and every cast from `uint64_t` to `int` is
`int32`.
-/

namespace Wcdb.Repair

open Deserialization

/-- The value of a column. A real is given by its 64 bits. -/
inductive Value where
  | null
  | integer (i : ℤ)
  | real (bits : ℕ)
  | text (bytes : List UInt8)
  | blob (bytes : List UInt8)
  deriving DecidableEq, Repr

/-- An initialised cell: `columns` holds the serial type and the offset of each column. -/
structure Cell where
  leftChild : ℤ
  rowid : ℤ
  payload : List UInt8
  columns : List (ℤ × ℤ)
  deriving DecidableEq, Repr

namespace Cell

def isSerialTypeSanity (serialType : ℤ) : Bool :=
  0 ≤ serialType ∧ serialType ≠ 10 ∧ serialType ≠ 11

def lengthsOfSerialType : List ℤ := [0, 1, 2, 3, 4, 6, 8, 8, 0, 0]

def getLengthOfSerialType (serialType : ℤ) : ℤ :=
  if serialType ≤ 10 then lengthsOfSerialType.getD serialType.toNat 0
  else (serialType - 12 - serialType.tmod 2).tdiv 2

/-- The loop over the overflow pages: the next page number and the payload so far. Every round
adds at least one byte, so that `fuel` may be the size of the payload. -/
def copyOverflow (p : Pager) (payloadSize : ℤ) :
    ℕ → ℤ → List ℤ → List UInt8 → Option (ℤ × List UInt8)
  | 0, overflowPageno, _, payload => some (overflowPageno, payload)
  | fuel + 1, overflowPageno, overflowPagenos, payload =>
    if 0 < overflowPageno ∧ payload.length < payloadSize then
      if overflowPageno ∈ overflowPagenos then none
      else if p.numberOfPages < overflowPageno then none
      else
        match p.acquirePageData overflowPageno with
        | none => none
        | some overflow =>
          let overflowSize := min (payloadSize - payload.length) (p.usableSize - 4)
          copyOverflow p payloadSize fuel (get4BytesInt overflow)
            (overflowPageno :: overflowPagenos)
            (payload ++ (overflow.drop 4).take overflowSize.toNat)
    else some (overflowPageno, payload)

/-- The size of the part of the payload that lies on the page. -/
def localPayloadSize (p : Pager) (type : PageType) (payloadSize : ℤ) : ℤ :=
  if payloadSize < type.maxLocal p then payloadSize
  else
    let k := PageType.minLocal p + (payloadSize - PageType.minLocal p).tmod (p.usableSize - 4)
    if k ≤ type.maxLocal p then k else PageType.minLocal p

/-- `subdata` of an `int` and an `int`. -/
def subdata (data : List UInt8) (offset size : ℤ) : List UInt8 :=
  if 0 ≤ offset ∧ 0 ≤ size then Wcdb.subdata data offset.toNat size.toNat else []

/-- The payload of the cell, from its offset on the page. `d` stands there. -/
def readPayload (p : Pager) (type : PageType) (d : Deserialization)
    (offsetOfPayload payloadSize : ℤ) :
    Option (List UInt8) :=
  let localSize := localPayloadSize p type payloadSize
  if !d.canAdvance (localSize % 2 ^ 64).toNat then none
  else if localSize < payloadSize then
    let d := d.seek (offsetOfPayload + localSize)
    if !d.canAdvance 4 then none
    else
      match copyOverflow p payloadSize payloadSize.toNat (get4BytesInt (d.data.drop d.cursor)) []
          (subdata d.data offsetOfPayload localSize) with
      | none => none
      | some (overflowPageno, payload) =>
        if overflowPageno ≠ 0 ∨ payload.length ≠ payloadSize then none else some payload
  else some (subdata d.data offsetOfPayload localSize)

/-- The loop over the serial types: the cursors at its end, and the columns. Every round reads
at least one byte of the header, so that `fuel` may be its size. -/
def parseColumns (payload : List UInt8) (endOfSerialTypes endOfValues : ℤ) :
    ℕ → ℤ → ℤ → Option (ℤ × ℤ × List (ℤ × ℤ))
  | 0, cursorOfSerialTypes, cursorOfValues => some (cursorOfSerialTypes, cursorOfValues, [])
  | fuel + 1, cursorOfSerialTypes, cursorOfValues =>
    if cursorOfSerialTypes < endOfSerialTypes then
      let d := (Deserialization.mk payload 0 0).seek cursorOfSerialTypes
      let ((lengthOfSerialType, value), _) := d.advanceVarint
      let serialType := int32 value
      if lengthOfSerialType = 0 then none
      else if !isSerialTypeSanity serialType then none
      else
        let nextOfValues := cursorOfValues + getLengthOfSerialType serialType
        if endOfValues < nextOfValues then none
        else do
          let (cursorOfSerialTypes, cursorOfValues',
            columns) ← parseColumns payload endOfSerialTypes
            endOfValues fuel (cursorOfSerialTypes + lengthOfSerialType) nextOfValues
          return (cursorOfSerialTypes, cursorOfValues', (serialType, cursorOfValues) :: columns)
    else some (cursorOfSerialTypes, cursorOfValues, [])

/-- The columns of a record. -/
def readColumns (payload : List UInt8) (payloadSize : ℤ) : Option (List (ℤ × ℤ)) := do
  let ((lengthOfOffsetOfValues, value), _) := (Deserialization.mk payload 0 0).advanceVarint
  if lengthOfOffsetOfValues = 0 then none
  let offsetOfValues := int32 value
  let (cursorOfSerialTypes, cursorOfValues,
    columns) ← parseColumns payload offsetOfValues payloadSize
    offsetOfValues.toNat lengthOfOffsetOfValues offsetOfValues
  if cursorOfSerialTypes ≠ offsetOfValues ∨ cursorOfValues ≠ payloadSize then none
  return columns

/-- `Cell::doInitialize`, for the cell at `pointer` of a page with the type and the bytes given;
`none` when it returns `false`. The page is not an interior page of a table. -/
def doInitialize (p : Pager) (type : PageType) (data : List UInt8) (pointer : ℤ) : Option Cell := do
  let d := (Deserialization.mk data 0 0).seek pointer
  -- The left child.
  if !type.isLeafPage && !d.canAdvance 4 then none
  let leftChild := if type.isLeafPage then 0 else get4BytesInt (d.data.drop d.cursor)
  let offsetOfPayload := if type.isLeafPage then pointer else pointer + 4
  let d := if type.isLeafPage then d else d.advance 4
  -- The size of the payload.
  let ((lengthOfPayloadSize, size), d) := d.advanceVarint
  if lengthOfPayloadSize = 0 then none
  let payloadSize := int32 size
  let offsetOfPayload := offsetOfPayload + lengthOfPayloadSize
  -- The rowid.
  let ((lengthOfRowid, rowid), d) := if type.isTablePage then d.advanceVarint else ((0, 0), d)
  if type.isTablePage ∧ lengthOfRowid = 0 then none
  let offsetOfPayload := offsetOfPayload + lengthOfRowid
  let payload ← readPayload p type d offsetOfPayload payloadSize
  let columns ← readColumns payload payloadSize
  return ⟨leftChild, offset rowid, payload, columns⟩

/-! ### Accessors -/

/-- `Cell::Type`. -/
inductive ValueType where
  | null
  | integer
  | real
  | text
  | blob
  deriving DecidableEq, Repr

def getCount (c : Cell) : ℕ := c.columns.length

/-- The serial type and the offset of a column. Every caller has checked the index. -/
def column (c : Cell) (index : ℕ) : ℤ × ℤ := c.columns.getD index (0, 0)

def getValueType (c : Cell) (index : ℕ) : ValueType :=
  let serialType := (c.column index).1
  if serialType = 0 then .null
  else if serialType = 7 then .real
  else if serialType ≤ 10 then .integer
  else if serialType.tmod 2 ≠ 0 then .text else .blob

/-- The bytes from the offset of a column on. -/
def bytesFrom (c : Cell) (index : ℕ) : List UInt8 := c.payload.drop (c.column index).2.toNat

def integerValue (c : Cell) (index : ℕ) : ℤ :=
  let serialType := (c.column index).1
  if serialType = 8 then 0
  else if serialType = 9 then 1
  else
    let length := getLengthOfSerialType serialType
    if length = 1 then get1ByteInt (c.bytesFrom index)
    else if length = 2 then get2BytesInt (c.bytesFrom index)
    else if length = 3 then get3BytesInt (c.bytesFrom index)
    else if length = 4 then get4BytesInt (c.bytesFrom index)
    else if length = 6 then get6BytesInt (c.bytesFrom index)
    else if length = 8 then get8BytesInt (c.bytesFrom index)
    else 0

/-- The bits of `doubleValue`. -/
def doubleValue (c : Cell) (index : ℕ) : ℕ := get8Bytes (c.bytesFrom index)

def textValue (c : Cell) (index : ℕ) : List UInt8 :=
  (c.bytesFrom index).take (getLengthOfSerialType (c.column index).1).toNat

def blobValue (c : Cell) (index : ℕ) : List UInt8 :=
  (c.bytesFrom index).take (getLengthOfSerialType (c.column index).1).toNat

/-- A column through the accessor of its type, as the callers read it. -/
def value (c : Cell) (index : ℕ) : Value :=
  match c.getValueType index with
  | .null => .null
  | .integer => .integer (c.integerValue index)
  | .real => .real (c.doubleValue index)
  | .text => .text (c.textValue index)
  | .blob => .blob (c.blobValue index)

end Cell

end Wcdb.Repair
