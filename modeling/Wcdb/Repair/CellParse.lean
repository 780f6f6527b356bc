import Wcdb.Base.CheckedReads
import Wcdb.Repair.Master
import Wcdb.Repair.PageParse

/-!
# Parsing a cell from any bytes

`Cell.parse` is `Cell::doInitialize` with every access to a byte and every sum of `int` checked, and
the accessors and the crawlers of the master table and the sequence table are checked likewise.

A payload size that is negative as an `int` passes the check of the local payload when its absolute
value is at most the offset of the payload, and `subdata` then hands out a `View` whose size is
nearly `2 ^ 64`: its checks guard nothing.
-/

namespace Wcdb.Repair

open Deserialization

/-! ### Views -/

/-- The bytes of a `Deserialization`: they begin at `base` in a page or a buffer, and the checks go
by `size`. -/
structure View where
  memory : List UInt8
  base : ℕ
  size : ℕ

namespace View

/-- `if (!isEnough((size_t) offset + k + 1)) …`, and then the byte there. -/
def fetch (v : View) (offset : ℤ) (k : ℕ) : Fetch :=
  if v.size < ((offset + (k + 1)) % 2 ^ 64).toNat then .cut
  else if v.base + offset + k < 0 then .outside
  else
    match v.memory[(v.base + offset + k).toNat]? with
    | none => .outside
    | some p => .byte p

/-- `getVarint`, byte by byte: `n` more bytes may be read, and `acc` is the value of those
before. -/
def readVarint (fetch : ℕ → Fetch) : ℕ → ℕ → Except Halt (ℕ × ℕ)
  | 0, _ => .ok (0, 0)
  | n + 1, acc =>
    match fetch (8 - n) with
    | .cut => .ok (0, 0)
    | .outside => .error .outside
    | .byte p =>
      if n = 0 then .ok (9, acc * 256 + p.toNat)
      else if p.toNat < 128 then .ok (9 - n, acc * 128 + p.toNat)
      else readVarint fetch n (acc * 128 + p.toNat % 128)

def getVarint (v : View) (offset : ℤ) : Except Halt (ℕ × ℕ) := readVarint (v.fetch offset) 9 0

/-- `seek`, the capacity being cast to a signed integer. -/
def seek (v : View) (position : ℤ) : ℤ :=
  if position < 0 then max 0 (offset v.size + position + 1) else min (offset v.size) position

/-- `subdata`. -/
def ofSubdata (data : List UInt8) (offset size : ℤ) : View :=
  let size := (size % 2 ^ 64).toNat
  if size = 0 then ⟨[], 0, 0⟩
  else if u64 (offset.toNat + size) ≤ data.length then ⟨data, offset.toNat, size⟩
  else ⟨[], 0, 0⟩

/-- The bytes that a view without a wrapped size holds. -/
def bytes (v : View) : List UInt8 := (v.memory.drop v.base).take v.size

end View

/-- A sum of type `int`. -/
def addInt (a b : ℤ) : Except Halt ℤ :=
  if -2 ^ 31 ≤ a + b ∧ a + b < 2 ^ 31 then .ok (a + b) else .error .overflow

namespace Cell

/-! ### The parse -/

/-- The loop over the overflow pages: the next page number and the payload so far, which goes into a
buffer of `payloadSize` bytes. -/
def parseOverflow (p : Pager) (payloadSize : ℤ) :
    ℕ → ℤ → List ℤ → List UInt8 → Except Halt (ℤ × List UInt8)
  | 0, overflowPageno, _, payload =>
    if 0 < overflowPageno ∧ payload.length < payloadSize then .error .endless
    else .ok (overflowPageno, payload)
  | fuel + 1, overflowPageno, overflowPagenos, payload =>
    if 0 < overflowPageno ∧ payload.length < payloadSize then
      if overflowPageno ∈ overflowPagenos then .error .refused
      else if p.numberOfPages < overflowPageno then .error .refused
      else
        match p.acquirePageData overflowPageno with
        | none => .error .refused
        | some overflow => do
          let overflowSize := min (payloadSize - payload.length) (p.usableSize - 4)
          if overflowSize < 0 ∨ payloadSize < payload.length + overflowSize then .error .outside
          else do
            let bytes ← bytesAt overflow 4 overflowSize.toNat
            let next ← bytesAt overflow 0 4
            parseOverflow p payloadSize fuel (get4BytesInt next) (overflowPageno :: overflowPagenos)
              (payload ++ bytes.take overflowSize.toNat)
    else .ok (overflowPageno, payload)

/-- The payload of the cell, from its offset on the page. `d` stands there. -/
def parsePayload (p : Pager) (type : PageType) (d : Deserialization)
    (offsetOfPayload payloadSize : ℤ) : Except Halt View :=
  let localSize := localPayloadSize p type payloadSize
  if !d.canAdvance (localSize % 2 ^ 64).toNat then .error .refused
  else if localSize < payloadSize then
    let d := d.seek (offsetOfPayload + localSize)
    if !d.canAdvance 4 then .error .refused
    else do
      let pageno ← bytesAt d.data d.cursor 4
      if localSize < 0 ∨ payloadSize < localSize then .error .outside
      else do
        let bytes ← bytesAt d.data offsetOfPayload localSize.toNat
        let (overflowPageno, payload) ← parseOverflow p payloadSize payloadSize.toNat
          (get4BytesInt pageno) [] (bytes.take localSize.toNat)
        if overflowPageno ≠ 0 ∨ payload.length ≠ payloadSize then .error .refused
        else return ⟨payload, 0, payload.length⟩
  else .ok (.ofSubdata d.data offsetOfPayload localSize)

/-- The loop over the serial types: the cursors at its end, and the columns. -/
def parseTypes (v : View) (endOfSerialTypes endOfValues : ℤ) :
    ℕ → ℤ → ℤ → Except Halt (ℤ × ℤ × List (ℤ × ℤ))
  | 0, cursorOfSerialTypes, cursorOfValues =>
    if cursorOfSerialTypes < endOfSerialTypes then .error .endless
    else .ok (cursorOfSerialTypes, cursorOfValues, [])
  | fuel + 1, cursorOfSerialTypes, cursorOfValues =>
    if cursorOfSerialTypes < endOfSerialTypes then do
      let (lengthOfSerialType, value) ← v.getVarint (v.seek cursorOfSerialTypes)
      let serialType := int32 value
      if lengthOfSerialType = 0 then .error .refused
      else if !isSerialTypeSanity serialType then .error .refused
      else do
        let nextOfSerialTypes ← addInt cursorOfSerialTypes lengthOfSerialType
        let nextOfValues ← addInt cursorOfValues (getLengthOfSerialType serialType)
        if endOfValues < nextOfValues then .error .refused
        else do
          let (endOfTypes, endOfBodies, columns) ←
            parseTypes v endOfSerialTypes endOfValues fuel nextOfSerialTypes nextOfValues
          return (endOfTypes, endOfBodies, (serialType, cursorOfValues) :: columns)
    else .ok (cursorOfSerialTypes, cursorOfValues, [])

/-- The columns of a record. -/
def parseRecord (v : View) (payloadSize : ℤ) : Except Halt (List (ℤ × ℤ)) := do
  let (lengthOfOffsetOfValues, value) ← v.getVarint 0
  if lengthOfOffsetOfValues = 0 then .error .refused
  else do
    let offsetOfValues := int32 value
    let (endOfTypes, endOfBodies, columns) ← parseTypes v offsetOfValues payloadSize
      offsetOfValues.toNat lengthOfOffsetOfValues offsetOfValues
    if endOfTypes ≠ offsetOfValues ∨ endOfBodies ≠ payloadSize then .error .refused
    else return columns

/-- `Cell::doInitialize` behind the left child. `d` stands at the offset. -/
def parseBehindChild (p : Pager) (type : PageType) (leftChild : ℤ) (d : Deserialization)
    (offsetOfPayload : ℤ) : Except Halt Cell :=
  -- The size of the payload. A varint at a cursor is read inside the page.
  let ((lengthOfPayloadSize, size), d) := d.advanceVarint
  if lengthOfPayloadSize = 0 then .error .refused
  else
    let payloadSize := int32 size
    let offsetOfPayload := offsetOfPayload + lengthOfPayloadSize
    -- The rowid.
    let ((lengthOfRowid, rowid), d) := if type.isTablePage then d.advanceVarint else ((0, 0), d)
    if type.isTablePage ∧ lengthOfRowid = 0 then .error .refused
    else do
      let offsetOfPayload := offsetOfPayload + lengthOfRowid
      let view ← parsePayload p type d offsetOfPayload payloadSize
      let columns ← parseRecord view payloadSize
      return ⟨leftChild, offset rowid, view.bytes, columns⟩

/-- `Cell::doInitialize`, for the cell at `pointer` of a page with the type and the bytes given. The
page is not an interior page of a table. -/
def parse (p : Pager) (type : PageType) (data : List UInt8) (pointer : ℤ) : Except Halt Cell :=
  let d := (Deserialization.mk data 0 0).seek pointer
  if type.isLeafPage then parseBehindChild p type 0 d pointer
  else if !d.canAdvance 4 then .error .refused
  else do
    let leftChild ← bytesAt d.data d.cursor 4
    parseBehindChild p type (get4BytesInt leftChild) (d.advance 4) (pointer + 4)

/-! ### The accessors -/

/-- `m_columns[index]`. -/
def columnAt (c : Cell) (index : ℕ) : Except Halt (ℤ × ℤ) :=
  match c.columns[index]? with
  | none => .error .outside
  | some column => .ok column

def typeAt (c : Cell) (index : ℕ) : Except Halt ValueType := do
  let _ ← c.columnAt index
  return c.getValueType index

/-- The accessor for the type of a column. Each reads as many bytes as the serial type says. -/
def valueAt (c : Cell) (index : ℕ) : Except Halt Value := do
  let (serialType, offset) ← c.columnAt index
  let _ ← bytesAt c.payload offset (getLengthOfSerialType serialType).toNat
  return c.value index

end Cell

/-! ### The crawlers -/

/-- A text of a cell, empty when the value is no text. -/
def MasterItem.textOf (cell : Cell) (i : ℕ) : Except Halt Name := do
  if (← cell.typeAt i) = .text then
    let _ ← cell.valueAt i
    return cell.textValue i
  else return []

/-- `MasterCrawler::onCellCrawled`, up to the call of the delegate; `none` for a root page that is
not positive. -/
def MasterItem.crawl (cell : Cell) : Except Halt (Option MasterItem) := do
  let type ← textOf cell 0
  let name ← textOf cell 1
  let tableName ← textOf cell 2
  if (← cell.typeAt 3) = .integer then
    let _ ← cell.valueAt 3
    let rootpage := int32 (word (cell.integerValue 3))
    if rootpage ≤ 0 then return none
    else
      let sql ← textOf cell 4
      return some { type, name, tableName, rootpage, sql }
  else
    let sql ← textOf cell 4
    return some { type, name, tableName, sql }

/-- `SequenceCrawler::onCellCrawled`, up to the call of the delegate. -/
def SequenceItem.crawl (cell : Cell) : Except Halt (Except CrawlError SequenceItem) := do
  if (← cell.typeAt 0) ≠ .text then return .error .nameNotText
  else if (← cell.typeAt 1) ≠ .integer then return .error .seqNotInteger
  else
    let _ ← cell.valueAt 0
    if cell.textValue 0 = [] then return .error .nameEmpty
    else
      let _ ← cell.valueAt 1
      return .ok ⟨cell.textValue 0, cell.integerValue 1⟩

end Wcdb.Repair
