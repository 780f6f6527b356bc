import Wcdb.Base.FixedInt

/-!
# Pages

`Pager` is what the crawlers see of a database file and its log: the page size, the number of
pages, and for each page number the bytes `Pager::acquirePageData` delivers. `Page::doInitialize`
reads the type of a page, its cell pointers and, for an interior page, the numbers of its
children, all of which have to lie in the file.

Offsets and counts are read as signed integers of two bytes, as the source does it.
-/

namespace Wcdb.Repair

open Deserialization

/-- What `Pager` delivers. Its size checks have passed; a page that cannot be acquired is
`none`. -/
structure Pager where
  pageSize : ℕ
  reservedBytes : ℕ
  numberOfPages : ℤ
  acquirePageData : ℤ → Option (List UInt8)
  pageSize_ge : 512 ≤ pageSize
  pageSize_le : pageSize ≤ 65536
  reservedBytes_le : reservedBytes ≤ 255
  numberOfPages_lt : numberOfPages < 2 ^ 31
  length_data : ∀ n data, acquirePageData n = some data → data.length = pageSize
  range_data : ∀ n data, acquirePageData n = some data → 0 < n ∧ n ≤ numberOfPages

/-! A page of 512 bytes, none of them reserved, passes the size checks. -/

theorem smallestPage_ge : 512 ≤ 512 := Nat.le_refl 512

theorem smallestPage_le : 512 ≤ 65536 := by decide

theorem unreserved_le : 0 ≤ 255 := Nat.zero_le 255

theorem twoPages_lt : (2 : ℤ) < 2 ^ 31 := by norm_num

theorem second_inRange : (0 : ℤ) < 2 ∧ (2 : ℤ) ≤ 2 := ⟨two_pos, le_rfl⟩

/-- `Pager::getUsableSize`. -/
def Pager.usableSize (p : Pager) : ℤ := p.pageSize - p.reservedBytes

/-- `Page::Type`, with the values of the file format. -/
inductive PageType where
  | interiorIndex
  | interiorTable
  | leafIndex
  | leafTable
  | unknown
  deriving DecidableEq, Repr

namespace PageType

def convertToPageType (type : ℤ) : PageType :=
  if type = 2 then interiorIndex
  else if type = 5 then interiorTable
  else if type = 10 then leafIndex
  else if type = 13 then leafTable
  else unknown

def isInteriorPage (t : PageType) : Bool := t = interiorTable ∨ t = interiorIndex

def isLeafPage (t : PageType) : Bool := t = leafTable ∨ t = leafIndex

def isTablePage (t : PageType) : Bool := t = interiorTable ∨ t = leafTable

def isIndexPage (t : PageType) : Bool := t = interiorIndex ∨ t = leafIndex

/-- `Page::getMaxLocal`. -/
def maxLocal (t : PageType) (p : Pager) : ℤ :=
  if t = leafTable then p.usableSize - 35 else ((p.usableSize - 12) * 64).tdiv 255 - 23

/-- `Page::getMinLocal`. -/
def minLocal (p : Pager) : ℤ := ((p.usableSize - 12) * 32).tdiv 255 - 23

def offsetOfCellPointer (t : PageType) : ℤ := if t.isInteriorPage then 12 else 8

end PageType

/-- An initialised page. -/
structure Page where
  number : ℤ
  data : List UInt8
  type : PageType
  cellPointers : List ℤ
  subpagenos : List ℤ
  deriving DecidableEq, Repr

namespace Page

def offsetOfHeader (number : ℤ) : ℤ := if number = 1 then 100 else 0

/-- `Deserialization::isEnough` for an `int`: a negative one is a huge `size_t`. -/
def isEnough (data : List UInt8) (size : ℤ) : Bool := 0 ≤ size ∧ size ≤ data.length

/-- The loop that reads the cell pointers, `i` being the first and `n` their number. -/
def readCellPointers (data : List UInt8) (base : ℤ) (i : ℤ) : ℕ → Option (List ℤ)
  | 0 => some []
  | n + 1 =>
    if isEnough data (base + i * 2 + 2) then do
      let rest ← readCellPointers data base (i + 1) n
      return get2BytesInt (data.drop (base + i * 2).toNat) :: rest
    else none

/-- The loop that reads the children, from the offsets of their numbers. A pointer of a corrupt page
may lie up to four bytes before the page; such a read is one at its start here. -/
def readSubpagenos (p : Pager) (data : List UInt8) : List ℤ → Option (List ℤ)
  | [] => some []
  | offset :: offsets =>
    if isEnough data (offset + 4) then
      let pageno := get4BytesInt (data.drop offset.toNat)
      if p.numberOfPages < pageno then none
      else if pageno ≤ 0 then none
      else do
        let rest ← readSubpagenos p data offsets
        return pageno :: rest
    else none

/-- `Page::doInitialize`; `none` when it returns `false`. -/
def doInitialize (p : Pager) (number : ℤ) : Option Page := do
  let data ← p.acquirePageData number
  let header := offsetOfHeader number
  let type := PageType.convertToPageType (get1ByteInt (data.drop header.toNat))
  if type = .unknown then return ⟨number, data, type, [], []⟩
  let numberOfCells := get2BytesInt (data.drop (header.toNat + 3))
  if numberOfCells < 0 then none
  let cellPointers ← readCellPointers data (header + type.offsetOfCellPointer) 0 numberOfCells.toNat
  if type.isInteriorPage then
    let subpagenos ← readSubpagenos p data (cellPointers ++ [8 + header])
    return ⟨number, data, type, cellPointers, subpagenos⟩
  else return ⟨number, data, type, cellPointers, []⟩

end Page

end Wcdb.Repair
