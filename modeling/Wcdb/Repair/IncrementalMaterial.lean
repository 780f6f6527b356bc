import Mathlib.Data.List.Basic

/-!
# Pages and the incremental material

The types of b-tree pages, as the first byte of a page tells them, and the incremental
material: the pages that checkpoints have overwritten since the last backup, with the position
in the write-ahead log up to which they are known.
-/

namespace Wcdb

/-- `Page::Type`. -/
inductive PageType where
  | unknown
  | interiorIndex
  | interiorTable
  | leafIndex
  | leafTable
  deriving DecidableEq, Repr

def convertToPageType (type : UInt8) : PageType :=
  if type = 2 then .interiorIndex
  else if type = 5 then .interiorTable
  else if type = 10 then .leafIndex
  else if type = 13 then .leafTable
  else .unknown

/-- The content of a page; a page is never empty. -/
structure PageData where
  bytes : List UInt8
  nonempty : bytes ≠ []
  deriving DecidableEq

/-- The type of a page, told by its first byte. -/
def PageData.type (data : PageData) : PageType :=
  convertToPageType (data.bytes.head data.nonempty)

namespace IncrementalMaterial

/-- `IncrementalMaterial::Page`. -/
structure Page where
  number : ℕ
  type : PageType
  hash : UInt32
  deriving DecidableEq, Repr

/-- What the code records of a page: the hash is that of a table leaf, and zero otherwise. -/
def Page.of (hash : PageData → UInt32) (pageNo : ℕ) (data : PageData) : Page where
  number := pageNo
  type := data.type
  hash := if data.type = .leafTable then hash data else 0

/-- The part of `IncrementalMaterial::Info` the checkpoint hooks read and write. -/
structure Info where
  currentWalSalt : UInt32 × UInt32
  currentNBackFill : ℕ
  lastCheckPointFinish : Bool
  deriving DecidableEq, Repr

end IncrementalMaterial

/-- Pages by number. -/
abbrev PageMap (P : Type) := ℕ → Option P

/-- The incremental material of a database. -/
structure IncrementalMaterial where
  info : IncrementalMaterial.Info
  pages : PageMap IncrementalMaterial.Page

end Wcdb
