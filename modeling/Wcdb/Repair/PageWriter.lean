import Wcdb.Repair.Master

/-!
# Files of small pages

A `Pager` over a list of pages of 512 bytes, and the leaf pages of a table, written as SQLite writes
them, with records of texts and of integers of one byte. The runs of crawlers, retrievers and
backups on concrete files are runs on these.
-/

namespace Wcdb.Repair

/-- A page of 512 bytes. -/
def page512 (bytes : List UInt8) : List UInt8 := (bytes ++ List.replicate 512 0).take 512

theorem length_page512 (bytes : List UInt8) : (page512 bytes).length = 512 := by
  rw [page512, List.length_take, List.length_append, List.length_replicate]
  omega

def acquireFrom (pages : List (List UInt8)) (n : ℤ) : Option (List UInt8) :=
  if 0 < n then (pages[n.toNat - 1]?).map page512 else none

/-- The pager of a file with the given pages. -/
def Pager.ofPages (pages : List (List UInt8)) (h : pages.length < 2 ^ 31) : Pager where
  pageSize := 512
  reservedBytes := 0
  numberOfPages := pages.length
  acquirePageData := acquireFrom pages
  pageSize_ge := smallestPage_ge
  pageSize_le := smallestPage_le
  reservedBytes_le := unreserved_le
  numberOfPages_lt := by exact_mod_cast h
  length_data := fun n data hdata => by
    unfold acquireFrom at hdata
    split_ifs at hdata
    obtain ⟨bytes, -, rfl⟩ := Option.map_eq_some_iff.mp hdata
    exact length_page512 bytes
  range_data := fun n data hdata => by
    unfold acquireFrom at hdata
    split_ifs at hdata with hn
    obtain ⟨bytes, hbytes, -⟩ := Option.map_eq_some_iff.mp hdata
    have := (List.getElem?_eq_some_iff.mp hbytes).1
    omega

/-- A record of texts and small integers. -/
def record (values : List (Name ⊕ UInt8)) : List UInt8 :=
  let type : Name ⊕ UInt8 → UInt8
    | .inl text => UInt8.ofNat (13 + 2 * text.length)
    | .inr _ => 1
  let body : Name ⊕ UInt8 → List UInt8
    | .inl text => text
    | .inr n => [n]
  UInt8.ofNat (values.length + 1) :: values.map type ++ (values.map body).flatten

/-- A leaf page of a table, with `start` bytes before its header, of rows with their rowids. -/
def leafPage (start : ℕ) (rows : List (UInt8 × List (Name ⊕ UInt8))) : List UInt8 :=
  let cells := rows.map fun row => UInt8.ofNat (record row.2).length :: row.1 :: record row.2
  let first := start + 8 + 2 * cells.length
  let pointers := (List.range cells.length).flatMap fun i =>
    let offset := first + ((cells.take i).map List.length).sum
    [UInt8.ofNat (offset / 256), UInt8.ofNat (offset % 256)]
  List.replicate start 0 ++ [13, 0, 0, 0, UInt8.ofNat cells.length, 0, 0, 0] ++ pointers ++
    cells.flatten

end Wcdb.Repair
