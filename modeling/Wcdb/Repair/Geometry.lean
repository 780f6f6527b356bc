import Wcdb.Repair.PageParse
import Wcdb.Repair.Wal

/-!
# The geometry of a database file

`Pager::doInitialize` takes the page size and the reserved bytes from the header of the file, unless
they were set before, and checks their ranges. The header is unsigned: two bytes for the page size,
`65536` being stored as `1`, and one byte for the reserved bytes. The source reads both as signed
integers.

* A page size of `32768` becomes negative and one of `65536` stays `1`; both are refused.
* Reserved bytes from 128 on become negative and are refused.
* A cell pointer from `32768` on becomes negative.

`recovered_iff` says that everything else is read as it is stored.
-/

namespace Wcdb.Repair

open Deserialization

/-! ### `Pager::doInitialize` -/

/-- What was set before the pager is initialised, `-1` standing for nothing. The codec decodes the
first page. -/
structure PagerSettings where
  pageSize : ℤ := -1
  reservedBytes : ℤ := -1
  schemaCookie : ℤ := -1
  codec : Option (List UInt8 → Option (List UInt8)) := none
  walImportance : Bool := true
  skipWal : Bool := false

/-- How `Wal::doInitialize` ends. -/
inductive WalEnd where
  | loaded
  | corrupted
  | failed
  deriving DecidableEq, Repr

/-- What the pager finds on the disk. The log is read with the page size. -/
structure PagerFiles where
  database : OnDisk
  wal : ℤ → WalEnd

/-- What the pager has read. -/
structure PagerState where
  pageSize : ℤ
  reservedBytes : ℤ
  schemaCookie : ℤ
  fileSize : ℕ
  numberOfPages : ℤ
  walDisposed : Bool
  deriving DecidableEq, Repr

/-- The error that is set when `false` is returned: that of the last system call, `Empty`,
`NotADatabase`, a page that cannot be decoded, a page size or reserved bytes out of range, or that
of the log. -/
inductive PagerError where
  | system
  | empty
  | notADatabase
  | undecodable
  | pageSize (n : ℤ)
  | reservedBytes (n : ℤ)
  | wal
  deriving DecidableEq, Repr

/-- `"SQLite format 3\0"`. -/
def sqliteMagic : List UInt8 :=
  [83, 81, 76, 105, 116, 101, 32, 102, 111, 114, 109, 97, 116, 32, 51, 0]

namespace Pager

/-- `Pager::acquireHeader`. -/
def acquireHeader (settings : PagerSettings) (file : FileData) : Except PagerError (List UInt8) :=
  match settings.codec with
  | none =>
    match file.map 0 100 with
    | none => .error .system
    | some data => .ok data
  | some decode =>
    match file.map 0 settings.pageSize.toNat with
    | none => .error .system
    | some data =>
      match decode data with
      | none => .error .undecodable
      | some decoded => .ok (decoded.take 100)

/-- The page size, the reserved bytes and the schema cookie: those that were set, or those of the
header. -/
def readHeader (settings : PagerSettings) (file : FileData) : Except PagerError (ℤ × ℤ × ℤ) :=
  if settings.pageSize = -1 ∨ settings.reservedBytes = -1 then do
    let data ← acquireHeader settings file
    if data.take 16 ≠ sqliteMagic then .error .notADatabase
    else return (
      if settings.pageSize = -1 then get2BytesInt (data.drop 16) else settings.pageSize,
      if settings.reservedBytes = -1 then get1ByteInt (data.drop 20) else settings.reservedBytes,
      if settings.schemaCookie = -1 then get4BytesInt (data.drop 40) else settings.schemaCookie)
  else .ok (settings.pageSize, settings.reservedBytes, settings.schemaCookie)

/-- `((pageSize - 1) & pageSize) == 0`, and in range. -/
def isPageSize (pageSize : ℤ) : Bool :=
  word (pageSize - 1) &&& word pageSize = 0 ∧ 512 ≤ pageSize ∧ pageSize ≤ 65536

/-- The end of `Pager::doInitialize`: the log. -/
def loadWal (settings : PagerSettings) (files : PagerFiles) (state : PagerState) :
    Except PagerError PagerState :=
  if settings.skipWal then .ok state
  else
    match files.wal state.pageSize with
    | .loaded => .ok state
    | .corrupted => if settings.walImportance then .error .wal
        else .ok { state with walDisposed := true }
    | .failed => .error .wal

/-- `Pager::doInitialize`. -/
def doInitialize (settings : PagerSettings) (files : PagerFiles) : Except PagerError PagerState :=
  match files.database.getFileSize with
  | none => .error .system
  | some fileSize =>
    if fileSize = 0 then .error .empty
    else
      match files.database.open? with
      | none => .error .system
      | some file => do
        let (pageSize, reservedBytes, schemaCookie) ← readHeader settings file
        if !isPageSize pageSize then .error (.pageSize pageSize)
        else if reservedBytes < 0 ∨ 255 < reservedBytes then .error (.reservedBytes reservedBytes)
        else
          let numberOfPages := int32 ((fileSize + pageSize.toNat - 1) / pageSize.toNat)
          loadWal settings files
            ⟨pageSize, reservedBytes, schemaCookie, fileSize, numberOfPages, false⟩

end Pager

/-! ### Legal files -/

/-- A geometry that SQLite allows: a page size and reserved bytes. -/
structure Geometry where
  pageSize : ℕ
  reservedBytes : ℕ
  isPowerOfTwo : ∃ k, 9 ≤ k ∧ k ≤ 16 ∧ pageSize = 2 ^ k
  reservedBytes_le : reservedBytes ≤ 255
  usable : 480 + reservedBytes ≤ pageSize

/-- The file begins with the header of a database of the geometry. -/
structure HasHeader (g : Geometry) (file : FileData) : Prop where
  size : 100 ≤ file.size
  magic : (List.range 16).map file.byte = sqliteMagic
  pageSize : [file.byte 16, file.byte 17] = natBytes 2 (if g.pageSize = 65536 then 1
    else g.pageSize)
  reservedBytes : file.byte 20 = UInt8.ofNat g.reservedBytes

/-- The pager is initialised with the geometry, up to the log. -/
def Obtains (g : Geometry) (settings : PagerSettings) (files : PagerFiles) : Prop :=
  ∃ state : PagerState, state.pageSize = g.pageSize ∧ state.reservedBytes = g.reservedBytes ∧
    Pager.doInitialize settings files = Pager.loadWal settings files state

namespace Page

/-- A page as SQLite writes it: the array of the pointers lies in the page, a cell header can start
at every pointer behind it, and the children of an interior page exist. -/
structure WellFormed (p : Pager) (number : ℤ) (data : List UInt8) : Prop where
  acquired : p.acquirePageData number = some data
  kind : typeAt number data ≠ .unknown
  array : arrayAt number data + 2 * storedCount number data ≤ p.usableSize
  cells : ∀ q ∈ storedPointers number data,
    arrayAt number data + 2 * storedCount number data ≤ q ∧
      q + (typeAt number data).leastHeader ≤ p.usableSize
  children : (typeAt number data).isInteriorPage →
    (∀ q ∈ storedPointers number data, Child p data q) ∧ Child p data (8 + headerAt number)

/-- The page is read with the count and the pointers that it stores. -/
def Recovered (p : Pager) (number : ℤ) (data : List UInt8) : Prop :=
  ∃ page, doInitialize p number = some page ∧
    page.cellPointers.length = storedCount number data ∧
      page.cellPointers = (storedPointers number data).map fun q : ℕ => (q : ℤ)

end Page

/-! ### The header -/

section Header

variable {g : Geometry} {file : FileData}

theorem Geometry.pageSize_cases (g : Geometry) :
    (512 ≤ g.pageSize ∧ g.pageSize < 2 ^ 15) ∨ g.pageSize = 2 ^ 15 ∨ g.pageSize = 2 ^ 16 := by
  obtain ⟨k, hlow, hhigh, hk⟩ := g.isPowerOfTwo
  rw [hk]
  obtain hlt | rfl | rfl : k < 15 ∨ k = 15 ∨ k = 16 := by omega
  · exact .inl ⟨Nat.pow_le_pow_right (n := 2) (by norm_num) hlow,
      Nat.pow_lt_pow_right (by norm_num) hlt⟩
  · exact .inr (.inl rfl)
  · exact .inr (.inr rfl)

/-- The three fields of the header, as they are read. -/
theorem map_header (h : HasHeader g file) :
    ∃ data, file.map 0 100 = some data ∧ data.take 16 = sqliteMagic ∧
      get2BytesInt (data.drop 16) = signed16 (if g.pageSize = 65536 then 1 else g.pageSize) ∧
        get1ByteInt (data.drop 20) = int8 (UInt8.ofNat g.reservedBytes) := by
  refine ⟨_, if_pos ⟨le_rfl, by simpa using h.size⟩, h.magic, ?_, ?_⟩
  · have hsize : (if g.pageSize = 65536 then 1 else g.pageSize) < 256 ^ 2 := by
      rcases g.pageSize_cases with ⟨-, hlt⟩ | heq | heq
      · split_ifs <;> omega
      · rw [heq]
        decide
      · rw [heq]
        decide
    rw [Deserialization.get2BytesInt_eq (by simp)]
    refine congrArg signed16 ?_
    rw [← ofBytes_natBytes hsize, ← h.pageSize]
    rfl
  · rw [← h.reservedBytes]
    rfl

theorem int8_reservedBytes (g : Geometry) :
    int8 (UInt8.ofNat g.reservedBytes) =
      if g.reservedBytes < 2 ^ 7 then (g.reservedBytes : ℤ) else g.reservedBytes - 2 ^ 8 := by
  have hle := g.reservedBytes_le
  rw [int8, Varint.toNat_ofNat (by omega)]
  split_ifs <;> omega

theorem isPageSize_pageSize (hsmall : g.pageSize < 2 ^ 15) :
    Pager.isPageSize g.pageSize = true := by
  obtain ⟨k, hlow, -, hk⟩ := g.isPowerOfTwo
  rw [hk] at hsmall ⊢
  have hhigh := (Nat.pow_lt_pow_iff_right (by norm_num)).mp hsmall
  obtain rfl | rfl | rfl | rfl | rfl | rfl :
    k = 9 ∨ k = 10 ∨ k = 11 ∨ k = 12 ∨ k = 13 ∨ k = 14 := by omega
  all_goals decide

theorem loadWal_error {settings : PagerSettings} {files : PagerFiles} {state : PagerState}
    {e : PagerError} (h : Pager.loadWal settings files state = .error e) : e = .wal := by
  rw [Pager.loadWal] at h
  by_cases hskip : settings.skipWal = true
  · rw [if_pos hskip] at h
    exact nomatch h
  rw [if_neg hskip] at h
  cases hwal : files.wal state.pageSize with
  | loaded => simp [hwal] at h
  | corrupted =>
    simp only [hwal] at h
    split_ifs at h
    exact (Except.error.inj h).symm
  | failed =>
    rw [hwal] at h
    exact (Except.error.inj h).symm

/-- **The geometry in the header is obtained** exactly up to a page size of 16384 and reserved bytes
of 127. -/
theorem obtains_iff {settings : PagerSettings} {files : PagerFiles}
    (hunset : settings.pageSize = -1 ∧ settings.reservedBytes = -1 ∧ settings.codec = none)
    (hfile : files.database = .file true file) (h : HasHeader g file) :
    Obtains g settings files ↔ g.pageSize < 2 ^ 15 ∧ g.reservedBytes < 2 ^ 7 := by
  obtain ⟨hpageSize, hreserved, hcodec⟩ := hunset
  obtain ⟨data, hmap, hmagic, hsize, hbytes⟩ := map_header h
  have hnonempty := h.size
  have hrange := g.pageSize_cases
  have hread : Pager.readHeader settings file = .ok
      (signed16 (if g.pageSize = 65536 then 1 else g.pageSize), int8 (UInt8.ofNat g.reservedBytes),
        if settings.schemaCookie = -1 then get4BytesInt (data.drop 40)
          else settings.schemaCookie) := by
    rw [Pager.readHeader, if_pos (.inl hpageSize), Pager.acquireHeader, hcodec, hmap]
    simp only [bind, Except.bind, hmagic, ne_eq, not_true_eq_false, if_false, hpageSize, if_true,
      hreserved, hsize, hbytes]
    rfl
  rw [Obtains, Pager.doInitialize, hfile]
  simp only [OnDisk.getFileSize, OnDisk.open?, show file.size ≠ 0 by omega, if_false, hread, bind,
    Except.bind, int8_reservedBytes]
  by_cases hsmall : g.pageSize < 2 ^ 15
  · rw [if_neg (show ¬g.pageSize = 65536 by omega), signed16_eq_iff.mpr hsmall,
      isPageSize_pageSize hsmall]
    by_cases hlow : g.reservedBytes < 2 ^ 7
    · rw [if_pos hlow, Bool.not_true, if_neg Bool.false_ne_true, if_neg (by omega)]
      exact iff_of_true ⟨_, rfl, rfl, rfl⟩ ⟨hsmall, hlow⟩
    · have hle := g.reservedBytes_le
      rw [if_neg hlow, Bool.not_true, if_neg Bool.false_ne_true, if_pos (.inl (by omega))]
      refine iff_of_false ?_ fun h => hlow h.2
      rintro ⟨state, -, -, hstate⟩
      exact nomatch loadWal_error hstate.symm
  · have hrefused : Pager.isPageSize (signed16 (if g.pageSize = 65536 then 1 else g.pageSize)) =
        false := by
      obtain hlt | heq | heq := hrange
      · exact absurd hlt.2 hsmall
      · rw [heq]
        decide
      · rw [heq]
        decide
    rw [hrefused, Bool.not_false, if_pos rfl]
    refine iff_of_false ?_ fun h => hsmall h.1
    rintro ⟨state, -, -, hstate⟩
    exact nomatch loadWal_error hstate.symm

end Header

/-! ### The pages -/

namespace Page

variable {p : Pager} {number : ℤ} {data : List UInt8}

theorem WellFormed.arrayFits (h : WellFormed p number data) : ArrayFits number data := by
  have hlen := p.length_data number data h.acquired
  have hsize := p.pageSize_le
  have harray := h.array
  rw [Pager.usableSize] at harray
  have hpos : 8 ≤ arrayAt number data := by
    rw [arrayAt]
    split_ifs <;> omega
  exact ⟨by omega, .inr (by omega)⟩

/-- No pointer of an interior page is read as one from `-4` to `-1`. -/
theorem WellFormed.parse_inside (h : WellFormed p number data) :
    parse p number data ≠ .error .outside := by
  have hlen := p.length_data number data h.acquired
  have hlow := p.pageSize_ge
  have hhigh := p.pageSize_le
  rw [parse_eq (by omega), if_neg h.kind, if_pos h.arrayFits, parsed]
  split_ifs with hinterior
  · intro heq
    have houtside : parseSubpagenos p data (childOffsets number data) = .error .outside := by
      cases hparse : parseSubpagenos p data (childOffsets number data) with
      | error e =>
        rw [hparse] at heq
        exact congrArg Except.error (Except.error.inj heq)
      | ok subpagenos =>
        rw [hparse] at heq
        cases heq
    obtain ⟨before, q, after, hstored, -, hq⟩ := (childOffsets_outside_iff (by omega)).mp houtside
    have hroom := (h.cells q (by rw [hstored]; simp)).2
    rw [Pager.usableSize] at hroom
    have hleast : (typeAt number data).leastHeader = 5 := by
      revert hinterior
      cases typeAt number data <;> decide
    omega
  · rintro ⟨⟩

/-- **A page is read with its pointers** exactly when all of them are below 32768. -/
theorem WellFormed.readable_iff (h : WellFormed p number data) :
    Recovered p number data ↔ ∀ q ∈ storedPointers number data, q < 2 ^ 15 := by
  have hlow := p.pageSize_ge
  have hlen := p.length_data number data h.acquired
  have hcount : (storedPointers number data).length = storedCount number data := by
    rw [storedPointers, List.length_map, List.length_range]
  have hsigned : (storedPointers number data).map signed16 =
      ((storedPointers number data).map fun q : ℕ => (q : ℤ)) ↔
        ∀ q ∈ storedPointers number data, q < 2 ^ 15 := by
    rw [List.map_inj_left]
    exact forall₂_congr fun q _ => signed16_eq_iff
  rw [Recovered, doInitialize_eq h.acquired h.parse_inside, parse_eq (by omega), if_neg h.kind,
    if_pos h.arrayFits, parsed, ← hsigned]
  split_ifs with hinterior
  · constructor
    · rintro ⟨page, hpage, -, hpointers⟩
      cases hparse : parseSubpagenos p data (childOffsets number data) with
      | error e => simp [hparse, Except.map, Except.toOption] at hpage
      | ok subpagenos =>
        rw [hparse] at hpage
        rw [← hpointers, ← Option.some.inj hpage]
    · intro heq
      obtain ⟨hchildren, hright⟩ := h.children hinterior
      have hall : ∀ q ∈ storedPointers number data, StoredChild p data q := fun q hq =>
        ⟨hsigned.mp heq q hq, hchildren q hq⟩
      rw [(parseSubpagenos_eq_ok_iff (by omega)).mpr ⟨childOffsets_ok_iff.mpr ⟨hall, hright⟩, rfl⟩]
      exact ⟨_, rfl, by rw [List.length_map, hcount], heq⟩
  · constructor
    · rintro ⟨page, hpage, -, hpointers⟩
      rw [← hpointers, ← Option.some.inj hpage]
    · exact fun heq => ⟨_, rfl, by rw [List.length_map, hcount], heq⟩

end Page

/-- **The legal geometries that are recovered**: those with a page size up to 16384 and up to 127
reserved bytes; and of the well-formed pages those without a pointer from 32768 on. -/
theorem recovered_iff (g : Geometry) (file : FileData) (settings : PagerSettings)
    (files : PagerFiles) (p : Pager) (number : ℤ) (data : List UInt8) :
    (settings.pageSize = -1 ∧ settings.reservedBytes = -1 ∧ settings.codec = none →
      files.database = .file true file → HasHeader g file →
        (Obtains g settings files ↔ g.pageSize < 2 ^ 15 ∧ g.reservedBytes < 2 ^ 7)) ∧
    (Page.WellFormed p number data →
      (Page.Recovered p number data ↔ ∀ q ∈ Page.storedPointers number data, q < 2 ^ 15)) :=
  ⟨fun hunset hfile h => obtains_iff hunset hfile h, fun h => h.readable_iff⟩

/-! ### Files -/

/-- A file whose header holds the bytes given. -/
def headerFile (pageSize₀ pageSize₁ reservedBytes : UInt8) : FileData where
  size := 131072
  byte i :=
    if i < 16 then sqliteMagic.getD i 0
    else if i = 16 then pageSize₀
    else if i = 17 then pageSize₁
    else if i = 20 then reservedBytes
    else 0

def Geometry.mk4096 : Geometry := ⟨4096, 127, ⟨12, by decide⟩, by decide, by decide⟩

def Geometry.mk32768 : Geometry := ⟨32768, 0, ⟨15, by decide⟩, unreserved_le, by decide⟩

def Geometry.mk65536 : Geometry := ⟨65536, 0, ⟨16, by decide⟩, unreserved_le, by decide⟩

def Geometry.mkReserved : Geometry := ⟨4096, 128, ⟨12, by decide⟩, by decide, by decide⟩

theorem hasHeader_mk4096 : HasHeader .mk4096 (headerFile 16 0 127) :=
  ⟨by decide, by decide, by decide, by decide⟩

theorem wellFormed_leaf :
    Page.WellFormed (Page.secondPage [13, 0, 0, 0, 1, 0, 0, 0, 1, 244]) 2
      (Page.filled [13, 0, 0, 0, 1, 0, 0, 0, 1, 244]) where
  acquired := rfl
  kind := by decide +kernel
  array := by decide +kernel
  cells := by decide +kernel
  children h := absurd h (by decide +kernel)

theorem recovered_4096 :
    Obtains .mk4096 {} ⟨.file true (headerFile 16 0 127), fun _ => .loaded⟩ ∧
      Page.Recovered (Page.secondPage [13, 0, 0, 0, 1, 0, 0, 0, 1, 244]) 2
        (Page.filled [13, 0, 0, 0, 1, 0, 0, 0, 1, 244]) :=
  have h := recovered_iff .mk4096 (headerFile 16 0 127) {}
    ⟨.file true (headerFile 16 0 127), fun _ => .loaded⟩
    (Page.secondPage [13, 0, 0, 0, 1, 0, 0, 0, 1, 244]) 2
    (Page.filled [13, 0, 0, 0, 1, 0, 0, 0, 1, 244])
  ⟨(h.1 ⟨rfl, rfl, rfl⟩ rfl hasHeader_mk4096).mpr ⟨by decide, by decide⟩,
    (h.2 wellFormed_leaf).mpr (by decide +kernel)⟩

/-- A leaf page of 65536 bytes with one cell, at the byte 32768. -/
def largeLeaf : List UInt8 := [13, 0, 0, 0, 1, 0, 0, 128, 128, 0] ++ List.replicate 65526 0

/-- A file with two pages of 65536 bytes, of which the second is `largeLeaf`. -/
def largePager : Pager where
  pageSize := 65536
  reservedBytes := 0
  numberOfPages := 2
  acquirePageData n := if n = 2 then some largeLeaf else none
  pageSize_ge := by decide
  pageSize_le := by decide
  reservedBytes_le := unreserved_le
  numberOfPages_lt := twoPages_lt
  length_data n data h := by
    split_ifs at h
    rw [← Option.some.inj h, largeLeaf, List.length_append, List.length_replicate]
    rfl
  range_data n data h := by
    split_ifs at h with hn
    exact hn ▸ second_inRange

/-- Page sizes of 32768 and 65536 and 128 reserved bytes are refused, and a page is read with the
pointer `-32768`. -/
theorem not_recovered :
    (HasHeader .mk32768 (headerFile 128 0 0) ∧
      Pager.doInitialize {} ⟨.file true (headerFile 128 0 0), fun _ => .loaded⟩ =
        .error (.pageSize (-32768))) ∧
    (HasHeader .mk65536 (headerFile 0 1 0) ∧
      Pager.doInitialize {} ⟨.file true (headerFile 0 1 0), fun _ => .loaded⟩ =
        .error (.pageSize 1)) ∧
    (HasHeader .mkReserved (headerFile 16 0 128) ∧
      Pager.doInitialize {} ⟨.file true (headerFile 16 0 128), fun _ => .loaded⟩ =
        .error (.reservedBytes (-128))) ∧
    Page.WellFormed largePager 2 largeLeaf ∧ ¬Page.Recovered largePager 2 largeLeaf := by
  have hpage : Page.WellFormed largePager 2 largeLeaf :=
    { acquired := rfl
      kind := by decide +kernel
      array := by decide +kernel
      cells := by decide +kernel
      children := fun h => absurd h (by decide +kernel) }
  refine ⟨⟨⟨by decide, by decide, by decide, by decide⟩, by decide +kernel⟩,
    ⟨⟨by decide, by decide, by decide, by decide⟩, by decide +kernel⟩,
    ⟨⟨by decide, by decide, by decide, by decide⟩, by decide +kernel⟩, hpage, ?_⟩
  rw [hpage.readable_iff]
  decide +kernel

end Wcdb.Repair
