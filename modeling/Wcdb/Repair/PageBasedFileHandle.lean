import Wcdb.Base.FileHandle
import Wcdb.Base.LRUCache
import Wcdb.Base.Range
import Wcdb.Repair.Wal

/-!
# Mapping pages through a cache of ranges

`PageBasedFileHandle` maps a file by ranges of cache pages, which are multiples of the pages of the
memory, and keeps the ranges in an LRU cache. For a page that is not cached it tries a range around
it, within the gap between the cached ranges, and after a failure a smaller one; when a single cache
page cannot be mapped, the range that was used first is purged and the gap is searched again.

Any mapping may fail. `retry_eq` says that the loop ends, what is tried and what is mapped;
`mapPage_eq` says that the bytes are those of the page, or none if the file ends within it.
`FileHandle::map` itself is more generous there: at an offset that is a multiple of the memory pages
it maps the bytes up to the end of the file.
-/

namespace Wcdb.Repair

/-- Bytes of a file. -/
def FileData.bytes (f : FileData) (offset length : ℕ) : List UInt8 :=
  (List.range length).map fun i => f.byte (offset + i)

/-- What `FileHandle::map` returns when the system call succeeds. There is nothing to map behind the
end of the file. -/
def FileData.mapped (f : FileData) (memoryPageSize offset length : ℕ) : List UInt8 :=
  let offsetAlignment := offset % memoryPageSize
  let roundedOffset := offset - offsetAlignment
  let roundedSize := length + offsetAlignment
  let sizeAlignment := roundedSize % memoryPageSize
  let roundedSize :=
    if sizeAlignment ≠ 0 then roundedSize + (memoryPageSize - sizeAlignment) else roundedSize
  let roundedSize :=
    if f.size < roundedSize + roundedOffset then f.size - roundedOffset else roundedSize
  subdata (f.bytes roundedOffset roundedSize) offsetAlignment (min length roundedSize)

section Bytes

variable {f : FileData} {memoryPageSize offset length size : ℕ}

@[simp]
theorem FileData.length_bytes : (f.bytes offset length).length = length := by
  rw [bytes, List.length_map, List.length_range]

theorem FileData.take_drop_bytes (k : ℕ) (h : k + size ≤ length) :
    ((f.bytes offset length).drop k).take size = f.bytes (offset + k) size := by
  refine List.ext_getElem ?_ fun i hi _ => ?_
  · rw [List.length_take, List.length_drop, length_bytes, length_bytes]
    omega
  · simp only [List.getElem_take, List.getElem_drop, bytes, List.getElem_map, List.getElem_range]
    rw [Nat.add_assoc]

/-- A part of some bytes is there, or the border is crossed. -/
theorem subdata_bytes (k : ℕ) :
    subdata (f.bytes offset length) k size =
      if k + size ≤ length then f.bytes (offset + k) size else [] := by
  rw [subdata, FileData.length_bytes]
  split_ifs with h
  · exact FileData.take_drop_bytes k h
  · rfl

/-- A range that the file ends in is mapped up to there if the offset is one of a page of the
memory, and not at all otherwise. -/
theorem FileData.mapped_eq (hlength : 0 < length) :
    f.mapped memoryPageSize offset length =
      if offset + length ≤ f.size then f.bytes offset length
      else if offset % memoryPageSize = 0 then f.bytes offset (f.size - offset) else [] := by
  have hle : offset % memoryPageSize ≤ offset := Nat.mod_le _ _
  simp only [mapped, subdata_bytes]
  generalize offset % memoryPageSize = alignment at hle ⊢
  have hrounded : ∃ rounded, length + alignment ≤ rounded ∧
      (if (length + alignment) % memoryPageSize ≠ 0 then
        length + alignment + (memoryPageSize - (length + alignment) % memoryPageSize)
      else length + alignment) = rounded := by
    refine ⟨_, ?_, rfl⟩
    split_ifs <;> omega
  obtain ⟨rounded, hge, hrounded⟩ := hrounded
  rw [hrounded, Nat.sub_add_cancel hle]
  by_cases hfits : offset + length ≤ f.size
  · rw [if_pos hfits, if_pos (by split_ifs <;> omega)]
    rw [min_eq_left (by split_ifs <;> omega)]
  · rw [if_neg hfits, if_pos (show f.size < rounded + (offset - alignment) by omega)]
    by_cases haligned : alignment = 0
    · subst haligned
      rw [if_pos (by omega), if_pos rfl, min_eq_right (by omega), Nat.sub_zero]
    · rw [if_neg haligned]
      by_cases hempty : f.size - (offset - alignment) = 0
      · rw [if_neg (by omega)]
      · rw [if_neg (by omega)]

end Bytes

namespace PageBasedFileHandle

def cacheMemoryPerRange : ℕ := 1 * 1024 * 1024

def maxAllowedCacheMemory : ℕ := 16 * 1024 * 1024

/-- A file whose size does not change, the sizes of pages, and which of the mappings succeed. -/
structure Env where
  file : FileData
  memoryPageSize : ℕ
  pageSize : ℕ
  maps : ℕ → Bool
  memoryPageSize_pow : ∃ a ≤ 20, memoryPageSize = 2 ^ a
  pageSize_pow : ∃ b ≤ 20, pageSize = 2 ^ b

/-- A range in memory. Its location is the key. -/
structure Mapped where
  length : ℕ
  data : List UInt8
  deriving DecidableEq, Repr

/-- The cache, and how often `map` was called. -/
structure State where
  cache : LRUCache ℤ Mapped := {}
  calls : ℕ := 0
  deriving DecidableEq

def range (entry : ℤ × Mapped) : Range := ⟨entry.1, entry.2.length⟩

/-- `m_map` in its order. -/
def sorted (c : LRUCache ℤ Mapped) : List (ℤ × Mapped) :=
  c.list.insertionSort fun a b => (range a).location ≤ (range b).location

def restrictedRange (base : ℤ) (maxLength : ℕ) (restrictor : Range) : Range :=
  let length := min maxLength restrictor.length
  let result : Range := ⟨base - (length / 2 : ℕ), length⟩
  if result.location < restrictor.location then { result with location := restrictor.location }
  else if restrictor.edge < result.edge then { result with location := restrictor.edge - length }
  else result

/-- A range that is tried: what is cached at that time, and the gap. -/
structure Try where
  cached : List Range
  gap : Range
  range : Range
  succeeded : Bool
  deriving DecidableEq, Repr

/-- How the loop ends: with a range and its bytes or with none, and what was tried. -/
structure Retried where
  found : Option (Range × List UInt8)
  tried : List Try
  state : State
  deriving DecidableEq

section Handle

variable (e : Env)

def Env.cachePageSize : ℕ :=
  let alignment := e.pageSize % e.memoryPageSize
  max e.memoryPageSize
    (if 0 < alignment then e.pageSize - alignment + e.memoryPageSize else e.pageSize)

/-- The edge of `m_range`, whose location is zero. -/
def Env.numberOfCachePages : ℕ :=
  e.file.size / e.cachePageSize + if 0 < e.file.size % e.cachePageSize then 1 else 0

def Env.cachePagePerRange : ℕ := cacheMemoryPerRange / e.cachePageSize

def map (offset length : ℕ) (s : State) : List UInt8 × State :=
  (if e.maps s.calls then e.file.mapped e.memoryPageSize offset length else [],
    { s with calls := s.calls + 1 })

/-- `Cache::find`. -/
def find (location : ℤ) (s : State) : (Range × Option Mapped) × State :=
  match Range.search range location e.numberOfCachePages 0 (sorted s.cache) with
  | (r, some entry) => ((r, some entry.2), { s with cache := s.cache.retain entry.1 })
  | (gap, none) => ((gap, none), s)

/-- `Cache::insert`. -/
def insert (r : Range) (data : List UInt8) (s : State) : State :=
  { s with
    cache := s.cache.insert (fun m => m.data.length) maxAllowedCacheMemory r.location
      ⟨r.length, data⟩ }

def purge (count : ℕ) (s : State) : State :=
  { s with cache := s.cache.purge (fun m => m.data.length) count }

def Retried.after (t : Try) (r : Retried) : Retried := { r with tried := t :: r.tried }

/-- The loop of `mapPage`. The number of its turns is limited; `none` if it does not suffice. -/
def retry (cachePageno : ℤ) : ℕ → Range → ℕ → State → Option Retried
  | 0, _, _, _ => none
  | turns + 1, gap, maxLength, s =>
    let r := restrictedRange cachePageno maxLength gap
    let cached := s.cache.list.map range
    let (data, t) := map e (r.location * e.cachePageSize).toNat (r.length * e.cachePageSize) s
    if data ≠ [] then some ⟨some (r, data), [⟨cached, gap, r, true⟩], insert r data t⟩
    else if 1 < r.length then
      (retry cachePageno turns gap ((r.length + 1) / 2) t).map (·.after ⟨cached, gap, r, false⟩)
    else if s.cache.list ≠ [] then
      let ((gap', _), t) := find e cachePageno (purge 1 t)
      (retry cachePageno turns gap' e.cachePagePerRange t).map (·.after ⟨cached, gap, r, false⟩)
    else some ⟨none, [⟨cached, gap, r, false⟩], t⟩

/-- What a call of `mapPage` does. -/
structure Mapping where
  data : List UInt8
  tried : List Try
  state : State
  deriving DecidableEq

/-- The offset of a part of a page. -/
def Env.offset (pageno offsetWithinPage : ℕ) : ℕ := (pageno - 1) * e.pageSize + offsetWithinPage

/-- The number of turns that suffices (`retry_eq`). -/
def turns (s : State) : ℕ := (s.cache.list.length + 1) * (e.cachePagePerRange + 1)

def mapPage (pageno offsetWithinPage sizeWithinPage : ℕ) (s : State) : Option Mapping :=
  let offset := e.offset pageno offsetWithinPage
  let cachePageno := offset / e.cachePageSize
  let withinCache := fun r : Range => (offset - r.location * e.cachePageSize).toNat
  match find e cachePageno s with
  | ((r, some cachedData), t) =>
    some ⟨subdata cachedData.data (withinCache r) sizeWithinPage, [], t⟩
  | ((gap, none), t) =>
    (retry e cachePageno (turns e s) gap e.cachePagePerRange t).map fun retried =>
      match retried.found with
      | some (r, data) =>
        ⟨subdata data (withinCache r) sizeWithinPage, retried.tried, retried.state⟩
      | none => ⟨[], retried.tried, retried.state⟩

end Handle

/-! ### Sizes -/

section Sizes

variable (e : Env)

/-- The larger of two powers of two. -/
theorem Env.cachePageSize_eq : e.cachePageSize = max e.memoryPageSize e.pageSize := by
  obtain ⟨a, -, ha⟩ := e.memoryPageSize_pow
  obtain ⟨b, -, hb⟩ := e.pageSize_pow
  rw [cachePageSize]
  rcases Nat.lt_or_ge b a with hlt | hge
  · have hsmall : e.pageSize < e.memoryPageSize := by
      rw [ha, hb]
      exact Nat.pow_lt_pow_right (by decide) hlt
    have hpos : 0 < e.pageSize := by
      rw [hb]
      exact Nat.two_pow_pos b
    simp only [Nat.mod_eq_of_lt hsmall, if_pos hpos]
    omega
  · have hdvd : e.memoryPageSize ∣ e.pageSize := by
      rw [ha, hb]
      exact Nat.pow_dvd_pow 2 hge
    simp only [Nat.mod_eq_zero_of_dvd hdvd, lt_irrefl, if_false]

theorem Env.dvd_cachePageSize :
    e.memoryPageSize ∣ e.cachePageSize ∧ e.pageSize ∣ e.cachePageSize ∧
      e.cachePageSize ∣ cacheMemoryPerRange := by
  obtain ⟨a, ha, hma⟩ := e.memoryPageSize_pow
  obtain ⟨b, hb, hpb⟩ := e.pageSize_pow
  rw [cachePageSize_eq, hma, hpb]
  have hper : cacheMemoryPerRange = 2 ^ 20 := rfl
  rw [hper]
  rcases le_total a b with hle | hle
  · rw [max_eq_right (Nat.pow_le_pow_right (by decide) hle)]
    exact ⟨Nat.pow_dvd_pow 2 hle, dvd_refl _, Nat.pow_dvd_pow 2 hb⟩
  · rw [max_eq_left (Nat.pow_le_pow_right (by decide) hle)]
    exact ⟨dvd_refl _, Nat.pow_dvd_pow 2 hle, Nat.pow_dvd_pow 2 ha⟩

theorem Env.pageSize_pos : 0 < e.pageSize := by
  obtain ⟨b, -, hb⟩ := e.pageSize_pow
  rw [hb]
  exact Nat.two_pow_pos b

theorem Env.cachePageSize_pos : 0 < e.cachePageSize := by
  rw [cachePageSize_eq]
  exact lt_max_of_lt_right e.pageSize_pos

theorem Env.cachePagePerRange_pos : 0 < e.cachePagePerRange :=
  Nat.div_pos (Nat.le_of_dvd (by decide) e.dvd_cachePageSize.2.2) e.cachePageSize_pos

/-- A cache page begins within the file. -/
theorem Env.lt_size {n : ℕ} (h : n < e.numberOfCachePages) : n * e.cachePageSize < e.file.size := by
  have hpos := e.cachePageSize_pos
  have hsize := Nat.div_add_mod e.file.size e.cachePageSize
  rw [numberOfCachePages] at h
  by_cases hlt : n < e.file.size / e.cachePageSize
  · have : (n + 1) * e.cachePageSize ≤ e.file.size / e.cachePageSize * e.cachePageSize :=
      Nat.mul_le_mul_right _ hlt
    rw [Nat.mul_comm] at hsize
    rw [Nat.add_mul] at this
    omega
  · have hn : n = e.file.size / e.cachePageSize ∧ 0 < e.file.size % e.cachePageSize := by
      split_ifs at h <;> omega
    rw [hn.1]
    rw [Nat.mul_comm] at hsize
    omega

/-- An offset in the file lies in one of its cache pages. -/
theorem Env.div_lt {offset : ℕ} (h : offset < e.file.size) :
    offset / e.cachePageSize < e.numberOfCachePages := by
  have hle : offset / e.cachePageSize ≤ e.file.size / e.cachePageSize := Nat.div_le_div_right h.le
  rw [numberOfCachePages]
  by_cases hrest : 0 < e.file.size % e.cachePageSize
  · rw [if_pos hrest]
    omega
  · rw [if_neg hrest, Nat.add_zero]
    have hmul : e.file.size / e.cachePageSize * e.cachePageSize = e.file.size :=
      Nat.div_mul_cancel (Nat.dvd_of_mod_eq_zero (by omega))
    rw [Nat.div_lt_iff_lt_mul e.cachePageSize_pos, hmul]
    exact h

/-- A page lies within a cache page. -/
theorem Env.offset_add_le (pageno : ℕ) {offsetWithinPage sizeWithinPage : ℕ}
    (h : offsetWithinPage + sizeWithinPage ≤ e.pageSize) (hsize : 0 < sizeWithinPage) :
    e.offset pageno offsetWithinPage + sizeWithinPage ≤
      (e.offset pageno offsetWithinPage / e.cachePageSize + 1) * e.cachePageSize := by
  obtain ⟨k, hk⟩ := e.dvd_cachePageSize.2.1
  have hpos := e.pageSize_pos
  have hkpos : 0 < k := Nat.pos_of_mul_pos_left (hk ▸ e.cachePageSize_pos)
  have hdiv : e.offset pageno offsetWithinPage / e.cachePageSize = (pageno - 1) / k := by
    have hwithin : offsetWithinPage / e.pageSize = 0 := Nat.div_eq_of_lt (by omega)
    rw [hk, ← Nat.div_div_eq_div_mul, offset, Nat.mul_comm, Nat.mul_add_div hpos, hwithin,
      Nat.add_zero]
  have hnext : pageno - 1 + 1 ≤ ((pageno - 1) / k + 1) * k := by
    have := Nat.lt_div_mul_add hkpos (a := pageno - 1)
    rw [Nat.add_mul, Nat.one_mul]
    omega
  calc e.offset pageno offsetWithinPage + sizeWithinPage
      ≤ (pageno - 1 + 1) * e.pageSize := by rw [offset, Nat.add_mul]; omega
    _ ≤ ((pageno - 1) / k + 1) * k * e.pageSize := Nat.mul_le_mul_right _ hnext
    _ = _ := by rw [hdiv, hk, Nat.mul_assoc, Nat.mul_comm k]

end Sizes

/-! ### The cache and the loop -/

section Loop

variable (e : Env)

/-- The bytes of a range: a range may go beyond the end of the file. -/
def Env.contents (r : Range) : List UInt8 :=
  let offset := (r.location * e.cachePageSize).toNat
  e.file.bytes offset (min (r.length * e.cachePageSize) (e.file.size - offset))

/-- The cached ranges are disjoint and lie within the file, and have its bytes. -/
structure Valid (s : State) : Prop where
  separate : Range.Separate range 0 e.numberOfCachePages s.cache.list
  data : ∀ entry ∈ s.cache.list, entry.2.data = e.contents (range entry)

/-- The largest range around a cache page that nothing cached meets. -/
def IsGap (cached : List Range) (cachePageno : ℕ) (gap : Range) : Prop :=
  Range.IsGap 0 e.numberOfCachePages cached cachePageno gap

/-- What is tried lies in the gap and contains the cache page. -/
structure Try.Sound (cachePageno : ℕ) (t : Try) : Prop where
  isGap : IsGap e t.cached cachePageno t.gap
  within : t.gap.containsRange t.range
  contains : t.range.contains cachePageno

/-- At the end the cache page was tried alone, with nothing cached. -/
def Unmappable (cachePageno : ℕ) (tried : List Try) : Prop :=
  ∃ t, tried.getLast? = some t ∧ t.cached = [] ∧ t.range = ⟨cachePageno, 1⟩ ∧ t.succeeded = false

structure Retries (cachePageno : ℕ) (r : Retried) : Prop where
  tried : ∀ t ∈ r.tried, t.Sound e cachePageno
  valid : Valid e r.state
  found : ∀ range data, r.found = some (range, data) →
    range.contains cachePageno ∧ 0 ≤ range.location ∧ data = e.contents range
  notFound : r.found = none → Unmappable cachePageno r.tried

variable {e} {s : State} {cachePageno : ℕ} {gap : Range}

theorem valid_empty (calls : ℕ) : Valid e ⟨{}, calls⟩ := ⟨Range.separate_nil 0 _, by simp⟩

theorem Valid.of_subset (h : Valid e s) {t : State}
    (hseparate : Range.Separate range 0 e.numberOfCachePages t.cache.list)
    (hsubset : t.cache.list ⊆ s.cache.list) : Valid e t :=
  ⟨hseparate, fun entry hentry => h.data entry (hsubset hentry)⟩

theorem Valid.purge (h : Valid e s) (count : ℕ) : Valid e (purge count s) :=
  have hsub := LRUCache.sublist_purge s.cache count
  h.of_subset (h.separate.sublist hsub) hsub.subset

theorem Valid.retain (h : Valid e s) (key : ℤ) :
    Valid e { s with cache := s.cache.retain key } :=
  have hperm := LRUCache.perm_retain s.cache key
  h.of_subset (h.separate.of_perm hperm.symm) hperm.subset

/-- A range within a gap is inserted with its bytes. -/
theorem Valid.insert (h : Valid e s) {r : Range}
    (hgap : IsGap e (s.cache.list.map range) cachePageno gap) (hwithin : gap.containsRange r)
    (hpos : 0 < r.length) : Valid e (insert r (e.contents r) s) := by
  have hseparate : Range.Separate range 0 e.numberOfCachePages
      ((r.location, ⟨r.length, e.contents r⟩) :: s.cache.list) :=
    h.separate.cons hgap hwithin hpos
  have hsub : (LRUCache.insert (fun m : Mapped => m.data.length) maxAllowedCacheMemory s.cache
      r.location ⟨r.length, e.contents r⟩).list.Sublist
      ((r.location, ⟨r.length, e.contents r⟩) :: s.cache.list) := LRUCache.sublist_insert ..
  refine ⟨hseparate.sublist hsub, fun entry hentry => ?_⟩
  rcases List.mem_cons.mp (hsub.subset hentry) with rfl | hentry
  · rfl
  · exact h.data entry hentry

/-- `Cache::find`: the cached range that contains the cache page, or the gap around it. -/
theorem find_eq (h : Valid e s) (hpage : cachePageno < e.numberOfCachePages) :
    (∃ entry ∈ s.cache.list, (range entry).contains cachePageno ∧
        find e cachePageno s =
          ((range entry, some entry.2), { s with cache := s.cache.retain entry.1 })) ∨
      ∃ gap, IsGap e (s.cache.list.map range) cachePageno gap ∧
        find e cachePageno s = ((gap, none), s) := by
  have hperm : (sorted s.cache).Perm s.cache.list := List.perm_insertionSort _ _
  rcases Range.search_eq h.separate.tiles (Int.natCast_nonneg cachePageno)
      (by exact_mod_cast hpage) with ⟨entry, hentry, hcontains, heq⟩ | ⟨gap, hgap, heq⟩
  · refine Or.inl ⟨entry, hperm.subset hentry, hcontains, ?_⟩
    rw [find, sorted, heq]
  · refine Or.inr ⟨gap, hgap.of_perm (hperm.map range), ?_⟩
    rw [find, sorted, heq]

/-- The range is shifted into the restrictor, if it does not lie there. -/
theorem restrictedRange_eq (base : ℤ) (maxLength : ℕ) (restrictor : Range) :
    ∃ location, restrictedRange base maxLength restrictor =
        ⟨location, min maxLength restrictor.length⟩ ∧
      (base < restrictor.edge → restrictor.location ≤ base →
        restrictor.location ≤ location ∧
        location + (min maxLength restrictor.length : ℕ) ≤ restrictor.edge ∧
        location ≤ base ∧ (0 < min maxLength restrictor.length →
          base < location + (min maxLength restrictor.length : ℕ))) := by
  rw [restrictedRange]
  dsimp only
  by_cases hlow : base - (min maxLength restrictor.length / 2 : ℕ) < restrictor.location
  · rw [if_pos hlow]
    exact ⟨_, rfl, fun _ _ => by simp only [Range.edge] at *; omega⟩
  rw [if_neg hlow]
  by_cases hhigh : restrictor.edge <
      Range.edge ⟨base - (min maxLength restrictor.length / 2 : ℕ), min maxLength restrictor.length⟩
  · rw [if_pos hhigh]
    exact ⟨_, rfl, fun _ _ => by simp only [Range.edge] at *; omega⟩
  · rw [if_neg hhigh]
    exact ⟨_, rfl, fun _ _ => by simp only [Range.edge] at *; omega⟩

theorem restrictedRange_spec {maxLength : ℕ} (hgap : gap.contains cachePageno)
    (hpos : 0 < maxLength) :
    gap.containsRange (restrictedRange cachePageno maxLength gap) ∧
      (restrictedRange cachePageno maxLength gap).contains cachePageno ∧
      (restrictedRange cachePageno maxLength gap).length = min maxLength gap.length := by
  obtain ⟨hle, hlt⟩ := Range.contains_iff.mp hgap
  obtain ⟨location, heq, hspec⟩ := restrictedRange_eq cachePageno maxLength gap
  obtain ⟨hlower, hupper, hbase, hbase'⟩ := hspec hlt hle
  have hlength : 0 < gap.length := by
    rw [Range.edge] at hlt
    omega
  rw [heq, Range.containsRange_iff, Range.contains_iff]
  exact ⟨⟨hlower, hupper⟩, ⟨hbase, hbase' (by omega)⟩, rfl⟩

/-- A range in the file is mapped as a whole, up to the end of the file. -/
theorem map_eq {r : Range} (hlower : 0 ≤ r.location) (hpos : 0 < r.length) (s : State) :
    map e (r.location * e.cachePageSize).toNat (r.length * e.cachePageSize) s =
      (if e.maps s.calls then e.contents r else [], { s with calls := s.calls + 1 }) := by
  have hlength : 0 < r.length * e.cachePageSize := Nat.mul_pos hpos e.cachePageSize_pos
  obtain ⟨n, hn⟩ := Int.eq_ofNat_of_zero_le hlower
  have hoffset : (r.location * e.cachePageSize).toNat = n * e.cachePageSize := by
    rw [hn]
    exact_mod_cast Int.toNat_natCast (n * e.cachePageSize)
  have haligned : n * e.cachePageSize % e.memoryPageSize = 0 :=
    Nat.mod_eq_zero_of_dvd (e.dvd_cachePageSize.1.mul_left n)
  rw [map, Env.contents, hoffset, FileData.mapped_eq hlength, if_pos haligned]
  congr 2
  split_ifs with hfits
  · rw [min_eq_left (by omega)]
  · rw [min_eq_right (by omega)]

theorem contents_ne_nil {r : Range} (hlower : 0 ≤ r.location)
    (hupper : r.edge ≤ e.numberOfCachePages) (hpos : 0 < r.length) : e.contents r ≠ [] := by
  have hlength : 0 < r.length * e.cachePageSize := Nat.mul_pos hpos e.cachePageSize_pos
  obtain ⟨n, hn⟩ := Int.eq_ofNat_of_zero_le hlower
  have hoffset : (r.location * e.cachePageSize).toNat = n * e.cachePageSize := by
    rw [hn]
    exact_mod_cast Int.toNat_natCast (n * e.cachePageSize)
  have hsize : n * e.cachePageSize < e.file.size := by
    refine e.lt_size ?_
    rw [Range.edge, hn] at hupper
    omega
  rw [← List.length_pos_iff, Env.contents, FileData.length_bytes, hoffset]
  omega

theorem Retries.after {t : Try} {r : Retried} (h : Retries e cachePageno r)
    (ht : t.Sound e cachePageno) : Retries e cachePageno (r.after t) where
  tried := fun t' ht' => by
    rcases List.mem_cons.mp ht' with rfl | ht'
    · exact ht
    · exact h.tried t' ht'
  valid := h.valid
  found := h.found
  notFound := fun hnone => by
    obtain ⟨last, hlast, hrest⟩ := h.notFound hnone
    exact ⟨last, by rw [Retried.after, List.getLast?_cons, hlast]; rfl, hrest⟩

/-- **The loop ends.** A failure leaves a smaller range to try or a smaller cache. -/
theorem retry_eq (hpage : cachePageno < e.numberOfCachePages) (turns : ℕ) :
    ∀ (gap : Range) (maxLength : ℕ) (s : State), Valid e s →
      IsGap e (s.cache.list.map range) cachePageno gap → 0 < maxLength →
      s.cache.list.length * (e.cachePagePerRange + 1) + maxLength ≤ turns →
      ∃ r, retry e cachePageno turns gap maxLength s = some r ∧ Retries e cachePageno r := by
  induction turns with
  | zero => intro gap maxLength s _ _ hpos hturns; omega
  | succ turns ih =>
    intro gap maxLength s hvalid hgap hpos hturns
    obtain ⟨hwithin, hcontains, hlength⟩ := restrictedRange_spec hgap.contains hpos
    set r := restrictedRange cachePageno maxLength gap with hr
    have hbounds := Range.containsRange_iff.mp hwithin
    have hrpos : 0 < r.length := by
      have := Range.contains_iff.mp hcontains
      rw [Range.edge] at this
      omega
    have hlower : 0 ≤ r.location := hgap.lower.trans hbounds.1
    have hupper : r.edge ≤ e.numberOfCachePages := hbounds.2.trans hgap.upper
    have hsound (succeeded : Bool) :
        Try.Sound e cachePageno ⟨s.cache.list.map range, gap, r, succeeded⟩ :=
      ⟨hgap, hwithin, hcontains⟩
    have hcalls : Valid e { s with calls := s.calls + 1 } := ⟨hvalid.separate, hvalid.data⟩
    simp only [retry, ← hr, map_eq hlower hrpos]
    by_cases hmaps : e.maps s.calls = true
    · -- the range is mapped
      rw [if_pos hmaps, if_pos (contents_ne_nil hlower hupper hrpos)]
      refine ⟨_, rfl, ⟨?_, hcalls.insert hgap hwithin hrpos, ?_, nofun⟩⟩
      · intro t ht
        obtain rfl := List.mem_singleton.mp ht
        exact hsound true
      · intro range data hfound
        obtain ⟨rfl, rfl⟩ := Prod.mk.inj (Option.some.inj hfound)
        exact ⟨hcontains, hlower, rfl⟩
    rw [if_neg hmaps, if_neg (by simp)]
    by_cases hcuttable : 1 < r.length
    · rw [if_pos hcuttable]
      obtain ⟨retried, heq, hretries⟩ := ih gap ((r.length + 1) / 2) { s with calls := s.calls + 1 }
        hcalls hgap (by omega) (by dsimp only; omega)
      exact ⟨_, by rw [heq]; rfl, hretries.after (hsound false)⟩
    rw [if_neg hcuttable]
    by_cases hempty : s.cache.list = []
    · rw [if_neg (by simp [hempty])]
      refine ⟨_, rfl, ⟨?_, hcalls, nofun, fun _ => ?_⟩⟩
      · intro t ht
        obtain rfl := List.mem_singleton.mp ht
        exact hsound false
      · refine ⟨_, rfl, by simp [hempty], ?_, rfl⟩
        have hbase := Range.contains_iff.mp hcontains
        rw [Range.edge] at hbase
        have hone : r.length = 1 := by omega
        have hlocation : r.location = cachePageno := by omega
        calc r = ⟨r.location, r.length⟩ := rfl
          _ = ⟨cachePageno, 1⟩ := by rw [hlocation, hone]
    · -- with a range less, the gap is searched again, and is one again
      rw [if_pos hempty]
      have hpurged : (LRUCache.purge (fun m : Mapped => m.data.length) s.cache 1).list =
          s.cache.list.dropLast := LRUCache.list_purgeOne s.cache
      have hless : (LRUCache.purge (fun m : Mapped => m.data.length) s.cache 1).list.length + 1 =
          s.cache.list.length := by
        rw [hpurged, List.length_dropLast]
        have := List.length_pos_iff.mpr hempty
        omega
      have hvalid' := hcalls.purge 1
      rcases find_eq hvalid' hpage with ⟨entry, hentry, hin, -⟩ | ⟨gap', hgap', heq⟩
      · refine absurd hin fun hin => ?_
        have hmem : entry ∈ s.cache.list := (LRUCache.sublist_purge s.cache 1).subset hentry
        exact (hgap.free _ (List.mem_map_of_mem hmem)).not_contains hin hgap.contains
      · rw [heq]
        obtain ⟨retried, hretried, hretries⟩ := ih gap' e.cachePagePerRange _ hvalid' hgap'
          e.cachePagePerRange_pos (by
            have hmul : (LRUCache.purge (fun m : Mapped => m.data.length) s.cache 1).list.length *
                (e.cachePagePerRange + 1) + (e.cachePagePerRange + 1) =
                s.cache.list.length * (e.cachePagePerRange + 1) := by
              rw [← hless, Nat.add_mul, Nat.one_mul]
            simp only [purge]
            omega)
        exact ⟨_, by simp only [hretried]; rfl, hretries.after (hsound false)⟩

end Loop

/-! ### The bytes of a page -/

section Pages

variable (e : Env)

/-- A part of a page, if the file does not end before its end. -/
def Env.page (offset size : ℕ) : List UInt8 :=
  if offset + size ≤ e.file.size then e.file.bytes offset size else []

/-- What `mapPage` asserts of its arguments. -/
structure Legal (pageno offsetWithinPage sizeWithinPage : ℕ) : Prop where
  pageno_pos : 0 < pageno
  size_pos : 0 < sizeWithinPage
  within : offsetWithinPage + sizeWithinPage ≤ e.pageSize
  contains : e.offset pageno offsetWithinPage / e.cachePageSize < e.numberOfCachePages

instance (pageno offsetWithinPage sizeWithinPage : ℕ) :
    Decidable (Legal e pageno offsetWithinPage sizeWithinPage) :=
  decidable_of_iff
    (0 < pageno ∧ 0 < sizeWithinPage ∧ offsetWithinPage + sizeWithinPage ≤ e.pageSize ∧
      e.offset pageno offsetWithinPage / e.cachePageSize < e.numberOfCachePages)
    ⟨fun h => ⟨h.1, h.2.1, h.2.2.1, h.2.2.2⟩, fun h => ⟨h.1, h.2, h.3, h.4⟩⟩

/-- The file ends within the bytes, which begin at a page of the memory. -/
def ShortRead (offset size : ℕ) : Prop :=
  offset % e.memoryPageSize = 0 ∧ offset < e.file.size ∧ e.file.size < offset + size

instance (offset size : ℕ) : Decidable (ShortRead e offset size) :=
  inferInstanceAs (Decidable (_ ∧ _))

variable {e} {s : State} {pageno offsetWithinPage sizeWithinPage : ℕ}

/-- The cached bytes are those that mapping just the page returns, unless this is a short read. -/
theorem page_eq_mapped_iff {offset size : ℕ} (hsize : 0 < size) :
    e.page offset size = e.file.mapped e.memoryPageSize offset size ↔ ¬ShortRead e offset size := by
  rw [Env.page, FileData.mapped_eq hsize, ShortRead]
  split_ifs with hfits haligned
  · exact iff_of_true rfl fun h => by omega
  · constructor
    · intro heq h
      have hlength := congrArg List.length heq
      rw [FileData.length_bytes, List.length_nil] at hlength
      omega
    · intro h
      have hzero : e.file.size - offset = 0 := by omega
      rw [hzero]
      rfl
  · exact iff_of_true rfl fun h => haligned h.1

/-- The bytes of a page are taken from a range that contains its cache page. -/
theorem subdata_contents {r : Range} (hlegal : Legal e pageno offsetWithinPage sizeWithinPage)
    (hlower : 0 ≤ r.location)
    (hcontains : r.contains (e.offset pageno offsetWithinPage / e.cachePageSize : ℕ)) :
    subdata (e.contents r)
        (e.offset pageno offsetWithinPage - r.location * e.cachePageSize).toNat sizeWithinPage =
      e.page (e.offset pageno offsetWithinPage) sizeWithinPage := by
  have hend := e.offset_add_le pageno hlegal.within hlegal.size_pos
  have hbegin := Nat.div_mul_le_self (e.offset pageno offsetWithinPage) e.cachePageSize
  generalize e.offset pageno offsetWithinPage / e.cachePageSize =
    cachePageno at hcontains hend hbegin
  generalize e.offset pageno offsetWithinPage = offset at hend hbegin ⊢
  obtain ⟨n, hn⟩ := Int.eq_ofNat_of_zero_le hlower
  rw [Range.contains_iff, Range.edge, hn] at hcontains
  have hfirst : n * e.cachePageSize ≤ cachePageno * e.cachePageSize :=
    Nat.mul_le_mul_right _ (by omega)
  have hlast : (cachePageno + 1) * e.cachePageSize ≤
      n * e.cachePageSize + r.length * e.cachePageSize := by
    rw [← Nat.add_mul]
    exact Nat.mul_le_mul_right _ (by omega)
  have hlocation : (r.location * e.cachePageSize).toNat = n * e.cachePageSize := by
    rw [hn]
    exact_mod_cast Int.toNat_natCast (n * e.cachePageSize)
  have hwithin : ((offset : ℤ) - r.location * e.cachePageSize).toNat =
      offset - n * e.cachePageSize := by
    rw [hn]
    omega
  have hsize := hlegal.size_pos
  rw [Env.contents, hlocation, hwithin, subdata_bytes, Env.page]
  rw [show n * e.cachePageSize + (offset - n * e.cachePageSize) = offset by omega]
  congr 1
  exact propext (by omega)

/-- **`mapPage`** returns the part of the page, or nothing after the mapping of its cache page alone
has failed. -/
theorem mapPage_eq (hvalid : Valid e s) (hlegal : Legal e pageno offsetWithinPage sizeWithinPage) :
    ∃ m, mapPage e pageno offsetWithinPage sizeWithinPage s = some m ∧ Valid e m.state ∧
      (∀ t ∈ m.tried, t.Sound e (e.offset pageno offsetWithinPage / e.cachePageSize)) ∧
      (m.data = e.page (e.offset pageno offsetWithinPage) sizeWithinPage ∨
        m.data = [] ∧ Unmappable (e.offset pageno offsetWithinPage / e.cachePageSize) m.tried) := by
  simp only [mapPage]
  rcases find_eq hvalid hlegal.contains with ⟨entry, hentry, hcontains, hfind⟩ | ⟨gap, hgap, hfind⟩
  · rw [hfind]
    refine ⟨_, rfl, hvalid.retain entry.1, by simp, Or.inl ?_⟩
    dsimp only
    rw [hvalid.data entry hentry]
    exact subdata_contents hlegal (hvalid.separate.lower entry hentry) hcontains
  · obtain ⟨r, hretry, hretries⟩ := retry_eq hlegal.contains (turns e s) gap e.cachePagePerRange s
      hvalid hgap e.cachePagePerRange_pos (by rw [turns, Nat.add_mul]; omega)
    rw [hfind]
    simp only [hretry, Option.map_some]
    refine ⟨_, rfl, ?_⟩
    cases hfound : r.found with
    | none => exact ⟨hretries.valid, hretries.tried, Or.inr ⟨rfl, hretries.notFound hfound⟩⟩
    | some found =>
      obtain ⟨range, data⟩ := found
      obtain ⟨hcontains, hlower, hdata⟩ := hretries.found range data hfound
      refine ⟨hretries.valid, hretries.tried, Or.inl ?_⟩
      dsimp only
      rw [hdata]
      exact subdata_contents hlegal hlower hcontains

/-! ### Runs -/

/-- What is done with the handle; `purgeAll` and `purgeOne` are purges. -/
inductive Op where
  | mapPage (pageno offsetWithinPage sizeWithinPage : ℕ)
  | purge (count : ℕ)
  deriving DecidableEq, Repr

variable (e) in
def step (s : State) : Op → Option State
  | .mapPage pageno offsetWithinPage sizeWithinPage =>
    if Legal e pageno offsetWithinPage sizeWithinPage then
      (mapPage e pageno offsetWithinPage sizeWithinPage s).map (·.state)
    else none
  | .purge count => some (purge count s)

variable (e) in
/-- **The cache is transparent** to a call of `mapPage`. -/
structure Transparent (s : State) (pageno offsetWithinPage sizeWithinPage : ℕ) : Prop where
  disjoint : s.cache.list.Pairwise fun a b => Range.Disjoint (range a) (range b)
  found : (∃ entry ∈ s.cache.list,
        (range entry).contains (e.offset pageno offsetWithinPage / e.cachePageSize : ℕ) ∧
        (find e (e.offset pageno offsetWithinPage / e.cachePageSize : ℕ) s).1 =
          (range entry, some entry.2)) ∨
      ∃ gap, IsGap e (s.cache.list.map range)
        (e.offset pageno offsetWithinPage / e.cachePageSize) gap ∧
        (find e (e.offset pageno offsetWithinPage / e.cachePageSize : ℕ) s).1 = (gap, none)
  mapped : ∃ m, mapPage e pageno offsetWithinPage sizeWithinPage s = some m ∧
    (∀ t ∈ m.tried, t.Sound e (e.offset pageno offsetWithinPage / e.cachePageSize)) ∧
    (m.data = e.file.mapped e.memoryPageSize (e.offset pageno offsetWithinPage) sizeWithinPage ∨
      m.data = [] ∧ Unmappable (e.offset pageno offsetWithinPage / e.cachePageSize) m.tried)

theorem step_valid {t : State} {op : Op} (hvalid : Valid e s) (hstep : step e s op = some t) :
    Valid e t := by
  cases op with
  | purge count =>
    obtain rfl := Option.some.inj hstep
    exact hvalid.purge count
  | mapPage pageno offsetWithinPage sizeWithinPage =>
    rw [step] at hstep
    by_cases hlegal : Legal e pageno offsetWithinPage sizeWithinPage
    · obtain ⟨m, hm, hvalid', -⟩ := mapPage_eq hvalid hlegal
      rw [if_pos hlegal, hm] at hstep
      obtain rfl := Option.some.inj hstep
      exact hvalid'
    · rw [if_neg hlegal] at hstep
      cases hstep

/-- In any run the cached ranges are disjoint and have the bytes of the file. -/
theorem valid_of_exec {ops : List Op} (hexec : Run.exec (step e) {} ops = some s) : Valid e s :=
  Run.inv_exec_of_step (fun _ _ _ => step_valid) (valid_empty 0) hexec

theorem transparent (hvalid : Valid e s) (hlegal : Legal e pageno offsetWithinPage sizeWithinPage)
    (hok : ¬ShortRead e (e.offset pageno offsetWithinPage) sizeWithinPage) :
    Transparent e s pageno offsetWithinPage sizeWithinPage where
  disjoint := hvalid.separate.disjoint
  found := by
    rcases find_eq hvalid hlegal.contains with ⟨entry, hentry, hcontains, hfind⟩ | ⟨gap,
      hgap, hfind⟩
    · exact Or.inl ⟨entry, hentry, hcontains, by rw [hfind]⟩
    · exact Or.inr ⟨gap, hgap, by rw [hfind]⟩
  mapped := by
    obtain ⟨m, hm, -, htried, hdata⟩ := mapPage_eq hvalid hlegal
    rw [(page_eq_mapped_iff hlegal.size_pos).mpr hok] at hdata
    exact ⟨m, hm, htried, hdata⟩

end Pages

end PageBasedFileHandle

end Wcdb.Repair
