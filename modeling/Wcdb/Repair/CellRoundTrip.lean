import Wcdb.Repair.Cell

/-!
# Decoding inverts the record and cell format

The format of the file is stated on its own. A column is **stored** in one of the forms of the
record format (`Stored`); a record is its header and the bodies of its columns (`IsRecord`); a
cell puts the record on a page and, by the rule of `minLocal` and `maxLocal`, the rest of it on
a chain of overflow pages (`Chain`, `IsCell`).

`Cell::doInitialize` reads every such cell back: `copyOverflow_chain` is the loop over the
overflow pages, `parseColumns_spec` the loop over the serial types, and `doInitialize_isCell`
the whole.
-/

namespace Wcdb.Repair

open Deserialization Serialization

/-! ### The format -/

/-- The widths of stored integers. -/
inductive IntWidth where
  | one
  | two
  | three
  | four
  | six
  | eight
  deriving DecidableEq, Repr

namespace IntWidth

def bytes : IntWidth → ℕ
  | one => 1
  | two => 2
  | three => 3
  | four => 4
  | six => 6
  | eight => 8

def serialType : IntWidth → ℕ
  | one => 1
  | two => 2
  | three => 3
  | four => 4
  | six => 5
  | eight => 6

end IntWidth

/-- The forms in which a record stores a column. -/
inductive Stored where
  | null
  | zero
  | one
  | integer (width : IntWidth) (v : ℤ)
  | real (bits : ℕ)
  | text (bytes : List UInt8)
  | blob (bytes : List UInt8)
  deriving DecidableEq, Repr

namespace Stored

def serialType : Stored → ℕ
  | null => 0
  | zero => 8
  | one => 9
  | integer w _ => w.serialType
  | real _ => 7
  | text bytes => 13 + 2 * bytes.length
  | blob bytes => 12 + 2 * bytes.length

def body : Stored → List UInt8
  | integer w v => bigEndian w.bytes v
  | real bits => natBytes 8 bits
  | text bytes => bytes
  | blob bytes => bytes
  | _ => []

def value : Stored → Value
  | null => .null
  | zero => .integer 0
  | one => .integer 1
  | integer _ v => .integer v
  | real bits => .real bits
  | text bytes => .text bytes
  | blob bytes => .blob bytes

def valueType : Stored → Cell.ValueType
  | null => .null
  | real _ => .real
  | text _ => .text
  | blob _ => .blob
  | _ => .integer

/-- The value can be stored in this form: an integer in its width, a real in 64 bits, and a text
or blob of at most `SQLITE_MAX_LENGTH` bytes. -/
def Valid : Stored → Prop
  | integer w v => Fits w.bytes v
  | real bits => bits < 2 ^ 64
  | text bytes => bytes.length ≤ 1000000000
  | blob bytes => bytes.length ≤ 1000000000
  | _ => True

end Stored

/-- The serial types of a record. -/
def serialTypes (columns : List Stored) : List UInt8 :=
  columns.flatMap fun s => encodeVarint s.serialType

/-- The values of a record. -/
def bodies (columns : List Stored) : List UInt8 := columns.flatMap Stored.body

/-- The record of the columns: the size of the header, which counts itself, the serial types and
the values. -/
def IsRecord (columns : List Stored) (payload : List UInt8) : Prop :=
  ∃ h : ℕ, h = (encodeVarint h).length + (serialTypes columns).length ∧
    payload = encodeVarint h ++ serialTypes columns ++ bodies columns

/-- The size of the part of a payload that is stored on the page, for a usable size `u`. -/
def localSize (u : ℕ) (type : PageType) (size : ℕ) : ℕ :=
  let maxLocal := if type = .leafTable then u - 35 else (u - 12) * 64 / 255 - 23
  let minLocal := (u - 12) * 32 / 255 - 23
  if size ≤ maxLocal then size
  else
    let k := minLocal + (size - minLocal) % (u - 4)
    if k ≤ maxLocal then k else minLocal

/-- The first page of a chain, zero for none. -/
def firstOf (chain : List ℤ) : ℤ := chain.headD 0

/-- **A chain of overflow pages**: each page holds the number of the next one, then bytes up to its
usable size. -/
inductive Chain (p : Pager) (u : ℕ) : List ℤ → List UInt8 → Prop where
  | nil : Chain p u [] []
  | cons {n : ℤ} {rest : List ℤ} {bytes padding : List UInt8} (some_bytes : bytes ≠ [])
      (page : p.acquirePageData n =
        some (bigEndian 4 (firstOf rest) ++ bytes.take (u - 4) ++ padding))
      (tail : Chain p u rest (bytes.drop (u - 4))) : Chain p u (n :: rest) bytes

/-- The bytes of a cell before its payload. -/
def cellHead (type : PageType) (leftChild rowid : ℤ) (size : ℕ) : List UInt8 :=
  (if type = .interiorIndex then bigEndian 4 leftChild else []) ++ encodeVarint size ++
    (if type = .leafTable then encodeVarint (rowid % 2 ^ 64).toNat else [])

/-- **A cell as SQLite lays it out**, at `pointer` of the page with the bytes `data`. -/
structure IsCell (p : Pager) (type : PageType) (leftChild rowid : ℤ) (payload : List UInt8)
    (chain : List ℤ) (data : List UInt8) (pointer : ℕ) : Prop where
  kind : type = .leafTable ∨ type = .leafIndex ∨ type = .interiorIndex
  child : Fits 4 leftChild
  key : Fits 8 rowid
  page : ∃ before after, before.length = pointer ∧ data.length = p.pageSize ∧
    data = before ++ (cellHead type leftChild rowid payload.length ++
      (payload.take (localSize p.usableSize.toNat type payload.length) ++
        ((if localSize p.usableSize.toNat type payload.length < payload.length then
          bigEndian 4 (firstOf chain) else []) ++ after)))
  distinct : chain.Nodup
  overflow : Chain p p.usableSize.toNat chain
    (payload.drop (localSize p.usableSize.toNat type payload.length))

/-! ### The cursor -/

@[simp]
theorem seek_data (d : Deserialization) (position : ℤ) : (d.seek position).data = d.data := by
  unfold seek
  split <;> rfl

theorem at_seek {d : Deserialization} {before rest : List UInt8} (hdata : d.data = before ++ rest)
    (hsmall : d.data.length < 2 ^ 63) : At (d.seek before.length) rest := by
  have hcursor : d.seek before.length = { d with cursor := before.length } := by
    rw [seek, if_neg (by omega), Deserialization.capacity, hdata]
    congr 1
    simp
  rw [hcursor]
  exact ⟨by rw [hdata, List.drop_left], by rw [hdata]; simp, hsmall⟩

/-- Reading a varint, with its length. -/
theorem advanceVarint_at {d : Deserialization} {v : ℕ} (hv : v < 2 ^ 64) {rest : List UInt8}
    (h : At d (encodeVarint v ++ rest)) :
    d.advanceVarint = (((encodeVarint v).length, v), d.advance (encodeVarint v).length) ∧
      At (d.advance (encodeVarint v).length) rest := by
  have hget := getVarint_encodeVarint hv rest
  have hpos := List.length_pos_iff.mpr (encodeVarint_ne_nil v)
  have hsmall : (encodeVarint v).length < 2 ^ 63 := by
    have hlen := h.length
    have := h.small
    rw [List.length_append] at hlen
    omega
  refine ⟨?_, h.advance.1⟩
  rw [Deserialization.advanceVarint, h.ahead, hget]
  simp only [if_pos hpos, offset_of_lt hsmall]

/-! ### Serial types -/

theorem Cell.getLengthOfSerialType_of_ge {x : ℤ} (h : 12 ≤ x) :
    Cell.getLengthOfSerialType x = (x - 12 - x % 2) / 2 := by
  have hmod : x.tmod 2 = x % 2 := Int.tmod_eq_emod_of_nonneg (by omega)
  rw [Cell.getLengthOfSerialType, if_neg (by omega), hmod, Int.tdiv_eq_ediv_of_nonneg (by omega)]

namespace Stored

variable {s : Stored}

theorem serialType_lt (h : s.Valid) : s.serialType < 2 ^ 31 := by
  cases s with
  | integer w v => cases w <;> simp [serialType, IntWidth.serialType]
  | text | blob =>
    simp only [Valid] at h
    simp only [serialType]
    omega
  | _ => simp [serialType]

theorem int32_serialType (h : s.Valid) : int32 s.serialType = s.serialType :=
  int32_of_lt (serialType_lt h)

theorem isSerialTypeSanity_serialType (s : Stored) :
    Cell.isSerialTypeSanity s.serialType = true := by
  refine decide_eq_true ?_
  cases s with
  | integer w v => cases w <;> simp [serialType, IntWidth.serialType]
  | text bytes =>
    have : ((text bytes).serialType : ℤ) = 13 + 2 * bytes.length := by simp [serialType]
    rw [this]
    omega
  | blob bytes =>
    have : ((blob bytes).serialType : ℤ) = 12 + 2 * bytes.length := by simp [serialType]
    rw [this]
    omega
  | _ => simp [serialType]

/-- The table of lengths and the formula for texts and blobs. -/
theorem getLengthOfSerialType_serialType (s : Stored) :
    Cell.getLengthOfSerialType s.serialType = s.body.length := by
  cases s with
  | null => rfl
  | zero => rfl
  | one => rfl
  | integer w v =>
    cases w <;> simp [serialType, IntWidth.serialType, IntWidth.bytes, body,
      Cell.getLengthOfSerialType, Cell.lengthsOfSerialType]
  | real bits =>
    simp [serialType, body, Cell.getLengthOfSerialType, Cell.lengthsOfSerialType]
  | text bytes =>
    change Cell.getLengthOfSerialType (13 + 2 * bytes.length : ℕ) = bytes.length
    rw [Cell.getLengthOfSerialType_of_ge (by omega)]
    omega
  | blob bytes =>
    change Cell.getLengthOfSerialType (12 + 2 * bytes.length : ℕ) = bytes.length
    rw [Cell.getLengthOfSerialType_of_ge (by omega)]
    omega

end Stored

/-! ### The columns -/

/-- The serial types of the columns with the offsets of their values, the first at `start`. -/
def columnOffsets : ℤ → List Stored → List (ℤ × ℤ)
  | _, [] => []
  | start, s :: rest => ((s.serialType : ℤ), start) :: columnOffsets (start + s.body.length) rest

@[simp]
theorem length_columnOffsets (start : ℤ) (columns : List Stored) :
    (columnOffsets start columns).length = columns.length := by
  induction columns generalizing start with
  | nil => rfl
  | cons s rest ih => simp [columnOffsets, ih]

/-- A column lies where its offset says: after the values of the columns before it. -/
theorem columnOffsets_getD (start : ℤ) (before : List Stored) (s : Stored) (after : List Stored) :
    (columnOffsets start (before ++ s :: after)).getD before.length (0, 0) =
      ((s.serialType : ℤ), start + (bodies before).length) := by
  induction before generalizing start with
  | nil => simp [columnOffsets, bodies]
  | cons b before ih =>
    simp only [List.cons_append, columnOffsets, List.length_cons, List.getD_cons_succ,
      ih (start + b.body.length), bodies, List.flatMap_cons, List.length_append]
    push_cast
    rw [add_assoc]

/-- **The loop over the serial types.** -/
theorem parseColumns_spec {payload after : List UInt8} {columns : List Stored} (before : List UInt8)
    (values : ℤ) (fuel : ℕ) (hvalid : ∀ s ∈ columns, s.Valid) (hsmall : payload.length < 2 ^ 63)
    (hpayload : payload = before ++ (serialTypes columns ++ after)) {stop : ℤ}
    (hstop : values + (bodies columns).length ≤ stop) (hfuel : columns.length ≤ fuel) :
    Cell.parseColumns payload (before.length + (serialTypes columns).length) stop fuel before.length
      values = some ((before.length : ℤ) + (serialTypes columns).length,
        values + (bodies columns).length, columnOffsets values columns) := by
  induction columns generalizing before values fuel with
  | nil =>
    cases fuel <;> simp [Cell.parseColumns, serialTypes, bodies, columnOffsets]
  | cons s rest ih =>
    obtain ⟨fuel, rfl⟩ : ∃ n, fuel = n + 1 := ⟨fuel - 1, by simp at hfuel; omega⟩
    have hs : s.Valid := hvalid s List.mem_cons_self
    have hserial := Stored.serialType_lt hs
    have hpos := List.length_pos_iff.mpr (encodeVarint_ne_nil s.serialType)
    have htypes : serialTypes (s :: rest) = encodeVarint s.serialType ++ serialTypes rest := by
      simp [serialTypes]
    have hbodies : ((bodies (s :: rest)).length : ℤ) = s.body.length + (bodies rest).length := by
      simp [bodies]
    have hat : At ((Deserialization.mk payload 0 0).seek before.length)
        (encodeVarint s.serialType ++ (serialTypes rest ++ after)) := by
      refine at_seek ?_ hsmall
      rw [hpayload, htypes, List.append_assoc]
    have hread := (advanceVarint_at (by omega) hat).1
    have hnext := ih (before ++ encodeVarint s.serialType) (values + s.body.length) fuel
      (fun t ht => hvalid t (List.mem_cons_of_mem _ ht)) (by rw [hpayload, htypes]; simp)
      (by rw [hbodies] at hstop; omega) (by simp at hfuel; omega)
    have hcursor : (before.length : ℤ) + (serialTypes (s :: rest)).length =
        (before ++ encodeVarint s.serialType).length + (serialTypes rest).length := by
      rw [htypes]
      simp only [List.length_append]
      push_cast
      ring
    rw [hcursor]
    simp only [Cell.parseColumns, hread, Stored.int32_serialType hs,
      Stored.isSerialTypeSanity_serialType, Stored.getLengthOfSerialType_serialType, Bool.not_true,
      Bool.false_eq_true, if_false]
    rw [if_pos (by simp only [List.length_append]; push_cast; omega), if_neg hpos.ne',
      if_neg (by rw [hbodies] at hstop; omega)]
    rw [show (before.length : ℤ) + (encodeVarint s.serialType).length =
      (before ++ encodeVarint s.serialType).length by simp, hnext]
    simp only [Option.bind_eq_bind, Option.bind_some, hbodies, columnOffsets, add_assoc, pure]

/-- The columns of a record. -/
theorem readColumns_isRecord {columns : List Stored} {payload : List UInt8}
    (hvalid : ∀ s ∈ columns, s.Valid) (hrecord : IsRecord columns payload)
    (hsize : payload.length < 2 ^ 31) :
    ∃ h : ℕ, h + (bodies columns).length = payload.length ∧ payload.drop h = bodies columns ∧
      Cell.readColumns payload payload.length = some (columnOffsets h columns) := by
  obtain ⟨h, hh, hpayload⟩ := hrecord
  have hlen : payload.length = h + (bodies columns).length := by
    rw [hpayload]
    simp only [List.length_append]
    omega
  have hpos := List.length_pos_iff.mpr (encodeVarint_ne_nil h)
  have hint : int32 h = h := int32_of_lt (by omega)
  refine ⟨h, hlen.symm, ?_, ?_⟩
  · rw [hpayload, List.drop_append_of_le_length (by simp only [List.length_append]; omega),
      List.drop_of_length_le (by simp only [List.length_append]; omega), List.nil_append]
  have hread : (Deserialization.mk payload 0 0).advanceVarint =
      (((encodeVarint h).length, h),
        (Deserialization.mk payload 0 0).advance (encodeVarint h).length) := by
    have hat : At (Deserialization.mk payload 0 0)
        (encodeVarint h ++ (serialTypes columns ++ bodies columns)) := by
      rw [← List.append_assoc, ← hpayload]
      exact At.start (by omega) 0
    exact (advanceVarint_at (by omega) hat).1
  have htypes : ∀ l : List Stored, l.length ≤ (serialTypes l).length := by
    intro l
    induction l with
    | nil => simp
    | cons s rest ih =>
      have := List.length_pos_iff.mpr (encodeVarint_ne_nil s.serialType)
      simp only [serialTypes, List.flatMap_cons, List.length_append, List.length_cons] at ih ⊢
      omega
  have hsmall : payload.length < 2 ^ 63 := by omega
  have hparse := parseColumns_spec (encodeVarint h) h h hvalid hsmall
    (by rw [← List.append_assoc]; exact hpayload) (show (h : ℤ) + _ ≤ payload.length by omega)
    (by have := htypes columns; omega)
  have hcursor : ((encodeVarint h).length : ℤ) + (serialTypes columns).length = h := by omega
  rw [hcursor] at hparse
  simp only [Cell.readColumns, hread, hint, Int.toNat_natCast, hparse, hpos.ne', if_false,
    Option.bind_eq_bind, Option.bind_some]
  rw [if_neg (by omega)]
  rfl

/-! ### The payload -/

theorem usableSize_range (p : Pager) :
    257 ≤ p.usableSize.toNat ∧ p.usableSize.toNat ≤ 65536 ∧
      (p.usableSize.toNat : ℤ) = p.usableSize := by
  have := p.pageSize_ge
  have := p.pageSize_le
  have := p.reservedBytes_le
  unfold Pager.usableSize
  omega

/-- The code and the format split a payload at the same place. They test for a payload of exactly
`maxLocal` bytes in different branches, which agree there. -/
theorem localPayloadSize_eq (p : Pager) (type : PageType) (size : ℕ) :
    Cell.localPayloadSize p type size = localSize p.usableSize.toNat type size := by
  obtain ⟨hlo, hhi, hcast⟩ := usableSize_range p
  obtain ⟨u, hu⟩ : ∃ u : ℕ, p.usableSize = u := ⟨_, hcast.symm⟩
  have hlo' : 257 ≤ u := by omega
  have hhi' : u ≤ 65536 := by omega
  unfold Cell.localPayloadSize localSize PageType.maxLocal PageType.minLocal
  rw [hu, Int.toNat_natCast]
  dsimp only
  rw [Int.tdiv_eq_ediv_of_nonneg (by omega), Int.tdiv_eq_ediv_of_nonneg (by omega)]
  have hmin : ((u : ℤ) - 12) * 32 / 255 - 23 = ((u - 12) * 32 / 255 - 23 : ℕ) := by omega
  have hmax : (if type = .leafTable then (u : ℤ) - 35 else ((u : ℤ) - 12) * 64 / 255 - 23) =
      ((if type = .leafTable then u - 35 else (u - 12) * 64 / 255 - 23 : ℕ) : ℤ) := by
    split <;> omega
  have hle : (u - 12) * 32 / 255 - 23 ≤
      if type = .leafTable then u - 35 else (u - 12) * 64 / 255 - 23 := by
    split <;> omega
  have hlt : (if type = .leafTable then u - 35 else (u - 12) * 64 / 255 - 23) -
      ((u - 12) * 32 / 255 - 23) < u - 4 := by
    split <;> omega
  rw [hmin, hmax]
  generalize (u - 12) * 32 / 255 - 23 = m at *
  generalize (if type = .leafTable then u - 35 else (u - 12) * 64 / 255 - 23) = M at *
  rcases lt_trichotomy size M with hsize | rfl | hsize
  · rw [if_pos (by omega), if_pos hsize.le]
  · have hmod : ((size : ℤ) - m).tmod ((u : ℤ) - 4) = size - m :=
      Int.tmod_eq_of_lt (by omega) (by omega)
    rw [if_neg (by omega), if_pos le_rfl, hmod]
    simp
  · have hmod : ((size : ℤ) - m).tmod ((u : ℤ) - 4) = ((size - m) % (u - 4) : ℕ) := by
      rw [Int.tmod_eq_emod_of_nonneg (by omega)]
      push_cast [Nat.cast_sub (by omega : m ≤ size), Nat.cast_sub (by omega : 4 ≤ u)]
      rfl
    rw [if_neg (show ¬ (size : ℤ) < M by omega), if_neg (show ¬ size ≤ M by omega), hmod]
    split <;> split <;> omega

theorem localSize_le (u : ℕ) (type : PageType) (size : ℕ) : localSize u type size ≤ size := by
  have hle : (u - 12) * 32 / 255 - 23 ≤
      if type = .leafTable then u - 35 else (u - 12) * 64 / 255 - 23 := by
    split <;> omega
  unfold localSize
  generalize (u - 12) * 32 / 255 - 23 = m at *
  generalize (if type = .leafTable then u - 35 else (u - 12) * 64 / 255 - 23) = M at *
  simp only
  split
  · exact le_rfl
  · split <;> omega

theorem Chain.firstOf_range {p : Pager} {u : ℕ} {chain : List ℤ} {bytes : List UInt8}
    (h : Chain p u chain bytes) : 0 ≤ firstOf chain ∧ firstOf chain < 2 ^ 31 := by
  cases h with
  | nil => simp [firstOf]
  | @cons n rest bytes padding some_bytes page tail =>
    have hrange := p.range_data n _ page
    have hlt := p.numberOfPages_lt
    simp only [firstOf, List.headD_cons]
    omega

theorem Chain.fits_firstOf {p : Pager} {u : ℕ} {chain : List ℤ} {bytes : List UInt8}
    (h : Chain p u chain bytes) : Fits 4 (firstOf chain) := by
  have := h.firstOf_range
  constructor <;> norm_num <;> omega

/-- **The loop over the overflow pages** copies the chain. -/
theorem copyOverflow_chain {p : Pager} {chain : List ℤ} {bytes : List UInt8}
    (h : Chain p p.usableSize.toNat chain bytes) (hnodup : chain.Nodup) (seen : List ℤ)
    (hseen : ∀ n ∈ chain,
      n ∉ seen) (payload : List UInt8) (fuel : ℕ) (hfuel : bytes.length ≤ fuel) :
    Cell.copyOverflow p (payload.length + bytes.length) fuel (firstOf chain) seen payload =
      some (0, payload ++ bytes) := by
  obtain ⟨hlo, hhi, hu⟩ := usableSize_range p
  induction h generalizing seen payload fuel with
  | nil => cases fuel <;> simp [Cell.copyOverflow, firstOf]
  | @cons n rest bytes padding some_bytes page tail ih =>
    have hpos := List.length_pos_iff.mpr some_bytes
    obtain ⟨fuel, rfl⟩ : ∃ k, fuel = k + 1 := ⟨fuel - 1, by omega⟩
    obtain ⟨hn, hn'⟩ := p.range_data n _ page
    -- The page delivers the number of the next one and its part of the bytes.
    have hfirst : get4BytesInt (bigEndian 4 (firstOf rest) ++ bytes.take (p.usableSize.toNat - 4) ++
        padding) = firstOf rest := by
      rw [List.append_assoc]
      exact get4BytesInt_bigEndian tail.fits_firstOf _
    have hpart : ((bigEndian 4 (firstOf rest) ++ bytes.take (p.usableSize.toNat - 4) ++
        padding).drop 4).take (min ((payload.length + bytes.length : ℤ) - payload.length)
          (p.usableSize - 4)).toNat = bytes.take (p.usableSize.toNat - 4) := by
      have hdrop : (bigEndian 4 (firstOf rest) ++ bytes.take (p.usableSize.toNat - 4) ++
          padding).drop 4 = bytes.take (p.usableSize.toNat - 4) ++ padding := by
        rw [List.append_assoc]
        exact List.drop_left' (length_bigEndian 4 _)
      rw [hdrop]
      refine List.take_left' ?_
      rw [List.length_take]
      omega
    have hnext := ih hnodup.of_cons (n :: seen)
      (fun k hk hmem => by
        rcases List.mem_cons.mp hmem with rfl | hmem
        · exact (List.nodup_cons.mp hnodup).1 hk
        · exact hseen k (List.mem_cons_of_mem _ hk) hmem)
      (payload ++ bytes.take (p.usableSize.toNat - 4)) fuel
      (by simp only [List.length_drop]; omega)
    have hsize : ((payload ++ bytes.take (p.usableSize.toNat - 4)).length : ℤ) +
        (bytes.drop (p.usableSize.toNat - 4)).length = payload.length + bytes.length := by
      simp only [List.length_append, List.length_take, List.length_drop]
      omega
    rw [hsize, List.append_assoc, List.take_append_drop] at hnext
    rw [show firstOf (n :: rest) = n from rfl, Cell.copyOverflow,
      if_pos ⟨hn, by omega⟩, if_neg (hseen n List.mem_cons_self), if_neg (by omega), page]
    simp only [hfirst, hpart]
    exact hnext

/-- The bytes of a payload on the page. -/
theorem subdata_of_eq {data before part after : List UInt8}
    (hdata : data = before ++ (part ++ after))
    {offset size : ℤ} (hoffset : offset = before.length) (hsize : size = part.length) :
    Cell.subdata data offset size = part := by
  have hlen : data.length = before.length + (part.length + after.length) := by
    rw [hdata]
    simp
  rw [Cell.subdata, if_pos ⟨by omega, by omega⟩, hoffset, hsize, Int.toNat_natCast,
    Int.toNat_natCast, subdata, if_pos (by omega), hdata, List.drop_left, List.take_left]

/-- The payload of a cell, from the page and its overflow pages. -/
theorem readPayload_spec {p : Pager} {type : PageType} {payload before after : List UInt8}
    {chain : List ℤ} {d : Deserialization}
    (hat : At d (payload.take (localSize p.usableSize.toNat type payload.length) ++
      ((if localSize p.usableSize.toNat type payload.length < payload.length then
        bigEndian 4 (firstOf chain) else []) ++ after)))
    (hdata : d.data = before ++ (payload.take (localSize p.usableSize.toNat type payload.length) ++
      ((if localSize p.usableSize.toNat type payload.length < payload.length then
        bigEndian 4 (firstOf chain) else []) ++ after)))
    (hnodup : chain.Nodup)
    (hchain : Chain p p.usableSize.toNat chain
      (payload.drop (localSize p.usableSize.toNat type payload.length))) :
    Cell.readPayload p type d before.length payload.length = some payload := by
  have hle := localSize_le p.usableSize.toNat type payload.length
  have hlocal := localPayloadSize_eq p type payload.length
  generalize localSize p.usableSize.toNat type payload.length = size at *
  have htake : (payload.take size).length = size := by
    rw [List.length_take]
    omega
  have hsmall := hat.small
  have hsize64 : size < 2 ^ 63 := by
    have hlen := hat.length
    rw [List.length_append, htake] at hlen
    omega
  have hcan : d.canAdvance ((size : ℤ) % 2 ^ 64).toNat = true := by
    have hcast : ((size : ℤ) % 2 ^ 64).toNat = (payload.take size).length := by
      rw [htake]
      omega
    rw [hcast]
    exact hat.canAdvance
  have hpart := subdata_of_eq hdata rfl (show (size : ℤ) = (payload.take size).length by rw [htake])
  unfold Cell.readPayload
  simp only [hlocal, hcan, Bool.not_true, Bool.false_eq_true, if_false]
  by_cases hspilled : size < payload.length
  · -- The rest lies on the overflow pages, whose first number follows the local part.
    simp only [if_pos hspilled] at hdata
    have hdata' :
      d.data = (before ++ payload.take size) ++ (bigEndian 4 (firstOf chain) ++ after) := by
      rw [hdata, List.append_assoc]
    have hposition : (before.length : ℤ) + size = (before ++ payload.take size).length := by
      simp [htake]
    have hptr := at_seek hdata' hsmall
    have hcan4 : (d.seek (before ++ payload.take size).length).canAdvance 4 = true := by
      have := hptr.canAdvance
      rwa [length_bigEndian] at this
    have hfirst : get4BytesInt ((d.seek (before ++ payload.take size).length).data.drop
        (d.seek (before ++ payload.take size).length).cursor) = firstOf chain := by
      rw [hptr.ahead]
      exact get4BytesInt_bigEndian hchain.fits_firstOf _
    have hcopy := copyOverflow_chain hchain hnodup [] (by simp) (payload.take size) payload.length
      (by simp)
    have hsize :
      ((payload.take size).length : ℤ) + (payload.drop size).length = payload.length := by
      simp only [htake, List.length_drop]
      omega
    rw [hsize, List.take_append_drop] at hcopy
    rw [if_pos (by omega), hposition, hcan4, seek_data, hpart]
    rw [seek_data] at hfirst
    simp only [Bool.not_true, Bool.false_eq_true, if_false, hfirst, Int.toNat_natCast, hcopy]
    rw [if_neg (by simp)]
  · have hall : payload.take size = payload := List.take_of_length_le (by omega)
    rw [if_neg (by omega), hpart, hall]

/-! ### The accessors -/

section Accessors

variable {c : Cell} {i start : ℕ} {s : Stored} {after : List UInt8}

theorem getValueType_of_column (hcolumn : c.column i = ((s.serialType : ℤ), (start : ℤ))) :
    c.getValueType i = s.valueType := by
  unfold Cell.getValueType
  rw [hcolumn]
  cases s with
  | integer w v => cases w <;> rfl
  | text bytes =>
    have hserial : ((Stored.text bytes).serialType : ℤ) = 13 + 2 * bytes.length := by
      simp [Stored.serialType]
    have hmod : (13 + 2 * bytes.length : ℤ).tmod 2 ≠ 0 := by
      rw [Int.tmod_eq_emod_of_nonneg (by omega)]
      omega
    simp only [hserial]
    rw [if_neg (by omega), if_neg (by omega), if_neg (by omega), if_pos hmod]
    rfl
  | blob bytes =>
    have hserial : ((Stored.blob bytes).serialType : ℤ) = 12 + 2 * bytes.length := by
      simp [Stored.serialType]
    have hmod : ¬ (12 + 2 * bytes.length : ℤ).tmod 2 ≠ 0 := by
      rw [Int.tmod_eq_emod_of_nonneg (by omega)]
      omega
    simp only [hserial]
    rw [if_neg (by omega), if_neg (by omega), if_neg (by omega), if_neg hmod]
    rfl
  | _ => rfl

/-- An integer of each width. -/
theorem integerValue_of_column {w : IntWidth} {v : ℤ} (hfits : Fits w.bytes v)
    (hcolumn : c.column i = ((w.serialType : ℤ), (start : ℤ)))
    (hfrom : c.bytesFrom i = bigEndian w.bytes v ++ after) : c.integerValue i = v := by
  have hlength : Cell.getLengthOfSerialType w.serialType = w.bytes := by cases w <;> rfl
  have hserial : (w.serialType : ℤ) ≠ 8 ∧ (w.serialType : ℤ) ≠ 9 := by cases w <;> decide
  unfold Cell.integerValue
  rw [hcolumn, hfrom]
  simp only [hserial.1, hserial.2, if_false, hlength]
  cases w with
  | one => simpa [IntWidth.bytes] using get1ByteInt_bigEndian hfits after
  | two => simpa [IntWidth.bytes] using get2BytesInt_bigEndian hfits after
  | three => simpa [IntWidth.bytes] using get3BytesInt_bigEndian hfits after
  | four => simpa [IntWidth.bytes] using get4BytesInt_bigEndian hfits after
  | six => simpa [IntWidth.bytes] using get6BytesInt_bigEndian hfits after
  | eight => simpa [IntWidth.bytes] using get8BytesInt_bigEndian hfits after

/-- **A column reads back as the value it stores.** -/
theorem value_of_column (hs : s.Valid) (hcolumn : c.column i = ((s.serialType : ℤ), (start : ℤ)))
    (hbytes : c.payload.drop start = s.body ++ after) : c.value i = s.value := by
  have hfrom : c.bytesFrom i = s.body ++ after := by
    rw [Cell.bytesFrom, hcolumn, Int.toNat_natCast, hbytes]
  have hlength := Stored.getLengthOfSerialType_serialType s
  unfold Cell.value
  rw [getValueType_of_column hcolumn]
  cases s with
  | null => rfl
  | zero => simp [Stored.valueType, Stored.value, Cell.integerValue, hcolumn, Stored.serialType]
  | one => simp [Stored.valueType, Stored.value, Cell.integerValue, hcolumn, Stored.serialType]
  | integer w v =>
    exact congrArg Value.integer (integerValue_of_column hs hcolumn hfrom)
  | real bits =>
    simp only [Stored.valueType, Stored.value, Cell.doubleValue, hfrom, Stored.body]
    rw [get8Bytes_natBytes hs]
  | text bytes =>
    simp only [Stored.valueType, Stored.value, Cell.textValue, hfrom, hcolumn, hlength,
      Int.toNat_natCast, Stored.body, List.take_left]
  | blob bytes =>
    simp only [Stored.valueType, Stored.value, Cell.blobValue, hfrom, hcolumn, hlength,
      Int.toNat_natCast, Stored.body, List.take_left]

end Accessors

/-! ### The whole cell -/

/-- The `int64_t` of a rowid. -/
theorem offset_rowid {rowid : ℤ} (h : Fits 8 rowid) :
    (rowid % 2 ^ 64).toNat < 2 ^ 64 ∧ offset (rowid % 2 ^ 64).toNat = rowid := by
  obtain ⟨hlo, hhi⟩ := h
  norm_num at hlo hhi
  have hlt : (rowid % 2 ^ 64).toNat < 2 ^ 64 := by omega
  refine ⟨hlt, ?_⟩
  rw [offset, u64_of_lt hlt]
  split <;> omega

/-- The fields of a cell that `doInitialize` reads before the columns. -/
theorem doInitialize_eq {p : Pager} {type : PageType} {leftChild rowid : ℤ} {payload : List UInt8}
    {chain : List ℤ} {data : List UInt8} {pointer : ℕ}
    (h : IsCell p type leftChild rowid payload chain data pointer)
    (hsize : payload.length < 2 ^ 31) :
    Cell.doInitialize p type data pointer =
      (Cell.readColumns payload payload.length).map fun columns =>
      ⟨if type = .interiorIndex then leftChild else 0, if type = .leafTable then rowid
        else 0, payload,
        columns⟩ := by
  obtain ⟨before, after, hbefore, hlen, hdata⟩ := h.page
  have hsmall : data.length < 2 ^ 63 := by
    have := p.pageSize_le
    omega
  have hint : int32 payload.length = payload.length := int32_of_lt hsize
  obtain ⟨hrowlt, hrowid⟩ := offset_rowid h.key
  generalize hlocal : payload.take (localSize p.usableSize.toNat type payload.length) ++
    ((if localSize p.usableSize.toNat type payload.length < payload.length then
      bigEndian 4 (firstOf chain) else []) ++ after) = part at hdata
  have hpayload : ∀ {d : Deserialization} {front : List UInt8}, d.data = data → At d part →
      data = front ++ part →
        Cell.readPayload p type d front.length payload.length = some payload := by
    intro d front hd hat hfront
    subst hlocal
    exact readPayload_spec hat (hd.trans hfront) h.distinct h.overflow
  have hpos := List.length_pos_iff.mpr (encodeVarint_ne_nil payload.length)
  have hposRow := List.length_pos_iff.mpr (encodeVarint_ne_nil (rowid % 2 ^ 64).toNat)
  set d := (Deserialization.mk data 0 0).seek pointer with hd
  have hddata : d.data = data := by rw [hd, seek_data]
  have hat : At d (cellHead type leftChild rowid payload.length ++ part) := by
    rw [hd, ← hbefore]
    exact at_seek hdata hsmall
  rcases h.kind with rfl | rfl | rfl
  · -- A leaf of a table: the size and the rowid.
    simp only [cellHead, reduceCtorEq, if_false, if_true, List.nil_append,
      List.append_assoc] at hat hdata
    obtain ⟨hread, hat₁⟩ := advanceVarint_at (by omega) hat
    obtain ⟨hread₁, hat₂⟩ := advanceVarint_at hrowlt hat₁
    have hfront : data = (before ++ (encodeVarint payload.length ++
        encodeVarint (rowid % 2 ^ 64).toNat)) ++ part := by
      rw [hdata]
      simp
    have hrest := hpayload (by rw [Deserialization.advance, seek_data, Deserialization.advance,
      seek_data, hddata]) hat₂ hfront
    have hoffset : (pointer : ℤ) + (encodeVarint payload.length).length +
        (encodeVarint (rowid % 2 ^ 64).toNat).length = (before ++ (encodeVarint payload.length ++
          encodeVarint (rowid % 2 ^ 64).toNat)).length := by
      simp only [List.length_append, ← hbefore]
      push_cast
      ring
    have hleaf : PageType.leafTable.isLeafPage = true := rfl
    have htable : PageType.leafTable.isTablePage = true := rfl
    simp only [Cell.doInitialize, ← hd, hleaf, htable, Bool.not_true, Bool.false_and,
      Bool.false_eq_true, if_false, if_true, hread, hread₁, hint, hpos.ne', hposRow.ne', and_false,
      hoffset, hrest, hrowid, Option.bind_eq_bind, Option.bind_some]
    cases Cell.readColumns payload payload.length <;> rfl
  · -- A leaf of an index: the size only.
    simp only [cellHead, reduceCtorEq, if_false, List.nil_append, List.append_nil] at hat hdata
    obtain ⟨hread, hat₁⟩ := advanceVarint_at (by omega) hat
    have hfront : data = (before ++ encodeVarint payload.length) ++ part := by
      rw [hdata, List.append_assoc]
    have hrest := hpayload (by rw [Deserialization.advance, seek_data, hddata]) hat₁ hfront
    have hoffset : (pointer : ℤ) + (encodeVarint payload.length).length =
        (before ++ encodeVarint payload.length).length := by
      simp [← hbefore]
    have hleaf : PageType.leafIndex.isLeafPage = true := rfl
    have htable : PageType.leafIndex.isTablePage = false := rfl
    simp only [Cell.doInitialize, ← hd, hleaf, htable, Bool.not_true, Bool.false_and,
      Bool.false_eq_true, if_false, if_true, hread, hint, hpos.ne', false_and,
        Nat.cast_zero, add_zero,
      hoffset, hrest, Option.bind_eq_bind, Option.bind_some]
    cases Cell.readColumns payload payload.length <;> rfl
  · -- An interior page of an index: the left child and the size.
    simp only [cellHead, reduceCtorEq, if_false, if_true, List.append_nil,
      List.append_assoc] at hat hdata
    have hcan : d.canAdvance 4 = true := by
      have := hat.canAdvance
      rwa [length_bigEndian] at this
    have hchild : get4BytesInt (d.data.drop d.cursor) = leftChild := by
      rw [hat.ahead]
      exact get4BytesInt_bigEndian h.child _
    have hat₁ : At (d.advance 4) (encodeVarint payload.length ++ part) := by
      have := hat.advance.1
      rwa [length_bigEndian] at this
    obtain ⟨hread, hat₂⟩ := advanceVarint_at (by omega) hat₁
    have hfront :
      data = (before ++ (bigEndian 4 leftChild ++ encodeVarint payload.length)) ++ part := by
      rw [hdata]
      simp
    have hrest := hpayload (by rw [Deserialization.advance, seek_data, Deserialization.advance,
      seek_data, hddata]) hat₂ hfront
    have hoffset : (pointer : ℤ) + 4 + (encodeVarint payload.length).length =
        (before ++ (bigEndian 4 leftChild ++ encodeVarint payload.length)).length := by
      simp only [List.length_append, length_bigEndian, ← hbefore]
      push_cast
      ring
    have hleaf : PageType.interiorIndex.isLeafPage = false := rfl
    have htable : PageType.interiorIndex.isTablePage = false := rfl
    simp only [Cell.doInitialize, ← hd, hleaf, htable, Bool.not_false, Bool.true_and, hcan, hchild,
      Bool.not_true, Bool.false_eq_true, if_false, if_true, hread, hint, hpos.ne', false_and,
      Nat.cast_zero, add_zero, hoffset, hrest, Option.bind_eq_bind, Option.bind_some]
    cases Cell.readColumns payload payload.length <;> rfl

/-- **Decoding inverts the format.** Every cell that SQLite lays out is initialised, and its rowid,
its number of columns, their types and their values are those that were stored. -/
theorem doInitialize_isCell {p : Pager} {type : PageType} {leftChild rowid : ℤ}
    {payload : List UInt8}
    {chain : List ℤ} {data : List UInt8} {pointer : ℕ} {columns : List Stored}
    (hvalid : ∀ s ∈ columns, s.Valid) (hrecord : IsRecord columns payload)
    (hsize : payload.length ≤ 1000000000)
    (h : IsCell p type leftChild rowid payload chain data pointer) :
    ∃ c, Cell.doInitialize p type data pointer = some c ∧
      (type = .leafTable → c.rowid = rowid) ∧ (type = .interiorIndex → c.leftChild = leftChild) ∧
      c.getCount = columns.length ∧
      ∀ i s, columns[i]? = some s → c.getValueType i = s.valueType ∧ c.value i = s.value := by
  obtain ⟨start, hstart, hdrop, hcolumns⟩ := readColumns_isRecord hvalid hrecord (by omega)
  rw [doInitialize_eq h (by omega), hcolumns]
  refine ⟨_, rfl, fun htype => if_pos htype, fun htype => if_pos htype, by simp [Cell.getCount],
    fun i s hi => ?_⟩
  obtain ⟨hlt, hget⟩ := List.getElem?_eq_some_iff.mp hi
  have hsplit : columns = columns.take i ++ s :: columns.drop (i + 1) := by
    rw [← hget, List.getElem_cons_drop, List.take_append_drop]
  have htake : (columns.take i).length = i := by
    rw [List.length_take]
    omega
  have hoffset := columnOffsets_getD start (columns.take i) s (columns.drop (i + 1))
  rw [← hsplit, htake, ← Nat.cast_add] at hoffset
  have hbytes : payload.drop (start + (bodies (columns.take i)).length) =
      s.body ++ bodies (columns.drop (i + 1)) := by
    have hbodies :
      bodies columns = bodies (columns.take i) ++ (s.body ++ bodies (columns.drop (i + 1))) := by
      conv_lhs => rw [hsplit]
      simp [bodies]
    rw [← List.drop_drop, hdrop, hbodies, List.drop_left]
  have hs : s.Valid := hvalid s (hget ▸ List.getElem_mem hlt)
  exact ⟨getValueType_of_column hoffset, value_of_column hs hoffset hbytes⟩

/-- The record of 300, of null and of a text of 600 letters. -/
def samplePayload : List UInt8 := [5, 2, 0, 137, 61, 1, 44] ++ List.replicate 600 104

/-- A page with the first 99 bytes of the record under the rowid `-7`; the third page goes on. -/
def samplePage : List UInt8 :=
  List.replicate 300 0 ++ (cellHead .leafTable 0 (-7) 607 ++
    (samplePayload.take 99 ++ (bigEndian 4 3 ++ List.replicate 98 0)))

/-- The last page of the chain. -/
def sampleOverflow : List UInt8 := bigEndian 4 0 ++ samplePayload.drop 99

theorem length_samplePage : samplePage.length = 512 := by decide +kernel

theorem length_sampleOverflow : sampleOverflow.length = 512 := by decide +kernel

/-- A database with the two pages. -/
def samplePager : Pager where
  pageSize := 512
  reservedBytes := 0
  numberOfPages := 3
  acquirePageData n :=
    if n = 2 then some samplePage else if n = 3 then some sampleOverflow else none
  pageSize_ge := smallestPage_ge
  pageSize_le := smallestPage_le
  reservedBytes_le := unreserved_le
  numberOfPages_lt := by decide
  length_data n data h := by
    split_ifs at h
    · exact Option.some.inj h ▸ length_samplePage
    · exact Option.some.inj h ▸ length_sampleOverflow
  range_data n data h := by
    split_ifs at h <;> omega

theorem doInitialize_samplePage :
    ∃ c, Cell.doInitialize samplePager .leafTable samplePage 300 = some c ∧ c.rowid = -7 ∧
      c.getCount = 3 ∧ c.value 0 = .integer 300 ∧ c.value 1 = .null ∧
        c.value 2 = .text (List.replicate 600 104) := by
  have hcell : IsCell samplePager .leafTable 0 (-7) samplePayload [3] samplePage 300 := by
    refine ⟨Or.inl rfl, by decide, by decide, ⟨List.replicate 300 0, List.replicate 98 0,
      List.length_replicate, length_samplePage, by decide +kernel⟩, by decide, ?_⟩
    refine @Chain.cons _ _ 3 [] _ [] (by decide +kernel) (by decide +kernel) ?_
    rw [List.drop_eq_nil_of_le (by decide +kernel)]
    exact Chain.nil
  have hrecord : IsRecord [.integer .two 300, .null, .text (List.replicate 600 104)]
      samplePayload := ⟨5, by decide +kernel, by decide +kernel⟩
  have hvalid : ∀ s ∈ [Stored.integer .two 300, .null, .text (List.replicate 600 104)],
      s.Valid := by
    intro s hs
    simp only [List.mem_cons, List.not_mem_nil, or_false] at hs
    rcases hs with rfl | rfl | rfl
    · exact (by decide : Fits 2 300)
    · trivial
    · change (List.replicate 600 (104 : UInt8)).length ≤ 1000000000
      rw [List.length_replicate]
      decide
  obtain ⟨c, hc, hrowid, -, hcount, hvalues⟩ :=
    doInitialize_isCell hvalid hrecord (by decide +kernel) hcell
  exact ⟨c, hc, hrowid rfl, hcount, (hvalues 0 _ rfl).2, (hvalues 1 _ rfl).2, (hvalues 2 _ rfl).2⟩

end Wcdb.Repair
