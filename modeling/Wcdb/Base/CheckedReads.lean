import Wcdb.Base.Serialization

/-!
# Checked reads at an offset

`getVarint`, `getSizedString` and `getSizedData` take a signed offset, and what they check before
a read is a sum of type `size_t`. Here the offset, the sums and every single byte access are those
of the source: `none` is an access to a byte that is not in the buffer.

The sums wrap. One offset passes the first check although it lies before the buffer
(`getVarintAt_eq_iff`), and a declared size of nearly `2 ^ 64` can bring the sum back into the
buffer (`sizedInside_iff`).
-/

namespace Wcdb

namespace Deserialization

/-- A check followed by the read of one byte. -/
inductive Fetch where
  | cut
  | outside
  | byte (p : UInt8)
  deriving DecidableEq, Repr

/-- The byte at `base() + i`. -/
def byteAt (d : Deserialization) (i : ℤ) : Option UInt8 := if 0 ≤ i then d.data[i.toNat]? else none

/-- `if (!isEnough((size_t) offset + k + 1)) …`, and then `p[k]`. -/
def fetch (d : Deserialization) (offset : Int64) (k : ℕ) : Fetch :=
  if !d.isEnough (u64 (offset.toUInt64.toNat + (k + 1))) then .cut
  else
    match d.byteAt (offset.toInt + k) with
    | none => .outside
    | some p => .byte p

/-- What a decoder does with a byte; where the check fails it returns `{ 0, 0 }`. -/
def Fetch.andThen (f : Fetch) (decode : UInt8 → Option (ℕ × ℕ)) : Option (ℕ × ℕ) :=
  match f with
  | .cut => some (0, 0)
  | .outside => none
  | .byte p => decode p

/-- `getVarint`, with its nine checks. -/
def getVarintAt (d : Deserialization) (offset : Int64) : Option (ℕ × ℕ) :=
  (d.fetch offset 0).andThen fun p0 =>
  let a := p0.toNat
  if a &&& 0x80 = 0 then some (1, a) else
  (d.fetch offset 1).andThen fun p1 =>
  let b := p1.toNat
  if b &&& 0x80 = 0 then some (2, (u32 ((a &&& 0x7f) <<< 7)) ||| b) else
  (d.fetch offset 2).andThen fun p2 =>
  let a := u32 (a <<< 14) ||| p2.toNat
  if a &&& 0x80 = 0 then some (3, (a &&& 0x1fc07f) ||| u32 ((b &&& 0x7f) <<< 7)) else
  let a := a &&& 0x1fc07f
  (d.fetch offset 3).andThen fun p3 =>
  let b := u32 (b <<< 14) ||| p3.toNat
  if b &&& 0x80 = 0 then some (4, u32 (a <<< 7) ||| (b &&& 0x1fc07f)) else
  let b := b &&& 0x1fc07f
  let s := a
  (d.fetch offset 4).andThen fun p4 =>
  let a := u32 (a <<< 14) ||| p4.toNat
  if a &&& 0x80 = 0 then some (5, u64 ((s >>> 18) <<< 32) ||| (a ||| u32 (b <<< 7))) else
  let s := u64 (s <<< 7) ||| b
  (d.fetch offset 5).andThen fun p5 =>
  let b := u32 (b <<< 14) ||| p5.toNat
  if b &&& 0x80 = 0 then
    some (6, u64 ((s >>> 18) <<< 32) ||| (u32 ((a &&& 0x1fc07f) <<< 7) ||| b)) else
  (d.fetch offset 6).andThen fun p6 =>
  let a := u32 (a <<< 14) ||| p6.toNat
  if a &&& 0x80 = 0 then
    some (7,
      u64 ((s >>> 11) <<< 32) ||| ((a &&& 0xf01fc07f) ||| u32 ((b &&& 0x1fc07f) <<< 7))) else
  let a := a &&& 0x1fc07f
  (d.fetch offset 7).andThen fun p7 =>
  let b := u32 (b <<< 14) ||| p7.toNat
  if b &&& 0x80 = 0 then
    some (8, u64 ((s >>> 4) <<< 32) ||| (u32 (a <<< 7) ||| (b &&& 0xf01fc07f))) else
  (d.fetch offset 8).andThen fun p8 =>
  let a := u32 (a <<< 15) ||| p8.toNat
  let b := u32 ((b &&& 0x1fc07f) <<< 8)
  let a := a ||| b
  -- `p[-4]`, which was read before
  let s := u64 (s <<< 4) ||| ((p4.toNat &&& 0x7f) >>> 3)
  some (9, u64 (s <<< 32) ||| a)

/-- The plain definition: the varint that begins at the offset. None begins outside the buffer. -/
def plainVarint (d : Deserialization) (offset : Int64) : ℕ × ℕ :=
  if 0 ≤ offset.toInt then Varint.read (d.data.drop offset.toInt.toNat) else (0, 0)

variable {d : Deserialization} {offset : Int64}

/-! ### The checks -/

section Checks

/-- The cast `(size_t) offset`. -/
theorem toInt_eq (offset : Int64) :
    offset.toInt = if offset.toUInt64.toNat < 2 ^ 63 then (offset.toUInt64.toNat : ℤ)
      else offset.toUInt64.toNat - 2 ^ 64 := by
  have h := BitVec.toInt_eq_toNat_cond offset.toBitVec
  rw [Int64.toInt_toBitVec, Int64.toNat_toBitVec] at h
  rw [h]
  split_ifs
  · rfl
  · omega
  · omega
  · rfl

theorem eq_neg_one_iff : offset = -1 ↔ offset.toInt = -1 := by
  rw [← Int64.toInt_inj]
  rfl

/-- The byte at a place of a list, found by a check that does not wrap. -/
def Fetch.ofList (l : List UInt8) (k : ℕ) : Fetch :=
  match l[k]? with
  | none => .cut
  | some p => .byte p

theorem fetch_of_nonneg (h : 0 ≤ offset.toInt) {k : ℕ} (hk : k < 9) :
    d.fetch offset k = Fetch.ofList (d.data.drop offset.toInt.toNat) k := by
  have hcast := toInt_eq offset
  have hlt := offset.toUInt64.toNat_lt
  have hindex : (offset.toInt + k).toNat = offset.toInt.toNat + k := by omega
  have hnat : offset.toUInt64.toNat = offset.toInt.toNat := by omega
  rw [fetch, Fetch.ofList, byteAt, if_pos (show 0 ≤ offset.toInt + k by omega), List.getElem?_drop,
    hindex, isEnough, capacity, u64_of_lt (by omega), hnat]
  generalize offset.toInt.toNat = n
  by_cases hin : n + (k + 1) ≤ d.data.length
  · simp [hin, List.getElem?_eq_getElem (show n + k < d.data.length by omega)]
  · simp [hin, List.getElem?_eq_none (show d.data.length ≤ n + k by omega)]

/-- An offset below `-1` is a huge size. -/
theorem fetch_of_neg (hsmall : d.data.length < 2 ^ 63) (h : offset.toInt < -1) :
    d.fetch offset 0 = .cut := by
  have hcast := toInt_eq offset
  have hlt := offset.toUInt64.toNat_lt
  have hlow := offset.le_toInt
  rw [fetch, isEnough, capacity, u64_of_lt (by omega), if_pos]
  simp only [Bool.not_eq_eq_eq_not, Bool.not_true, decide_eq_false_iff_not]
  omega

/-- The sum of `-1` and one is zero, which is enough for any buffer. -/
theorem fetch_neg_one : d.fetch (-1) 0 = .outside := by
  have hsum : u64 ((-1 : Int64).toUInt64.toNat + (0 + 1)) = 0 := by decide
  rw [fetch, hsum, isEnough, byteAt, if_neg (show ¬0 ≤ (-1 : Int64).toInt + (0 : ℕ) by decide)]
  rfl

end Checks

/-! ### The decoder -/

/-- One stage of the decoder. -/
private theorem stage {c : Prop} [Decidable c] {x y : ℕ × ℕ} {next : Option (ℕ × ℕ)}
    (h : next = some y) : (if c then some x else next) = some (if c then x else y) := by
  rw [h, apply_ite some]

/-- The decoder over the bytes of a list, each found by its check. -/
theorem getVarintAt_of_fetch {l : List UInt8} (h : ∀ k < 9, d.fetch offset k = Fetch.ofList l k) :
    d.getVarintAt offset = some (getVarint l) := by
  simp only [getVarintAt, h 0 (by omega), h 1 (by omega), h 2 (by omega), h 3 (by omega),
    h 4 (by omega), h 5 (by omega), h 6 (by omega), h 7 (by omega), h 8 (by omega)]
  clear h
  rcases l with _ | ⟨p0, r⟩
  · rfl
  refine stage ?_
  rcases r with _ | ⟨p1, r⟩
  · rfl
  refine stage ?_
  rcases r with _ | ⟨p2, r⟩
  · rfl
  refine stage ?_
  rcases r with _ | ⟨p3, r⟩
  · rfl
  refine stage ?_
  rcases r with _ | ⟨p4, r⟩
  · rfl
  refine stage ?_
  rcases r with _ | ⟨p5, r⟩
  · rfl
  refine stage ?_
  rcases r with _ | ⟨p6, r⟩
  · rfl
  refine stage ?_
  rcases r with _ | ⟨p7, r⟩
  · rfl
  refine stage ?_
  rcases r with _ | ⟨p8, r⟩
  · rfl
  rfl

theorem getVarintAt_neg_one : d.getVarintAt (-1) = none := by
  rw [getVarintAt, fetch_neg_one]
  rfl

/-- **The decoder is the plain definition** at every offset of the buffer and beyond its end, which
is where `seek` leaves the cursor that `getVarint` is called with. No byte outside is read. -/
theorem getVarintAt_eq_plainVarint (hnonneg : 0 ≤ offset.toInt) :
    d.getVarintAt offset = some (d.plainVarint offset) := by
  rw [getVarintAt_of_fetch fun k hk => fetch_of_nonneg hnonneg hk, getVarint_eq_read,
    plainVarint, if_pos hnonneg]

/-- The varint behind one byte of another. -/
theorem getVarintAt_one :
    Deserialization.getVarintAt ⟨[0xff, 0x81, 0x00], 0, 0⟩ 1 = some (2, 128) :=
  @getVarintAt_eq_plainVarint ⟨[0xff, 0x81, 0x00], 0, 0⟩ 1 (by decide)

/-- Of the offsets that no caller passes, one differs: that whose check wraps. -/
theorem getVarintAt_eq_iff (hsmall : d.data.length < 2 ^ 63) (offset : Int64) :
    d.getVarintAt offset = some (d.plainVarint offset) ↔ offset ≠ -1 := by
  constructor
  · rintro h rfl
    rw [getVarintAt_neg_one] at h
    exact absurd h (by simp)
  · intro hne
    rw [ne_eq, eq_neg_one_iff] at hne
    rcases Int.lt_or_le offset.toInt 0 with hneg | hnonneg
    · rw [getVarintAt, fetch_of_neg hsmall (by omega), plainVarint, if_neg (by omega)]
      rfl
    · rw [getVarintAt_of_fetch fun k hk => fetch_of_nonneg hnonneg hk, getVarint_eq_read,
        plainVarint, if_pos hnonneg]

/-! ### Sized strings and data -/

/-- `getSizedString` and `getSizedData`: the number of bytes consumed, `0` on failure, and the
slice as its start and size. -/
def getSizedAt (d : Deserialization) (offset : Int64) : Option (ℕ × ℕ × ℕ) :=
  match d.getVarintAt offset with
  | none => none
  | some (lengthOfSize, size) =>
      if lengthOfSize = 0 ∨ !d.isEnough (u64 (offset.toUInt64.toNat + lengthOfSize + size)) then
        some (0, 0, 0)
      else
        some (u64 (lengthOfSize + size), u64 (offset.toUInt64.toNat + lengthOfSize), size)

/-- Either nothing is reported, or a slice of the buffer right behind its size, with all bytes
consumed. -/
def SizedInside (d : Deserialization) (offset : Int64) : Prop :=
  ∃ consumed start size, d.getSizedAt offset = some (consumed, start, size) ∧
    (consumed = 0 ∨
      0 ≤ offset.toInt ∧
        ((d.plainVarint offset).2 = size ∧ offset.toInt + (d.plainVarint offset).1 = start) ∧
          start + size ≤ d.data.length ∧ consumed = (d.plainVarint offset).1 + size ∧
            offset.toInt + consumed ≤ d.data.length)

/-- The sum of the check wraps around to a place in the buffer, and the number of bytes does not
wrap around to zero. -/
def Wraps (d : Deserialization) (offset : Int64) : Prop :=
  let (lengthOfSize, size) := d.plainVarint offset
  2 ^ 64 ≤ offset.toInt + lengthOfSize + size ∧
    offset.toInt + lengthOfSize + size ≤ 2 ^ 64 + d.data.length ∧ lengthOfSize + size ≠ 2 ^ 64

instance : Decidable (d.Wraps offset) := by unfold Wraps; infer_instance

theorem plainVarint_bound (d : Deserialization) (offset : Int64) :
    d.plainVarint offset = (0, 0) ∨
      0 ≤ offset.toInt ∧ offset.toInt + (d.plainVarint offset).1 ≤ d.data.length ∧
        0 < (d.plainVarint offset).1 ∧ (d.plainVarint offset).2 < 2 ^ 64 := by
  rw [plainVarint]
  split_ifs with h
  · rcases Varint.read_bound (d.data.drop offset.toInt.toNat) with hzero | ⟨hlen, _, hpos, hlt, _⟩
    · exact .inl hzero
    · rw [List.length_drop] at hlen
      exact .inr ⟨h, by omega, hpos, hlt⟩
  · exact .inl rfl

/-- **A slice lies in the buffer unless the sum wraps back into it.** -/
theorem sizedInside_iff (hsmall : d.data.length < 2 ^ 63) (offset : Int64) :
    d.SizedInside offset ↔ offset ≠ -1 ∧ ¬d.Wraps offset := by
  by_cases hneg : offset = -1
  · subst hneg
    simp [SizedInside, getSizedAt, getVarintAt_neg_one]
  simp only [SizedInside, getSizedAt, (getVarintAt_eq_iff hsmall offset).mpr hneg, Wraps, ne_eq,
    hneg, not_false_eq_true, true_and]
  have hcast := toInt_eq offset
  have hbound := plainVarint_bound d offset
  have hword := offset.toUInt64.toNat_lt
  have hoffset := offset.toInt_lt
  generalize d.plainVarint offset = varint at hbound ⊢
  obtain ⟨lengthOfSize, size⟩ := varint
  rcases hbound with hzero | ⟨hnonneg, hlen, hpos, hlt⟩
  · obtain ⟨rfl, rfl⟩ := Prod.mk.inj hzero
    simp only [true_or, if_true]
    exact iff_of_true ⟨0, 0, 0, rfl, .inl rfl⟩ (by omega)
  simp only at hlen hpos hlt
  have hnat : offset.toUInt64.toNat = offset.toInt.toNat := by omega
  generalize hstart : offset.toInt.toNat = k at hnat
  have hk : offset.toInt = k := by omega
  have hfit : k + lengthOfSize < 2 ^ 64 := by omega
  simp only [hnat, hk, hpos.ne', false_or, isEnough, capacity, u64_of_lt hfit]
  by_cases henough : u64 (k + lengthOfSize + size) ≤ d.data.length
  · simp only [henough, decide_true, Bool.not_true, Bool.false_eq_true, if_false]
    by_cases hwrap : k + lengthOfSize + size < 2 ^ 64
    · -- the sum is exact
      rw [u64_of_lt hwrap] at henough
      refine iff_of_true ⟨_, _, _, rfl,
        .inr ⟨by omega, ⟨rfl, by omega⟩, by omega, ?_, ?_⟩⟩ (by omega)
      · exact u64_of_lt (by omega)
      · rw [u64_of_lt (by omega)]
        omega
    · rw [u64] at henough
      by_cases hzero : lengthOfSize + size = 2 ^ 64
      · refine iff_of_true ⟨_, _, _, rfl, .inl ?_⟩ (by omega)
        rw [hzero]
        rfl
      · refine iff_of_false ?_ (by omega)
        rintro ⟨consumed, start, size', h, hor⟩
        simp only [Option.some.injEq, Prod.mk.injEq] at h
        obtain ⟨rfl, rfl, rfl⟩ := h
        rw [u64] at hor
        omega
  · simp only [henough, decide_false, Bool.not_false, if_true]
    rw [u64] at henough
    exact iff_of_true ⟨0, 0, 0, rfl, .inl rfl⟩ (by omega)

/-- A size of `2 ^ 64 - 8`. -/
def hugeSize : Deserialization :=
  ⟨[0xff, 0xff, 0xff, 0xff, 0xff, 0xff, 0xff, 0xff, 0xf8], 0, 0⟩

theorem not_sizedInside_hugeSize : ¬hugeSize.SizedInside 0 := by
  rintro ⟨consumed, start, size, h, hor⟩
  have hrun : hugeSize.getSizedAt 0 = some (1, 9, 2 ^ 64 - 8) := by decide
  rw [hrun] at h
  simp only [Option.some.injEq, Prod.mk.injEq] at h
  obtain ⟨rfl, rfl, rfl⟩ := h
  rcases hor with hzero | ⟨_, _, hlen, _⟩
  · exact absurd hzero (by decide)
  · exact absurd hlen (by decide)

theorem sizedInside_word : Deserialization.SizedInside ⟨[0x02, 0x41, 0x42], 0, 0⟩ 0 :=
  (sizedInside_iff (by decide) 0).mpr (by decide)

end Deserialization

end Wcdb
