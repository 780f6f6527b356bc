import Wcdb.Base.CheckedReads

/-!
# Reading any bytes

What a read does with the bytes ahead of the cursor, whatever they are: it fails and stays where it
is, or it moves over bytes that are there. Only a sized read can do worse: where the declared size
brings the sum of its check around (`Overruns`), it hands out a slice that is not in the buffer.

A field that is cut short fails (`At.advanceVarint_cut`, `At.advanceSized_cut`).
-/

namespace Varint

/-- A reader that needs `n` bytes finds nothing in fewer. -/
theorem readFrom_take {k acc : ℕ} {l : List UInt8} {m : ℕ}
    (hm : k + m < (readFrom k acc l).1) : readFrom k acc (l.take m) = (0, 0) := by
  induction l generalizing k acc m with
  | nil => simp [readFrom]
  | cons b l ih =>
    cases m with
    | zero => rfl
    | succ m =>
      rw [readFrom] at hm
      rw [List.take_succ_cons, readFrom]
      split_ifs at hm ⊢ with h8 hlast
      · simp only at hm
        omega
      · simp only at hm
        omega
      · exact ih (by omega)

/-- With a byte read before it, a reader does not need more bytes. -/
theorem readFrom_succ {k a b : ℕ} {l : List UInt8} (hk : k ≤ 7)
    (h : (readFrom k a l).1 ≠ 0) : (readFrom (k + 1) b l).1 ≠ 0 := by
  induction l generalizing k a b with
  | nil => exact absurd rfl h
  | cons p l ih =>
    rw [readFrom, if_neg (by omega)] at h
    rw [readFrom]
    by_cases h8 : k + 1 = 8
    · rw [if_pos h8]
      exact Nat.succ_ne_zero 8
    · rw [if_neg h8]
      by_cases hlast : p.toNat < 128
      · rw [if_pos hlast]
        exact Nat.succ_ne_zero _
      · rw [if_neg hlast] at h ⊢
        exact ih (by omega) h

end Varint

namespace Wcdb.Deserialization

/-- The sum of the check of a sized read wraps around to a place in the buffer. -/
def Overruns (d : Deserialization) : Prop :=
  let (lengthOfSize, size) := getVarint (d.data.drop d.cursor)
  2 ^ 64 ≤ d.cursor + lengthOfSize + size ∧
    d.cursor + lengthOfSize + size ≤ 2 ^ 64 + d.data.length ∧ lengthOfSize + size ≠ 2 ^ 64

instance (d : Deserialization) : Decidable d.Overruns := by unfold Overruns; infer_instance

variable {d : Deserialization} {bs : List UInt8}

theorem At.canAdvance_iff (h : At d bs) {size : ℕ} (hsize : size < 2 ^ 62) :
    d.canAdvance size = true ↔ size ≤ bs.length := by
  have hlen := h.length
  have hsmall := h.small
  rw [Deserialization.canAdvance, u64_of_lt (by omega), capacity, decide_eq_true_eq]
  omega

/-- Moving over bytes that are there. -/
theorem At.advance_drop (h : At d bs) {n : ℕ} (hn : n ≤ bs.length) :
    At (d.advance n) (bs.drop n) ∧ (d.advance n).dataVersion = d.dataVersion ∧
      (d.advance n).data = d.data ∧ (d.advance n).cursor = d.cursor + n := by
  have hlen := h.length
  have hsplit : At d (bs.take n ++ bs.drop n) := by rwa [List.take_append_drop]
  have hmoved := hsplit.advance
  rw [List.length_take_of_le hn] at hmoved
  refine ⟨hmoved.1, hmoved.2, ?_, ?_⟩
  · rw [Deserialization.advance, seek]
    split_ifs <;> rfl
  · have hlast := hmoved.1.length
    have hdata : (d.advance n).data = d.data := by
      rw [Deserialization.advance, seek]
      split_ifs <;> rfl
    rw [List.length_drop, hdata] at hlast
    omega

theorem At.advance4BytesUInt_drop (h : At d bs) (hn : 4 ≤ bs.length) :
    At d.advance4BytesUInt.2 (bs.drop 4) ∧ d.advance4BytesUInt.2.dataVersion = d.dataVersion := by
  obtain ⟨hmoved, hversion, -⟩ := h.advance_drop hn
  exact ⟨hmoved, hversion⟩

/-- A varint fails, or it moves over its bytes. -/
theorem At.advanceVarint_spec (h : At d bs) :
    d.advanceVarint = ((0, 0), d) ∨
      ∃ n v d', d.advanceVarint = ((n + 1, v), d') ∧ Varint.read bs = (n + 1, v) ∧
        n + 1 ≤ bs.length ∧ At d' (bs.drop (n + 1)) ∧ d'.dataVersion = d.dataVersion := by
  have hsmall := h.small
  have hlen := h.length
  rw [Deserialization.advanceVarint, h.ahead, getVarint_eq_read]
  rcases Varint.read_bound bs with hzero | ⟨hle, -, hpos, -, -⟩
  · exact .inl (by rw [hzero]; rfl)
  · generalize Varint.read bs = varint at hle hpos ⊢
    obtain ⟨n | n, v⟩ := varint
    · exact absurd rfl hpos.ne'
    · simp only at hle
      obtain ⟨hmoved, hversion, -⟩ := h.advance_drop hle
      refine .inr ⟨n, v, _, ?_, rfl, hle, hmoved, hversion⟩
      simp only [hpos, if_true, offset_of_lt (show n + 1 < 2 ^ 63 by omega)]

/-- A sized read fails, or it hands out bytes that are there and moves over them, or it overruns. -/
theorem At.advanceSized_spec (h : At d bs) :
    (∃ slice, d.advanceSized = ((0, slice), d) ∧ ¬d.Overruns) ∨
      (∃ n string d', d.advanceSized = ((n + 1, some string), d') ∧ ¬d.Overruns ∧
        n + 1 ≤ bs.length ∧ string.length ≤ bs.length ∧ At d' (bs.drop (n + 1)) ∧
          d'.dataVersion = d.dataVersion) ∨
      ∃ n d', d.advanceSized = ((n + 1, none), d') ∧ d.Overruns := by
  have hsmall := h.small
  have hlen := h.length
  rw [Deserialization.advanceSized, getSized, Overruns, h.ahead, getVarint_eq_read]
  have hbound := Varint.read_bound bs
  generalize Varint.read bs = varint at hbound ⊢
  obtain ⟨lengthOfSize, size⟩ := varint
  rcases hbound with hzero | ⟨hle, -, hpos, hlt, -⟩
  · obtain ⟨rfl, rfl⟩ := Prod.mk.inj hzero
    refine .inl ⟨_, rfl, ?_⟩
    simp only
    omega
  simp only at hle hpos hlt
  by_cases henough : u64 (d.cursor + lengthOfSize + size) ≤ d.data.length
  · simp only [hpos.ne', isEnough, capacity, henough, decide_true, Bool.not_true,
      Bool.false_eq_true,
      or_false, if_false, slice]
    by_cases hwrap : d.cursor + lengthOfSize + size < 2 ^ 64
    · rw [u64_of_lt hwrap] at henough
      have hconsumed : lengthOfSize + size ≤ bs.length := by omega
      obtain ⟨n, hn⟩ := Nat.exists_eq_succ_of_ne_zero (show lengthOfSize + size ≠ 0 by omega)
      obtain ⟨hmoved, hversion, -⟩ := h.advance_drop hconsumed
      rw [u64_of_lt (show lengthOfSize + size < 2 ^ 64 by omega), if_pos henough,
        if_pos (show 0 < lengthOfSize + size by omega),
        offset_of_lt (show lengthOfSize + size < 2 ^ 63 by omega)]
      rw [hn] at hmoved hversion hconsumed ⊢
      refine .inr (.inl ⟨n, _, _, rfl, by omega, hconsumed, ?_, hmoved, hversion⟩)
      rw [List.length_take, List.length_drop]
      omega
    · rw [u64] at henough
      by_cases hall : lengthOfSize + size = 2 ^ 64
      · rw [hall, show u64 (2 ^ 64) = 0 from rfl]
        exact .inl ⟨_, rfl, by omega⟩
      · obtain ⟨n, hn⟩ := Nat.exists_eq_succ_of_ne_zero
          (show u64 (lengthOfSize + size) ≠ 0 by rw [u64]; omega)
        rw [if_neg (show ¬d.cursor + lengthOfSize + size ≤ d.data.length by omega), hn]
        exact .inr (.inr ⟨n, _, rfl, by omega⟩)
  · simp only [isEnough, capacity, henough, decide_false, Bool.not_false, or_true, if_true]
    rw [u64] at henough
    exact .inl ⟨_, rfl, by omega⟩

/-- Fewer than `n` bytes lie ahead. -/
def Ahead (d : Deserialization) (n : ℕ) : Prop := ∃ bs, At d bs ∧ bs.length < n

theorem Ahead.mono {n m : ℕ} (h : d.Ahead n) (hnm : n ≤ m) : d.Ahead m := by
  obtain ⟨bs, hat, hlt⟩ := h
  exact ⟨bs, hat, hlt.trans_le hnm⟩

theorem At.ahead_drop {d' : Deserialization} {n : ℕ} (hn : n + 1 ≤ bs.length)
    (h : At d' (bs.drop (n + 1))) : d'.Ahead bs.length :=
  ⟨_, h, by rw [List.length_drop]; omega⟩

/-! ### Fields that are cut short -/

/-- What is left when a field is whole. -/
theorem At.of_take_append {xs ys : List UInt8} {n : ℕ} (h : At d ((xs ++ ys).take n))
    (hn : xs.length ≤ n) : At d (xs ++ ys.take (n - xs.length)) := by
  rwa [List.take_append, List.take_of_length_le hn] at h

/-- Two words are missing in part, or read and what follows them is cut short. -/
theorem At.twoWords_take {a b : UInt32} {bs : List UInt8} {n : ℕ} (hn : n ≤ bs.length + 8)
    (h : At d ((Serialization.encode4Bytes a ++ (Serialization.encode4Bytes b ++ bs)).take n)) :
    n < 8 ∧ d.canAdvance 8 = false ∨
      ∃ k d₁ d₂, n = k + 8 ∧ d.canAdvance 8 = true ∧ d.advance4BytesUInt = (a, d₁) ∧
        d₁.advance4BytesUInt = (b, d₂) ∧ At d₂ (bs.take k) := by
  have hcan := h.canAdvance_iff (show 8 < 2 ^ 62 by decide)
  have hfour (value : UInt32) : (Serialization.encode4Bytes value).length = 4 := rfl
  rw [List.length_take_of_le (by simp only [List.length_append, hfour]; omega)] at hcan
  by_cases hlong : 8 ≤ n
  · obtain ⟨d₁, h₁, hat₁, -⟩ := (h.of_take_append (by rw [hfour]; omega)).advance4BytesUInt
    obtain ⟨d₂, h₂, hat₂, -⟩ :=
      (hat₁.of_take_append (by simp only [hfour]; omega)).advance4BytesUInt
    exact .inr ⟨n - 8, d₁, d₂, by omega, hcan.mpr hlong, h₁, h₂,
      by rwa [hfour, hfour, Nat.sub_sub] at hat₂⟩
  · exact .inl ⟨by omega, by simpa [hlong] using hcan⟩

theorem At.advanceVarint_cut {v n : ℕ} (hv : v < 2 ^ 64)
    (hn : n < (Serialization.encodeVarint v).length)
    (h : At d ((Serialization.encodeVarint v).take n)) : d.advanceVarint = ((0, 0), d) := by
  have hget := getVarint_encodeVarint hv []
  rw [List.append_nil, getVarint_eq_read] at hget
  have hcut : Varint.read ((Serialization.encodeVarint v).take n) = (0, 0) :=
    Varint.readFrom_take (by rw [show Varint.readFrom 0 0 _ = _ from hget]; omega)
  rw [Deserialization.advanceVarint, h.ahead, getVarint_eq_read, hcut]
  rfl

theorem At.advanceSized_cut {string : List UInt8} (hstring : string.length < 2 ^ 63) {n : ℕ}
    (hn : n < (Serialization.encodeSized string).length)
    (h : At d ((Serialization.encodeSized string).take n)) :
    ∃ slice, d.advanceSized = ((0, slice), d) := by
  have hlen := h.length
  have hsmall := h.small
  rw [List.length_take_of_le hn.le] at hlen
  rw [Serialization.encodeSized, u64_of_lt (by omega)] at h hn
  rw [List.length_append] at hn
  have hgot := getVarint_encodeVarint (show string.length < 2 ^ 64 by omega)
  by_cases hcut : n < (Serialization.encodeVarint string.length).length
  · have hread : getVarint ((Serialization.encodeVarint string.length).take n) = (0, 0) := by
      have hall := hgot []
      rw [List.append_nil, getVarint_eq_read] at hall
      rw [getVarint_eq_read]
      exact Varint.readFrom_take (by rw [show Varint.readFrom 0 0 _ = _ from hall]; omega)
    rw [List.take_append_of_le_length hcut.le] at h
    rw [Deserialization.advanceSized, getSized, h.ahead, hread]
    exact ⟨_, rfl⟩
  · -- the size is there, and more than the bytes
    rw [List.take_append, List.take_of_length_le (by omega)] at h
    rw [Deserialization.advanceSized, getSized, h.ahead, hgot]
    have hrefused : ¬d.cursor + (Serialization.encodeVarint string.length).length + string.length ≤
        d.data.length := by omega
    have hfit : d.cursor + (Serialization.encodeVarint string.length).length + string.length <
        2 ^ 64 := by omega
    simp only [isEnough, capacity, u64_of_lt hfit, hrefused, decide_false, Bool.not_false, or_true,
      if_true]
    exact ⟨_, rfl⟩

end Wcdb.Deserialization
