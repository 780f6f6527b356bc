import Wcdb.Base.CheckedReads
import Wcdb.Base.Puts
import Mathlib.Data.UInt

/-!
# The encoding of an integer is the shortest

`putVarint` chooses among four ways to write a value. The number of bytes is the least with which
the format represents it (`length_encodeVarint_le_iff`), so that it grows with the value. A
sequence of puts is read back by as many reads (`putVarint_getVarint`).
-/

namespace Wcdb

open Varint

/-! ### The length of an encoding -/

namespace Serialization

/-- A value takes `n` bytes, up to eight, if it has at most `7 * n` bits. -/
theorem length_encodeVarint_le_iff {v n : ℕ} (hv : v < 2 ^ 64) (hn : 0 < n) (hn8 : n ≤ 8) :
    (encodeVarint v).length ≤ n ↔ v < 128 ^ n := by
  constructor
  · intro hle
    have hget := getVarint_encodeVarint hv []
    rw [List.append_nil, getVarint_eq_read] at hget
    rcases read_bound (encodeVarint v) with hzero | ⟨-, -, -, -, hlt⟩
    · rw [hzero] at hget
      exact absurd (Prod.mk.inj hget).1.symm (List.length_pos_iff.mpr (encodeVarint_ne_nil v)).ne'
    · rw [hget] at hlt
      exact (hlt (by omega)).trans_le (Nat.pow_le_pow_right (by omega) hle)
  · intro hlt
    rw [encodeVarint]
    split_ifs with h₁ h₂ h₃
    · exact hn
    · have hn1 : n ≠ 1 := by
        rintro rfl
        omega
      simp only [List.length_cons, List.length_nil]
      omega
    · have htop : 128 ^ n ≤ 128 ^ 8 := Nat.pow_le_pow_right (by omega) hn8
      rw [and_top hv] at h₃
      omega
    · obtain ⟨m, -, -, hmin, heq⟩ := varintBuf_eq 10 v (by omega) (by omega)
      have hlen : (varintBuf 10 v).length = m := by rw [heq, List.length_map, digits_length]
      split
      · exact Nat.zero_le n
      · next b buf hbuf =>
        rw [hbuf, List.length_cons] at hlen
        have := hmin n hn hlt
        rw [List.length_append, List.length_reverse, List.length_singleton]
        omega

theorem length_encodeVarint_le_nine {v : ℕ} (hv : v < 2 ^ 64) : (encodeVarint v).length ≤ 9 := by
  have hget := getVarint_encodeVarint hv []
  rw [List.append_nil, getVarint_eq_read] at hget
  rcases read_bound (encodeVarint v) with hzero | ⟨-, hle, -⟩
  · rw [hzero] at hget
    exact (Prod.mk.inj hget).1 ▸ Nat.zero_le 9
  · rw [hget] at hle
    exact hle

/-- **No representation is shorter.** -/
theorem length_encodeVarint_le_of_read {v : ℕ} (hv : v < 2 ^ 64) {other : List UInt8}
    (hne : other ≠ []) (h : Varint.read other = (other.length, v)) :
    (encodeVarint v).length ≤ other.length := by
  have hpos := List.length_pos_iff.mpr hne
  by_cases hlong : other.length ≤ 8
  · rcases read_bound other with hzero | ⟨-, -, -, -, hlt⟩
    · rw [hzero] at h
      exact absurd (Prod.mk.inj h).1 hpos.ne
    · rw [h] at hlt
      exact (length_encodeVarint_le_iff hv hpos hlong).mpr (hlt hlong)
  · exact (length_encodeVarint_le_nine hv).trans (by omega)

theorem length_encodeVarint_mono {v w : ℕ} (hvw : v ≤ w) (hw : w < 2 ^ 64) :
    (encodeVarint v).length ≤ (encodeVarint w).length := by
  have hpos := List.length_pos_iff.mpr (encodeVarint_ne_nil w)
  by_cases hlong : (encodeVarint w).length ≤ 8
  · have hlt := (length_encodeVarint_le_iff hw hpos hlong).mp le_rfl
    exact (length_encodeVarint_le_iff (hvw.trans_lt hw) hpos hlong).mpr (hvw.trans_lt hlt)
  · exact (length_encodeVarint_le_nine (hvw.trans_lt hw)).trans (by omega)

end Serialization

/-! ### Reading back -/

namespace Deserialization

/-- The next `n` integers. -/
def advanceVarints : ℕ → Deserialization → Option (List ℕ)
  | 0, _ => some []
  | n + 1, d =>
      match d.advanceVarint with
      | ((0, _), _) => none
      | ((_ + 1, value), d) => (advanceVarints n d).map (value :: ·)

variable {d : Deserialization}

theorem At.advanceVarints (values : List UInt64) {rest : List UInt8}
    (h : At d ((values.flatMap fun value => Serialization.encodeVarint value.toNat) ++ rest)) :
    d.advanceVarints values.length = some (values.map UInt64.toNat) := by
  induction values generalizing d with
  | nil => rfl
  | cons value values ih =>
    rw [List.flatMap_cons, List.append_assoc] at h
    obtain ⟨n, d', hd, hrest, -⟩ := h.advanceVarint value.toNat_lt
    rw [List.length_cons, Deserialization.advanceVarints, hd]
    simp [ih hrest]

theorem getVarintAt_ofNat {n : ℕ} (hn : n < 2 ^ 63) :
    d.getVarintAt (Int64.ofNat n) = some (getVarint (d.data.drop n)) := by
  have hint : (Int64.ofNat n).toInt = n := Int64.toInt_ofNat_of_lt hn
  have hnonneg : 0 ≤ (Int64.ofNat n).toInt := by omega
  rw [getVarintAt_of_fetch fun k hk => fetch_of_nonneg hnonneg hk, hint, Int.toNat_natCast]

end Deserialization

namespace Serialization

variable {alloc : ℕ → Bool}

/-- Puts that succeed have written their encodings. -/
theorem forEach_putVarintOk {values : List UInt64} {s t : Serialization}
    (h : forEach (fun value : UInt64 => putVarintOk alloc value.toNat) values s = (true, t)) :
    t.bytes = s.bytes ++ values.flatMap fun value => encodeVarint value.toNat := by
  induction values generalizing s with
  | nil =>
    have ht : s = t := congrArg Prod.snd h
    simp [ht]
  | cons value values ih =>
    rw [forEach, andThen, putVarintOk_eq, u64_of_lt value.toNat_lt] at h
    split_ifs at h with hroom
    · rw [ih h, append, expand_bytes, List.flatMap_cons, List.append_assoc]
    · exact absurd h (by simp)

/-- **An integer is written in the fewest bytes and read back**, and so is a list of integers. -/
theorem putVarint_getVarint (alloc : ℕ → Bool) (s : Serialization) :
    (∀ value : UInt64, (s.expand alloc 9).1 = true →
      ∃ bs t, s.putVarint alloc value.toNat = (bs.length, t) ∧ t.bytes = s.bytes ++ bs ∧
        (1 ≤ bs.length ∧ bs.length ≤ 9) ∧
          (∀ other, other ≠ [] → Varint.read other = (other.length, value.toNat) →
            bs.length ≤ other.length) ∧
          ∀ rest version, s.bytes.length < 2 ^ 63 →
            Deserialization.getVarintAt ⟨t.bytes ++ rest, 0, version⟩ (Int64.ofNat s.bytes.length) =
              some (bs.length, value.toNat)) ∧
    ∀ (values : List UInt64) (t : Serialization),
      forEach (fun value : UInt64 => putVarintOk alloc value.toNat) values s = (true, t) →
        ∀ rest version, (t.bytes ++ rest).length < 2 ^ 63 →
          Deserialization.advanceVarints values.length ⟨t.bytes ++ rest, s.bytes.length, version⟩ =
            some (values.map UInt64.toNat) := by
  refine ⟨fun value hroom => ?_, fun values t h rest version hsmall => ?_⟩
  · have hpos := List.length_pos_iff.mpr (encodeVarint_ne_nil value.toNat)
    refine ⟨encodeVarint value.toNat,
      (s.expand alloc 9).2.append (encodeVarint value.toNat), ?_, ?_,
      ⟨hpos, length_encodeVarint_le_nine value.toNat_lt⟩, ?_, ?_⟩
    · rw [putVarint_eq, if_pos hroom, u64_of_lt value.toNat_lt]
    · rw [append, expand_bytes]
    · exact fun other hne hread => length_encodeVarint_le_of_read value.toNat_lt hne hread
    · intro rest version hsmall
      rw [Deserialization.getVarintAt_ofNat hsmall, append, expand_bytes, List.append_assoc,
        List.drop_left, getVarint_encodeVarint value.toNat_lt]
  · have hbytes := forEach_putVarintOk h
    refine @Deserialization.At.advanceVarints _ values rest ⟨?_, ?_, hsmall⟩
    · simp only [hbytes, List.append_assoc, List.drop_left]
    · simp only [hbytes, List.length_append]
      omega

theorem putVarint_getVarint_three :
    Deserialization.advanceVarints 3 ⟨[0x05, 0x82, 0x2c, 0x90, 0x80, 0x80, 0x80, 0x80, 0x80, 0x80,
      0x80, 0x00], 0, 0⟩ = some (([5, 300, 2 ^ 61] : List UInt64).map UInt64.toNat) := by
  have hputs : forEach (fun value : UInt64 => putVarintOk (fun _ => true) value.toNat)
      [5, 300, 2 ^ 61] .empty = (true, ⟨[0x05, 0x82, 0x2c, 0x90, 0x80, 0x80, 0x80, 0x80, 0x80, 0x80,
        0x80, 0x00], 18, 2⟩) := by decide +kernel
  exact (putVarint_getVarint (fun _ => true) .empty).2 [5, 300, 2 ^ 61] _ hputs [] 0 (by decide)

end Serialization

end Wcdb
