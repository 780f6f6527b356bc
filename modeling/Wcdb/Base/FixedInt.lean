import Wcdb.Base.Serialization
import Mathlib.Algebra.Order.Ring.Int
import Mathlib.Data.List.Basic
import Mathlib.Tactic.Linarith

/-!
# Integers of a fixed width

`Deserialization` reads signed integers of 1, 2, 3, 4, 6 and 8 bytes, most significant byte
first. The first byte is read as `int8_t`, which carries the sign; the others are put in place
by shifts and `|` in a register of 32 bits (`getSigned`), and the widths above four are made of
two halves.

`bigEndian n v` is two's complement in `n` bytes, and each of the readers is its inverse on the
integers the width can hold (`Fits`).
-/

namespace Wcdb

/-- A machine word cast to `int`. -/
def int32 (x : ℕ) : ℤ := Int.bmod x (2 ^ 32)

/-- The bits of an `int`. -/
def word (x : ℤ) : ℕ := (x % 2 ^ 32).toNat

/-- A byte cast to `int8_t`. -/
def int8 (p : UInt8) : ℤ := if p.toNat < 128 then p.toNat else (p.toNat : ℤ) - 256

theorem int32_of_lt {x : ℕ} (h : x < 2 ^ 31) : int32 x = x := by
  unfold int32
  rw [Int.bmod_def]
  norm_num at h ⊢
  omega

theorem int32_le_of_ge {x : ℕ} (h : 2 ^ 31 ≤ x) : int32 x ≤ (x : ℤ) - 2 ^ 32 := by
  unfold int32
  rw [Int.bmod_def]
  norm_num at h ⊢
  split <;> omega

theorem int32_le (x : ℕ) : int32 x ≤ x := by
  rcases Nat.lt_or_ge x (2 ^ 31) with h | h
  · exact (int32_of_lt h).le
  · have := int32_le_of_ge h
    omega

namespace Deserialization

/-! Each reader takes the bytes from the offset on. Every caller has checked that they are
there. -/

def get1ByteInt : List UInt8 → ℤ
  | p0 :: _ => int8 p0
  | _ => 0

def get2BytesInt : List UInt8 → ℤ
  | p0 :: p1 :: _ => int32 (word (256 * int8 p0) ||| p1.toNat)
  | _ => 0

def get3BytesInt : List UInt8 → ℤ
  | p0 :: p1 :: p2 :: _ => int32 (word (65536 * int8 p0) ||| p1.toNat <<< 8 ||| p2.toNat)
  | _ => 0

def get4BytesInt : List UInt8 → ℤ
  | p0 :: p1 :: p2 :: p3 :: _ =>
      int32 (word (16777216 * int8 p0) ||| p1.toNat <<< 16 ||| p2.toNat <<< 8 ||| p3.toNat)
  | _ => 0

def get6BytesInt (p : List UInt8) : ℤ :=
  (get4BytesUInt (p.drop 2)).toNat + 2 ^ 32 * get2BytesInt p

/-- The eight bytes as a `uint64_t`. -/
def get8Bytes (p : List UInt8) : ℕ :=
  u64 (((get4BytesUInt p).toNat <<< 32) + (get4BytesUInt (p.drop 4)).toNat)

def get8BytesInt (p : List UInt8) : ℤ := offset (get8Bytes p)

end Deserialization

/-! ### Two's complement -/

/-- A natural number in `n` bytes, most significant byte first. -/
def natBytes : ℕ → ℕ → List UInt8
  | 0, _ => []
  | n + 1, x => UInt8.ofNat (x / 256 ^ n) :: natBytes n (x % 256 ^ n)

/-- The number given by its bytes, most significant byte first. -/
def ofBytes : List UInt8 → ℕ
  | [] => 0
  | b :: bs => b.toNat * 256 ^ bs.length + ofBytes bs

/-- An integer in `n` bytes, most significant byte first. -/
def bigEndian (n : ℕ) (v : ℤ) : List UInt8 := natBytes n (v % 256 ^ n).toNat

/-- The integer can be held in `n` bytes. -/
def Fits (n : ℕ) (v : ℤ) : Prop := -(128 * 256 ^ (n - 1)) ≤ v ∧ v < 128 * 256 ^ (n - 1)

instance (n : ℕ) (v : ℤ) : Decidable (Fits n v) := inferInstanceAs (Decidable (_ ∧ _))

@[simp]
theorem length_natBytes (n x : ℕ) : (natBytes n x).length = n := by
  induction n generalizing x with
  | zero => rfl
  | succ n ih => simp [natBytes, ih]

@[simp]
theorem length_bigEndian (n : ℕ) (v : ℤ) : (bigEndian n v).length = n := length_natBytes _ _

theorem ofBytes_lt (bs : List UInt8) : ofBytes bs < 256 ^ bs.length := by
  induction bs with
  | nil => simp [ofBytes]
  | cons b bs ih =>
    have hb : b.toNat < 256 := b.toNat_lt
    rw [ofBytes, List.length_cons, pow_succ]
    nlinarith

theorem ofBytes_natBytes {n x : ℕ} (h : x < 256 ^ n) : ofBytes (natBytes n x) = x := by
  induction n generalizing x with
  | zero => simp_all [natBytes, ofBytes]
  | succ n ih =>
    have hpow : 0 < 256 ^ n := by positivity
    have hdiv : x / 256 ^ n < 256 := by
      rw [Nat.div_lt_iff_lt_mul hpow]
      rwa [pow_succ, mul_comm] at h
    rw [natBytes, ofBytes, length_natBytes, ih (Nat.mod_lt _ hpow), Varint.toNat_ofNat hdiv]
    exact Nat.div_add_mod' x (256 ^ n)

/-- The sign lies in the first byte. -/
theorem bigEndian_signed {n : ℕ} {v : ℤ} (h : Fits (n + 1) v) :
    ∃ b bs, bigEndian (n + 1) v = b :: bs ∧ bs.length = n ∧
      int8 b * 256 ^ n + ofBytes bs = v := by
  have hpow : (0 : ℤ) < 256 ^ n := by positivity
  obtain ⟨hlo, hhi⟩ := h
  simp only [Nat.add_sub_cancel] at hlo hhi
  set x := (v % 256 ^ (n + 1)).toNat with hx
  have hmod : (x : ℤ) = v % 256 ^ (n + 1) :=
    Int.toNat_of_nonneg (Int.emod_nonneg _ (by positivity))
  have hxlt : x < 256 ^ (n + 1) := by
    have := Int.emod_lt_of_pos v (show (0 : ℤ) < 256 ^ (n + 1) by positivity)
    have hcast : (x : ℤ) < ((256 ^ (n + 1) : ℕ) : ℤ) := by push_cast; rw [hmod]; exact this
    exact_mod_cast hcast
  have hdiv : x / 256 ^ n < 256 := by
    rw [Nat.div_lt_iff_lt_mul (by positivity)]
    rwa [pow_succ, mul_comm] at hxlt
  refine ⟨UInt8.ofNat (x / 256 ^ n), natBytes n (x % 256 ^ n), rfl, length_natBytes _ _, ?_⟩
  rw [ofBytes_natBytes (Nat.mod_lt _ (by positivity)), int8, Varint.toNat_ofNat hdiv]
  have hsplit : (256 ^ n : ℤ) * (x / 256 ^ n : ℕ) + (x % 256 ^ n : ℕ) = x := by
    exact_mod_cast Nat.div_add_mod x (256 ^ n)
  rcases lt_or_ge v 0 with hneg | hpos
  · -- A negative number: the residue is `v + 256 ^ (n + 1)`, and its first byte is at least 128.
    have hval : (x : ℤ) = v + 256 ^ (n + 1) := by
      rw [hmod, ← Int.add_emod_right]
      exact Int.emod_eq_of_lt (by rw [pow_succ]; nlinarith) (by linarith)
    have hbyte : ¬ x / 256 ^ n < 128 := by
      rw [Nat.div_lt_iff_lt_mul (by positivity)]
      intro hlt
      have : (x : ℤ) < 128 * 256 ^ n := by exact_mod_cast hlt
      rw [hval, pow_succ] at this
      linarith
    rw [if_neg hbyte]
    rw [hval, pow_succ] at hsplit
    linarith
  · have hval : (x : ℤ) = v := by
      rw [hmod]
      exact Int.emod_eq_of_lt hpos (by rw [pow_succ]; nlinarith)
    have hbyte : x / 256 ^ n < 128 := by
      rw [Nat.div_lt_iff_lt_mul (by positivity)]
      have : (x : ℤ) < 128 * 256 ^ n := by rw [hval]; exact hhi
      exact_mod_cast this
    rw [if_pos hbyte]
    rw [hval] at hsplit
    linarith

/-! ### The readers are inverse to it -/

theorem int8_range (p : UInt8) : -128 ≤ int8 p ∧ int8 p < 128 := by
  have : p.toNat < 256 := p.toNat_lt
  unfold int8
  split <;> omega

/-- The signed first byte and the bytes below it, put together with `|`. -/
theorem int32_word_or {n : ℕ} (hn : n = 8 ∨ n = 16 ∨ n = 24) {k : ℤ} (hlo : -128 ≤ k)
    (hhi : k < 128)
    {u : ℕ} (hu : u < 2 ^ n) : int32 (word (2 ^ n * k) ||| u) = 2 ^ n * k + u := by
  have hshift : word (2 ^ n * k) = (k % 2 ^ (32 - n)).toNat <<< n := by
    rw [Nat.shiftLeft_eq]
    unfold word
    rcases hn with rfl | rfl | rfl <;> norm_num <;> omega
  rw [hshift, Varint.shiftLeft_or n _ hu]
  unfold int32
  rw [Int.bmod_def]
  rcases hn with rfl | rfl | rfl <;> norm_num at hu ⊢ <;> split <;> omega

/-- Three bytes, put together with `|`. -/
theorem or_bytes (p1 p2 p3 : UInt8) :
    p1.toNat <<< 16 ||| p2.toNat <<< 8 ||| p3.toNat = ofBytes [p1, p2, p3] := by
  have h2 := p2.toNat_lt
  have h3 := p3.toNat_lt
  have hlow : p2.toNat <<< 8 ||| p3.toNat < 2 ^ 16 := by
    rw [Varint.shiftLeft_or 8 _ h3]
    omega
  rw [Nat.or_assoc, Varint.shiftLeft_or 16 _ hlow, Varint.shiftLeft_or 8 _ h3]
  simp only [ofBytes, List.length_cons, List.length_nil]
  ring

namespace Deserialization

variable {v : ℤ}

theorem get1ByteInt_bigEndian (h : Fits 1 v) (rest : List UInt8) :
    get1ByteInt (bigEndian 1 v ++ rest) = v := by
  obtain ⟨b, bs, hbytes, hlen, hval⟩ := bigEndian_signed h
  obtain rfl := List.eq_nil_of_length_eq_zero hlen
  simpa [hbytes, get1ByteInt, ofBytes] using hval

theorem get2BytesInt_bigEndian (h : Fits 2 v) (rest : List UInt8) :
    get2BytesInt (bigEndian 2 v ++ rest) = v := by
  obtain ⟨b, bs, hbytes, hlen, hval⟩ := bigEndian_signed h
  obtain ⟨p1, rfl⟩ := List.length_eq_one_iff.mp hlen
  have hb := int8_range b
  have hor := int32_word_or (n := 8) (by simp) hb.1 hb.2 p1.toNat_lt
  rw [hbytes]
  simp only [List.cons_append, List.nil_append, get2BytesInt]
  rw [show (256 : ℤ) * int8 b = 2 ^ 8 * int8 b by norm_num, hor, ← hval]
  simp only [ofBytes, List.length_nil, pow_zero, mul_one, add_zero]
  ring

theorem get3BytesInt_bigEndian (h : Fits 3 v) (rest : List UInt8) :
    get3BytesInt (bigEndian 3 v ++ rest) = v := by
  obtain ⟨b, bs, hbytes, hlen, hval⟩ := bigEndian_signed h
  obtain ⟨p1, p2, rfl⟩ := List.length_eq_two.mp hlen
  have hb := int8_range b
  have hlow : ofBytes [p1, p2] < 2 ^ 16 := lt_of_lt_of_eq (ofBytes_lt _) (by norm_num)
  have hbits : p1.toNat <<< 8 ||| p2.toNat = ofBytes [p1, p2] := by
    rw [Varint.shiftLeft_or 8 _ p2.toNat_lt]
    simp [ofBytes, mul_comm]
  have hor := int32_word_or (n := 16) (by simp) hb.1 hb.2 hlow
  rw [hbytes]
  simp only [List.cons_append, List.nil_append, get3BytesInt]
  rw [Nat.or_assoc, hbits, show (65536 : ℤ) * int8 b = 2 ^ 16 * int8 b by norm_num, hor, ← hval]
  ring

theorem get4BytesInt_bigEndian (h : Fits 4 v) (rest : List UInt8) :
    get4BytesInt (bigEndian 4 v ++ rest) = v := by
  obtain ⟨b, bs, hbytes, hlen, hval⟩ := bigEndian_signed h
  obtain ⟨p1, p2, p3, rfl⟩ := List.length_eq_three.mp hlen
  have hb := int8_range b
  have hlow : ofBytes [p1, p2, p3] < 2 ^ 24 := lt_of_lt_of_eq (ofBytes_lt _) (by norm_num)
  have hor := int32_word_or (n := 24) (by simp) hb.1 hb.2 hlow
  rw [hbytes]
  simp only [List.cons_append, List.nil_append, get4BytesInt]
  rw [Nat.or_assoc, Nat.or_assoc, ← Nat.or_assoc (p1.toNat <<< 16), or_bytes p1 p2 p3,
    show (16777216 : ℤ) * int8 b = 2 ^ 24 * int8 b by norm_num, hor, ← hval]
  ring

theorem toNat_get4BytesUInt (p0 p1 p2 p3 : UInt8) (rest : List UInt8) :
    (get4BytesUInt (p0 :: p1 :: p2 :: p3 :: rest)).toNat = ofBytes [p0, p1, p2, p3] := by
  have h0 := p0.toNat_lt
  have h1 := p1.toNat_lt
  have h2 := p2.toNat_lt
  have hlow : ofBytes [p1, p2, p3] < 2 ^ 24 := lt_of_lt_of_eq (ofBytes_lt _) (by norm_num)
  simp only [get4BytesUInt, UInt32.toNat_or, UInt32.toNat_shiftLeft, UInt8.toNat_toUInt32,
    UInt32.reduceToNat, Nat.reduceMod]
  rw [Nat.mod_eq_of_lt (show p0.toNat <<< 24 < 2 ^ 32 by rw [Nat.shiftLeft_eq]; omega),
    Nat.mod_eq_of_lt (show p1.toNat <<< 16 < 2 ^ 32 by rw [Nat.shiftLeft_eq]; omega),
    Nat.mod_eq_of_lt (show p2.toNat <<< 8 < 2 ^ 32 by rw [Nat.shiftLeft_eq]; omega),
    Nat.or_assoc, Nat.or_assoc, ← Nat.or_assoc (p1.toNat <<< 16), or_bytes p1 p2 p3,
    Varint.shiftLeft_or 24 _ hlow]
  simp only [ofBytes, List.length_cons, List.length_nil]
  ring

theorem get6BytesInt_bigEndian (h : Fits 6 v) (rest : List UInt8) :
    get6BytesInt (bigEndian 6 v ++ rest) = v := by
  obtain ⟨b, bs, hbytes, hlen, hval⟩ := bigEndian_signed h
  obtain ⟨p1, p2, p3, p4, p5, rfl⟩ : ∃ p1 p2 p3 p4 p5, bs = [p1, p2, p3, p4, p5] := by
    match bs, hlen with
    | [p1, p2, p3, p4, p5], _ => exact ⟨p1, p2, p3, p4, p5, rfl⟩
  have hb := int8_range b
  have hor := int32_word_or (n := 8) (by simp) hb.1 hb.2 p1.toNat_lt
  rw [hbytes]
  simp only [get6BytesInt, List.cons_append, List.nil_append, List.drop_succ_cons, List.drop_zero,
    toNat_get4BytesUInt, get2BytesInt]
  rw [show (256 : ℤ) * int8 b = 2 ^ 8 * int8 b by norm_num, hor, ← hval]
  simp only [ofBytes, List.length_cons, List.length_nil]
  push_cast
  ring

theorem get8Bytes_natBytes {x : ℕ} (h : x < 2 ^ 64) (rest : List UInt8) :
    get8Bytes (natBytes 8 x ++ rest) = x := by
  have hval : ofBytes (natBytes 8 x) = x := ofBytes_natBytes (lt_of_lt_of_eq h (by norm_num))
  obtain ⟨p0, p1, p2, p3, p4, p5, p6, p7, hbytes⟩ :
      ∃ p0 p1 p2 p3 p4 p5 p6 p7, natBytes 8 x = [p0, p1, p2, p3, p4, p5, p6, p7] := by
    match natBytes 8 x, length_natBytes 8 x with
    | [p0, p1, p2, p3, p4, p5, p6, p7], _ => exact ⟨p0, p1, p2, p3, p4, p5, p6, p7, rfl⟩
  rw [hbytes] at hval ⊢
  simp only [get8Bytes, List.cons_append, List.nil_append, List.drop_succ_cons, List.drop_zero,
    toNat_get4BytesUInt, Nat.shiftLeft_eq]
  rw [u64_of_lt]
  · rw [← hval]
    simp only [ofBytes, List.length_cons, List.length_nil]
    ring
  · refine lt_of_eq_of_lt ?_ h
    rw [← hval]
    simp only [ofBytes, List.length_cons, List.length_nil]
    ring

theorem get8BytesInt_bigEndian (h : Fits 8 v) (rest : List UInt8) :
    get8BytesInt (bigEndian 8 v ++ rest) = v := by
  obtain ⟨hlo, hhi⟩ := h
  norm_num at hlo hhi
  rw [get8BytesInt, bigEndian, get8Bytes_natBytes (by norm_num; omega), offset,
    u64_of_lt (by norm_num; omega)]
  norm_num
  split <;> omega

end Deserialization

end Wcdb
