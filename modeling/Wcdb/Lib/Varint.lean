import Mathlib.Data.Nat.Bitwise
import Mathlib.Tactic.Ring

/-!
# Big-endian base-128 integers of at most nine bytes

The variable-length integers of a b-tree file: seven bits a byte, most significant first, the
high bit of every byte but the last set, and a ninth byte that contributes all eight bits.
`Varint.read` is the plain reader, one byte at a time. `Varint.read_digits` says how it
accumulates a run of continuation bytes; the round trip of any encoder that produces such runs
follows from it.

Readers that work on several bytes at once combine them with shifts, masks and bitwise or;
`or_interleave` and `and_interleave` turn those into arithmetic, place by place.
-/

namespace Varint

/-! ### Bitwise operations, place by place -/

theorem or_interleave (n : ℕ) (x y : ℕ) {u v : ℕ} (hu : u < 2 ^ n) (hv : v < 2 ^ n) :
    (2 ^ n * x + u) ||| (2 ^ n * y + v) = 2 ^ n * (x ||| y) + (u ||| v) := by
  apply Nat.eq_of_testBit_eq
  intro i
  rw [Nat.testBit_or, Nat.testBit_two_pow_mul_add x hu, Nat.testBit_two_pow_mul_add y hv,
    Nat.testBit_two_pow_mul_add _ (Nat.or_lt_two_pow hu hv)]
  split_ifs <;> simp

theorem and_interleave (n : ℕ) (x y : ℕ) {u v : ℕ} (hu : u < 2 ^ n) (hv : v < 2 ^ n) :
    (2 ^ n * x + u) &&& (2 ^ n * y + v) = 2 ^ n * (x &&& y) + (u &&& v) := by
  apply Nat.eq_of_testBit_eq
  intro i
  rw [Nat.testBit_and, Nat.testBit_two_pow_mul_add x hu, Nat.testBit_two_pow_mul_add y hv,
    Nat.testBit_two_pow_mul_add _ (Nat.and_lt_two_pow _ hv)]
  split_ifs <;> simp

/-- A number below a place and a multiple of it do not overlap. -/
theorem shiftLeft_or (n x : ℕ) {u : ℕ} (hu : u < 2 ^ n) : x <<< n ||| u = 2 ^ n * x + u := by
  rw [Nat.shiftLeft_eq, Nat.mul_comm, ← Nat.two_pow_add_eq_or_of_lt hu]

theorem and_127 (x : ℕ) : x &&& 127 = x % 128 := Nat.and_two_pow_sub_one_eq_mod x 7

/-- The high bit of a byte below which further bits lie. -/
theorem and_128 (x : ℕ) {p : ℕ} (hp : p < 256) : (256 * x + p) &&& 128 = 128 * (p / 128) := by
  have h := and_interleave 8 x 0 (show p < 2 ^ 8 by omega) (show 128 < 2 ^ 8 by omega)
  simp only [show (2 : ℕ) ^ 8 = 256 by rfl, Nat.mul_zero, Nat.zero_add, Nat.and_zero] at h
  rw [h]
  have h' := and_interleave 7 (p / 128) 1 (show p % 128 < 2 ^ 7 by omega) (show 0 < 2 ^ 7 by omega)
  simp only [show (2 : ℕ) ^ 7 = 128 by rfl, Nat.mul_one, Nat.add_zero, Nat.and_zero,
    Nat.div_add_mod, Nat.and_one_is_mod] at h'
  rw [h']
  omega

/-! ### The plain reader -/

/-- Read from the `k`-th byte on, `acc` being the value of the bytes before: the length and the
value, or `(0, 0)` when the bytes end first. -/
def readFrom : ℕ → ℕ → List UInt8 → ℕ × ℕ
  | _, _, [] => (0, 0)
  | k, acc, b :: rest =>
      if k = 8 then (9, acc * 256 + b.toNat)
      else if b.toNat < 128 then (k + 1, acc * 128 + b.toNat)
      else readFrom (k + 1) (acc * 128 + b.toNat % 128) rest

/-- The plain reader. -/
def read (bytes : List UInt8) : ℕ × ℕ := readFrom 0 0 bytes

/-- What has been read after `n` bytes, and how large it can be. -/
theorem readFrom_bound {k acc : ℕ} (hk : k ≤ 8) (hacc : acc < 128 ^ k) (l : List UInt8) :
    readFrom k acc l = (0, 0) ∨
      (readFrom k acc l).1 ≤ k + l.length ∧ (readFrom k acc l).1 ≤ 9 ∧ 0 < (readFrom k acc l).1 ∧
        (readFrom k acc l).2 < 2 ^ 64 ∧
          ((readFrom k acc l).1 ≤ 8 → (readFrom k acc l).2 < 128 ^ (readFrom k acc l).1) := by
  induction l generalizing k acc with
  | nil => exact .inl rfl
  | cons b l ih =>
    have hb := b.toNat_lt
    have hpow : 128 ^ (k + 1) = 128 ^ k * 128 := pow_succ 128 k
    rw [readFrom]
    split_ifs with h8 hlast
    · subst h8
      refine .inr ⟨?_, le_rfl, by omega, ?_, fun h => absurd h (by omega)⟩
      · simp only [List.length_cons]
        omega
      · simp only
        omega
    · have hle : 128 ^ k ≤ 128 ^ 7 := Nat.pow_le_pow_right (by omega) (by omega)
      refine .inr ⟨?_, ?_, by omega, ?_, fun _ => ?_⟩
      · simp only [List.length_cons]
        omega
      · simp only
        omega
      · simp only
        omega
      · simp only [hpow]
        omega
    · rcases ih (show k + 1 ≤ 8 by omega) (show acc * 128 + b.toNat % 128 < 128 ^ (k + 1) by omega)
        with hzero | ⟨hlen, hrest⟩
      · exact .inl hzero
      · refine .inr ⟨?_, hrest⟩
        rw [List.length_cons]
        omega

/-- A varint is cut short, or it lies in the bytes and holds seven bits a byte, sixty-four in
nine. -/
theorem read_bound (l : List UInt8) :
    read l = (0, 0) ∨ (read l).1 ≤ l.length ∧ (read l).1 ≤ 9 ∧ 0 < (read l).1 ∧
      (read l).2 < 2 ^ 64 ∧ ((read l).1 ≤ 8 → (read l).2 < 128 ^ (read l).1) := by
  have h := @readFrom_bound 0 0 (by omega) (by simp) l
  rwa [Nat.zero_add] at h

theorem length_read_le (l : List UInt8) : (read l).1 ≤ 9 := by
  rcases read_bound l with h | ⟨-, h, -⟩
  · rw [h]
    omega
  · exact h

/-- The value of base-128 digits, most significant first. -/
def ofDigits (ds : List ℕ) (acc : ℕ) : ℕ := ds.foldl (fun a d => a * 128 + d) acc

/-- A digit as a continuation byte. -/
def more (d : ℕ) : UInt8 := UInt8.ofNat (d + 128)

theorem toNat_ofNat {n : ℕ} (h : n < 256) : (UInt8.ofNat n).toNat = n := by
  simp [UInt8.toNat_ofNat', Nat.mod_eq_of_lt h]

/-- **Continuation bytes accumulate their digits.** -/
theorem readFrom_digits {ds : List ℕ} (hds : ∀ d ∈ ds, d < 128) (k acc : ℕ)
    (hk : k + ds.length ≤ 8) (rest : List UInt8) :
    readFrom k acc (ds.map more ++ rest) = readFrom (k + ds.length) (ofDigits ds acc) rest := by
  induction ds generalizing k acc with
  | nil => rfl
  | cons d ds ih =>
    have hd : d < 128 := hds d List.mem_cons_self
    have hbyte : (more d).toNat = d + 128 := toNat_ofNat (by omega)
    simp only [List.length_cons] at hk
    simp only [List.map_cons, List.cons_append, readFrom, hbyte,
      show ¬k = 8 by omega, show ¬d + 128 < 128 by omega, if_false]
    rw [ih (fun e he => hds e (List.mem_cons_of_mem _ he)) (k + 1) _ (by omega)]
    simp only [List.length_cons, ofDigits, List.foldl_cons,
      show (d + 128) % 128 = d by omega, show k + 1 + ds.length = k + (ds.length + 1) by omega]

/-- Digits ended by a byte without the high bit. -/
theorem read_short (ds : List ℕ) (hds : ∀ d ∈ ds, d < 128) (hlen : ds.length ≤ 7) {d : ℕ}
    (hd : d < 128) (rest : List UInt8) :
    read (ds.map more ++ UInt8.ofNat d :: rest) = (ds.length + 1, ofDigits ds 0 * 128 + d) := by
  have hbyte : (UInt8.ofNat d).toNat = d := toNat_ofNat (by omega)
  rw [read, readFrom_digits hds 0 0 (by omega), readFrom]
  simp only [hbyte, hd, show ¬ds.length = 8 by omega, if_false, if_true, Nat.zero_add]

/-- Eight digits and a full byte. -/
theorem read_long (ds : List ℕ) (hds : ∀ d ∈ ds, d < 128) (hlen : ds.length = 8) {d : ℕ}
    (hd : d < 256) (rest : List UInt8) :
    read (ds.map more ++ UInt8.ofNat d :: rest) = (9, ofDigits ds 0 * 256 + d) := by
  rw [read, readFrom_digits hds 0 0 (by omega), readFrom]
  simp only [toNat_ofNat hd, hlen, Nat.zero_add, if_true]

/-! ### Digits of a number -/

/-- The lowest `n` digits, least significant first. -/
def digits : ℕ → ℕ → List ℕ
  | 0, _ => []
  | n + 1, v => v % 128 :: digits n (v / 128)

theorem digits_length (n v : ℕ) : (digits n v).length = n := by
  induction n generalizing v with
  | zero => rfl
  | succ n ih => simp [digits, ih]

theorem digits_lt (n v : ℕ) : ∀ d ∈ digits n v, d < 128 := by
  induction n generalizing v with
  | zero => simp [digits]
  | succ n ih =>
    intro d hd
    rcases List.mem_cons.mp hd with rfl | hd
    · omega
    · exact ih _ d hd

theorem ofDigits_digits (n v : ℕ) : ofDigits (digits n v).reverse 0 = v % 128 ^ n := by
  induction n generalizing v with
  | zero => simp [digits, ofDigits, Nat.mod_one]
  | succ n ih =>
    have hstep : ofDigits (digits (n + 1) v).reverse 0 =
        ofDigits (digits n (v / 128)).reverse 0 * 128 + v % 128 := by
      simp [digits, ofDigits]
    rw [hstep, ih, Nat.pow_succ, Nat.mul_comm (128 ^ n) 128, Nat.mod_mul]
    ring

end Varint
