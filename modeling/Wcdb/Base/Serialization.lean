import Wcdb.Lib.Varint

/-!
# `Serialization` and `Deserialization`

The writer appends to a growing buffer; every expansion asks the allocator, whose `n`-th answer
is `alloc n`. The reader holds the bytes and a cursor. Variable-length integers are written and
read as the source does it, in 32-bit and 64-bit registers; machine integers are natural
numbers with explicit wrap-around.

`getVarint_eq_read` identifies the register arithmetic of the reader with the plain definition
of the format, and `getVarint_encodeVarint` is the round trip. For whole buffers the two
relations are `Puts` (what a writing operation appends when allocation succeeds) and
`Deserialization.At` (which bytes lie ahead of the cursor).
-/

namespace Wcdb

/-- The value of a 32-bit register. -/
def u32 (x : ℕ) : ℕ := x % 2 ^ 32

/-- The value of a 64-bit register. -/
def u64 (x : ℕ) : ℕ := x % 2 ^ 64

/-! ### Writing -/

/-- The writer: the bytes before the cursor, the size of the buffer, and the number of
allocations asked for so far. -/
structure Serialization where
  bytes : List UInt8
  capacity : ℕ
  allocations : ℕ
  deriving Repr

namespace Serialization

/-- A new writer. -/
def empty : Serialization := ⟨[], 0, 0⟩

variable (alloc : ℕ → Bool)

def resize (s : Serialization) (size : ℕ) : Bool × Serialization :=
  if size < s.capacity then (true, s)
  else if alloc s.allocations then
    (true, { s with capacity := max size (s.capacity * 2), allocations := s.allocations + 1 })
  else (false, { s with allocations := s.allocations + 1 })

def expand (s : Serialization) (size : ℕ) : Bool × Serialization :=
  s.resize alloc (s.bytes.length + size)

/-- Write at the cursor and advance. -/
def append (s : Serialization) (bs : List UInt8) : Serialization :=
  { s with bytes := s.bytes ++ bs }

/-- `put4BytesUInt`: most significant byte first. -/
def put4BytesUInt (value : UInt32) (s : Serialization) : Bool × Serialization :=
  match s.expand alloc 4 with
  | (true, s) => (true, s.append
      [(value >>> 24).toUInt8, (value >>> 16).toUInt8, (value >>> 8).toUInt8, value.toUInt8])
  | (false, s) => (false, s)

/-- The loop `do … while (value != 0)` over seven bits at a time, least significant first, every
byte with its high bit set. `fuel` is the size of `buf`. -/
def varintBuf : ℕ → ℕ → List UInt8
  | 0, _ => []
  | fuel + 1, value =>
      UInt8.ofNat ((value &&& 0x7f) ||| 0x80) ::
        if value >>> 7 = 0 then [] else varintBuf fuel (value >>> 7)

/-- The loop `for (i = 7; i >= 0; i--)`, from the last byte to the first. -/
def nineBytes : ℕ → ℕ → List UInt8
  | 0, _ => []
  | n + 1, value => UInt8.ofNat ((value &&& 0x7f) ||| 0x80) :: nineBytes n (value >>> 7)

/-- The bytes `putVarint` writes. -/
def encodeVarint (value : ℕ) : List UInt8 :=
  if value ≤ 0x7f then [UInt8.ofNat (value &&& 0x7f)]
  else if value ≤ 0x3fff then
    [UInt8.ofNat (((value >>> 7) &&& 0x7f) ||| 0x80), UInt8.ofNat (value &&& 0x7f)]
  else if value &&& (0xff000000 <<< 32) ≠ 0 then
    (nineBytes 8 (value >>> 8)).reverse ++ [UInt8.ofNat value]
  else
    match varintBuf 10 value with
    | [] => []
    | b :: buf => buf.reverse ++ [b &&& 0x7f]

/-- `putVarint` of a 64-bit value: the number of bytes written, `0` on failure. -/
def putVarint (value : ℕ) (s : Serialization) : ℕ × Serialization :=
  match s.expand alloc 9 with
  | (true, s) =>
      let bs := encodeVarint (u64 value)
      (bs.length, s.append bs)
  | (false, s) => (0, s)

/-- `putSizedString` and `putSizedData`: the size, then the bytes. A failure puts the cursor
back, and the result is `true` all the same. -/
def putSizedString (string : List UInt8) (s : Serialization) : Bool × Serialization :=
  match s.putVarint alloc string.length with
  | (0, t) => (true, { t with bytes := s.bytes })
  | (_ + 1, t) =>
    match t.expand alloc string.length with
    | (true, t) => (true, t.append string)
    | (false, t) => (true, { t with bytes := s.bytes })

/-- `putVarint` as a step that succeeds or fails. -/
def putVarintOk (value : ℕ) (s : Serialization) : Bool × Serialization :=
  let (length, t) := s.putVarint alloc value
  (decide (length ≠ 0), t)

/-- `f && g`: the second only after the first. -/
def andThen (f g : Serialization → Bool × Serialization) (s : Serialization) :
    Bool × Serialization :=
  match f s with
  | (true, t) => g t
  | (false, t) => (false, t)

/-- One step for each element of a list. -/
def forEach {α : Type} (f : α → Serialization → Bool × Serialization) :
    List α → Serialization → Bool × Serialization
  | [] => fun s => (true, s)
  | a :: as => andThen (f a) (forEach f as)

end Serialization

/-! ### Reading -/

/-- `getVarint` on the bytes from the offset on: the length and the value, `(0, 0)` when the
bytes end before. The registers `a` and `b` have 32 bits and `s` has 64; each byte is read only
after the check that it is there. -/
def getVarint : List UInt8 → ℕ × ℕ
  | [] => (0, 0)
  | p0 :: r =>
    let a := p0.toNat
    if a &&& 0x80 = 0 then (1, a) else
    match r with
    | [] => (0, 0)
    | p1 :: r =>
    let b := p1.toNat
    if b &&& 0x80 = 0 then (2, (u32 ((a &&& 0x7f) <<< 7)) ||| b) else
    match r with
    | [] => (0, 0)
    | p2 :: r =>
    let a := u32 (a <<< 14) ||| p2.toNat
    if a &&& 0x80 = 0 then (3, (a &&& 0x1fc07f) ||| u32 ((b &&& 0x7f) <<< 7)) else
    let a := a &&& 0x1fc07f
    match r with
    | [] => (0, 0)
    | p3 :: r =>
    let b := u32 (b <<< 14) ||| p3.toNat
    if b &&& 0x80 = 0 then (4, u32 (a <<< 7) ||| (b &&& 0x1fc07f)) else
    let b := b &&& 0x1fc07f
    let s := a
    match r with
    | [] => (0, 0)
    | p4 :: r =>
    let a := u32 (a <<< 14) ||| p4.toNat
    if a &&& 0x80 = 0 then (5, u64 ((s >>> 18) <<< 32) ||| (a ||| u32 (b <<< 7))) else
    let s := u64 (s <<< 7) ||| b
    match r with
    | [] => (0, 0)
    | p5 :: r =>
    let b := u32 (b <<< 14) ||| p5.toNat
    if b &&& 0x80 = 0 then
      (6, u64 ((s >>> 18) <<< 32) ||| (u32 ((a &&& 0x1fc07f) <<< 7) ||| b)) else
    match r with
    | [] => (0, 0)
    | p6 :: r =>
    let a := u32 (a <<< 14) ||| p6.toNat
    if a &&& 0x80 = 0 then
      (7, u64 ((s >>> 11) <<< 32) ||| ((a &&& 0xf01fc07f) ||| u32 ((b &&& 0x1fc07f) <<< 7))) else
    let a := a &&& 0x1fc07f
    match r with
    | [] => (0, 0)
    | p7 :: r =>
    let b := u32 (b <<< 14) ||| p7.toNat
    if b &&& 0x80 = 0 then
      (8, u64 ((s >>> 4) <<< 32) ||| (u32 (a <<< 7) ||| (b &&& 0xf01fc07f))) else
    match r with
    | [] => (0, 0)
    | p8 :: _ =>
    let a := u32 (a <<< 15) ||| p8.toNat
    let b := u32 ((b &&& 0x1fc07f) <<< 8)
    let a := a ||| b
    let s := u64 (s <<< 4) ||| ((p4.toNat &&& 0x7f) >>> 3)
    (9, u64 (s <<< 32) ||| a)

/-! ### The registers, place by place -/

section Registers

open Varint

private theorem and_128_eq_zero (x : ℕ) {p : ℕ} (hp : p < 256) :
    (256 * x + p) &&& 0x80 = 0 ↔ p < 128 := by
  rw [and_128 x hp]
  omega

private theorem byte_high {p : ℕ} (hp : p < 256) : p &&& 0x80 = 0 ↔ p < 128 := by
  simpa using and_128_eq_zero 0 hp

private theorem shl7 (x : ℕ) : u32 (x <<< 7) = 128 * (x % 33554432) := by
  simp only [u32, Nat.shiftLeft_eq]
  omega

private theorem shl14_or (x : ℕ) {p : ℕ} (hp : p < 256) :
    u32 (x <<< 14) ||| p = 16384 * (x % 262144) + p := by
  have h : u32 (x <<< 14) = (x % 262144) <<< 14 := by
    simp only [u32, Nat.shiftLeft_eq]
    omega
  rw [h, shiftLeft_or 14 _ (show p < 2 ^ 14 by omega), show (2 : ℕ) ^ 14 = 16384 by rfl]

private theorem shl14_or_high (x : ℕ) {p : ℕ} (hp : p < 256) :
    (16384 * x + p) &&& 0x80 = 0 ↔ p < 128 := by
  rw [← and_128_eq_zero (64 * x) hp, show 256 * (64 * x) = 16384 * x by omega]

private theorem shl15_or (x : ℕ) {p : ℕ} (hp : p < 256) :
    u32 (x <<< 15) ||| p = 32768 * (x % 131072) + p := by
  have h : u32 (x <<< 15) = (x % 131072) <<< 15 := by
    simp only [u32, Nat.shiftLeft_eq]
    omega
  rw [h, shiftLeft_or 15 _ (show p < 2 ^ 15 by omega), show (2 : ℕ) ^ 15 = 32768 by rfl]

/-- The mask `slot_2_0`. -/
private theorem mask14 (x : ℕ) {p : ℕ} (hp : p < 256) :
    (16384 * x + p) &&& 0x1fc07f = 16384 * (x % 128) + p % 128 := by
  have h := and_interleave 14 x 127 (show p < 2 ^ 14 by omega) (show 127 < 2 ^ 14 by omega)
  rwa [and_127, and_127] at h

/-- The mask `slot_4_2_0`. -/
private theorem mask28 (x : ℕ) {p : ℕ} (hp : p < 256) :
    (16384 * x + p) &&& 0xf01fc07f =
      268435456 * (x / 16384 % 16) + 16384 * (x % 128) + p % 128 := by
  have h := and_interleave 14 x (16384 * 15 + 127) (show p < 2 ^ 14 by omega)
    (show 127 < 2 ^ 14 by omega)
  have h' := and_interleave 14 (x / 16384) 15 (show x % 16384 < 2 ^ 14 by omega)
    (show 127 < 2 ^ 14 by omega)
  have h15 : x / 16384 &&& 15 = x / 16384 % 16 := Nat.and_two_pow_sub_one_eq_mod _ 4
  simp only [show (2 : ℕ) ^ 14 = 16384 by rfl, and_127, h15, Nat.div_add_mod] at h h'
  rw [h'] at h
  rw [show (0xf01fc07f : ℕ) = 16384 * (16384 * 15 + 127) + 127 by rfl, h]
  omega

/-- Seven-bit groups in alternating places. -/
private theorem zip7 {a b : ℕ} (A : ℕ) {B C D E : ℕ}
    (ha : a = 268435456 * A + 16384 * C + E) (hb : b = 2097152 * B + 128 * D)
    (hB : B < 128) (hC : C < 128) (hD : D < 128) (hE : E < 128) :
    a ||| b = 268435456 * A + 2097152 * B + 16384 * C + 128 * D + E := by
  subst ha hb
  have h₁ := or_interleave 7 (2097152 * A + 128 * C) (16384 * B + D) (show E < 2 ^ 7 by omega)
    (show 0 < 2 ^ 7 by omega)
  have h₂ := or_interleave 7 (16384 * A + C) (128 * B) (show 0 < 2 ^ 7 by omega)
    (show D < 2 ^ 7 by omega)
  have h₃ := or_interleave 7 (128 * A) B (show C < 2 ^ 7 by omega) (show 0 < 2 ^ 7 by omega)
  have h₄ := or_interleave 7 A 0 (show 0 < 2 ^ 7 by omega) (show B < 2 ^ 7 by omega)
  simp only [show (2 : ℕ) ^ 7 = 128 by rfl, Nat.or_zero, Nat.zero_or, Nat.add_zero, Nat.mul_zero,
    Nat.zero_add] at h₁ h₂ h₃ h₄
  rw [show 128 * (128 * A) + C = 16384 * A + C by omega, h₄] at h₃
  rw [show 128 * (16384 * A + C) = 2097152 * A + 128 * C by omega,
    show 128 * (128 * B) + D = 16384 * B + D by omega, h₃] at h₂
  rw [show 128 * (2097152 * A + 128 * C) + E = 268435456 * A + 16384 * C + E by omega,
    show 128 * (16384 * B + D) = 2097152 * B + 128 * D by omega, h₂] at h₁
  omega

/-- The same above a full last byte. -/
private theorem zip8 {a b : ℕ} (A : ℕ) {B C D E : ℕ}
    (ha : a = 536870912 * A + 32768 * C + E) (hb : b = 4194304 * B + 256 * D)
    (hB : B < 128) (hC : C < 128) (hD : D < 128) (hE : E < 256) :
    a ||| b = 536870912 * A + 4194304 * B + 32768 * C + 256 * D + E := by
  have h₁ := or_interleave 8 (2097152 * A + 128 * C) (16384 * B + D) (show E < 2 ^ 8 by omega)
    (show 0 < 2 ^ 8 by omega)
  have h₂ := zip7 A (a := 268435456 * A + 16384 * C) (b := 2097152 * B + 128 * D)
    (E := 0) rfl rfl hB hC hD (by omega)
  have h₃ := or_interleave 7 (2097152 * A + 128 * C) (16384 * B + D) (show 0 < 2 ^ 7 by omega)
    (show 0 < 2 ^ 7 by omega)
  simp only [show (2 : ℕ) ^ 7 = 128 by rfl, show (2 : ℕ) ^ 8 = 256 by rfl, Nat.or_zero,
    Nat.add_zero] at h₁ h₂ h₃
  rw [show 128 * (2097152 * A + 128 * C) = 268435456 * A + 16384 * C by omega,
    show 128 * (16384 * B + D) = 2097152 * B + 128 * D by omega, h₂] at h₃
  rw [ha, hb, show 536870912 * A + 32768 * C + E = 256 * (2097152 * A + 128 * C) + E by omega,
    show 4194304 * B + 256 * D = 256 * (16384 * B + D) by omega, h₁]
  omega

/-- The two halves of the result. -/
private theorem high_or {s a : ℕ} (hs : s < 2 ^ 32) (ha : a < 2 ^ 32) :
    u64 (s <<< 32) ||| a = 4294967296 * s + a := by
  have h : u64 (s <<< 32) = s <<< 32 := by
    simp only [u64, Nat.shiftLeft_eq]
    omega
  rw [h, shiftLeft_or 32 s ha, show (2 : ℕ) ^ 32 = 4294967296 by rfl]

/-- The first four groups, saved in `s`. -/
private theorem saved {a b l0 l1 l2 l3 : ℕ} (ha : a = 16384 * l0 + l2) (hb : b = 16384 * l1 + l3)
    (h0 : l0 < 128) (h1 : l1 < 128) (h2 : l2 < 128) (h3 : l3 < 128) :
    u64 (a <<< 7) ||| b = 2097152 * l0 + 16384 * l1 + 128 * l2 + l3 := by
  rw [Nat.or_comm, zip7 0 (B := l0) (C := l1) (D := l2) (E := l3) (by omega) ?_ h0 h1 h2 h3]
  · omega
  · simp only [u64, Nat.shiftLeft_eq]
    omega

private theorem readFrom_cons {k : ℕ} (hk : k ≠ 8) (acc : ℕ) (b : UInt8) (rest : List UInt8) :
    readFrom k acc (b :: rest) = if b.toNat < 128 then (k + 1, acc * 128 + b.toNat)
      else readFrom (k + 1) (acc * 128 + b.toNat % 128) rest := by
  rw [readFrom, if_neg hk]

/-- **The register code reads the format.** One byte at a time, each stage brings the registers
to their places and either stops or goes on. -/
theorem getVarint_eq_read (l : List UInt8) : getVarint l = Varint.read l := by
  rcases l with _ | ⟨p0, r⟩
  · rfl
  have hm (x : ℕ) : x % 128 < 128 := Nat.mod_lt x (by decide)
  have h0 : p0.toNat < 256 := p0.toNat_lt
  simp only [getVarint, Varint.read, readFrom_cons (show 0 ≠ 8 by decide), byte_high h0,
    Nat.zero_mul, Nat.zero_add]
  generalize p0.toNat = x0 at *
  refine ite_congr rfl (fun c0 => ?_) fun c0 => ?_
  · rfl
  rcases r with _ | ⟨p1, r⟩
  · rfl
  have h1 : p1.toNat < 256 := p1.toNat_lt
  simp only [readFrom_cons (show 1 ≠ 8 by decide), byte_high h1, and_127, shl7]
  generalize p1.toNat = x1 at *
  refine ite_congr rfl (fun c1 => ?_) fun c1 => ?_
  · rw [Nat.or_comm, zip7 0 (B := 0) (C := 0) (D := x0 % 128) (E := x1) (by omega) (by omega)
      (by omega) (by omega) (by omega) c1]
    congr 1
    omega
  rcases r with _ | ⟨p2, r⟩
  · rfl
  have h2 : p2.toNat < 256 := p2.toNat_lt
  simp only [readFrom_cons (show 2 ≠ 8 by decide), shl14_or x0 h2, shl14_or_high _ h2,
    mask14 _ h2]
  generalize p2.toNat = x2 at *
  refine ite_congr rfl (fun c2 => ?_) fun c2 => ?_
  · rw [zip7 0 (B := 0) (C := x0 % 128) (D := x1 % 128) (E := x2) (by omega) (by omega)
      (by omega) (by omega) (by omega) c2]
    congr 1
    omega
  generalize ha2 : 16384 * (x0 % 262144 % 128) + x2 % 128 = a2
  replace ha2 : a2 = 16384 * (x0 % 128) + x2 % 128 := by omega
  rcases r with _ | ⟨p3, r⟩
  · rfl
  have h3 : p3.toNat < 256 := p3.toNat_lt
  simp only [readFrom_cons (show 3 ≠ 8 by decide), shl14_or x1 h3, shl14_or_high _ h3,
    mask14 _ h3]
  generalize p3.toNat = x3 at *
  generalize hb3 : 16384 * (x1 % 262144 % 128) + x3 % 128 = b3
  replace hb3 : b3 = 16384 * (x1 % 128) + x3 % 128 := by omega
  refine ite_congr rfl (fun c3 => ?_) fun c3 => ?_
  · rw [Nat.or_comm, zip7 0 (B := x0 % 128) (C := x1 % 128) (D := x2 % 128) (E := x3 % 128)
      (by omega) (by omega) (hm _) (hm _) (hm _) (hm _)]
    congr 1
    omega
  rcases r with _ | ⟨p4, r⟩
  · rfl
  have h4 : p4.toNat < 256 := p4.toNat_lt
  have hs := saved ha2 hb3 (by omega) (by omega) (by omega) (by omega)
  simp only [readFrom_cons (show 4 ≠ 8 by decide), shl14_or a2 h4, shl14_or_high _ h4,
    mask14 _ h4, hs]
  generalize p4.toNat = x4 at *
  refine ite_congr rfl (fun c4 => ?_) fun c4 => ?_
  · rw [zip7 (a := 16384 * _ + _) (x0 % 128 % 16) (B := x1 % 128) (C := x2 % 128) (D := x3 % 128)
      (E := x4) (by omega) (by omega) (hm _) (hm _) (hm _) c4, Nat.shiftRight_eq_div_pow,
      high_or (by omega) (by omega)]
    congr 1
    omega
  generalize hs4 : 2097152 * (x0 % 128) + 16384 * (x1 % 128) + 128 * (x2 % 128) + x3 % 128 = s
  rcases r with _ | ⟨p5, r⟩
  · rfl
  have h5 : p5.toNat < 256 := p5.toNat_lt
  simp only [readFrom_cons (show 5 ≠ 8 by decide), shl14_or b3 h5, shl14_or_high _ h5,
    mask14 _ h5]
  generalize p5.toNat = x5 at *
  refine ite_congr rfl (fun c5 => ?_) fun c5 => ?_
  · rw [Nat.or_comm (128 * _),
      zip7 (a := 16384 * _ + _) (x1 % 128 % 16) (B := x2 % 128) (C := x3 % 128)
      (D := x4 % 128) (E := x5) (by omega) (by omega) (hm _) (hm _) (hm _) c5,
      Nat.shiftRight_eq_div_pow, high_or (by omega) (by omega)]
    congr 1
    omega
  rcases r with _ | ⟨p6, r⟩
  · rfl
  have h6 : p6.toNat < 256 := p6.toNat_lt
  simp only [readFrom_cons (show 6 ≠ 8 by decide), shl14_or _ h6, shl14_or_high _ h6,
    mask14 _ h6, mask28 _ h6]
  generalize p6.toNat = x6 at *
  refine ite_congr rfl (fun c6 => ?_) fun c6 => ?_
  · rw [zip7 (a := 268435456 * _ + _ + _) (x2 % 128 % 16) (B := x3 % 128) (C := x4 % 128)
      (D := x5 % 128) (E := x6) (by omega) (by omega) (hm _) (hm _) (hm _) c6,
      Nat.shiftRight_eq_div_pow,
      high_or (by omega) (by omega)]
    congr 1
    omega
  rcases r with _ | ⟨p7, r⟩
  · rfl
  have h7 : p7.toNat < 256 := p7.toNat_lt
  simp only [readFrom_cons (show 7 ≠ 8 by decide), shl14_or _ h7, shl14_or_high _ h7,
    mask14 _ h7, mask28 _ h7]
  generalize p7.toNat = x7 at *
  refine ite_congr rfl (fun c7 => ?_) fun c7 => ?_
  · rw [Nat.or_comm (128 * _),
      zip7 (a := 268435456 * _ + _ + _) (x3 % 128 % 16) (B := x4 % 128) (C := x5 % 128)
      (D := x6 % 128) (E := x7 % 128) (by omega) (by omega) (hm _) (hm _) (hm _) (hm _),
      Nat.shiftRight_eq_div_pow, high_or (by omega) (by omega)]
    congr 1
    omega
  rcases r with _ | ⟨p8, r⟩
  · rfl
  have h8 : p8.toNat < 256 := p8.toNat_lt
  simp only [readFrom, shl15_or _ h8, if_true]
  generalize p8.toNat = x8 at *
  rw [zip8 (a := 32768 * _ + _) (x4 % 128 % 8) (B := x5 % 128) (C := x6 % 128) (D := x7 % 128)
    (E := x8) (by omega)
    (by simp only [u32, Nat.shiftLeft_eq]; omega) (hm _) (hm _) (hm _) h8]
  have hs9 : u64 (s <<< 4) ||| (x4 % 128) >>> 3 = 16 * s + x4 % 128 / 8 := by
    rw [show u64 (s <<< 4) = s <<< 4 by simp only [u64, Nat.shiftLeft_eq]; omega,
      Nat.shiftRight_eq_div_pow, shiftLeft_or 4 s (by omega)]
    omega
  rw [hs9, high_or (by omega) (by omega)]
  congr 1
  omega

end Registers

/-! ### The encoding of an integer -/

section Encoding

open Varint

private theorem continuation (x : ℕ) :
    UInt8.ofNat ((x &&& 0x7f) ||| 0x80) = more (x % 128) := by
  rw [and_127, more, Nat.or_comm, Nat.add_comm,
    ← Nat.two_pow_add_eq_or_of_lt (i := 7) (show x % 128 < 2 ^ 7 by omega) 1]

theorem Serialization.nineBytes_eq (n v : ℕ) : nineBytes n v = (digits n v).map more := by
  induction n generalizing v with
  | zero => rfl
  | succ n ih =>
    rw [nineBytes, digits, List.map_cons, ih, continuation, Nat.shiftRight_eq_div_pow]

/-- The loop stops after the least positive number of digits that hold the value. -/
theorem Serialization.varintBuf_eq (fuel v : ℕ) (hfuel : 0 < fuel) (hv : v < 128 ^ fuel) :
    ∃ n, 0 < n ∧ v < 128 ^ n ∧ (∀ m, 0 < m → v < 128 ^ m → n ≤ m) ∧
      varintBuf fuel v = (digits n v).map more := by
  induction fuel generalizing v with
  | zero => omega
  | succ fuel ih =>
    rw [varintBuf, continuation, Nat.shiftRight_eq_div_pow, show (2 : ℕ) ^ 7 = 128 by rfl]
    by_cases hz : v / 128 = 0
    · refine ⟨1, one_pos, by omega, fun m hm _ => hm, ?_⟩
      simp [hz, digits]
    · have hfuel' : 0 < fuel := by
        rcases Nat.eq_zero_or_pos fuel with rfl | h
        · simp at hv; omega
        · exact h
      have hlt : ∀ m, v < 128 ^ (m + 1) ↔ v / 128 < 128 ^ m := by
        intro m
        rw [pow_succ, Nat.div_lt_iff_lt_mul (by omega)]
      obtain ⟨n, hn, hlt', hmin, heq⟩ := ih _ hfuel' ((hlt fuel).mp hv)
      refine ⟨n + 1, by omega, (hlt n).mpr hlt', ?_, ?_⟩
      · intro m hm hm'
        obtain ⟨m, rfl⟩ := Nat.exists_eq_succ_of_ne_zero hm.ne'
        have hm0 : 0 < m := by
          rcases Nat.eq_zero_or_pos m with rfl | h
          · simp at hm'; omega
          · exact h
        have := hmin m hm0 ((hlt m).mp hm')
        omega
      · rw [if_neg hz, heq, digits, List.map_cons]

/-- The top byte of a 64-bit value. -/
theorem Serialization.and_top {v : ℕ} (hv : v < 2 ^ 64) :
    v &&& (0xff000000 <<< 32) ≠ 0 ↔ 2 ^ 56 ≤ v := by
  have h := and_interleave 56 (v / 2 ^ 56) 255 (show v % 2 ^ 56 < 2 ^ 56 by omega)
    (show 0 < 2 ^ 56 by omega)
  have h255 : v / 2 ^ 56 &&& 255 = v / 2 ^ 56 % 2 ^ 8 := Nat.and_two_pow_sub_one_eq_mod _ 8
  rw [Nat.div_add_mod, h255, Nat.and_zero] at h
  rw [show (0xff000000 : ℕ) <<< 32 = 2 ^ 56 * 255 + 0 by rfl, h]
  omega

/-- **Reading back an encoded integer**, whatever follows it. -/
theorem getVarint_encodeVarint {v : ℕ} (hv : v < 2 ^ 64) (rest : List UInt8) :
    getVarint (Serialization.encodeVarint v ++ rest) =
      ((Serialization.encodeVarint v).length, v) := by
  rw [getVarint_eq_read, Serialization.encodeVarint]
  have hlow : ∀ x, UInt8.ofNat (x &&& 0x7f) = UInt8.ofNat (x % 128) := fun x => by rw [and_127]
  split_ifs with h₁ h₂ h₃
  · rw [hlow, Nat.mod_eq_of_lt (by omega)]
    simpa [ofDigits] using read_short [] (by simp) (by simp) (show v < 128 by omega) rest
  · rw [continuation, hlow, Nat.shiftRight_eq_div_pow]
    have h := read_short [v / 2 ^ 7 % 128] (by simp; omega) (by simp)
      (show v % 128 < 128 by omega) rest
    simp only [ofDigits, List.foldl_cons, List.foldl_nil, List.map_cons, List.map_nil,
      List.length_cons, List.length_nil] at h
    refine h.trans ?_
    congr 1
    omega
  · have hbyte : UInt8.ofNat v = UInt8.ofNat (v % 256) := by
      apply UInt8.toNat_inj.mp
      simp [UInt8.toNat_ofNat']
    have h := read_long (digits 8 (v >>> 8)).reverse
      (fun d hd => digits_lt _ _ d (List.mem_reverse.mp hd)) (by simp [digits_length])
      (show v % 256 < 256 by omega) rest
    rw [Serialization.nineBytes_eq, hbyte, ← List.map_reverse, List.append_assoc,
      List.singleton_append, h, ofDigits_digits, Nat.shiftRight_eq_div_pow]
    simp only [List.length_append, List.length_map, List.length_reverse, digits_length,
      List.length_singleton]
    congr 1
    omega
  · rw [Serialization.and_top hv, not_le] at h₃
    obtain ⟨n, hn, hlt, hmin, heq⟩ :=
      Serialization.varintBuf_eq 10 v (by omega) (by omega)
    have hn8 : n ≤ 8 := hmin 8 (by omega) (by omega)
    obtain ⟨n, rfl⟩ := Nat.exists_eq_succ_of_ne_zero hn.ne'
    rw [heq, digits, List.map_cons]
    have hlast : more (v % 128) &&& 0x7f = UInt8.ofNat (v % 128) := by
      apply UInt8.toNat_inj.mp
      rw [UInt8.toNat_and, more, toNat_ofNat (by omega), toNat_ofNat (by omega)]
      exact (and_127 _).trans (by omega)
    have h := read_short (digits n (v / 128)).reverse
      (fun d hd => digits_lt _ _ d (List.mem_reverse.mp hd)) (by simp [digits_length]; omega)
      (show v % 128 < 128 by omega) rest
    simp only [hlast, ← List.map_reverse, List.append_assoc, List.singleton_append, h,
      ofDigits_digits, List.length_append, List.length_map, List.length_reverse, digits_length,
      List.length_singleton]
    rw [Nat.mod_eq_of_lt ((Nat.div_lt_iff_lt_mul (by omega)).mpr (pow_succ 128 n ▸ hlt))]
    congr 1
    omega

theorem Serialization.encodeVarint_ne_nil (v : ℕ) : encodeVarint v ≠ [] := by
  rw [encodeVarint]
  split_ifs
  · simp
  · simp
  · simp
  · simp [varintBuf]

private theorem length_varintBuf_le (fuel v : ℕ) :
    (Serialization.varintBuf fuel v).length ≤ fuel := by
  induction fuel generalizing v with
  | zero => simp [Serialization.varintBuf]
  | succ fuel ih =>
    rw [Serialization.varintBuf]
    split_ifs
    · simp
    · simpa using ih _

theorem Serialization.length_encodeVarint_le (v : ℕ) : (encodeVarint v).length ≤ 10 := by
  rw [encodeVarint]
  split_ifs
  · simp
  · simp
  · simp [nineBytes_eq, digits_length]
  · have h := length_varintBuf_le 10 v
    split
    · simp
    next heq =>
      rw [heq] at h
      simpa using h

end Encoding

/-! ### The reader -/

/-- The value of an `offset_t`. -/
def offset (x : ℕ) : ℤ := if u64 x < 2 ^ 63 then u64 x else (u64 x : ℤ) - 2 ^ 64

theorem u64_of_lt {x : ℕ} (h : x < 2 ^ 64) : u64 x = x := Nat.mod_eq_of_lt h

theorem offset_of_lt {x : ℕ} (h : x < 2 ^ 63) : offset x = x := by
  rw [offset, u64_of_lt (by omega), if_pos h]

/-- The reader: the bytes, the cursor and the version of the format. -/
structure Deserialization where
  data : List UInt8
  cursor : ℕ
  dataVersion : UInt32
  deriving Repr, DecidableEq

namespace Deserialization

def capacity (d : Deserialization) : ℕ := d.data.length

def isEnough (d : Deserialization) (size : ℕ) : Bool := size ≤ d.capacity

def canAdvance (d : Deserialization) (size : ℕ) : Bool := u64 (d.cursor + size) ≤ d.capacity

def ended (d : Deserialization) : Bool := d.cursor = d.capacity

def seek (d : Deserialization) (position : ℤ) : Deserialization :=
  if position < 0 then { d with cursor := (max 0 (d.capacity + position + 1)).toNat }
  else { d with cursor := (min (d.capacity : ℤ) position).toNat }

def advance (d : Deserialization) (n : ℤ) : Deserialization := d.seek (d.cursor + n)

/-- `get4BytesUInt` at the cursor. Every caller has checked that four bytes are there. -/
def get4BytesUInt : List UInt8 → UInt32
  | p0 :: p1 :: p2 :: p3 :: _ =>
      p0.toUInt32 <<< 24 ||| p1.toUInt32 <<< 16 ||| p2.toUInt32 <<< 8 ||| p3.toUInt32
  | _ => 0

def advance4BytesUInt (d : Deserialization) : UInt32 × Deserialization :=
  (get4BytesUInt (d.data.drop d.cursor), d.advance 4)

def advanceVarint (d : Deserialization) : (ℕ × ℕ) × Deserialization :=
  let result := getVarint (d.data.drop d.cursor)
  (result, if 0 < result.1 then d.advance (offset result.1) else d)

/-- `getSizedString` and `getSizedData`: the number of bytes consumed, `0` on failure, and the
slice as its start and size. -/
def getSized (d : Deserialization) (offset : ℕ) : ℕ × ℕ × ℕ :=
  let (lengthOfSize, size) := getVarint (d.data.drop offset)
  if lengthOfSize = 0 ∨ !d.isEnough (u64 (offset + lengthOfSize + size)) then (0, 0, 0)
  else (u64 (lengthOfSize + size), offset + lengthOfSize, size)

/-- The bytes of a slice, if it lies in the buffer. -/
def slice (d : Deserialization) (start size : ℕ) : Option (List UInt8) :=
  if start + size ≤ d.capacity then some ((d.data.drop start).take size) else none

/-- `advanceSizedString` and `advanceSizedData`. -/
def advanceSized (d : Deserialization) : (ℕ × Option (List UInt8)) × Deserialization :=
  let (consumed, start, size) := d.getSized d.cursor
  ((consumed, d.slice start size), if 0 < consumed then d.advance (offset consumed) else d)

/-! ### Which bytes lie ahead -/

/-- `bs` are the bytes from the cursor to the end of a buffer in memory. -/
structure At (d : Deserialization) (bs : List UInt8) : Prop where
  ahead : d.data.drop d.cursor = bs
  length : d.cursor + bs.length = d.data.length
  small : d.data.length < 2 ^ 63

variable {d : Deserialization}

theorem At.start {data : List UInt8} (h : data.length < 2 ^ 63) (version : UInt32) :
    At ⟨data, 0, version⟩ data := ⟨rfl, by simp, h⟩

theorem At.withVersion {bs : List UInt8} (h : At d bs) (version : UInt32) :
    At { d with dataVersion := version } bs := ⟨h.ahead, h.length, h.small⟩

/-- Advancing over what lies ahead. -/
theorem At.advance {xs ys : List UInt8} (h : At d (xs ++ ys)) :
    At (d.advance xs.length) ys ∧ (d.advance xs.length).dataVersion = d.dataVersion := by
  have hlen := h.length
  rw [List.length_append] at hlen
  have hcursor : d.advance xs.length = { d with cursor := d.cursor + xs.length } := by
    rw [Deserialization.advance, seek, if_neg (by omega), capacity]
    congr 1
    omega
  rw [hcursor]
  refine ⟨⟨?_, ?_, h.small⟩, rfl⟩
  · rw [← List.drop_drop, h.ahead, List.drop_left]
  · simp only
    omega

theorem At.canAdvance {xs ys : List UInt8} (h : At d (xs ++ ys)) : d.canAdvance xs.length := by
  have hlen := h.length
  have hsmall := h.small
  rw [List.length_append] at hlen
  refine decide_eq_true ?_
  rw [u64_of_lt (by omega), capacity]
  omega

theorem At.ended_iff {bs : List UInt8} (h : At d bs) : d.ended = true ↔ bs = [] := by
  have hlen := h.length
  rw [ended, capacity, decide_eq_true_eq, ← List.length_eq_zero_iff]
  omega

theorem At.advanceVarint {v : ℕ} (hv : v < 2 ^ 64) {rest : List UInt8}
    (h : At d (Serialization.encodeVarint v ++ rest)) :
    ∃ n d', d.advanceVarint = ((n + 1, v), d') ∧ At d' rest ∧ d'.dataVersion = d.dataVersion := by
  have hget := getVarint_encodeVarint hv rest
  obtain ⟨n, hn⟩ := Nat.exists_eq_succ_of_ne_zero
    (List.length_pos_iff.mpr (Serialization.encodeVarint_ne_nil v)).ne'
  have hsmall : n.succ < 2 ^ 63 := by
    have hlen := h.length
    have := h.small
    rw [List.length_append] at hlen
    omega
  refine ⟨n, d.advance ((Serialization.encodeVarint v).length : ℕ), ?_, h.advance⟩
  rw [Deserialization.advanceVarint, h.ahead, hget, hn]
  simp only [Nat.succ_pos, if_true, offset_of_lt hsmall]

theorem At.advanceSized {bs rest : List UInt8}
    (h : At d (Serialization.encodeVarint bs.length ++ (bs ++ rest))) :
    ∃ n d', d.advanceSized = ((n + 1, some bs), d') ∧ At d' rest ∧
      d'.dataVersion = d.dataVersion := by
  have hlen := h.length
  have hsmall := h.small
  simp only [List.length_append] at hlen
  have hget := getVarint_encodeVarint (show bs.length < 2 ^ 64 by omega) (bs ++ rest)
  have hpos := List.length_pos_iff.mpr (Serialization.encodeVarint_ne_nil bs.length)
  have hsized : d.getSized d.cursor =
      ((Serialization.encodeVarint bs.length).length + bs.length,
        d.cursor + (Serialization.encodeVarint bs.length).length, bs.length) := by
    have henough : d.isEnough
        (d.cursor + (Serialization.encodeVarint bs.length).length + bs.length) = true :=
      decide_eq_true (by rw [capacity]; omega)
    rw [getSized, h.ahead, hget]
    simp only [u64_of_lt
      (show d.cursor + (Serialization.encodeVarint bs.length).length + bs.length < 2 ^ 64 by omega),
      u64_of_lt (show (Serialization.encodeVarint bs.length).length + bs.length < 2 ^ 64 by omega),
      henough, Bool.not_true, Bool.false_eq_true, or_false]
    rw [if_neg hpos.ne']
  have hslice : d.slice (d.cursor + (Serialization.encodeVarint bs.length).length) bs.length =
      some bs := by
    rw [slice, if_pos (by rw [capacity]; omega), ← List.drop_drop, h.ahead, List.drop_left,
      List.take_left]
  rw [← List.append_assoc] at h
  refine ⟨(Serialization.encodeVarint bs.length).length + bs.length - 1, _, ?_, h.advance⟩
  rw [Deserialization.advanceSized, hsized]
  simp only [hslice]
  rw [if_pos (by omega), offset_of_lt (by omega), List.length_append, Nat.sub_add_cancel (by omega)]

end Deserialization

/-! ### What a writing operation appends -/

namespace Serialization

/-- The bytes of `put4BytesUInt`. -/
def encode4Bytes (value : UInt32) : List UInt8 :=
  [(value >>> 24).toUInt8, (value >>> 16).toUInt8, (value >>> 8).toUInt8, value.toUInt8]

/-- The bytes of `putSizedString`. -/
def encodeSized (string : List UInt8) : List UInt8 :=
  encodeVarint (u64 string.length) ++ string

/-- The operation succeeds and appends `bs`. -/
def Puts (f : Serialization → Bool × Serialization) (bs : List UInt8) : Prop :=
  ∀ s, ∃ t, f s = (true, t) ∧ t.bytes = s.bytes ++ bs

theorem Puts.andThen {f g : Serialization → Bool × Serialization} {xs ys : List UInt8}
    (hf : Puts f xs) (hg : Puts g ys) : Puts (andThen f g) (xs ++ ys) := by
  intro s
  obtain ⟨t, ht, hbytes⟩ := hf s
  obtain ⟨w, hw, hbytes'⟩ := hg t
  refine ⟨w, ?_, ?_⟩
  · rw [Serialization.andThen, ht]
    exact hw
  · rw [hbytes', hbytes, List.append_assoc]

theorem puts_nothing : Puts (fun s => (true, s)) [] := fun s => ⟨s, rfl, by simp⟩

theorem Puts.forEach {α : Type} {f : α → Serialization → Bool × Serialization}
    {encode : α → List UInt8} (as : List α) (h : ∀ a ∈ as, Puts (f a) (encode a)) :
    Puts (forEach f as) (as.flatMap encode) := by
  induction as with
  | nil => exact puts_nothing
  | cons a as ih =>
    rw [List.flatMap_cons]
    exact (h a List.mem_cons_self).andThen (ih fun b hb => h b (List.mem_cons_of_mem _ hb))

section Granted

variable {alloc : ℕ → Bool}

private theorem expand_granted (halloc : ∀ n, alloc n = true) (s : Serialization) (size : ℕ) :
    ∃ t, s.expand alloc size = (true, t) ∧ t.bytes = s.bytes := by
  rw [expand, resize]
  split_ifs with h₁ h₂
  · exact ⟨s, rfl, rfl⟩
  · exact ⟨_, rfl, rfl⟩
  · exact absurd (halloc _) h₂

theorem puts_expand (halloc : ∀ n, alloc n = true) (size : ℕ) :
    Puts (fun s => s.expand alloc size) [] := by
  intro s
  obtain ⟨t, ht, hbytes⟩ := expand_granted halloc s size
  exact ⟨t, ht, by simp [hbytes]⟩

theorem puts_put4BytesUInt (halloc : ∀ n, alloc n = true) (value : UInt32) :
    Puts (put4BytesUInt alloc value) (encode4Bytes value) := by
  intro s
  obtain ⟨t, ht, hbytes⟩ := expand_granted halloc s 4
  refine ⟨t.append (encode4Bytes value), ?_, by rw [append, hbytes]⟩
  rw [put4BytesUInt, ht]
  rfl

private theorem putVarint_granted (halloc : ∀ n, alloc n = true) (value : ℕ) (s : Serialization) :
    ∃ n t, s.putVarint alloc value = (n + 1, t) ∧
      t.bytes = s.bytes ++ encodeVarint (u64 value) := by
  obtain ⟨t, ht, hbytes⟩ := expand_granted halloc s 9
  obtain ⟨n, hn⟩ := Nat.exists_eq_succ_of_ne_zero
    (List.length_pos_iff.mpr (encodeVarint_ne_nil (u64 value))).ne'
  refine ⟨n, t.append (encodeVarint (u64 value)), ?_, by rw [append, hbytes]⟩
  rw [putVarint, ht]
  simp only [hn]

theorem puts_putVarintOk (halloc : ∀ n, alloc n = true) (value : ℕ) :
    Puts (putVarintOk alloc value) (encodeVarint (u64 value)) := by
  intro s
  obtain ⟨n, t, ht, hbytes⟩ := putVarint_granted halloc value s
  refine ⟨t, ?_, hbytes⟩
  rw [putVarintOk, ht]
  simp

theorem puts_putSizedString (halloc : ∀ n, alloc n = true) (string : List UInt8) :
    Puts (putSizedString alloc string) (encodeSized string) := by
  intro s
  obtain ⟨n, t, ht, hbytes⟩ := putVarint_granted halloc string.length s
  obtain ⟨w, hw, hbytes'⟩ := expand_granted halloc t string.length
  refine ⟨w.append string, ?_, ?_⟩
  · simp only [putSizedString, ht, hw]
  · rw [append, hbytes', hbytes, encodeSized, List.append_assoc]

end Granted

end Serialization

namespace Deserialization

variable {d : Deserialization}

/-- Four bytes in their places. -/
private theorem fourBytes {n : ℕ} (hn : n < 2 ^ 32) :
    (n / 2 ^ 24 % 2 ^ 8) <<< 24 % 2 ^ 32 ||| (n / 2 ^ 16 % 2 ^ 8) <<< 16 % 2 ^ 32 |||
      (n / 2 ^ 8 % 2 ^ 8) <<< 8 % 2 ^ 32 ||| n % 2 ^ 8 = n := by
  have h₁ := Varint.shiftLeft_or 24 (n / 2 ^ 24 % 2 ^ 8)
    (show (n / 2 ^ 16 % 2 ^ 8) <<< 16 < 2 ^ 24 by rw [Nat.shiftLeft_eq]; omega)
  have h₂ := Varint.shiftLeft_or 16 (n / 2 ^ 16 % 2 ^ 16)
    (show (n / 2 ^ 8 % 2 ^ 8) <<< 8 < 2 ^ 16 by rw [Nat.shiftLeft_eq]; omega)
  have h₃ := Varint.shiftLeft_or 8 (n / 2 ^ 8 % 2 ^ 24) (show n % 2 ^ 8 < 2 ^ 8 by omega)
  simp only [Nat.shiftLeft_eq] at h₁ h₂ h₃ ⊢
  rw [Nat.mod_eq_of_lt (show n / 2 ^ 24 % 2 ^ 8 * 2 ^ 24 < 2 ^ 32 by omega),
    Nat.mod_eq_of_lt (show n / 2 ^ 16 % 2 ^ 8 * 2 ^ 16 < 2 ^ 32 by omega),
    Nat.mod_eq_of_lt (show n / 2 ^ 8 % 2 ^ 8 * 2 ^ 8 < 2 ^ 32 by omega), h₁,
    show 2 ^ 24 * (n / 2 ^ 24 % 2 ^ 8) + n / 2 ^ 16 % 2 ^ 8 * 2 ^ 16 =
      n / 2 ^ 16 % 2 ^ 16 * 2 ^ 16 by omega, h₂,
    show 2 ^ 16 * (n / 2 ^ 16 % 2 ^ 16) + n / 2 ^ 8 % 2 ^ 8 * 2 ^ 8 =
      n / 2 ^ 8 % 2 ^ 24 * 2 ^ 8 by omega, h₃]
  omega

theorem get4BytesUInt_encode4Bytes (value : UInt32) (rest : List UInt8) :
    get4BytesUInt (Serialization.encode4Bytes value ++ rest) = value := by
  have hv : value.toNat < 2 ^ 32 := value.toNat_lt
  apply UInt32.toNat_inj.mp
  simp only [Serialization.encode4Bytes, List.cons_append, List.nil_append, get4BytesUInt,
    UInt32.toNat_or, UInt32.toNat_shiftLeft, UInt8.toNat_toUInt32, UInt32.toNat_toUInt8,
    UInt32.toNat_shiftRight, Nat.shiftRight_eq_div_pow]
  generalize value.toNat = n at *
  exact fourBytes hv

theorem At.advance4BytesUInt {value : UInt32} {rest : List UInt8}
    (h : At d (Serialization.encode4Bytes value ++ rest)) :
    ∃ d', d.advance4BytesUInt = (value, d') ∧ At d' rest ∧ d'.dataVersion = d.dataVersion := by
  refine ⟨d.advance 4, ?_, h.advance⟩
  rw [Deserialization.advance4BytesUInt, h.ahead, get4BytesUInt_encode4Bytes]

theorem At.advanceSizedString {string rest : List UInt8}
    (h : At d (Serialization.encodeSized string ++ rest)) :
    ∃ n d', d.advanceSized = ((n + 1, some string), d') ∧ At d' rest ∧
      d'.dataVersion = d.dataVersion := by
  have hlen := h.length
  have hsmall := h.small
  simp only [Serialization.encodeSized, List.length_append] at hlen
  rw [Serialization.encodeSized, u64_of_lt (by omega), List.append_assoc] at h
  exact h.advanceSized

end Deserialization

end Wcdb
