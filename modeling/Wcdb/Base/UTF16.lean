import Mathlib.Algebra.Order.Ring.Int
import Mathlib.Data.Nat.Bitwise
import Mathlib.Tactic.IntervalCases

/-!
# `changeToUTF8`

UTF-16 texts are read through a `const char*`, two bytes at a time, and written as UTF-8. What a
`char` is depends on the target: it may have a sign, and the bytes of a unit may stand in either
order.

* `StoredAsUTF8` says that the bytes written are the UTF-8 encoding of the text, and that its length
  is returned.
* A byte from 128 on is a negative number where `char` has a sign, so the unit is put together
  wrongly. `storedAsUTF8_iff` says that this is the only way to fail: the text is stored as its
  UTF-8 encoding exactly if `char` has no sign, or if both bytes of every unit are below 128.
* `length_changeLoop_le` is the bound on the buffer, which holds on every target and for any units.
-/

namespace Wcdb.UTF16

/-! ### The target -/

/-- What the platform fixes. -/
structure Target where
  charSigned : Bool
  bigEndian : Bool
  deriving DecidableEq, Repr

namespace Target

variable (target : Target)

/-- A byte read as a `char`, and promoted to `int`. -/
def char (b : UInt8) : ℤ :=
  if target.charSigned = true ∧ 128 ≤ b.toNat then (b.toNat : ℤ) - 256 else b.toNat

/-- The bytes of a `char16_t` in memory. -/
def bytes (u : UInt16) : List UInt8 :=
  let high := UInt8.ofNat (u.toNat / 256)
  let low := UInt8.ofNat (u.toNat % 256)
  if target.bigEndian then [high, low] else [low, high]

/-- `s_isBigEndian`: the first byte of a `short` that holds 1. -/
def isBigEndian : Bool := (target.bytes 1).head?.map target.char ≠ some 1

end Target

/-- A conversion to `unsigned int`. -/
def toUnsigned (n : ℤ) : ℕ := (n % 2 ^ 32).toNat

/-! ### The macros -/

/-- What `READ_UTF16LE` and `READ_UTF16BE` share: they differ in how two bytes are put together.
The character, and the bytes after it. -/
def readUTF16 (unit : UInt8 → UInt8 → ℤ) : List UInt8 → ℕ × List UInt8
  | a :: b :: zIn =>
    let c := toUnsigned (unit a b)
    if 0xD800 ≤ c ∧ c < 0xE000 then
      match zIn with
      | a' :: b' :: zIn =>
        let c2 := toUnsigned (unit a' b')
        ((c2 &&& 0x03FF) + ((c &&& 0x003F) <<< 10) + (((c &&& 0x03C0) + 0x0040) <<< 10), zIn)
      | _ => (c, zIn)
    else (c, zIn)
  | _ => (0, [])

def readUTF16LE (target : Target) : List UInt8 → ℕ × List UInt8 :=
  readUTF16 fun a b => target.char a + target.char b <<< (8 : ℕ)

def readUTF16BE (target : Target) : List UInt8 → ℕ × List UInt8 :=
  readUTF16 fun a b => target.char a <<< (8 : ℕ) + target.char b

/-- A number stored in a byte. -/
def u8 (n : ℕ) : UInt8 := UInt8.ofNat n

def writeUTF8 (c : ℕ) : List UInt8 :=
  if c < 0x00080 then [u8 (c &&& 0xFF)]
  else if c < 0x00800 then [u8 (0xC0 + ((c >>> 6) &&& 0x1F)), u8 (0x80 + (c &&& 0x3F))]
  else if c < 0x10000 then
    [u8 (0xE0 + ((c >>> 12) &&& 0x0F)), u8 (0x80 + ((c >>> 6) &&& 0x3F)), u8 (0x80 + (c &&& 0x3F))]
  else
    [u8 (0xF0 + ((c >>> 18) &&& 0x07)), u8 (0x80 + ((c >>> 12) &&& 0x3F)),
      u8 (0x80 + ((c >>> 6) &&& 0x3F)), u8 (0x80 + (c &&& 0x3F))]

/-! ### The functions -/

variable (target : Target)

/-- Reading a character, in the order of bytes that was found. -/
def read (zIn : List UInt8) : ℕ × List UInt8 :=
  if target.isBigEndian then readUTF16BE target zIn else readUTF16LE target zIn

/-- The loop of `changeToUTF8`. `fuel` is the number of units at least. -/
def changeLoop : ℕ → List UInt8 → List UInt8
  | 0, _ => []
  | _ + 1, [] => []
  | fuel + 1, zIn =>
    let (c, zIn) := read target zIn
    writeUTF8 c ++ changeLoop fuel zIn

/-- What is written into the buffer, and the length that is returned. -/
def changeToUTF8 (utf16Str : List UInt16) : List UInt8 × ℕ :=
  if utf16Str.length = 0 then ([], 0)
  else
    let out := changeLoop target utf16Str.length (utf16Str.flatMap target.bytes)
    (out ++ [0], out.length)

/-- The size of the buffer that `createFromUTF16` gets. -/
def allocated (utf16Str : List UInt16) : ℕ := 4 * utf16Str.length + 1

/-- The content of the `StringView`. -/
def createFromUTF16 (utf16Str : List UInt16) : List UInt8 :=
  let (buffer, length) := changeToUTF8 target utf16Str
  buffer.take length

/-! ### The encodings -/

/-- The units of a character: itself, or a pair of surrogates. -/
def encodeChar (c : Char) : List UInt16 :=
  if c.toNat < 0x10000 then [UInt16.ofNat c.toNat]
  else
    [UInt16.ofNat (0xD800 + (c.toNat - 0x10000) / 0x400),
      UInt16.ofNat (0xDC00 + (c.toNat - 0x10000) % 0x400)]

/-- A well-formed UTF-16 text. -/
def utf16 (s : List Char) : List UInt16 := s.flatMap encodeChar

/-- Its UTF-8 encoding. -/
def utf8 (s : List Char) : List UInt8 := s.flatMap String.utf8EncodeChar

/-- **The text is stored as its UTF-8 encoding**, within the buffer. -/
structure StoredAsUTF8 (s : List Char) : Prop where
  content : createFromUTF16 target (utf16 s) = utf8 s
  length : (changeToUTF8 target (utf16 s)).2 = (utf8 s).length
  terminated : s ≠ [] → (changeToUTF8 target (utf16 s)).1 = utf8 s ++ [0]
  fits : (changeToUTF8 target (utf16 s)).1.length ≤ allocated (utf16 s)

/-- Both bytes of a unit are below 128. -/
def Plain (u : UInt16) : Prop := u.toNat < 0x8000 ∧ u.toNat % 256 < 0x80

variable {target} {c : Char} {s : List Char} {u : UInt16}

/-! ### Reading a character -/

theorem isBigEndian_eq : target.isBigEndian = target.bigEndian := by
  obtain ⟨signed, big⟩ := target
  cases signed <;> cases big <;> rfl

/-- The number that the two bytes of a unit are put together to. -/
def readUnit (target : Target) (u : UInt16) : ℕ :=
  toUnsigned (target.char (UInt8.ofNat (u.toNat % 256)) +
    target.char (UInt8.ofNat (u.toNat / 256)) <<< (8 : ℕ))

/-- A unit that is no surrogate is a character. -/
theorem read_single (h : ¬(0xD800 ≤ readUnit target u ∧ readUnit target u < 0xE000))
    (zIn : List UInt8) : read target (target.bytes u ++ zIn) = (readUnit target u, zIn) := by
  rw [read, isBigEndian_eq, Target.bytes]
  rw [readUnit] at h ⊢
  cases target.bigEndian with
  | false => exact if_neg h
  | true =>
    rw [add_comm] at h ⊢
    exact if_neg h

/-- A surrogate is put together with the unit after it. -/
theorem read_pair {v : UInt16} (h : 0xD800 ≤ readUnit target u ∧ readUnit target u < 0xE000)
    (zIn : List UInt8) : read target (target.bytes u ++ (target.bytes v ++ zIn)) =
      ((readUnit target v &&& 0x03FF) + ((readUnit target u &&& 0x003F) <<< 10) +
        (((readUnit target u &&& 0x03C0) + 0x0040) <<< 10), zIn) := by
  rw [read, isBigEndian_eq, Target.bytes, Target.bytes]
  rw [readUnit] at h
  rw [readUnit, readUnit]
  cases target.bigEndian with
  | false => exact if_pos h
  | true =>
    rw [add_comm] at h
    rw [add_comm (target.char _), add_comm (target.char _)]
    exact if_pos h

/-- What a byte adds. -/
theorem char_ofNat {n : ℕ} (hn : n < 256) : target.char (UInt8.ofNat n) =
    if target.charSigned = true ∧ 128 ≤ n then (n : ℤ) - 256 else n := by
  rw [Target.char, UInt8.toNat_ofNat_of_lt' (by simpa using hn)]

/-- A unit is read as it is where `char` has no sign, or where its bytes do not show it. -/
theorem readUnit_eq (h : target.charSigned = false ∨ Plain u) : readUnit target u = u.toNat := by
  have hu := u.toNat_lt
  rw [readUnit, char_ofNat (by omega), char_ofNat (by omega), if_neg, if_neg, toUnsigned,
    Int.shiftLeft_eq]
  · omega
  · rcases h with h | ⟨h, -⟩
    · simp [h]
    · omega
  · rcases h with h | ⟨-, h⟩
    · simp [h]
    · omega

/-! ### Writing a character -/

theorem length_writeUTF8_le (n : ℕ) : (writeUTF8 n).length ≤ 4 := by
  rw [writeUTF8]
  split_ifs <;> simp

/-- `WRITE_UTF8` in terms of division. -/
theorem writeUTF8_eq (n : ℕ) : writeUTF8 n =
    if n < 0x80 then [u8 n]
    else if n < 0x800 then [u8 (0xC0 + n / 64), u8 (0x80 + n % 64)]
    else if n < 0x10000 then [u8 (0xE0 + n / 4096), u8 (0x80 + n / 64 % 64), u8 (0x80 + n % 64)]
    else
      [u8 (0xF0 + n / 262144 % 8), u8 (0x80 + n / 4096 % 64), u8 (0x80 + n / 64 % 64),
        u8 (0x80 + n % 64)] := by
  have hmask : ∀ k m, m &&& (2 ^ k - 1) = m % 2 ^ k := fun k m => Nat.and_two_pow_sub_one_eq_mod m k
  have hFF : ∀ m, m &&& 0xFF = m % 256 := hmask 8
  have h3F : ∀ m, m &&& 0x3F = m % 64 := hmask 6
  have h1F : ∀ m, m &&& 0x1F = m % 32 := hmask 5
  have h0F : ∀ m, m &&& 0x0F = m % 16 := hmask 4
  have h07 : ∀ m, m &&& 0x07 = m % 8 := hmask 3
  simp only [writeUTF8, hFF, h3F, h1F, h0F, h07, Nat.shiftRight_eq_div_pow, Nat.reducePow]
  split_ifs with h1 h2 h3
  · rw [Nat.mod_eq_of_lt (by omega)]
  · rw [Nat.mod_eq_of_lt (show n / 64 < 32 by omega)]
  · rw [Nat.mod_eq_of_lt (show n / 4096 < 16 by omega)]
  · rfl

/-- A character is written as it is encoded. -/
theorem writeUTF8_toNat (c : Char) : writeUTF8 c.toNat = String.utf8EncodeChar c := by
  have hc : c.val.toNat = c.toNat := rfl
  have hbyte : ∀ {m n : ℕ}, m = n → u8 m = UInt8.ofNat n := fun h => congrArg UInt8.ofNat h
  simp only [writeUTF8_eq, String.utf8EncodeChar, hc, ← Nat.lt_succ_iff, Nat.succ_eq_add_one,
    Nat.reduceAdd]
  split_ifs with h1 h2 h3
  · rfl
  · rw [hbyte (n := c.toNat / 64 % 32 + 192) (by omega), hbyte (Nat.add_comm ..)]
  · rw [hbyte (n := c.toNat / 4096 % 16 + 224) (by omega), hbyte (Nat.add_comm ..),
      hbyte (Nat.add_comm ..)]
  · rw [hbyte (Nat.add_comm ..), hbyte (Nat.add_comm ..), hbyte (Nat.add_comm ..),
      hbyte (Nat.add_comm ..)]

/-! ### The loop -/

/-- One pass. -/
theorem changeLoop_succ (fuel : ℕ) {zIn : List UInt8} (h : zIn ≠ []) :
    changeLoop target (fuel + 1) zIn =
      writeUTF8 (read target zIn).1 ++ changeLoop target fuel (read target zIn).2 := by
  cases zIn with
  | nil => exact absurd rfl h
  | cons b zIn => rfl

theorem bytes_ne_nil (u : UInt16) (zIn : List UInt8) : target.bytes u ++ zIn ≠ [] := by
  rw [Target.bytes]
  split_ifs <;> exact List.cons_ne_nil _ _

/-- What the masks of `READ_UTF16LE` make of a pair of surrogates. -/
theorem surrogates_eq {n : ℕ} (hn : n < 0x100000) :
    ((0xDC00 + n % 0x400) &&& 0x03FF) + (((0xD800 + n / 0x400) &&& 0x003F) <<< 10) +
      ((((0xD800 + n / 0x400) &&& 0x03C0) + 0x0040) <<< 10) = n + 0x10000 := by
  have h3FF : ∀ m, m &&& 0x3FF = m % 1024 := fun m => Nat.and_two_pow_sub_one_eq_mod m 10
  have h3F : ∀ m, m &&& 0x3F = m % 64 := fun m => Nat.and_two_pow_sub_one_eq_mod m 6
  have h3C0 : ∀ m < 1024, (0xD800 + m) &&& 0x3C0 = m / 64 * 64 := by decide +kernel
  rw [h3FF, h3F, h3C0 _ (by omega), Nat.shiftLeft_eq, Nat.shiftLeft_eq]
  omega

theorem toNat_ofNat16 {n : ℕ} (hn : n < 65536) : (UInt16.ofNat n).toNat = n :=
  UInt16.toNat_ofNat_of_lt' (by simpa using hn)

/-- **A pass over a character whose units are read as they are.** -/
theorem changeLoop_char (h : ∀ u ∈ encodeChar c, readUnit target u = u.toNat) {fuel : ℕ}
    (zIn : List UInt8) :
    changeLoop target (fuel + 1) ((encodeChar c).flatMap target.bytes ++ zIn) =
      String.utf8EncodeChar c ++ changeLoop target fuel zIn := by
  have hvalid : c.toNat < 0xD800 ∨ 0xDFFF < c.toNat ∧ c.toNat < 0x110000 := c.valid
  rw [← writeUTF8_toNat]
  rw [encodeChar] at h ⊢
  split_ifs at h ⊢ with hc
  · -- a unit of its own
    have hread := h _ List.mem_cons_self
    rw [toNat_ofNat16 hc] at hread
    rw [List.flatMap_singleton, changeLoop_succ _ (bytes_ne_nil _ _), read_single (by omega), hread]
  · -- a pair of surrogates
    have hfirst := h _ List.mem_cons_self
    have hsecond := h _ (List.mem_cons_of_mem _ List.mem_cons_self)
    rw [toNat_ofNat16 (by omega)] at hfirst hsecond
    rw [List.flatMap_cons, List.flatMap_singleton, List.append_assoc,
      changeLoop_succ _ (bytes_ne_nil _ _), read_pair (by omega), hfirst, hsecond,
      surrogates_eq (by omega)]
    rw [Nat.sub_add_cancel (by omega)]

/-- Passes over a text whose units are read as they are. -/
theorem changeLoop_append (h : ∀ u ∈ utf16 s, readUnit target u = u.toNat) (fuel : ℕ)
    (zIn : List UInt8) :
    changeLoop target (s.length + fuel) ((utf16 s).flatMap target.bytes ++ zIn) =
      utf8 s ++ changeLoop target fuel zIn := by
  induction s with
  | nil => rw [List.length_nil, Nat.zero_add]; rfl
  | cons c s ih =>
    simp only [utf16, utf8, List.flatMap_cons, List.flatMap_append, List.append_assoc] at h ih ⊢
    rw [List.length_cons, Nat.add_right_comm,
      changeLoop_char fun u hu => h u (List.mem_append_left _ hu),
      ih fun u hu => h u (List.mem_append_right _ hu)]

theorem length_changeLoop_le (fuel : ℕ) (zIn : List UInt8) :
    (changeLoop target fuel zIn).length ≤ 4 * fuel := by
  induction fuel generalizing zIn with
  | zero => exact Nat.zero_le _
  | succ fuel ih =>
    cases zIn with
    | nil => exact Nat.zero_le _
    | cons b zIn =>
      rw [changeLoop_succ _ (List.cons_ne_nil _ _), List.length_append, Nat.mul_succ, Nat.add_comm]
      exact Nat.add_le_add (ih _) (length_writeUTF8_le _)

theorem length_le_utf16 (s : List Char) : s.length ≤ (utf16 s).length := by
  induction s with
  | nil => exact Nat.zero_le _
  | cons c s ih =>
    have hc : 1 ≤ (encodeChar c).length := by
      rw [encodeChar]
      split_ifs <;> simp
    rw [utf16, List.flatMap_cons, List.length_append, List.length_cons, Nat.add_comm]
    exact Nat.add_le_add hc ih

/-! ### A unit that is read wrongly -/

/-- A unit with a byte from 128 on becomes a huge number, or one that is 256 too small. -/
theorem readUnit_of_not_plain (hsigned : target.charSigned = true) (h : ¬Plain u) :
    (2 ^ 32 - 2 ^ 16 ≤ readUnit target u ∧ readUnit target u < 2 ^ 32) ∨
      (readUnit target u + 256 = u.toNat ∧ u.toNat < 0x8000) := by
  have hu := u.toNat_lt
  rw [Plain] at h
  rw [readUnit, char_ofNat (by omega), char_ofNat (by omega), toUnsigned, Int.shiftLeft_eq]
  simp only [hsigned, true_and]
  split_ifs <;> omega

theorem u8_eq_iff {m n : ℕ} : u8 m = u8 n ↔ m % 256 = n % 256 := by
  rw [u8, u8, ← UInt8.toNat_inj, UInt8.toNat_ofNat', UInt8.toNat_ofNat']

/-- What is written then cannot be continued to the encoding. -/
theorem writeUTF8_append_ne {m n : ℕ} (hm : m < 0x110000)
    (h : (2 ^ 32 - 2 ^ 16 ≤ n ∧ n < 2 ^ 32) ∨ (n + 256 = m ∧ m < 0x8000)) (x y : List UInt8) :
    writeUTF8 n ++ x ≠ writeUTF8 m ++ y := by
  intro heq
  rw [writeUTF8_eq, writeUTF8_eq] at heq
  split_ifs at heq <;>
    simp only [List.cons_append, List.cons.injEq, u8_eq_iff] at heq <;> omega

/-- **A pass that starts at such a unit goes wrong.** -/
theorem changeLoop_ne (hsigned : target.charSigned = true) {rest : List UInt16}
    (hc : encodeChar c = u :: rest) (h : ¬Plain u) (fuel : ℕ) (zIn y : List UInt8) :
    changeLoop target (fuel + 1) (target.bytes u ++ zIn) ≠ String.utf8EncodeChar c ++ y := by
  have hvalid : c.toNat < 0xD800 ∨ 0xDFFF < c.toNat ∧ c.toNat < 0x110000 := c.valid
  have hread := readUnit_of_not_plain hsigned h
  rw [changeLoop_succ _ (bytes_ne_nil _ _), read_single (by omega), ← writeUTF8_toNat]
  refine writeUTF8_append_ne (by omega) ?_ _ _
  refine hread.imp_right fun hsmall => ?_
  have hu : u.toNat = c.toNat := by
    rw [encodeChar] at hc
    split_ifs at hc with hlt
    · rw [← (List.cons.inj hc).1, toNat_ofNat16 hlt]
    · rw [← (List.cons.inj hc).1, toNat_ofNat16 (by omega)] at hsmall
      omega
  rw [← hu]
  exact hsmall

/-- Where a unit of a character is read wrongly, its first one is. -/
theorem exists_first_of_not_plain (h : ¬∀ u ∈ encodeChar c, Plain u) :
    ∃ u rest, encodeChar c = u :: rest ∧ ¬Plain u := by
  rw [encodeChar] at h ⊢
  split_ifs at h ⊢ with hc
  · exact ⟨_, _, rfl, fun hplain => h (by simpa using hplain)⟩
  · refine ⟨_, _, rfl, fun hplain => ?_⟩
    have hvalid : c.toNat < 0xD800 ∨ 0xDFFF < c.toNat ∧ c.toNat < 0x110000 := c.valid
    have hlow := hplain.1
    rw [toNat_ofNat16 (by omega)] at hlow
    omega

theorem plain_of_changeLoop_eq (hsigned : target.charSigned = true) {fuel : ℕ}
    (hfuel : s.length ≤ fuel)
    (h : changeLoop target fuel ((utf16 s).flatMap target.bytes) = utf8 s) :
    ∀ u ∈ utf16 s, Plain u := by
  induction s generalizing fuel with
  | nil => exact fun u hu => absurd hu List.not_mem_nil
  | cons c s ih =>
    obtain ⟨fuel, rfl⟩ := Nat.exists_eq_add_of_le' (Nat.one_le_of_lt hfuel)
    rw [utf16, utf8, List.flatMap_cons, List.flatMap_cons, List.flatMap_append] at h
    by_cases hplain : ∀ u ∈ encodeChar c, Plain u
    · rw [changeLoop_char fun u hu => readUnit_eq (Or.inr (hplain u hu)),
        List.append_cancel_left_eq] at h
      have hrest := ih (Nat.le_of_succ_le_succ hfuel) h
      intro u hu
      rw [utf16, List.flatMap_cons, List.mem_append] at hu
      exact hu.elim (hplain u) (hrest u)
    · obtain ⟨u, rest, hc, hu⟩ := exists_first_of_not_plain hplain
      have hne := changeLoop_ne hsigned hc hu fuel
      rw [hc, List.flatMap_cons, List.append_assoc] at h
      exact absurd h (hne _ _)

/-! ### The whole text -/

/-- The loop has read the whole text. -/
theorem changeLoop_utf16 (h : ∀ u ∈ utf16 s, readUnit target u = u.toNat) :
    changeLoop target (utf16 s).length ((utf16 s).flatMap target.bytes) = utf8 s := by
  obtain ⟨fuel, hfuel⟩ := Nat.exists_eq_add_of_le (length_le_utf16 s)
  have hloop := changeLoop_append h fuel []
  rw [List.append_nil, ← hfuel] at hloop
  rw [hloop]
  cases fuel <;> exact List.append_nil _

theorem createFromUTF16_eq (utf16Str : List UInt16) : createFromUTF16 target utf16Str =
    changeLoop target utf16Str.length (utf16Str.flatMap target.bytes) := by
  rw [createFromUTF16, changeToUTF8]
  split_ifs with h
  · rw [List.length_eq_zero_iff.mp h]
    rfl
  · exact List.take_left

theorem changeToUTF8_fits (utf16Str : List UInt16) :
    (changeToUTF8 target utf16Str).1.length ≤ allocated utf16Str := by
  rw [changeToUTF8, allocated]
  split_ifs with h
  · exact Nat.zero_le _
  · rw [List.length_append, List.length_singleton]
    exact Nat.succ_le_succ (length_changeLoop_le _ _)

/-- **A text is stored as its UTF-8 encoding** exactly if `char` has no sign, or no byte shows
it. -/
theorem storedAsUTF8_iff (target : Target) (s : List Char) :
    StoredAsUTF8 target s ↔ target.charSigned = false ∨ ∀ u ∈ utf16 s, Plain u := by
  constructor
  · intro h
    refine or_iff_not_imp_left.mpr fun hsigned => ?_
    have hcontent := h.content
    rw [createFromUTF16_eq] at hcontent
    exact plain_of_changeLoop_eq (Bool.not_eq_false _ ▸ hsigned) (length_le_utf16 s) hcontent
  · intro h
    have hread : ∀ u ∈ utf16 s, readUnit target u = u.toNat := fun u hu =>
      readUnit_eq (h.imp_right fun hplain => hplain u hu)
    have hloop := changeLoop_utf16 hread
    have hempty : (utf16 s).length = 0 → s = [] := fun hlength =>
      List.length_eq_zero_iff.mp (Nat.le_zero.mp (hlength ▸ length_le_utf16 s))
    refine ⟨(createFromUTF16_eq _).trans hloop, ?_, fun hs => ?_, changeToUTF8_fits _⟩
    · rw [changeToUTF8]
      split_ifs with hlength
      · rw [hempty hlength]
        rfl
      · rw [hloop]
    · rw [changeToUTF8, if_neg fun hlength => hs (hempty hlength), hloop]

end Wcdb.UTF16
