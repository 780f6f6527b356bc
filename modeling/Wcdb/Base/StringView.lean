import Mathlib.Data.List.Basic
import Mathlib.Data.List.TakeWhile
import Mathlib.Algebra.Group.Nat.Defs

/-!
# `UnsafeStringView`

The operations that the parsers of short texts use, on texts without a NUL: they are C strings.
Positions are `none` where the source has `npos`. `subStr` takes the length zero for "to the end",
so that a piece of a text that turns out to be empty becomes the rest of the text.
-/

namespace Wcdb.UnsafeStringView

/-- The characters of a `StringView`. -/
abbrev Text := List Char

/-- A subtraction of `size_t`s. -/
def sizeSub (a b : ℕ) : ℕ := (a + 2 ^ 64 - b) % 2 ^ 64

/-- `strstr`: where the needle first begins. -/
def strstr (needle : Text) : Text → Option ℕ
  | [] => if needle = [] then some 0 else none
  | c :: cs => if needle.isPrefixOf (c :: cs) then some 0 else (strstr needle cs).map (· + 1)

def find (text other : Text) (off : ℕ) : Option ℕ :=
  if off + other.length > text.length ∨ other.length = 0 then none
  else (strstr other (text.drop off)).map (off + ·)

def subStr (text : Text) (off length : ℕ) : Text :=
  if (off + length) % 2 ^ 64 > text.length then []
  else (text.drop off).take (if length = 0 then text.length - off else length)

def hasPrefix (text target : Text) : Bool := target.isPrefixOf text

variable {text needle rest : Text} {c : Char} {off : ℕ}

/-! ### Looking for one character -/

theorem strstr_singleton_of_not_mem (h : c ∉ text) : strstr [c] text = none := by
  induction text with
  | nil => rfl
  | cons d text ih =>
    obtain ⟨hne, hrest⟩ := not_or.mp (List.mem_cons.not.mp h)
    rw [strstr, if_neg, ih hrest, Option.map_none]
    simpa [List.isPrefixOf] using hne

theorem strstr_singleton_append (h : c ∉ text) :
    strstr [c] (text ++ c :: rest) = some text.length := by
  induction text with
  | nil => simp [strstr, List.isPrefixOf]
  | cons d text ih =>
    obtain ⟨hne, hrest⟩ := not_or.mp (List.mem_cons.not.mp h)
    rw [List.cons_append, strstr, if_neg, ih hrest, Option.map_some, List.length_cons]
    simpa [List.isPrefixOf] using hne

theorem find_of_not_mem (h : c ∉ text.drop off) : find text [c] off = none := by
  rw [find, strstr_singleton_of_not_mem h]
  split_ifs <;> rfl

theorem find_append {before : Text} (h : c ∉ text) :
    find (before ++ (text ++ c :: rest)) [c] before.length =
      some (before.length + text.length) := by
  rw [find, if_neg, List.drop_left, strstr_singleton_append h, Option.map_some]
  simp

/-! ### Looking for words -/

/-- The words are found at their first occurrence. -/
theorem strstr_append {before : Text} (hrest : needle <+: rest)
    (hfirst : ∀ k < before.length, ¬needle <+: (before ++ rest).drop k) :
    strstr needle (before ++ rest) = some before.length := by
  induction before with
  | nil =>
    cases rest with
    | nil =>
      rw [List.nil_append, strstr, if_pos (List.prefix_nil.mp hrest)]
      rfl
    | cons c rest =>
      rw [List.nil_append, strstr, if_pos (List.isPrefixOf_iff_prefix.mpr hrest)]
      rfl
  | cons d before ih =>
    have hhead : ¬needle <+: d :: (before ++ rest) := hfirst 0 (Nat.succ_pos _)
    rw [List.cons_append, strstr,
      if_neg fun h => hhead (List.isPrefixOf_iff_prefix.mp h),
      ih fun k hk => hfirst (k + 1) (Nat.succ_lt_succ hk)]
    rfl

/-- A text with a mark can be cut at its first mark in one way only. -/
theorem append_cons_inj {a b a' b' : Text} (ha : c ∉ a) (ha' : c ∉ a') :
    a ++ c :: b = a' ++ c :: b' ↔ a = a' ∧ b = b' := by
  refine ⟨fun h => ?_, fun h => by rw [h.1, h.2]⟩
  induction a generalizing a' with
  | nil =>
    cases a' with
    | nil => exact ⟨rfl, List.tail_eq_of_cons_eq h⟩
    | cons d a' => exact absurd (List.head_eq_of_cons_eq h ▸ List.mem_cons_self) ha'
  | cons d a ih =>
    cases a' with
    | nil => exact absurd (List.head_eq_of_cons_eq h ▸ List.mem_cons_self) ha
    | cons d' a' =>
      obtain ⟨htail, hb⟩ := ih (fun hmem => ha (List.mem_cons_of_mem _ hmem))
        (fun hmem => ha' (List.mem_cons_of_mem _ hmem)) (List.tail_eq_of_cons_eq h)
      exact ⟨by rw [List.head_eq_of_cons_eq h, htail], hb⟩

/-! ### Pieces -/

theorem subStr_of_le {length : ℕ} (hlength : length ≠ 0) (hle : off + length ≤ text.length)
    (hsize : text.length < 2 ^ 64) : subStr text off length = (text.drop off).take length := by
  rw [subStr, if_neg, if_neg hlength]
  omega

/-- The length zero stands for the rest of the text. -/
theorem subStr_zero (hle : off ≤ text.length) (hsize : text.length < 2 ^ 64) :
    subStr text off 0 = text.drop off := by
  rw [subStr, if_neg (by omega), if_pos rfl, List.take_of_length_le (by simp)]

end Wcdb.UnsafeStringView
