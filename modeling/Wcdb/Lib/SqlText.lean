import Mathlib.Data.List.Basic
import Mathlib.Data.List.Infix
import Mathlib.Data.List.TakeWhile
import Mathlib.Data.Nat.Digits.Defs
import Mathlib.Tactic.IntervalCases

/-!
# The tokens of SQL texts

How SQLite cuts a text into tokens, by the rules of `tokenize.c`, as far as names, their lists and
numbered parameters go. A text is a list of bytes without NUL.

* `skip` passes over blanks and comments. `next` is the next token with what follows it; it is
  `none` at the end, and for tokens that are neither a word, a quoted name, a string, a decimal
  integer, a numbered parameter nor one of the marks `( ) , ; . >=`.
* `next_spelled` says how many bytes a token takes: a word takes its own length, and a quoted one
  at least two bytes more.
* `next_word` and the lemmas after it read one token from a text that starts with it.
-/

namespace SqlText

abbrev Text := List UInt8

/-- The bytes of an ASCII text. -/
def text (s : String) : Text := s.toList.map fun c => UInt8.ofNat c.toNat

/-! ### Bytes -/

def isDigit (b : UInt8) : Bool := 48 ≤ b && b ≤ 57

/-- The classes `CC_X`, `CC_KYWD` and `CC_ID`. -/
def startsWord (b : UInt8) : Bool :=
  (65 ≤ b && b ≤ 90) || (97 ≤ b && b ≤ 122) || b == 95 || 128 ≤ b

/-- `IdChar`. -/
def inWord (b : UInt8) : Bool := startsWord b || isDigit b || b == 36

/-- `sqlite3Isspace`. -/
def isSpace (b : UInt8) : Bool := b == 32 || (9 ≤ b && b ≤ 13)

/-- The class `CC_SPACE`, which lacks the vertical tab. -/
def startsSpace (b : UInt8) : Bool := isSpace b && b != 11

/-- `sqlite3UpperToLower`. -/
def lower (b : UInt8) : UInt8 := if 65 ≤ b ∧ b ≤ 90 then b + 32 else b

/-- `sqlite3StrICmp`. -/
def same (a b : Text) : Bool := a.map lower == b.map lower

theorem same_iff {a b : Text} : same a b = true ↔ a.map lower = b.map lower := beq_iff_eq

@[simp]
theorem same_refl (a : Text) : same a a = true := same_iff.mpr rfl

theorem same_symm {a b : Text} (h : same a b = true) : same b a = true :=
  same_iff.mpr (same_iff.mp h).symm

theorem same_length {a b : Text} (h : same a b = true) : a.length = b.length := by
  simpa using congrArg List.length (same_iff.mp h)

theorem startsWord_inWord {b : UInt8} (h : startsWord b = true) : inWord b = true := by
  simp [inWord, h]

/-- A text that is one word. -/
def isWord : Text → Bool
  | [] => false
  | b :: z => startsWord b && z.all inWord

theorem isWord_ne_nil {w : Text} (h : isWord w = true) : w ≠ [] := by
  rintro rfl
  cases h

theorem inWord_of_mem {w : Text} (h : isWord w = true) {b : UInt8} (hb : b ∈ w) :
    inWord b = true := by
  cases w with
  | nil => cases hb
  | cons c z =>
    rw [isWord, Bool.and_eq_true, List.all_eq_true] at h
    rcases List.mem_cons.mp hb with rfl | hb
    · exact startsWord_inWord h.1
    · exact h.2 b hb

/-! ### Blanks and comments -/

/-- What follows the end `*/` of a comment. -/
def closeComment : Text → Text
  | [] => []
  | [_] => []
  | b :: c :: z => if b = 42 ∧ c = 47 then z else closeComment (c :: z)

/-- What follows a token `TK_SPACE`: blanks, or a comment. -/
def space : Text → Option Text
  | [] => none
  | b :: z =>
    if startsSpace b then some (z.dropWhile isSpace)
    else if b = 45 ∧ z.head? = some 45 then some (z.tail.dropWhile (· ≠ 10))
    -- `/*` as the last two bytes is no comment
    else if b = 47 ∧ z.head? = some 42 ∧ z.tail ≠ [] then some (closeComment z.tail)
    else none

def skipWithin : ℕ → Text → Text
  | 0, z => z
  | n + 1, z =>
    match space z with
    | some rest => skipWithin n rest
    | none => z

/-- The text after all blanks and comments. -/
def skip (z : Text) : Text := skipWithin z.length z

theorem closeComment_suffix (z : Text) : closeComment z <:+ z := by
  fun_induction closeComment z with
  | case1 => exact List.suffix_rfl
  | case2 b => exact List.nil_suffix
  | case3 b c z h => exact (List.suffix_cons c z).trans (List.suffix_cons b (c :: z))
  | case4 b c z h ih => exact ih.trans (List.suffix_cons b (c :: z))

theorem space_suffix {z rest : Text} (h : space z = some rest) :
    rest <:+ z.tail := by
  cases z with
  | nil => simp [space] at h
  | cons b z =>
    simp only [space] at h
    split_ifs at h <;> simp only [Option.some.injEq] at h <;> subst h
    · exact List.dropWhile_suffix _
    · exact (List.dropWhile_suffix _).trans (List.tail_suffix z)
    · exact (closeComment_suffix _).trans (List.tail_suffix z)

theorem skipWithin_suffix (n : ℕ) (z : Text) : skipWithin n z <:+ z := by
  induction n generalizing z with
  | zero => exact List.suffix_rfl
  | succ n ih =>
    rw [skipWithin]
    cases h : space z with
    | none => exact List.suffix_rfl
    | some rest => exact (ih rest).trans ((space_suffix h).trans (List.tail_suffix z))

theorem skip_suffix (z : Text) : skip z <:+ z := skipWithin_suffix _ z

theorem skip_of_space_none {z : Text} (h : space z = none) : skip z = z := by
  cases z with
  | nil => rfl
  | cons b z => simp [skip, skipWithin, h]

theorem skip_blank_suffix (z : Text) : skip (32 :: z) <:+ z := by
  have hspace : space (32 :: z) = some (z.dropWhile isSpace) := rfl
  rw [skip, List.length_cons, skipWithin, hspace]
  exact (skipWithin_suffix _ _).trans (List.dropWhile_suffix _)

theorem skip_blank {b : UInt8} (z : Text) (hb : isSpace b = false) :
    skip (32 :: b :: z) = skip (b :: z) := by
  have hspace : space (32 :: b :: z) = some (b :: z) := by
    simp [space, show startsSpace 32 = true from rfl, List.dropWhile, hb]
  rw [skip, List.length_cons, skipWithin, hspace]
  rfl

/-! ### Tokens -/

inductive Token where
  /-- A keyword or a name without quotes. -/
  | word (w : Text)
  /-- A name in double quotes, backquotes or brackets: `TK_ID`. -/
  | identifier (value : Text)
  /-- `TK_STRING`. -/
  | string (value : Text)
  | integer (value : ℕ)
  /-- `?`, or `?` with a number. -/
  | variable (number : Option ℕ)
  | mark (m : Text)
  deriving DecidableEq, Repr

/-- The number that decimal digits stand for. -/
def number (digits : Text) : ℕ := Nat.ofDigits 10 (digits.reverse.map fun b => b.toNat - 48)

/-- A positive number in decimal digits. -/
def decimal (n : ℕ) : Text := (Nat.digits 10 n).reverse.map fun d => UInt8.ofNat (d + 48)

/-- The contents of a quoted token up to the quote `q`, and what follows. A doubled quote stands
for one. -/
def unquote (q : UInt8) : Text → Option (Text × Text)
  | [] => none
  | [c] => if c = q then some ([], []) else none
  | c :: d :: z =>
    if c = q then
      if d = q then (unquote q z).map fun r => (q :: r.1, r.2) else some ([], d :: z)
    else (unquote q (d :: z)).map fun r => (c :: r.1, r.2)

/-- A token that starts with a quote or a bracket. -/
def quoted (b : UInt8) (z : Text) : Option (Token × Text) :=
  if b = 91 then
    match z.dropWhile (· ≠ 93) with
    | [] => none
    | _ :: rest => some (.identifier (z.takeWhile (· ≠ 93)), rest)
  else if b = 39 then (unquote b z).map fun r => (.string r.1, r.2)
  else (unquote b z).map fun r => (.identifier r.1, r.2)

/-- A number. It is no token, or a float or a hexadecimal number, when more follows its digits. -/
def digits (b : UInt8) (z : Text) : Option (Token × Text) :=
  if (z.dropWhile isDigit).head?.any fun c => inWord c || c == 46 then none
  else some (.integer (number (b :: z.takeWhile isDigit)), z.dropWhile isDigit)

/-- A token that starts with neither a letter, a quote nor a digit. -/
def sign (b : UInt8) (z : Text) : Option (Token × Text) :=
  if b = 63 then
    let digits := z.takeWhile isDigit
    some (.variable (if digits = [] then none else some (number digits)), z.dropWhile isDigit)
  else if b = 46 then if z.head?.any isDigit then none else some (.mark [46], z)
  else if b = 62 then if z.head? = some 61 then some (.mark [62, 61], z.tail) else none
  else if b ∈ [40, 41, 44, 59] then some (.mark [b], z)
  else none

/-- `sqlite3GetToken`, of a text that does not start with blanks or comments. -/
def token : Text → Option (Token × Text)
  | [] => none
  | b :: z =>
    if startsWord b then
      -- `x'` starts a blob
      if (b = 120 ∨ b = 88) ∧ z.head? = some 39 then none
      else some (.word (b :: z.takeWhile inWord), z.dropWhile inWord)
    else if b ∈ [34, 39, 91, 96] then quoted b z
    else if isDigit b then digits b z
    else sign b z

/-- The next token of a text. -/
def next (z : Text) : Option (Token × Text) := token (skip z)

/-! ### How a token is spelled -/

/-- The bytes `x` are a token `t`. -/
def Spells : Token → Text → Prop
  | .word w, x => x = w ∧ isWord w = true
  | .identifier v, x => v.length + 2 ≤ x.length
  | .string v, x => v.length + v.count 39 + 2 = x.length
  | .integer _, x => x ≠ []
  | .variable _, x => x ≠ []
  | .mark m, x => x = m

/-- A quoted token takes the quotes around it and one more byte for each quote in it. -/
theorem unquote_spelled {q : UInt8} {z rest value : Text}
    (h : unquote q z = some (value, rest)) :
    ∃ x, z = x ++ rest ∧ x.length = value.length + value.count q + 1 := by
  fun_induction unquote q z generalizing value with
  | case1 => cases h
  | case2 =>
    cases h
    exact ⟨[q], rfl, rfl⟩
  | case3 c hc => cases h
  | case4 z ih =>
    obtain ⟨⟨v, r⟩, hv, hr⟩ := Option.map_eq_some_iff.mp h
    cases hr
    obtain ⟨x, rfl, hx⟩ := ih hv
    refine ⟨q :: q :: x, rfl, ?_⟩
    simp only [List.length_cons, List.count_cons_self]
    omega
  | case5 d z hd =>
    cases h
    exact ⟨[q], rfl, rfl⟩
  | case6 c d z hc ih =>
    obtain ⟨⟨v, r⟩, hv, hr⟩ := Option.map_eq_some_iff.mp h
    cases hr
    obtain ⟨x, hx, hlength⟩ := ih hv
    refine ⟨c :: x, by rw [hx, List.cons_append], ?_⟩
    simp only [List.length_cons, List.count_cons_of_ne hc] at hlength ⊢
    omega

theorem quoted_spelled {b : UInt8} {z rest : Text} {t : Token} (h : quoted b z = some (t, rest)) :
    ∃ x, b :: z = x ++ rest ∧ Spells t x := by
  rw [quoted] at h
  split_ifs at h with hbracket hstring
  · split at h
    · cases h
    · next c r hr =>
      cases h
      refine ⟨b :: (z.takeWhile (· ≠ 93) ++ [c]), ?_, by simp [Spells]⟩
      have hz := List.takeWhile_append_dropWhile (p := (· ≠ 93)) (l := z)
      rw [hr] at hz
      rw [List.cons_append, List.append_assoc]
      exact congrArg (b :: ·) hz.symm
  all_goals
    obtain ⟨r, hr, heq⟩ := Option.map_eq_some_iff.mp h
    cases heq
    obtain ⟨x, rfl, hx⟩ := unquote_spelled hr
    refine ⟨b :: x, rfl, ?_⟩
  · rw [hstring] at hx
    simp only [Spells, List.length_cons, hx]
  · simp only [Spells, List.length_cons, hx]
    omega

theorem digits_spelled {b : UInt8} {z rest : Text} {t : Token} (h : digits b z = some (t, rest)) :
    ∃ x, b :: z = x ++ rest ∧ Spells t x := by
  rw [digits] at h
  split_ifs at h
  cases h
  exact ⟨b :: z.takeWhile isDigit, by simp, by simp [Spells]⟩

theorem sign_spelled {b : UInt8} {z rest : Text} {t : Token} (h : sign b z = some (t, rest)) :
    ∃ x, b :: z = x ++ rest ∧ Spells t x := by
  rw [sign] at h
  split_ifs at h with hvariable hdot _ hge heq hmark
  · cases h
    exact ⟨b :: z.takeWhile isDigit, by simp, by simp [Spells]⟩
  · cases h
    exact ⟨[46], by simp [hdot], rfl⟩
  · cases h
    refine ⟨[62, 61], ?_, rfl⟩
    cases z with
    | nil => cases heq
    | cons c z =>
      cases heq
      simp [hge]
  · cases h
    exact ⟨[b], rfl, rfl⟩

theorem token_spelled {z rest : Text} {t : Token} (h : token z = some (t, rest)) :
    ∃ x, z = x ++ rest ∧ Spells t x := by
  cases z with
  | nil => cases h
  | cons b z =>
    rw [token] at h
    split_ifs at h with hword hblob hquote hdigit
    · cases h
      refine ⟨b :: z.takeWhile inWord, by simp, rfl, ?_⟩
      simp [isWord, hword]
    · exact quoted_spelled h
    · exact digits_spelled h
    · exact sign_spelled h

/-- The next token comes after the blanks and comments, and what follows it is left. -/
theorem next_spelled {z rest : Text} {t : Token} (h : next z = some (t, rest)) :
    ∃ s x, z = s ++ (x ++ rest) ∧ Spells t x := by
  obtain ⟨s, hs⟩ := skip_suffix z
  obtain ⟨x, hx, ht⟩ := token_spelled h
  exact ⟨s, x, by rw [← hx, hs], ht⟩

theorem next_blank_spelled {z rest : Text} {t : Token} (h : next (32 :: z) = some (t, rest)) :
    ∃ s x, z = s ++ (x ++ rest) ∧ Spells t x := by
  obtain ⟨s, hs⟩ := skip_blank_suffix z
  obtain ⟨x, hx, ht⟩ := token_spelled h
  exact ⟨s, x, by rw [← hx, hs], ht⟩

/-! ### Reading one token -/

theorem starts_of_startsWord {b : UInt8} (h : startsWord b = true) :
    isSpace b = false ∧ b ≠ 45 ∧ b ≠ 47 := by
  simp only [startsWord, isSpace, Bool.or_eq_true, Bool.and_eq_true, decide_eq_true_eq, beq_iff_eq,
    Bool.or_eq_false_iff, Bool.and_eq_false_iff] at *
  grind

theorem skip_of_start {b : UInt8} (z : Text) (hspace : isSpace b = false) (h45 : b ≠ 45)
    (h47 : b ≠ 47) : skip (b :: z) = b :: z :=
  skip_of_space_none (by simp [space, startsSpace, hspace, h45, h47])

theorem takeWhile_append_of_stop {p : UInt8 → Bool} {w : Text} (hw : ∀ b ∈ w, p b = true)
    {c : UInt8} (hc : p c = false) (z : Text) : (w ++ c :: z).takeWhile p = w := by
  rw [List.takeWhile_append_of_pos hw, List.takeWhile_cons, hc]
  simp

theorem dropWhile_append_of_stop {p : UInt8 → Bool} {w : Text} (hw : ∀ b ∈ w, p b = true)
    {c : UInt8} (hc : p c = false) (z : Text) : (w ++ c :: z).dropWhile p = c :: z := by
  rw [List.dropWhile_append_of_pos hw, List.dropWhile_cons, hc]
  simp

/-- A word is read up to a byte that is no part of one. -/
theorem next_word {w : Text} (hw : isWord w = true) {c : UInt8} (hc : inWord c = false)
    (h39 : c ≠ 39) (z : Text) : next (w ++ c :: z) = some (.word w, c :: z) := by
  cases w with
  | nil => cases hw
  | cons b w =>
    rw [isWord, Bool.and_eq_true, List.all_eq_true] at hw
    obtain ⟨hspace, h45, h47⟩ := starts_of_startsWord hw.1
    rw [next, List.cons_append, skip_of_start _ hspace h45 h47, token, if_pos hw.1,
      takeWhile_append_of_stop hw.2 hc, dropWhile_append_of_stop hw.2 hc, if_neg]
    rintro ⟨hx, hhead⟩
    cases w with
    | nil => exact h39 (Option.some.inj hhead)
    | cons d w =>
      have hd := hw.2 d List.mem_cons_self
      rw [Option.some.inj hhead] at hd
      cases hd

/-- Blanks before what starts a token are passed over. -/
theorem next_blank {b : UInt8} (z : Text) (hb : isSpace b = false) :
    next (32 :: b :: z) = next (b :: z) := by
  rw [next, next, skip_blank z hb]

theorem next_blank_word {w : Text} (hw : isWord w = true) {c : UInt8} (hc : inWord c = false)
    (h39 : c ≠ 39) (z : Text) : next (32 :: (w ++ c :: z)) = some (.word w, c :: z) := by
  rw [← next_word hw hc h39]
  cases w with
  | nil => cases hw
  | cons b w =>
    rw [isWord, Bool.and_eq_true] at hw
    exact next_blank _ (starts_of_startsWord hw.1).1

theorem unquote_append {q : UInt8} {v : Text} (hv : q ∉ v) {z : Text} (hz : z.head? ≠ some q) :
    unquote q (v ++ q :: z) = some (v, z) := by
  induction v with
  | nil =>
    cases z with
    | nil => simp [unquote]
    | cons c z =>
      have hc : c ≠ q := fun h => hz (congrArg some h)
      simp [unquote, hc]
  | cons b v ih =>
    rw [List.mem_cons, not_or] at hv
    have h := ih hv.2
    cases v with
    | nil =>
      rw [List.nil_append] at h
      simp [unquote, Ne.symm hv.1, h]
    | cons d v =>
      rw [List.cons_append] at h ⊢
      simp [unquote, Ne.symm hv.1, h]

/-- What a string token reads from a text that starts with a quote. -/
theorem next_quote (z : Text) :
    next (39 :: z) = (unquote 39 z).map fun r => (.string r.1, r.2) := by
  rw [next, skip_of_start _ rfl (by decide) (by decide), token, if_neg (by decide),
    if_pos (by decide), quoted, if_neg (by decide), if_pos rfl]

/-- A string without quotes in it is read up to its end. -/
theorem next_string {v : Text} (hv : 39 ∉ v) {z : Text} (hz : z.head? ≠ some 39) :
    next (39 :: (v ++ 39 :: z)) = some (.string v, z) := by
  rw [next_quote, unquote_append hv hz]
  rfl

theorem next_dot {b : UInt8} (hb : isDigit b = false) (z : Text) :
    next (46 :: b :: z) = some (.mark [46], b :: z) := by
  rw [next, skip_of_start _ rfl (by decide) (by decide), token, if_neg (by decide),
    if_neg (by decide), if_neg (by decide), sign, if_neg (by decide), if_pos rfl,
      if_neg (by simp [hb])]

theorem next_mark {b : UInt8} (hb : b ∈ [40, 41, 44, 59]) (z : Text) :
    next (b :: z) = some (.mark [b], z) := by
  simp only [List.mem_cons, List.not_mem_nil, or_false] at hb
  rcases hb with rfl | rfl | rfl | rfl <;>
    rw [next, skip_of_start _ rfl (by decide) (by decide)] <;> rfl

/-! ### Numbers -/

theorem number_decimal (n : ℕ) : number (decimal n) = n := by
  have hdigit : ∀ d ∈ Nat.digits 10 n, (UInt8.ofNat (d + 48)).toNat - 48 = d := by
    intro d hd
    have hlt : d < 10 := Nat.digits_lt_base (by decide) hd
    rw [UInt8.toNat_ofNat']
    omega
  simp only [number, decimal, List.map_reverse, List.reverse_reverse, List.map_map]
  rw [List.map_congr_left (g := id) (by simpa using hdigit), List.map_id, Nat.ofDigits_digits]

theorem isDigit_of_mem_decimal {n : ℕ} {b : UInt8} (hb : b ∈ decimal n) : isDigit b = true := by
  obtain ⟨d, hd, rfl⟩ := List.mem_map.mp hb
  have hlt : d < 10 := Nat.digits_lt_base (by decide) (List.mem_reverse.mp hd)
  interval_cases d <;> rfl

theorem decimal_ne_nil {n : ℕ} (hn : n ≠ 0) : decimal n ≠ [] := by
  simp [decimal, Nat.digits_ne_nil_iff_ne_zero, hn]

/-- A numbered parameter is read up to a byte that is no digit. -/
theorem next_variable {n : ℕ} (hn : n ≠ 0) {c : UInt8} (hc : isDigit c = false) (z : Text) :
    next (63 :: (decimal n ++ c :: z)) = some (.variable (some n), c :: z) := by
  have hdigits : ∀ b ∈ decimal n, isDigit b = true := fun b hb => isDigit_of_mem_decimal hb
  rw [next, skip_of_start _ rfl (by decide) (by decide), token, if_neg (by decide),
    if_neg (by decide), if_neg (by decide), sign, if_pos rfl, takeWhile_append_of_stop hdigits hc,
    dropWhile_append_of_stop hdigits hc]
  simp [number_decimal, decimal_ne_nil hn]

end SqlText
