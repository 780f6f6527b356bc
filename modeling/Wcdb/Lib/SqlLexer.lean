import Wcdb.Lib.SqlText

/-!
# The lexer of SQLite

`after` is `sqlite3GetToken`: the kind of the token at the start of a text, and what follows it.
`lex` cuts a text into its tokens and leaves out the blanks, as the parser does. Comments are kept
in it, so that a text in which a comment is opened has other tokens.

* `after_of_token`: where `SqlText.token` reads a token and its value, `after` finds this token.
* `after_append`: what follows a text does not change a token of it, except for the last one, which
  may go on with the next byte (`continues`).
* `lex_append` is the rule for what is printed. It is about texts of whole tokens (`Clean`): the
  tokens of two of them together are those of the first and those of the second.
* `after_stops`: a token ends where it cannot go on, so that `lex_append` fails where the last token
  of the first text goes on with the second.
-/

namespace SqlLexer

open SqlText (Text text isDigit startsWord inWord isSpace startsSpace unquote)

inductive Kind where
  | space
  /-- A comment with its end, which is no part of one of a line. -/
  | comment
  /-- A comment up to the end of the text. -/
  | unclosed
  /-- A mark that no byte makes another one, such as a bracket or `<=`. -/
  | mark
  /-- A mark that the next byte could make another one, such as `<` or `.`. -/
  | operator
  | string
  /-- A name in quotes. -/
  | identifier
  | blob
  | integer
  | hexInteger
  | float
  /-- `?`, or `?` with a number. -/
  | parameter
  /-- A parameter with a name. -/
  | variable
  /-- A parameter with a name and brackets. -/
  | element
  /-- A keyword, or a name without quotes. -/
  | word
  | illegal
  deriving DecidableEq, Repr

/-- `sqlite3Isxdigit`. -/
def isXDigit (b : UInt8) : Bool := isDigit b || (65 ≤ b && b ≤ 70) || (97 ≤ b && b ≤ 102)

/-! ### The classes of `sqlite3GetToken` -/

/-- What follows the end `*/` of a comment. -/
def closed : Text → Option Text
  | b :: c :: z => if b = 42 ∧ c = 47 then some z else closed (c :: z)
  | _ => none

/-- `CC_MINUS`. -/
def minus (z : Text) : Kind × Text :=
  if z.head? = some 45 then
    let rest := z.tail.dropWhile (· ≠ 10)
    (if rest = [] then .unclosed else .comment, rest)
  else (.operator, z)

/-- `CC_SLASH`. -/
def slash (z : Text) : Kind × Text :=
  -- `/*` as the last two bytes is no comment
  if z.head? = some 42 ∧ z.tail ≠ [] then
    match closed z.tail with
    | some rest => (.comment, rest)
    | none => (.unclosed, [])
  else (.operator, z)

/-- The second byte of a mark. -/
def second (b c : UInt8) : Bool :=
  (b == 61 && c == 61) || (b == 60 && (c == 61 || c == 62 || c == 60)) ||
    (b == 62 && (c == 61 || c == 62)) || (b == 33 && c == 61) || (b == 124 && c == 124)

/-- `CC_EQ`, `CC_LT`, `CC_GT`, `CC_BANG` and `CC_PIPE`. -/
def compare (b : UInt8) (z : Text) : Kind × Text :=
  if z.head?.any (second b) then (.mark, z.tail)
  else (if b = 33 then .illegal else .operator, z)

/-- `CC_QUOTE`. -/
def quote (b : UInt8) (z : Text) : Kind × Text :=
  match unquote b z with
  | some (_, rest) => (if b = 39 then .string else .identifier, rest)
  | none => (.illegal, [])

/-- `CC_QUOTE2`. -/
def bracket (z : Text) : Kind × Text :=
  match z.dropWhile (· ≠ 93) with
  | [] => (.illegal, [])
  | _ :: rest => (.identifier, rest)

/-- What follows a number in hexadecimal digits. -/
def hexDigits (b : UInt8) (z : Text) : Option Text :=
  if b = 48 ∧ (z.head? = some 120 ∨ z.head? = some 88) ∧ z.tail.head?.any isXDigit = true then
    some (z.tail.dropWhile isXDigit)
  else none

/-- The fraction after the digits of a number: whether there is one, and what follows. -/
def fraction (z : Text) : Bool × Text :=
  if z.head? = some 46 then (true, z.tail.dropWhile isDigit) else (false, z)

/-- What follows an exponent. -/
def exponent (z : Text) : Option Text :=
  if (z.head? = some 101 ∨ z.head? = some 69) ∧
      (z.tail.head?.any isDigit = true ∨
        (z.tail.head? = some 43 ∨ z.tail.head? = some 45) ∧ z.tail.tail.head?.any isDigit = true)
  then some (z.tail.tail.dropWhile isDigit)
  else none

/-- A number after its fraction: whether it is a float, and what follows. -/
def scaled (n : Bool × Text) : Bool × Text :=
  match exponent n.2 with
  | some rest => (true, rest)
  | none => n

def decimals (b : UInt8) (z : Text) : Bool × Text :=
  scaled (if b = 46 then (true, z.dropWhile isDigit) else fraction (z.dropWhile isDigit))

/-- `CC_DIGIT`, and `CC_DOT` before a digit. -/
def number (b : UInt8) (z : Text) : Kind × Text :=
  match hexDigits b z with
  | some rest => (.hexInteger, rest)
  | none =>
    let n := decimals b z
    if n.2.head?.any inWord then (.illegal, n.2.dropWhile inWord)
    else (if n.1 then .float else .integer, n.2)

/-- The brackets of a parameter. -/
def element (z : Text) : Kind × Text :=
  let rest := z.dropWhile fun c => !isSpace c && c != 41
  if rest.head? = some 41 then (.element, rest.tail) else (.illegal, rest)

/-- `CC_DOLLAR` and `CC_VARALPHA`. `isNamed` says whether there is a byte of a name yet. -/
def named (isNamed : Bool) : Text → Kind × Text
  | [] => (if isNamed then .variable else .illegal, [])
  | [c] =>
    if inWord c then (.variable, [])
    else if c = 40 ∧ isNamed = true then element []
    else (if isNamed then .variable else .illegal, [c])
  | c :: d :: z =>
    if inWord c then named true (d :: z)
    else if c = 40 ∧ isNamed = true then element (d :: z)
    else if c = 58 ∧ d = 58 then named isNamed z
    else (if isNamed then .variable else .illegal, c :: d :: z)

/-- `CC_X` before a quote. -/
def blob (z : Text) : Kind × Text :=
  let rest := z.dropWhile isXDigit
  if rest.head? = some 39 ∧ (z.takeWhile isXDigit).length % 2 = 0 then (.blob, rest.tail)
  else (.illegal, (rest.dropWhile (· ≠ 39)).tail)

/-- The classes of bytes. The marks that are whole, `+`, `(` and so on, share `mark`; `compare` is
for the five that a second byte may belong to. -/
inductive CharClass where
  | space | minus | slash | mark | compare | quote | quote2 | digit | dot | varnum | varalpha | x
  | id | illegal
  deriving DecidableEq

/-- `aiClass`, with `CC_KYWD` and `CC_ID` as one class. -/
def charClass (b : UInt8) : CharClass :=
  if startsSpace b then .space
  else if isDigit b then .digit
  else if b == 120 || b == 88 then .x
  else if startsWord b then .id
  else if b == 45 then .minus
  else if b == 47 then .slash
  else if b == 61 || b == 60 || b == 62 || b == 33 || b == 124 then .compare
  else if b == 34 || b == 39 || b == 96 then .quote
  else if b == 91 then .quote2
  else if b == 46 then .dot
  else if b == 63 then .varnum
  else if b == 36 || b == 64 || b == 35 || b == 58 then .varalpha
  else if (37 ≤ b && b ≤ 44) || b == 59 || b == 126 then .mark
  else .illegal

/-- `sqlite3GetToken`: the kind of the token that begins with `b`, and what follows it. -/
def after (b : UInt8) (z : Text) : Kind × Text :=
  match charClass b with
  | .space => (.space, z.dropWhile isSpace)
  | .minus => minus z
  | .slash => slash z
  | .mark => (.mark, z)
  | .compare => compare b z
  | .quote => quote b z
  | .quote2 => bracket z
  | .digit => number b z
  | .dot => if z.head?.any isDigit then number b z else (.operator, z)
  | .varnum => (.parameter, z.dropWhile isDigit)
  | .varalpha => named false z
  | .x => if z.head? = some 39 then blob z.tail else (.word, z.dropWhile inWord)
  | .id => (.word, z.dropWhile inWord)
  | .illegal => (.illegal, z)

/-! ### What follows a token -/

section Suffix

variable {b : UInt8} {z rest : Text}

theorem closed_suffix (h : closed z = some rest) : rest <:+ z := by
  fun_induction closed z with
  | case1 b c z hclose =>
    cases h
    exact (List.suffix_cons c rest).trans (List.suffix_cons b _)
  | case2 b c z hclose ih => exact (ih h).trans (List.suffix_cons b _)
  | case3 => cases h

theorem minus_suffix (z : Text) : (minus z).2 <:+ z := by
  rw [minus]
  split_ifs
  · exact (List.dropWhile_suffix _).trans (List.tail_suffix z)
  · exact List.suffix_rfl

theorem slash_suffix (z : Text) : (slash z).2 <:+ z := by
  rw [slash]
  split_ifs
  · cases h : closed z.tail with
    | none => exact List.nil_suffix
    | some rest => exact (closed_suffix h).trans (List.tail_suffix z)
  · exact List.suffix_rfl

theorem compare_suffix (b : UInt8) (z : Text) : (compare b z).2 <:+ z := by
  rw [compare]
  split_ifs
  · exact List.tail_suffix z
  · exact List.suffix_rfl
  · exact List.suffix_rfl

theorem unquote_suffix {v : Text} (h : unquote b z = some (v, rest)) : rest <:+ z := by
  obtain ⟨x, hx, -⟩ := SqlText.unquote_spelled h
  rw [hx]
  exact List.suffix_append x rest

theorem quote_suffix (b : UInt8) (z : Text) : (quote b z).2 <:+ z := by
  rw [quote]
  cases h : unquote b z with
  | none => exact List.nil_suffix
  | some r => exact unquote_suffix h

theorem bracket_suffix (z : Text) : (bracket z).2 <:+ z := by
  have hsuffix := List.dropWhile_suffix (l := z) (· ≠ 93)
  rw [bracket]
  cases h : z.dropWhile (· ≠ 93) with
  | nil => exact List.nil_suffix
  | cons c rest => exact (List.suffix_cons c rest).trans (h ▸ hsuffix)

theorem hexDigits_suffix (h : hexDigits b z = some rest) : rest <:+ z := by
  rw [hexDigits] at h
  split_ifs at h
  cases h
  exact (List.dropWhile_suffix _).trans (List.tail_suffix z)

theorem fraction_suffix (z : Text) : (fraction z).2 <:+ z := by
  rw [fraction]
  split_ifs
  · exact (List.dropWhile_suffix _).trans (List.tail_suffix z)
  · exact List.suffix_rfl

theorem exponent_suffix (h : exponent z = some rest) : rest <:+ z := by
  rw [exponent] at h
  split_ifs at h
  cases h
  exact (List.dropWhile_suffix _).trans ((List.tail_suffix _).trans (List.tail_suffix z))

theorem scaled_suffix (n : Bool × Text) : (scaled n).2 <:+ n.2 := by
  rw [scaled]
  cases h : exponent n.2 with
  | none => exact List.suffix_rfl
  | some rest => exact exponent_suffix h

theorem decimals_suffix (b : UInt8) (z : Text) : (decimals b z).2 <:+ z := by
  refine (scaled_suffix _).trans ?_
  split_ifs
  · exact List.dropWhile_suffix _
  · exact (fraction_suffix _).trans (List.dropWhile_suffix _)

theorem number_suffix (b : UInt8) (z : Text) : (number b z).2 <:+ z := by
  have hsuffix := decimals_suffix b z
  rw [number]
  cases h : hexDigits b z with
  | some rest => exact hexDigits_suffix h
  | none =>
    dsimp only
    split_ifs
    · exact (List.dropWhile_suffix _).trans hsuffix
    · exact hsuffix
    · exact hsuffix

theorem element_suffix (z : Text) : (element z).2 <:+ z := by
  rw [element]
  split_ifs
  · exact (List.tail_suffix _).trans (List.dropWhile_suffix _)
  · exact List.dropWhile_suffix _

theorem named_suffix (isNamed : Bool) (z : Text) : (named isNamed z).2 <:+ z := by
  fun_induction named isNamed z with
  | case1 => exact List.suffix_rfl
  | case2 => exact List.nil_suffix
  | case3 => exact List.nil_suffix
  | case4 => exact List.suffix_rfl
  | case5 isNamed c d z hc ih => exact ih.trans (List.suffix_cons c _)
  | case6 isNamed c d z => exact (element_suffix _).trans (List.suffix_cons c _)
  | case7 isNamed c d z hc helement hd ih =>
    exact ih.trans ((List.suffix_cons d z).trans (List.suffix_cons c _))
  | case8 => exact List.suffix_rfl

theorem blob_suffix (z : Text) : (blob z).2 <:+ z := by
  have hsuffix := List.dropWhile_suffix (l := z) isXDigit
  rw [blob]
  split_ifs
  · exact (List.tail_suffix _).trans hsuffix
  · exact (List.tail_suffix _).trans ((List.dropWhile_suffix _).trans hsuffix)

theorem after_suffix (b : UInt8) (z : Text) : (after b z).2 <:+ z := by
  fun_cases after b z with
  | case1 => exact List.dropWhile_suffix _
  | case2 => exact minus_suffix z
  | case3 => exact slash_suffix z
  | case4 => exact List.suffix_rfl
  | case5 => exact compare_suffix b z
  | case6 => exact quote_suffix b z
  | case7 => exact bracket_suffix z
  | case8 => exact number_suffix b z
  | case9 => exact number_suffix b z
  | case10 => exact List.suffix_rfl
  | case11 => exact List.dropWhile_suffix _
  | case12 => exact named_suffix false z
  | case13 => exact (blob_suffix _).trans (List.tail_suffix z)
  | case14 => exact List.dropWhile_suffix _
  | case15 => exact List.dropWhile_suffix _
  | case16 => exact List.suffix_rfl

end Suffix

/-! ### Tokens with their values -/

/-- The kinds of the tokens that `SqlText.token` reads. -/
def IsKind (k : Kind) : SqlText.Token → Prop
  | .word _ => k = .word
  | .identifier _ => k = .identifier
  | .string _ => k = .string
  | .integer _ => k = .integer
  | .variable _ => k = .parameter
  | .mark _ => k = .mark ∨ k = .operator

section Values

variable {b : UInt8} {z rest : Text} {t : SqlText.Token}

theorem class_of_digit (h : isDigit b = true) : charClass b = .digit ∧ b ≠ 46 := by
  have h46 : b ≠ 46 := by
    rintro rfl
    cases h
  have hspace : startsSpace b = false := by
    simp only [isDigit, startsSpace, isSpace, Bool.and_eq_true, decide_eq_true_eq] at *
    grind
  exact ⟨by simp [charClass, hspace, h], h46⟩

theorem class_of_startsWord (h : startsWord b = true) :
    charClass b = if b = 120 ∨ b = 88 then .x else .id := by
  have hspace : startsSpace b = false := by
    simp only [startsWord, startsSpace, isSpace] at h ⊢
    grind
  have hdigit : isDigit b = false := by
    simp only [startsWord, isDigit] at h ⊢
    grind
  simp [charClass, hspace, hdigit, h]

theorem number_of_digits (hb : isDigit b = true)
    (hmore : ¬(z.dropWhile isDigit).head?.any (fun c => inWord c || c == 46) = true) :
    number b z = (.integer, z.dropWhile isDigit) := by
  have hend (c : UInt8) (hc : (z.dropWhile isDigit).head? = some c) :
    (inWord c || c == 46) = false :=
    Bool.eq_false_iff.mpr fun hin => hmore (by rw [hc]; exact hin)
  have h46 : b ≠ 46 := (class_of_digit hb).2
  have hhex : hexDigits b z = none := by
    rw [hexDigits, if_neg]
    rintro ⟨-, hx, -⟩
    cases z with
    | nil => simp at hx
    | cons d z =>
      rw [List.head?_cons, Option.some.injEq, Option.some.injEq] at hx
      rcases hx with rfl | rfl <;> cases hend _ rfl
  have hfraction : fraction (z.dropWhile isDigit) = (false, z.dropWhile isDigit) := by
    rw [fraction, if_neg fun hdot => by cases hend _ hdot]
  have hexponent : exponent (z.dropWhile isDigit) = none := by
    rw [exponent, if_neg]
    rintro ⟨he | he, -⟩ <;> cases hend _ he
  have hword : ¬(z.dropWhile isDigit).head?.any inWord = true := by
    rw [Option.any_eq_true]
    rintro ⟨c, hc, hin⟩
    exact absurd (hend c hc) (by rw [hin, Bool.true_or]; exact Bool.noConfusion)
  simp only [number, hhex, decimals, if_neg h46, hfraction, scaled, hexponent, if_neg hword,
    Bool.false_eq_true, if_false]

theorem after_of_quoted (hb : b ∈ [34, 39, 91, 96]) (h : SqlText.quoted b z = some (t, rest)) :
    IsKind (after b z).1 t ∧ (after b z).2 = rest := by
  rw [SqlText.quoted] at h
  have hclass : charClass b = if b = 91 then .quote2 else .quote := by
    simp only [List.mem_cons, List.not_mem_nil, or_false] at hb
    rcases hb with rfl | rfl | rfl | rfl <;> rfl
  split_ifs at h with hbracket hstring
  · rw [after, hclass, if_pos hbracket]
    simp only [bracket]
    generalize z.dropWhile (· ≠ 93) = dropped at h ⊢
    cases dropped with
    | nil => cases h
    | cons c r =>
      cases h
      exact ⟨rfl, rfl⟩
  · obtain ⟨r, hr, heq⟩ := Option.map_eq_some_iff.mp h
    cases heq
    simp only [after, hclass, if_neg hbracket, quote, hr, if_pos hstring, IsKind, and_self]
  · obtain ⟨r, hr, heq⟩ := Option.map_eq_some_iff.mp h
    cases heq
    simp only [after, hclass, if_neg hbracket, quote, hr, if_neg hstring, IsKind, and_self]

/-- **A token that is read with its value** is one for `after`, and the same text follows it. -/
theorem after_of_token (h : SqlText.token (b :: z) = some (t, rest)) :
    IsKind (after b z).1 t ∧ (after b z).2 = rest := by
  rw [SqlText.token] at h
  split_ifs at h with hword hblob hquote hdigit
  · cases h
    rw [after, class_of_startsWord hword]
    by_cases hx : b = 120 ∨ b = 88
    · have hquote : ¬z.head? = some 39 := fun hquote => hblob ⟨hx, hquote⟩
      simp [hx, hquote, IsKind]
    · simp [hx, IsKind]
  · exact after_of_quoted hquote h
  · rw [SqlText.digits] at h
    split_ifs at h with hmore
    cases h
    rw [after, (class_of_digit hdigit).1]
    exact Prod.mk.inj (number_of_digits hdigit hmore)
  · rw [SqlText.sign] at h
    split_ifs at h with hvar hdot hd hgt heq hmark
    · cases h
      subst hvar
      exact ⟨rfl, rfl⟩
    · cases h
      subst hdot
      simp only [after, show charClass 46 = .dot from rfl, hd]
      exact ⟨.inr rfl, rfl⟩
    · cases h
      subst hgt
      simp only [after, show charClass 62 = .compare from rfl, compare, heq]
      exact ⟨.inl rfl, rfl⟩
    · cases h
      simp only [List.mem_cons, List.not_mem_nil, or_false] at hmark
      rcases hmark with rfl | rfl | rfl | rfl <;> exact ⟨.inl rfl, rfl⟩
end Values

/-! ### More text after a token -/

/-- Whether the last token of a text, which is of the kind `k` and begins with `b`, goes on with the
byte `c`. A blank takes in a vertical tab, which is no blank by itself. -/
def continues (k : Kind) (b c : UInt8) : Bool :=
  match k with
  | .space => c == 11
  | .operator =>
    match charClass b with
    | .minus => c == 45
    | .slash => c == 42
    | .dot => isDigit c
    | _ => second b c
  | .string | .identifier => c == b && charClass b == .quote
  | .integer => inWord c || c == 46
  | .hexInteger => isXDigit c
  | .float => inWord c
  | .parameter => isDigit c
  | .variable => inWord c || c == 40 || c == 58
  | .word => inWord c || c == 39
  | _ => false

section Append

variable {b : UInt8} {z rest y : Text} {k : Kind}

theorem any_head_append {p : UInt8 → Bool} (hz : z = [] → y.head?.any p = false) :
    (z ++ y).head?.any p = z.head?.any p := by
  cases z with
  | nil => exact hz rfl
  | cons c z => rfl

theorem head_append {c : UInt8} (hz : z = [] → y.head? ≠ some c) :
    (z ++ y).head? = some c ↔ z.head? = some c := by
  cases z with
  | nil => simpa using hz rfl
  | cons d z => rfl

theorem tail_append (hz : z ≠ []) : (z ++ y).tail = z.tail ++ y := List.tail_append_of_ne_nil hz

theorem head_ne_of_any {p : UInt8 → Bool} {c : UInt8} (h : y.head?.any p = false)
    (hc : p c = true) : y.head? ≠ some c := by
  intro hy
  rw [hy, Option.any_some, hc] at h
  cases h

theorem any_of_imp {p q : UInt8 → Bool} (h : y.head?.any q = false)
    (hpq : ∀ c, p c = true → q c = true) : y.head?.any p = false := by
  cases hy : y.head? with
  | none => rfl
  | some c =>
    rw [hy, Option.any_some] at h
    rw [Option.any_some, Bool.eq_false_iff]
    intro hc
    rw [hpq c hc] at h
    cases h

theorem dropWhile_append {p : UInt8 → Bool} (hz : z.dropWhile p = [] → y.head?.any p = false) :
    (z ++ y).dropWhile p = z.dropWhile p ++ y := by
  rw [List.dropWhile_append]
  split
  · next h =>
    rw [List.isEmpty_iff] at h
    rw [h, List.nil_append]
    cases y with
    | nil => rfl
    | cons c y =>
      have hc := hz h
      rw [List.head?_cons, Option.any_some] at hc
      rw [List.dropWhile_cons, hc]
      rfl
  · rfl

theorem closed_append (h : closed z = some rest) (y : Text) :
    closed (z ++ y) = some (rest ++ y) := by
  fun_induction closed z with
  | case1 b c z hclose =>
    cases h
    rw [List.cons_append, List.cons_append, closed, if_pos hclose]
  | case2 b c z hclose ih =>
    rw [List.cons_append, List.cons_append, closed, if_neg hclose]
    exact ih h
  | case3 => cases h

theorem minus_append (h : minus z = (k, rest)) (hk : k ≠ .unclosed)
    (hend : z = [] → y.head?.any (· == 45) = false) : minus (z ++ y) = (k, rest ++ y) := by
  have hhead : (z ++ y).head? = some 45 ↔ z.head? = some 45 :=
    head_append fun hz => head_ne_of_any (hend hz) rfl
  rw [minus] at h ⊢
  by_cases hz : z.head? = some 45
  · rw [if_pos hz] at h
    rw [if_pos (hhead.mpr hz)]
    have hrest : z.tail.dropWhile (· ≠ 10) = rest := congrArg Prod.snd h
    have hkind := congrArg Prod.fst h
    dsimp only at hkind
    rw [hrest] at hkind
    have hne : rest ≠ [] := by
      rintro rfl
      exact hk (hkind.symm.trans (if_pos rfl))
    rw [if_neg hne] at hkind
    have hz' : z ≠ [] := by
      rintro rfl
      cases hz
    have happend : (z ++ y).tail.dropWhile (· ≠ 10) = rest ++ y := by
      rw [tail_append hz', dropWhile_append fun h => absurd (hrest.symm.trans h) hne, hrest]
    dsimp only
    rw [happend, if_neg (by simp [hne]), hkind]
  · rw [if_neg hz] at h
    cases h
    rw [if_neg fun h => hz (hhead.mp h)]

theorem slash_append (h : slash z = (k, rest)) (hk : k ≠ .unclosed) (hstar : z ≠ [42])
    (hend : z = [] → y.head?.any (· == 42) = false) : slash (z ++ y) = (k, rest ++ y) := by
  rw [slash] at h ⊢
  by_cases hz : z.head? = some 42 ∧ z.tail ≠ []
  · rw [if_pos hz] at h
    have hne : z ≠ [] := by
      rintro rfl
      exact hz.2 rfl
    have hhead : (z ++ y).head? = some 42 := by rw [List.head?_append, hz.1]; rfl
    rw [tail_append hne, if_pos ⟨hhead, by simp [hz.2]⟩]
    cases hclosed : z.tail with
    | nil => exact absurd hclosed hz.2
    | cons c t =>
      rw [hclosed] at h
      cases hrest : closed (c :: t) with
      | none =>
        rw [hrest] at h
        cases h
        exact absurd rfl hk
      | some r =>
        rw [hrest] at h
        cases h
        rw [closed_append hrest]
  · rw [if_neg hz] at h
    cases h
    rw [if_neg]
    rintro ⟨hhead, -⟩
    cases z with
    | nil => exact head_ne_of_any (hend rfl) (c := 42) rfl hhead
    | cons c z =>
      rw [List.cons_append, List.head?_cons] at hhead
      cases z with
      | nil => exact hstar (congrArg (· :: []) (Option.some.inj hhead))
      | cons d z => exact hz ⟨hhead, List.cons_ne_nil d z⟩

theorem compare_append (h : compare b z = (k, rest)) (hk : k ≠ .illegal)
    (hend : z = [] → y.head?.any (second b) = false) : compare b (z ++ y) = (k, rest ++ y) := by
  rw [compare] at h ⊢
  rw [any_head_append hend]
  split_ifs at h ⊢ with hsecond
  · cases h
    rw [tail_append]
    rintro rfl
    cases hsecond
  · cases h
    exact absurd rfl hk
  · cases h
    rfl

theorem unquote_append_of_end {q : UInt8} {v : Text} (h : unquote q z = some (v, rest))
    (hend : rest = [] → y.head?.any (· == q) = false) :
    unquote q (z ++ y) = some (v, rest ++ y) := by
  fun_induction unquote q z generalizing v with
  | case1 => cases h
  | case2 =>
    cases h
    cases y with
    | nil => simp [unquote]
    | cons c y =>
      have hc : c ≠ q := by simpa using hend rfl
      simp [unquote, hc]
  | case3 => cases h
  | case4 z ih =>
    obtain ⟨⟨v, r⟩, hv, hr⟩ := Option.map_eq_some_iff.mp h
    cases hr
    simp [unquote, ih hv]
  | case5 d z hd =>
    cases h
    simp [unquote, hd]
  | case6 c d z hc ih =>
    obtain ⟨⟨v, r⟩, hv, hr⟩ := Option.map_eq_some_iff.mp h
    cases hr
    have hrec := ih hv
    rw [List.cons_append] at hrec
    simp [unquote, hc, hrec]

theorem quote_append (h : quote b z = (k, rest)) (hk : k ≠ .illegal)
    (hend : rest = [] → y.head?.any (· == b) = false) : quote b (z ++ y) = (k, rest ++ y) := by
  rw [quote] at h ⊢
  cases hz : unquote b z with
  | none =>
    rw [hz] at h
    cases h
    exact absurd rfl hk
  | some r =>
    rw [hz] at h
    cases h
    rw [unquote_append_of_end hz hend]

theorem quote_kind (hb : charClass b = .quote) (h : (quote b z).1 ≠ .illegal) :
    continues (quote b z).1 b = (· == b) := by
  funext c
  rw [quote] at h ⊢
  cases hz : unquote b z with
  | none =>
    rw [hz] at h
    exact absurd rfl h
  | some r =>
    dsimp only
    split_ifs <;> simp [continues, hb]

theorem bracket_append (h : bracket z = (k, rest)) (hk : k ≠ .illegal) :
    bracket (z ++ y) = (k, rest ++ y) := by
  rw [bracket] at h ⊢
  cases hz : z.dropWhile (· ≠ 93) with
  | nil =>
    rw [hz] at h
    cases h
    exact absurd rfl hk
  | cons c r =>
    rw [hz] at h
    cases h
    rw [dropWhile_append fun h => absurd (hz.symm.trans h) (List.cons_ne_nil c _), hz,
      List.cons_append]

theorem hexDigits_append (h : hexDigits b z = some rest)
    (hend : rest = [] → y.head?.any isXDigit = false) :
    hexDigits b (z ++ y) = some (rest ++ y) := by
  rw [hexDigits] at h ⊢
  split_ifs at h with hz
  cases h
  obtain ⟨hb, hx, hdigit⟩ := hz
  have hz : z ≠ [] := by
    rintro rfl
    simp at hx
  have htail : z.tail ≠ [] := by
    intro htail
    rw [htail] at hdigit
    cases hdigit
  have hhead : (z ++ y).head? = z.head? := by
    cases z with
    | nil => exact absurd rfl hz
    | cons c z => rfl
  rw [hhead, tail_append hz, any_head_append fun h => absurd h htail, if_pos ⟨hb, hx, hdigit⟩,
    dropWhile_append hend]

theorem fraction_append (hdigit : (fraction z).2 = [] → y.head?.any isDigit = false)
    (hdot : fraction z = (false, []) → y.head? ≠ some 46) :
    fraction (z ++ y) = ((fraction z).1, (fraction z).2 ++ y) := by
  by_cases hz : z.head? = some 46
  · have hne : z ≠ [] := by
      rintro rfl
      cases hz
    have hhead : (z ++ y).head? = some 46 := by rw [List.head?_append, hz]; rfl
    rw [fraction, if_pos hz] at hdigit
    rw [fraction, if_pos hhead, fraction, if_pos hz, tail_append hne, dropWhile_append hdigit]
  · rw [fraction, if_neg hz] at hdot
    rw [fraction, if_neg, fraction, if_neg hz]
    rw [head_append fun h => hdot (by rw [h])]
    exact hz

theorem exponent_append (hrest : exponent z = some rest)
    (hend : rest = [] → y.head?.any isDigit = false) : exponent (z ++ y) = some (rest ++ y) := by
  rw [exponent] at hrest
  split_ifs at hrest with h
  cases hrest
  obtain ⟨e, s, z, rfl⟩ : ∃ e s z', z = e :: s :: z' := by
    cases z with
    | nil => simp at h
    | cons e z =>
      cases z with
      | nil => simp at h
      | cons s z => exact ⟨e, s, z, rfl⟩
  rw [exponent, if_pos]
  · exact congrArg some (dropWhile_append hend)
  · refine ⟨h.1, h.2.imp id fun hs => ⟨hs.1, ?_⟩⟩
    cases z with
    | nil => simp at hs
    | cons d z => exact hs.2

/-- An `e` that is no exponent is a part of a word, with which no number ends. -/
theorem exponent_append_none (hword : z.head?.any inWord = false)
    (hend : z = [] → y.head?.any inWord = false) : exponent (z ++ y) = none := by
  have hany : (z ++ y).head?.any inWord = false := (any_head_append hend).trans hword
  rw [exponent, if_neg]
  rintro ⟨he | he, -⟩ <;> exact head_ne_of_any hany (by decide) he

theorem scaled_append {n : Bool × Text} (hword : (scaled n).2.head?.any inWord = false)
    (hend : (scaled n).2 = [] → y.head?.any inWord = false) :
    scaled (n.1, n.2 ++ y) = ((scaled n).1, (scaled n).2 ++ y) := by
  rw [scaled] at hword hend ⊢
  rw [scaled]
  cases h : exponent n.2 with
  | some rest =>
    rw [h] at hend
    rw [exponent_append h fun hrest => any_of_imp (hend hrest) fun c hc => by simp [inWord, hc]]
  | none =>
    rw [h] at hword hend
    rw [exponent_append_none hword hend]

theorem decimals_append (hword : (decimals b z).2.head?.any inWord = false)
    (hend : (decimals b z).2 = [] → y.head?.any inWord = false)
    (hdot : decimals b z = (false, []) → y.head? ≠ some 46) :
    decimals b (z ++ y) = ((decimals b z).1, (decimals b z).2 ++ y) := by
  have hdigit {t : Text} (hsuffix : (decimals b z).2 <:+ t) (ht : t = []) :
      y.head?.any isDigit = false := by
    rw [ht] at hsuffix
    exact any_of_imp (hend (List.suffix_nil.mp hsuffix)) fun c hc => by simp [inWord, hc]
  have hdigits := dropWhile_append (z := z) (y := y) (p := isDigit)
  rw [decimals] at hword hend hdot hdigit ⊢
  rw [decimals]
  by_cases hb : b = 46
  · rw [if_pos hb] at hword hend hdigit ⊢
    rw [if_pos hb, hdigits (hdigit (scaled_suffix _))]
    exact scaled_append (n := (true, z.dropWhile isDigit)) hword hend
  · rw [if_neg hb] at hword hend hdigit hdot ⊢
    rw [if_neg hb, hdigits (hdigit ((scaled_suffix _).trans (fraction_suffix _))),
      fraction_append (hdigit (scaled_suffix _)) fun h => hdot (by rw [h]; rfl)]
    exact scaled_append hword hend

/-- Nor does an `x` come after a whole number. -/
theorem hexDigits_append_none (hword : (decimals b z).2.head?.any inWord = false)
    (hend : (decimals b z).2 = [] → y.head?.any inWord = false) : hexDigits b (z ++ y) = none := by
  rw [hexDigits, if_neg]
  rintro ⟨rfl, hx, -⟩
  cases z with
  | nil =>
    have hy := hend rfl
    rcases hx with hx | hx <;> exact head_ne_of_any hy (by decide) hx
  | cons c t =>
    have hdecimals {x : UInt8} (hc : c = x) (hdigit : isDigit x = false) (h46 : x ≠ 46)
        (he : x ≠ 101 ∧ x ≠ 69) : decimals 48 (c :: t) = (false, c :: t) := by
      subst hc
      simp [decimals, scaled, fraction, exponent, hdigit, h46, he.1, he.2]
    rw [List.cons_append, List.head?_cons, Option.some.injEq, Option.some.injEq] at hx
    rcases hx with rfl | rfl
    · rw [hdecimals rfl (by decide) (by decide) (by decide)] at hword
      cases hword
    · rw [hdecimals rfl (by decide) (by decide) (by decide)] at hword
      cases hword

theorem number_append (h : number b z = (k, rest)) (hk : k ≠ .illegal)
    (hend : rest = [] → y.head?.any (continues k b) = false) :
    number b (z ++ y) = (k, rest ++ y) := by
  rw [number] at h ⊢
  cases hhex : hexDigits b z with
  | some r =>
    rw [hhex] at h
    cases h
    rw [hexDigits_append hhex hend]
  | none =>
    rw [hhex] at h
    dsimp only at h
    split_ifs at h with hword hfloat
    · cases h
      exact absurd rfl hk
    all_goals
      rw [Bool.not_eq_true] at hword
      cases h
      have hinWord : (decimals b z).2 = [] → y.head?.any inWord = false := fun hz =>
        any_of_imp (hend hz) fun c hc => by simp [continues, hc]
      have hdot : decimals b z = (false, []) → y.head? ≠ some 46 := fun hz => ?_
      · rw [hexDigits_append_none hword hinWord]
        dsimp only
        rw [decimals_append hword hinWord hdot, any_head_append hinWord, hword]
        simp [hfloat]
    · rw [hz] at hfloat
      cases hfloat
    · exact head_ne_of_any (hend (congrArg Prod.snd hz)) rfl

theorem element_append (h : element z = (k, rest)) (hk : k ≠ .illegal) :
    element (z ++ y) = (k, rest ++ y) := by
  rw [element] at h ⊢
  split_ifs at h with hz
  · cases h
    have hne : z.dropWhile (fun c => !isSpace c && c != 41) ≠ [] := by
      intro hnil
      rw [hnil] at hz
      cases hz
    rw [dropWhile_append fun hnil => absurd hnil hne, if_pos, tail_append hne]
    rw [List.head?_append, hz]
    rfl
  · cases h
    exact absurd rfl hk

theorem named_cons {isNamed : Bool} {c : UInt8} (hc : inWord c = true) (z : Text) :
    named isNamed (c :: z) = named true z := by
  cases z with
  | nil => simp [named, hc]
  | cons d z => rw [named, if_pos hc]

theorem named_stop {isNamed : Bool} (hz : z.head? ≠ some 58)
    (hend : z.head?.any (fun c => inWord c || (c == 40 && isNamed)) = false) :
    named isNamed z = (if isNamed then .variable else .illegal, z) := by
  fun_cases named isNamed z with
  | case1 => rfl
  | case2 c hc => simp [hc] at hend
  | case3 c hc h40 => simp [h40.1, h40.2] at hend
  | case4 => rfl
  | case5 c d z hc => simp [hc] at hend
  | case6 c d z hc h40 => simp [h40.1, h40.2] at hend
  | case7 c d z hc h40 h58 => exact absurd (congrArg some h58.1) hz
  | case8 => rfl

theorem named_append {isNamed : Bool} (h : named isNamed z = (k, rest)) (hk : k ≠ .illegal)
    (hcolon : rest ≠ [58])
    (hend : k = .variable → rest = [] →
      y.head?.any (fun c => inWord c || c == 40 || c == 58) = false) :
    named isNamed (z ++ y) = (k, rest ++ y) := by
  have hstop (hkind : k = .variable) (hrest : rest = []) : named true y = (.variable, y) :=
    named_stop (head_ne_of_any (hend hkind hrest) rfl)
      (any_of_imp (hend hkind hrest) fun c hc => by
        rw [Bool.or_eq_true, Bool.and_eq_true] at hc
        simpa [or_assoc] using hc.imp id fun hc => Or.inl (by simpa using hc.1))
  fun_induction named isNamed z with
  | case1 isNamed =>
    cases isNamed with
    | true =>
      cases h
      exact hstop rfl rfl
    | false =>
      cases h
      exact absurd rfl hk
  | case2 isNamed c hc =>
    cases h
    exact (named_cons hc y).trans (hstop rfl rfl)
  | case3 isNamed c hc h40 =>
    cases h
    exact absurd rfl hk
  | case4 isNamed c hc h40 =>
    cases h
    refine named_stop (fun h58 => hcolon (congrArg (· :: []) (Option.some.inj h58))) ?_
    simpa [hc] using h40
  | case5 isNamed c d z hc ih => exact (named_cons hc _).trans (ih h)
  | case6 isNamed c d z hc h40 =>
    rw [List.cons_append, List.cons_append, named, if_neg hc, if_pos h40, ← List.cons_append]
    exact element_append h hk
  | case7 isNamed c d z hc h40 h58 ih =>
    rw [List.cons_append, List.cons_append, named, if_neg hc, if_neg h40, if_pos h58]
    exact ih h
  | case8 isNamed c d z hc h40 h58 =>
    cases h
    rw [List.cons_append, List.cons_append, named, if_neg hc, if_neg h40, if_neg h58]

theorem blob_append (h : blob z = (k, rest)) (hk : k ≠ .illegal) :
    blob (z ++ y) = (k, rest ++ y) := by
  rw [blob] at h ⊢
  split_ifs at h with hz
  · cases h
    have hne : z.dropWhile isXDigit ≠ [] := by
      intro hnil
      rw [hnil] at hz
      cases hz.1
    have hdrop : (z ++ y).dropWhile isXDigit = z.dropWhile isXDigit ++ y :=
      dropWhile_append fun hnil => absurd hnil hne
    have htake : (z ++ y).takeWhile isXDigit = z.takeWhile isXDigit := by
      have hwhole := List.takeWhile_append_dropWhile (p := isXDigit) (l := z ++ y)
      rw [hdrop, ← List.append_assoc] at hwhole
      refine List.append_cancel_right (List.append_cancel_right hwhole |>.trans ?_)
      exact List.takeWhile_append_dropWhile.symm
    rw [hdrop, htake, if_pos, tail_append hne]
    refine ⟨?_, hz.2⟩
    rw [List.head?_append, hz.1]
    rfl
  · cases h
    exact absurd rfl hk

/-- What follows a text does not change the token at its start, unless this goes on with it. -/
theorem after_append (h : after b z = (k, rest)) (hspace : k ≠ .space) (hillegal : k ≠ .illegal)
    (hunclosed : k ≠ .unclosed) (hstar : charClass b = .slash → z ≠ [42]) (hcolon : rest ≠ [58])
    (hend : rest = [] → y.head?.any (continues k b) = false) :
    after b (z ++ y) = (k, rest ++ y) := by
  have hoperator {p : UInt8 → Bool} (hz : after b [] = (.operator, [])) (hnil : z = [])
      (hp : ∀ c, p c = true → continues .operator b c = true) : y.head?.any p = false := by
    rw [hnil, hz] at h
    cases h
    exact any_of_imp (hend rfl) hp
  cases hc : charClass b <;> simp only [after, hc] at h hoperator ⊢
  case space =>
    cases h
    exact absurd rfl hspace
  case minus =>
    exact minus_append h hunclosed fun hz =>
      hoperator rfl hz fun c hp => by simpa [continues, hc] using hp
  case slash =>
    exact slash_append h hunclosed (hstar hc) fun hz =>
      hoperator rfl hz fun c hp => by simpa [continues, hc] using hp
  case mark =>
    cases h
    rfl
  case compare =>
    refine compare_append h hillegal fun hz => ?_
    by_cases hb : b = 33
    · subst hz
      simp only [compare, hb] at h
      cases h
      exact absurd rfl hillegal
    · exact hoperator (by simp [compare, hb]) hz fun c hp => by simpa [continues, hc] using hp
  case quote =>
    have hkind := quote_kind hc (by rw [h]; exact hillegal)
    rw [h] at hkind
    exact quote_append h hillegal fun hrest => hkind ▸ hend hrest
  case quote2 => exact bracket_append h hillegal
  case digit => exact number_append h hillegal hend
  case dot =>
    rw [any_head_append fun hz => hoperator (by rfl) hz fun c hp => by
      simpa [continues, hc] using hp]
    split_ifs at h ⊢
    · exact number_append h hillegal hend
    · cases h
      rfl
  case varnum =>
    cases h
    rw [dropWhile_append hend]
  case varalpha =>
    refine named_append h hillegal hcolon fun hkind hrest => ?_
    rw [hkind] at hend
    exact hend hrest
  case x =>
    split_ifs at h with hz
    · have hne : z ≠ [] := by
        rintro rfl
        cases hz
      rw [if_pos (by rw [List.head?_append, hz]; rfl), tail_append hne]
      exact blob_append h hillegal
    · cases h
      rw [if_neg, dropWhile_append fun hrest => any_of_imp (hend hrest) fun c hp => by
        simp [continues, hp]]
      rw [head_append fun hnil => ?_]
      · exact hz
      · rw [hnil] at hend
        exact head_ne_of_any (hend rfl) rfl
  case id =>
    cases h
    rw [dropWhile_append fun hz => any_of_imp (hend hz) fun c hp => by simp [continues, hp]]
  case illegal =>
    cases h
    exact absurd rfl hillegal

end Append

/-! ### The tokens of a text -/

structure Token where
  kind : Kind
  bytes : Text
  deriving DecidableEq, Repr

/-- The token at the start of a text, of which `rest` is left. -/
def leading (z : Text) (n : Kind × Text) : Token := ⟨n.1, z.take (z.length - n.2.length)⟩

def tokensWithin : ℕ → Text → List Token
  | 0, _ => []
  | _ + 1, [] => []
  | n + 1, b :: z => leading (b :: z) (after b z) :: tokensWithin n (after b z).2

/-- The tokens of a text, blanks and comments among them. -/
def tokens (z : Text) : List Token := tokensWithin z.length z

/-- **What the parser is given**, and the comments. -/
def lex (z : Text) : List Token := (tokens z).filter fun t => t.kind != .space

section Tokens

variable {b c : UInt8} {z rest p y : Text} {k : Kind}

theorem after_length (b : UInt8) (z : Text) : (after b z).2.length ≤ z.length :=
  (after_suffix b z).length_le

theorem tokensWithin_of_le {n : ℕ} (hn : z.length ≤ n) : tokensWithin n z = tokens z := by
  have hstep : ∀ (m n : ℕ) (z : Text), z.length ≤ m → z.length ≤ n →
      tokensWithin m z = tokensWithin n z := by
    intro m
    induction m with
    | zero =>
      intro n z hm _
      rw [List.length_eq_zero_iff.mp (Nat.le_zero.mp hm)]
      cases n <;> rfl
    | succ m ih =>
      intro n z hm hn
      cases z with
      | nil => cases n <;> rfl
      | cons b z =>
        cases n with
        | zero => cases hn
        | succ n =>
          rw [List.length_cons] at hm hn
          have hlength := after_length b z
          rw [tokensWithin, tokensWithin, ih n _ (by omega) (by omega)]
  exact hstep _ _ z hn le_rfl

theorem tokens_cons (b : UInt8) (z : Text) :
    tokens (b :: z) = leading (b :: z) (after b z) :: tokens (after b z).2 := by
  rw [tokens, List.length_cons, tokensWithin, tokensWithin_of_le (after_length b z)]

theorem named_kind (isNamed : Bool) (z : Text) : (named isNamed z).1 ≠ .space := by
  have helement (z : Text) : (element z).1 ≠ .space := by
    rw [element]
    split_ifs <;> exact fun h => nomatch h
  fun_induction named isNamed z with
  | case2 => exact fun h => nomatch h
  | case3 => exact helement _
  | case5 isNamed c d z hc ih => exact ih
  | case6 => exact helement _
  | case7 isNamed c d z hc helement hd ih => exact ih
  | _ => split_ifs <;> exact fun h => nomatch h

theorem number_kind (b : UInt8) (z : Text) : (number b z).1 ≠ .space := by
  rw [number]
  cases hexDigits b z with
  | some rest => exact fun h => nomatch h
  | none =>
    dsimp only
    split_ifs <;> exact fun h => nomatch h

/-- Only blanks are a token of the kind `space`. -/
theorem class_of_space (h : after b z = (.space, rest)) :
    charClass b = .space ∧ rest = z.dropWhile isSpace := by
  have hkind := congrArg Prod.fst h
  fun_cases after b z with
  | case1 hc =>
    rw [after, hc] at h
    cases h
    exact ⟨hc, rfl⟩
  | case2 hc =>
    rw [after, hc] at hkind
    dsimp only [minus] at hkind
    split_ifs at hkind
  | case3 hc =>
    rw [after, hc] at hkind
    dsimp only [slash] at hkind
    split_ifs at hkind
    cases hclosed : closed z.tail <;> rw [hclosed] at hkind <;> cases hkind
  | case5 hc =>
    rw [after, hc] at hkind
    dsimp only [compare] at hkind
    split_ifs at hkind
  | case6 hc =>
    rw [after, hc] at hkind
    dsimp only [quote] at hkind
    cases hquote : unquote b z <;> rw [hquote] at hkind
    · cases hkind
    · dsimp only at hkind
      split_ifs at hkind
  | case7 hc =>
    rw [after, hc] at hkind
    dsimp only [bracket] at hkind
    cases hdrop : z.dropWhile (· ≠ 93) <;> rw [hdrop] at hkind <;> cases hkind
  | case8 hc =>
    rw [after, hc] at hkind
    exact absurd hkind (number_kind b z)
  | case9 hc hdigit =>
    rw [after, hc] at hkind
    dsimp only at hkind
    rw [if_pos hdigit] at hkind
    exact absurd hkind (number_kind b z)
  | case12 hc =>
    rw [after, hc] at hkind
    exact absurd hkind (named_kind false z)
  | case13 hc hquote =>
    rw [after, hc] at hkind
    dsimp only [blob] at hkind
    rw [if_pos hquote] at hkind
    split_ifs at hkind
  | case10 hc hdigit => simp [after, hc, hdigit] at hkind
  | case14 hc hquote => simp [after, hc, hquote] at hkind
  | case4 hc | case11 hc | case15 hc | case16 hc =>
    rw [after, hc] at hkind
    cases hkind

theorem tokens_ne_nil (hz : z ≠ []) : tokens z ≠ [] := by
  cases z with
  | nil => exact absurd rfl hz
  | cons b z =>
    rw [tokens_cons]
    exact List.cons_ne_nil _ _

theorem lex_space (h : after b z = (.space, rest)) : lex (b :: z) = lex rest := by
  rw [lex, tokens_cons, h]
  rfl

theorem lex_token (hk : k ≠ .space) (h : after b z = (k, rest)) :
    lex (b :: z) = leading (b :: z) (k, rest) :: lex rest := by
  rw [lex, tokens_cons, h, List.filter_cons_of_pos]
  · rfl
  · simpa [leading] using hk

/-- Blanks are no part of what the parser is given. -/
theorem lex_dropWhile (hz : z.head? ≠ some 11) : lex (z.dropWhile isSpace) = lex z := by
  cases z with
  | nil => rfl
  | cons b z =>
    cases hb : isSpace b with
    | false => simp [hb]
    | true =>
      have h11 : b ≠ 11 := fun h => hz (congrArg some h)
      have hclass : charClass b = .space := by simp [charClass, startsSpace, hb, h11]
      rw [List.dropWhile_cons, if_pos hb, lex_space (by rw [after, hclass])]

/-- Texts of whole tokens. The last two bytes `/*` are two tokens, which are a comment as soon as
anything follows. -/
def clean (p : Text) : Bool :=
  ((tokens p).all fun t => t.kind != .illegal && t.kind != .unclosed) &&
    !([⟨.operator, [47]⟩, ⟨.mark, [42]⟩] : List Token).isSuffixOf (tokens p)

/-- Whether the last token of a text goes on with a byte after it. -/
def runsOn (p : Text) (c : UInt8) : Bool :=
  (tokens p).getLast?.any fun t => continues t.kind (t.bytes.headD 0) c

theorem leading_bytes (b : UInt8) (z : Text) (n : Kind × Text) (hn : n.2 <:+ z) :
    ∃ x, (leading (b :: z) n).bytes = b :: x ∧ z = x ++ n.2 := by
  obtain ⟨x, rfl⟩ := hn
  refine ⟨x, ?_, rfl⟩
  have hlength : (b :: (x ++ n.2)).length - n.2.length = x.length + 1 := by
    rw [List.length_cons, List.length_append]
    omega
  rw [leading, hlength, List.take_succ_cons, List.take_left]

theorem leading_append (hrest : rest <:+ z) (y : Text) :
    leading (b :: z ++ y) (k, rest ++ y) = leading (b :: z) (k, rest) := by
  obtain ⟨x, hx, hz⟩ := leading_bytes b z (k, rest) hrest
  obtain ⟨x', hx', hz'⟩ := leading_bytes b (z ++ y) (k, rest ++ y) (by
    obtain ⟨u, rfl⟩ := hrest
    exact ⟨u, by rw [List.append_assoc]⟩)
  have heq : x' = x := by
    have hzy : x' ++ (rest ++ y) = x ++ (rest ++ y) := by
      rw [← hz', hz, List.append_assoc]
    exact List.append_cancel_right hzy
  rw [Token.mk.injEq]
  exact ⟨rfl, hx'.trans (by rw [heq, ← hx])⟩

theorem runsOn_last (h : after b z = (k, [])) (c : UInt8) :
    runsOn (b :: z) c = continues k b c := by
  obtain ⟨x, hx, -⟩ := leading_bytes b z (after b z) (after_suffix b z)
  rw [runsOn, tokens_cons, h]
  rw [h] at hx
  rw [show tokens ([] : Text) = [] from rfl, List.getLast?_singleton, Option.any_some, hx]
  rfl

theorem runsOn_cons (h : after b z = (k, rest)) (hrest : rest ≠ []) :
    runsOn (b :: z) = runsOn rest := by
  funext c
  rw [runsOn, tokens_cons, h, runsOn]
  cases htokens : tokens rest with
  | nil => exact absurd htokens (tokens_ne_nil hrest)
  | cons t ts => rw [List.getLast?_cons_cons]

theorem clean_cons (hp : clean (b :: z) = true) (h : after b z = (k, rest)) :
    clean rest = true ∧ k ≠ .illegal ∧ k ≠ .unclosed := by
  rw [clean, tokens_cons, h, List.all_cons] at hp
  simp only [Bool.and_eq_true, Bool.not_eq_true', bne_iff_ne, leading] at hp
  obtain ⟨⟨hk, hall⟩, hstar⟩ := hp
  refine ⟨?_, hk⟩
  rw [clean, hall, Bool.true_and, Bool.not_eq_true', Bool.eq_false_iff]
  intro hsuffix
  rw [Bool.eq_false_iff] at hstar
  rw [ne_eq, List.isSuffixOf_iff_suffix] at hstar
  exact hstar ((List.isSuffixOf_iff_suffix.mp hsuffix).trans (List.suffix_cons _ _))

theorem class_of_slash (h : charClass b = .slash) : b = 47 := by
  revert h
  fun_cases charClass b with
  | case6 _ _ _ _ _ h => exact fun _ => beq_iff_eq.mp h
  | _ => exact fun h => nomatch h

/-- A clean text does not end in `/*`, nor does a parameter in it end in `:`. -/
theorem clean_ends (hp : clean (b :: z) = true) (h : after b z = (k, rest)) :
    (charClass b = .slash → z ≠ [42]) ∧ rest ≠ [58] := by
  refine ⟨?_, ?_⟩
  · rintro hb rfl
    rw [class_of_slash hb] at hp
    exact absurd hp (by decide)
  · rintro rfl
    have hcolon := (clean_cons hp h).1
    exact absurd hcolon (by decide)

/-- The induction along the tokens of a text. -/
theorem tokens_induction {P : Text → Prop} (hnil : P [])
    (hlast : ∀ b z k, after b z = (k, []) → P (b :: z))
    (hstep : ∀ b z k rest, after b z = (k, rest) → rest ≠ [] → P rest → P (b :: z)) (p : Text) :
    P p := by
  induction hn : p.length using Nat.strong_induction_on generalizing p with
  | _ n ih =>
    cases p with
    | nil => exact hnil
    | cons b z =>
      obtain ⟨k, rest, hafter⟩ : ∃ k rest, after b z = (k, rest) := ⟨_, _, rfl⟩
      by_cases hrest : rest = []
      · rw [hrest] at hafter
        exact hlast b z k hafter
      · refine hstep b z k rest hafter hrest (ih rest.length ?_ rest rfl)
        have hlength := after_length b z
        rw [hafter] at hlength
        rw [← hn, List.length_cons]
        exact Nat.lt_succ_of_le hlength

theorem suffix_of_after (h : after b z = (k, rest)) : rest <:+ z := by
  have hsuffix := after_suffix b z
  rwa [h] at hsuffix

/-- The first token of a text that goes on after it is the same whatever follows the text. -/
theorem lex_step (hp : clean (b :: z) = true) (h : after b z = (k, rest)) (hrest : rest ≠ []) :
    ∃ ts, lex (b :: z) = ts ++ lex rest ∧ ∀ y, lex (b :: z ++ y) = ts ++ lex (rest ++ y) := by
  obtain ⟨-, hillegal, hunclosed⟩ := clean_cons hp h
  obtain ⟨hstar, hcolon⟩ := clean_ends hp h
  by_cases hspace : k = .space
  · subst hspace
    obtain ⟨hclass, hdrop⟩ := class_of_space h
    refine ⟨[], lex_space h, fun y => lex_space ?_⟩
    have happend : (z ++ y).dropWhile isSpace = rest ++ y := by
      rw [dropWhile_append fun h => absurd (hdrop.trans h) hrest, ← hdrop]
    rw [after, hclass]
    exact congrArg _ happend
  · refine ⟨[leading (b :: z) (k, rest)], lex_token hspace h, fun y => ?_⟩
    have happend := after_append h hspace hillegal hunclosed hstar hcolon (y := y)
      fun hnil => absurd hnil hrest
    rw [List.cons_append, lex_token hspace happend, ← List.cons_append,
      leading_append (suffix_of_after h)]
    rfl

/-- **What is printed has the tokens of its parts.** -/
theorem lex_append (hp : clean p = true) (hend : y.head?.any (runsOn p) = false) :
    lex (p ++ y) = lex p ++ lex y := by
  induction p using tokens_induction with
  | hnil => rfl
  | hstep b z k rest h hrest ih =>
    obtain ⟨ts, hts, happend⟩ := lex_step hp h hrest
    rw [runsOn_cons h hrest] at hend
    rw [happend, ih (clean_cons hp h).1 hend, hts, List.append_assoc]
  | hlast b z k h =>
    rw [show runsOn (b :: z) = continues k b from funext (runsOn_last h)] at hend
    by_cases hspace : k = .space
    · subst hspace
      obtain ⟨hclass, hdrop⟩ := class_of_space h
      have hspaces : after b (z ++ y) = (.space, (z ++ y).dropWhile isSpace) := by
        rw [after, hclass]
      have h11 : y.head? ≠ some 11 := head_ne_of_any hend rfl
      rw [lex_space h, List.cons_append, lex_space hspaces, List.dropWhile_append, ← hdrop]
      exact lex_dropWhile h11
    · obtain ⟨-, hillegal, hunclosed⟩ := clean_cons hp h
      obtain ⟨hstar, hcolon⟩ := clean_ends hp h
      have happend := after_append h hspace hillegal hunclosed hstar hcolon fun _ => hend
      rw [List.cons_append, lex_token hspace happend, lex_token hspace h, ← List.cons_append,
        leading_append List.nil_suffix]
      rfl

/-! ### Where a token ends -/

/-- The bytes that go on with words, numbers and parameters. -/
def joins (c : UInt8) : Bool := inWord c || c == 46 || c == 40

theorem ne_of_joins {d : UInt8} (hc : joins c = true) (hd : joins d = false) : c ≠ d := by
  rintro rfl
  rw [hd] at hc
  cases hc

theorem second_of_joins (b : UInt8) (hc : joins c = true) : second b c = false := by
  have hne {d : UInt8} (hd : joins d = false) : (c == d) = false :=
    beq_eq_false_iff_ne.mpr (ne_of_joins hc hd)
  simp [second, hne (show joins 61 = false from rfl), hne (show joins 60 = false from rfl),
    hne (show joins 62 = false from rfl), hne (show joins 124 = false from rfl)]

theorem joins_of_quote (h : charClass b = .quote) : joins b = false := by
  revert h
  fun_cases charClass b with
  | case8 _ _ _ _ _ _ _ h =>
    intro _
    simp only [Bool.or_eq_true, beq_iff_eq] at h
    rcases h with (rfl | rfl) | rfl <;> rfl
  | _ => exact fun h => nomatch h

theorem any_dropWhile {p : UInt8 → Bool} (h : z.dropWhile p = c :: y) : p c = false := by
  have := List.head?_dropWhile_not p z
  rw [h] at this
  simpa using this

theorem decimals_stops (h : decimals b z = (false, c :: y)) : c ≠ 46 := by
  rintro rfl
  have hfraction {n : Bool × Text} (hn : scaled n = (false, 46 :: y)) : n = (false, 46 :: y) := by
    rw [scaled] at hn
    cases hexponent : exponent n.2 with
    | some rest =>
      rw [hexponent] at hn
      cases hn
    | none =>
      rw [hexponent] at hn
      exact hn
  have hn := hfraction h
  split_ifs at hn
  · cases hn
  · rw [fraction] at hn
    split_ifs at hn with hdot
    · cases hn
    · rw [(Prod.mk.injEq ..).mp hn |>.2] at hdot
      exact hdot rfl

theorem number_stops (h : number b z = (k, c :: y)) : continues k b c = false := by
  rw [number] at h
  cases hhex : hexDigits b z with
  | some rest =>
    rw [hhex] at h
    cases h
    rw [hexDigits] at hhex
    split_ifs at hhex
    exact any_dropWhile (Option.some.inj hhex)
  | none =>
    rw [hhex] at h
    dsimp only at h
    split_ifs at h with hword hfloat
    · rw [← show Kind.illegal = k from congrArg Prod.fst h]
      rfl
    all_goals
      have hrest : (decimals b z).2 = c :: y := congrArg Prod.snd h
      rw [hrest, List.head?_cons, Option.any_some, Bool.not_eq_true] at hword
    · rw [← show Kind.float = k from congrArg Prod.fst h]
      exact hword
    · rw [← show Kind.integer = k from congrArg Prod.fst h]
      have hdot : c ≠ 46 := decimals_stops (Prod.ext (Bool.not_eq_true _ ▸ hfloat) hrest)
      simp [continues, hword, hdot]

theorem element_stops (h : element z = (k, c :: y)) : continues k b c = false := by
  rw [element] at h
  split_ifs at h
  · rw [← show Kind.element = k from congrArg Prod.fst h]
    rfl
  · rw [← show Kind.illegal = k from congrArg Prod.fst h]
    rfl

theorem named_stops {isNamed : Bool} (h : named isNamed z = (k, c :: y)) (hc : joins c = true) :
    continues k b c = false := by
  have hends {isNamed : Bool} (hword : ¬ inWord c = true) (h40 : ¬ (c = 40 ∧ isNamed = true)) :
      continues (if isNamed then .variable else .illegal) b c = false := by
    have h58 : c ≠ 58 := ne_of_joins hc rfl
    cases isNamed with
    | false => rfl
    | true => simpa [continues, hword, h58] using h40
  fun_induction named isNamed z with
  | case1 => cases h
  | case2 => cases h
  | case3 => exact element_stops h
  | case4 isNamed c hword h40 =>
    cases h
    exact hends hword h40
  | case5 isNamed d e z hd ih => exact ih h
  | case6 => exact element_stops h
  | case7 isNamed d e z hd helement he ih => exact ih h
  | case8 isNamed d e z hword h40 =>
    cases h
    exact hends hword h40

theorem operator_stops (hdot : charClass b = .dot → isDigit c = false) (hc : joins c = true) :
    continues .operator b c = false := by
  have h45 : c ≠ 45 := ne_of_joins hc rfl
  have h42 : c ≠ 42 := ne_of_joins hc rfl
  have hsecond := second_of_joins b hc
  cases hclass : charClass b <;> simp_all [continues]

theorem quote_stops (hc : joins c = true) : (c == b && charClass b == .quote) = false := by
  rw [Bool.and_eq_false_iff, beq_eq_false_iff_ne, beq_eq_false_iff_ne, ← not_and_or]
  rintro ⟨rfl, hb⟩
  rw [joins_of_quote hb] at hc
  cases hc

theorem word_stops (h : z.dropWhile inWord = c :: y) (hc : joins c = true) :
    continues .word b c = false := by
  have h39 : c ≠ 39 := ne_of_joins hc rfl
  simp [continues, any_dropWhile h, h39]

/-- A token ends where it cannot go on. -/
theorem after_stops (h : after b z = (k, c :: y)) (hc : joins c = true) :
    continues k b c = false := by
  have hkind := congrArg Prod.fst h
  have hrest := congrArg Prod.snd h
  dsimp only at hkind hrest
  subst hkind
  fun_cases after b z with
  | case1 => exact beq_eq_false_iff_ne.mpr (ne_of_joins (d := 11) hc rfl)
  | case2 hb =>
    rw [minus]
    split_ifs
    · dsimp only
      split_ifs <;> rfl
    · exact operator_stops (by simp [hb]) hc
  | case3 hb =>
    rw [slash]
    split_ifs
    · cases closed z.tail <;> rfl
    · exact operator_stops (by simp [hb]) hc
  | case5 hb =>
    rw [compare]
    split_ifs
    · rfl
    · rfl
    · exact operator_stops (by simp [hb]) hc
  | case6 hb =>
    rw [quote]
    cases unquote b z with
    | none => rfl
    | some r =>
      dsimp only
      split_ifs
      · exact quote_stops hc
      · exact quote_stops hc
  | case7 hb =>
    rw [bracket]
    cases z.dropWhile (· ≠ 93) with
    | nil => rfl
    | cons d rest => exact quote_stops hc
  | case8 hb =>
    rw [after, hb] at hrest
    exact number_stops (Prod.ext rfl hrest)
  | case9 hb hdigit =>
    simp only [after, hb, if_pos hdigit] at hrest
    exact number_stops (Prod.ext rfl hrest)
  | case10 hb hdigit =>
    simp only [after, hb, if_neg hdigit] at hrest
    rw [hrest, List.head?_cons, Option.any_some, Bool.not_eq_true] at hdigit
    simpa [continues, hb] using hdigit
  | case11 hb =>
    rw [after, hb] at hrest
    exact any_dropWhile hrest
  | case12 hb =>
    rw [after, hb] at hrest
    exact named_stops (Prod.ext rfl hrest) hc
  | case13 =>
    rw [blob]
    split_ifs <;> rfl
  | case14 hb hquote =>
    simp only [after, hb, if_neg hquote] at hrest
    exact word_stops hrest hc
  | case15 hb =>
    rw [after, hb] at hrest
    exact word_stops hrest hc
  | case4 | case16 => rfl

/-! ### Texts after each other -/

/-- The bytes that end every token: a blank, a closing bracket and a comma. -/
def ends (c : UInt8) : Bool := c == 32 || c == 41 || c == 44

theorem continues_of_ends (k : Kind) (b : UInt8) (hc : ends c = true) :
    continues k b c = false := by
  have hcases : c = 32 ∨ c = 41 ∨ c = 44 := by simpa [ends, or_assoc] using hc
  cases k with
  | operator =>
    rcases hcases with rfl | rfl | rfl <;> cases hb : charClass b <;>
      simp [continues, hb, second] <;> rfl
  | string | identifier =>
    rw [continues, Bool.and_eq_false_iff, beq_eq_false_iff_ne, beq_eq_false_iff_ne, ← not_and_or]
    rintro ⟨rfl, hb⟩
    rcases hcases with rfl | rfl | rfl <;> cases hb
  | _ => rcases hcases with rfl | rfl | rfl <;> rfl

theorem runsOn_of_ends (p : Text) (hc : ends c = true) : runsOn p c = false := by
  rw [runsOn]
  cases (tokens p).getLast? with
  | none => rfl
  | some t => exact continues_of_ends _ _ hc

/-- A text whose last token goes on with the text after it does not keep its tokens. -/
theorem lex_append_ne (hp : clean p = true) (hc : joins c = true) (hruns : runsOn p c = true)
    (y : Text) (x : List Token) : lex (p ++ c :: y) ≠ lex p ++ x := by
  induction p using tokens_induction with
  | hnil => cases hruns
  | hstep b z k rest h hrest ih =>
    obtain ⟨ts, hts, happend⟩ := lex_step hp h hrest
    rw [runsOn_cons h hrest] at hruns
    rw [happend, hts, List.append_assoc]
    exact fun heq => ih (clean_cons hp h).1 hruns (List.append_cancel_left heq)
  | hlast b z k h =>
    rw [runsOn_last h] at hruns
    have hspace : k ≠ .space := by
      rintro rfl
      exact ne_of_joins hc rfl (beq_iff_eq.mp hruns)
    obtain ⟨k', rest, h'⟩ : ∃ k' rest, after b (z ++ c :: y) = (k', rest) := ⟨_, _, rfl⟩
    have hspace' : k' ≠ .space := by
      rintro rfl
      rw [after, (class_of_space h').1] at h
      exact hspace (congrArg Prod.fst h).symm
    rw [List.cons_append, lex_token hspace' h', lex_token hspace h, List.cons_append]
    intro heq
    have htoken := (List.cons.inj heq).1
    have hkind : k' = k := congrArg Token.kind htoken
    obtain ⟨x', hx', hz'⟩ := leading_bytes b (z ++ c :: y) (k', rest) (suffix_of_after h')
    obtain ⟨x, hx, hz⟩ := leading_bytes b z (k, []) List.nil_suffix
    rw [htoken, hx] at hx'
    have hxx : x = x' := (List.cons.inj hx').2
    have hrest : rest = c :: y := by
      rw [hz, List.append_nil, hxx] at hz'
      exact (List.append_cancel_left hz').symm
    rw [hkind, hrest] at h'
    rw [after_stops h' hc] at hruns
    cases hruns

/-! ### Strings and whole numbers -/

/-- A string with its quotes doubled is read back. -/
theorem unquote_doubled (q : UInt8) (v : Text) :
    unquote q (v.flatMap (fun c => if c ≠ q then [c] else [q, q]) ++ [q]) = some (v, []) := by
  induction v with
  | nil => simp [unquote]
  | cons b v ih =>
    rw [List.flatMap_cons, List.append_assoc]
    by_cases hb : b = q
    · rw [if_neg (not_not.mpr hb), List.cons_append, List.cons_append, List.nil_append, unquote,
        if_pos rfl, if_pos rfl, ih, hb]
      rfl
    · rw [if_pos hb, List.cons_append, List.nil_append]
      cases hz : v.flatMap (fun c => if c ≠ q then [c] else [q, q]) ++ [q] with
      | nil => cases List.append_ne_nil_of_right_ne_nil _ (List.cons_ne_nil q []) hz
      | cons d z =>
        rw [unquote, if_neg hb, ← hz, ih]
        rfl

/-- A text that is one token. -/
theorem lex_single (hk : k ≠ .space) (h : after b z = (k, [])) : lex (b :: z) = [⟨k, b :: z⟩] := by
  rw [lex_token hk h, leading, List.length_nil, Nat.sub_zero, List.take_length]
  rfl

theorem lex_string {v : Text} (h : unquote 39 z = some (v, [])) :
    lex (39 :: z) = [⟨.string, 39 :: z⟩] := by
  refine lex_single (by decide) ?_
  rw [after, show charClass 39 = .quote from rfl]
  simp [quote, h]

/-- Digits are a whole number. -/
theorem lex_digits (hz : ∀ d ∈ b :: z, isDigit d = true) : lex (b :: z) = [⟨.integer, b :: z⟩] := by
  have hb := hz b List.mem_cons_self
  have hdrop : z.dropWhile isDigit = [] :=
    List.dropWhile_eq_nil_iff.mpr fun d hd => hz d (List.mem_cons_of_mem b hd)
  refine lex_single (by decide) ?_
  rw [after, (class_of_digit hb).1]
  exact (number_of_digits hb (by simp [hdrop])).trans (by rw [hdrop])

end Tokens

end SqlLexer
