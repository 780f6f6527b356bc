import Mathlib.Data.List.SplitBy
import Mathlib.Data.List.TakeWhile
import Mathlib.Data.Nat.Bitwise
import Mathlib.Tactic.Ring

/-!
# `OneOrBinaryTokenizer`

The tokenizer of the full-text tables reads a text character by character. A run of letters or of
digits is one token; of any other run each character is a token, and when binary tokens are on, so
is each pair of neighbours. `cursorStep` looks one character ahead, `m_subTokensLengthArray` holds
the characters of a run that have not been delivered yet, and `m_position` is zero until the first
token has been.

`characters` are the characters of a text, and `tokenRanges` is what is to be delivered for them,
run by run. `tokenizes` says that repeated calls of `nextToken` deliver that and then `Done`, for
every text, and what follows for the bytes of the text.
-/

namespace Wcdb.OneOrBinaryTokenizer

inductive UnicodeType where
  | none
  | letter
  | digit
  | symbol
  | other
  | auxiliaryOther
  deriving DecidableEq, Repr

/-- The parameters of the tokenizer, and the functions that it is configured with. -/
structure Settings where
  needBinary : Bool
  needSymbol : Bool
  needSimplifiedChinese : Bool
  skipStemming : Bool
  isSymbol : ℕ → Bool
  porterStem : List UInt8 → List UInt8
  normalizeToken : List UInt8 → List UInt8
  getSimplifiedChinese : List UInt8 → List UInt8

/-! ### Characters -/

/-- The type of a character of one byte. -/
def singleType (isSymbol : ℕ → Bool) (first : ℕ) : UnicodeType :=
  if 0x30 ≤ first ∧ first ≤ 0x39 then .digit
  else if (0x41 ≤ first ∧ first ≤ 0x5A) ∨ (0x61 ≤ first ∧ first ≤ 0x7A) then .letter
  else if isSymbol first then .symbol
  else .other

/-- The `UnicodeChar` of two or three bytes. Bytes that are missing are left out. -/
def unicodeChar (lead : ℕ) (rest : List UInt8) : ℕ :=
  rest.foldl (fun unicode b => ((unicode <<< 6) ||| (b.toNat &&& 0x3F)) % 2 ^ 16) lead

/-- The type and length that the first byte announces. -/
def announced (isSymbol : ℕ → Bool) (first : ℕ) (rest : List UInt8) : UnicodeType × ℕ :=
  if first < 0xC0 then (singleType isSymbol first, 1)
  else if first < 0xE0 then
    (if isSymbol (unicodeChar (first &&& 0x1F) (rest.take 1)) then .symbol else .other, 2)
  else if first < 0xF0 then
    (if isSymbol (unicodeChar (first &&& 0x0F) (rest.take 2)) then .symbol else .other, 3)
  else (.auxiliaryOther, if first < 0xF8 then 4 else if first < 0xFC then 5 else 6)

def stepOneUnicode (isSymbol : ℕ → Bool) : List UInt8 → UnicodeType × ℕ
  | [] => (.none, 0)
  | first :: rest =>
    let unicode := announced isSymbol first.toNat rest
    if (first :: rest).length < unicode.2 then (.none, (first :: rest).length) else unicode

/-! ### The tokenizer -/

structure State where
  position : ℕ := 0
  startOffset : ℕ := 0
  endOffset : ℕ := 0
  cursor : ℕ := 0
  cursorTokenLength : ℕ := 0
  cursorTokenType : UnicodeType := .none
  preTokenType : UnicodeType := .none
  subTokensLengthArray : List ℕ := []
  subTokensCursor : ℕ := 0
  subTokensDoubleChar : Bool := true
  tokenLength : ℕ := 0
  deriving DecidableEq, Repr

variable (c : Settings) (text : List UInt8)

def cursorStep (s : State) : State :=
  if s.cursor + s.cursorTokenLength < text.length then
    let cursor := s.cursor + s.cursorTokenLength
    let (type, length) := stepOneUnicode c.isSymbol (text.drop cursor)
    { s with cursor, cursorTokenType := type, cursorTokenLength := length }
  else { s with cursor := text.length, cursorTokenType := .none, cursorTokenLength := 0 }

/-- `while (m_cursorTokenType == BasicMultilingualPlaneSymbol)`. The loops take at most one pass for
each byte of the text. -/
def skipSymbol : ℕ → State → State
  | 0, s => s
  | fuel + 1, s =>
    if s.cursorTokenType = .symbol then skipSymbol fuel (cursorStep c text s) else s

/-- The loop over letters or digits. -/
def stepWhile : ℕ → State → State
  | 0, s => s
  | fuel + 1, s =>
    let s := cursorStep c text s
    if s.cursorTokenType = s.preTokenType then stepWhile fuel s else s

/-- The loop over other characters. -/
def pushWhile : ℕ → State → State
  | 0, s => s
  | fuel + 1, s =>
    let s := cursorStep c text
      { s with subTokensLengthArray := s.subTokensLengthArray ++ [s.cursorTokenLength] }
    if s.cursorTokenType = s.preTokenType then pushWhile fuel s else s

def subTokensStep (s : State) : State :=
  let s := { s with startOffset := s.subTokensCursor }
  let s :=
    match s.subTokensLengthArray with
    -- the array is not empty when this is called
    | [] => s
    | first :: rest =>
      if s.subTokensDoubleChar then
        match rest with
        | second :: _ =>
          { s with
            tokenLength := first + second
            subTokensDoubleChar := if c.needBinary then false else s.subTokensDoubleChar }
        | [] => { s with tokenLength := first, subTokensLengthArray := [] }
      else
        { s with
          tokenLength := first
          subTokensCursor := s.subTokensCursor + first
          subTokensLengthArray := rest
          subTokensDoubleChar := if c.needBinary then true else s.subTokensDoubleChar }
  { s with endOffset := s.startOffset + s.tokenLength }

/-- A run that is one token. -/
def wholeRun (s : State) : State :=
  let s := stepWhile c text text.length { s with startOffset := s.cursor }
  { s with endOffset := s.cursor, tokenLength := s.cursor - s.startOffset }

/-- A run of which each character is a token. -/
def characterRun (s : State) : State :=
  let s := { s with subTokensCursor := s.cursor, subTokensDoubleChar := c.needBinary }
  subTokensStep c (pushWhile c text text.length s)

/-- The `switch` over the type. `none` is `Done`. -/
def switch (s : State) : Option State :=
  match s.preTokenType with
  | .letter | .digit => some (wholeRun c text s)
  | .symbol | .other | .auxiliaryOther => some (characterRun c text s)
  | .none => none

/-- A new run. -/
def startRun (s : State) : Option State :=
  let s := if c.needSymbol then s else skipSymbol c text text.length s
  switch c text { s with preTokenType := s.cursorTokenType }

def stepNextToken (s : State) : Option State :=
  let s := if s.position = 0 then cursorStep c text s else s
  if s.subTokensLengthArray = [] then startRun c text s else some (subTokensStep c s)

/-- The bytes of the text from an offset. -/
def slice (offset length : ℕ) : List UInt8 := (text.drop offset).take length

/-- `::tolower` on bytes. -/
def toLower (b : UInt8) : UInt8 := if 0x41 ≤ b ∧ b ≤ 0x5A then b + 0x20 else b

def lemmatization (input : List UInt8) : List UInt8 :=
  if c.skipStemming then input.map toLower else c.porterStem (input.map toLower)

/-- The bytes of the token, `m_token`. -/
def genToken (s : State) : List UInt8 :=
  let token := slice text s.startOffset s.tokenLength
  if s.preTokenType = .letter then lemmatization c token
  else if s.preTokenType ≠ .other ∨ c.needSimplifiedChinese = false then c.normalizeToken token
  else if c.needBinary = false ∨ s.subTokensDoubleChar = true then
    c.getSimplifiedChinese (c.normalizeToken token)
  else
    let first := s.subTokensLengthArray.headD 0
    let second := s.subTokensLengthArray.tail.headD 0
    c.normalizeToken (c.getSimplifiedChinese (slice text s.startOffset first)) ++
      c.normalizeToken (c.getSimplifiedChinese (slice text (s.startOffset + first) second))

/-- What a call of `nextToken` returns. -/
structure Token where
  token : List UInt8
  start : ℕ
  stop : ℕ
  position : ℕ
  deriving DecidableEq, Repr

/-- `none` is `Done`. -/
def nextToken (s : State) : Option (Token × State) :=
  (stepNextToken c text s).map fun s =>
    (⟨genToken c text s, s.startOffset, s.endOffset, s.position + 1⟩,
      { s with position := s.position + 1 })

/-- Calls of `nextToken` until `Done`, at most `fuel` of them. -/
def nextTokens : ℕ → State → Option (List Token)
  | 0, _ => none
  | fuel + 1, s =>
    match nextToken c text s with
    | none => some []
    | some (token, s) => (nextTokens fuel s).map (token :: ·)

/-- The state after `loadInput`. -/
def loadInput : State := {}

/-! ### What is to be delivered -/

/-- A character of the text. -/
structure Character where
  offset : ℕ
  length : ℕ
  type : UnicodeType
  deriving DecidableEq, Repr

def Character.stop (a : Character) : ℕ := a.offset + a.length

/-- The type and length of the character at an offset. -/
def characterAt (offset : ℕ) : UnicodeType × ℕ := stepOneUnicode c.isSymbol (text.drop offset)

theorem announced_pos (isSymbol : ℕ → Bool) (first : ℕ) (rest : List UInt8) :
    0 < (announced isSymbol first rest).2 := by
  rw [announced]
  split_ifs <;> simp only <;> omega

variable {c text}

theorem characterAt_pos {offset : ℕ} (h : (characterAt c text offset).1 ≠ .none) :
    0 < (characterAt c text offset).2 := by
  rw [characterAt] at h ⊢
  cases hdrop : text.drop offset with
  | nil =>
    rw [hdrop] at h
    exact absurd rfl h
  | cons first rest =>
    rw [hdrop] at h
    dsimp only [stepOneUnicode] at h ⊢
    split_ifs at h ⊢ with hlength
    · exact absurd rfl h
    · exact announced_pos ..

variable (c text) in
theorem characterAt_le (offset : ℕ) : (characterAt c text offset).2 ≤ text.length - offset := by
  rw [characterAt, ← List.length_drop]
  cases text.drop offset with
  | nil => exact Nat.le_refl _
  | cons first rest =>
    dsimp only [stepOneUnicode]
    split_ifs with hlength
    · exact Nat.le_refl _
    · exact not_lt.mp hlength

theorem characterAt_end : characterAt c text text.length = (.none, 0) := by
  rw [characterAt, List.drop_length, stepOneUnicode]

variable (c text)

/-- The characters from an offset on; an incomplete one is none. -/
def charactersFrom (offset : ℕ) : List Character :=
  if _h : (characterAt c text offset).1 ≠ .none then
    ⟨offset, (characterAt c text offset).2, (characterAt c text offset).1⟩ ::
      charactersFrom (offset + (characterAt c text offset).2)
  else []
  termination_by text.length - offset
  decreasing_by
    have hpos := characterAt_pos _h
    have hle := characterAt_le c text offset
    omega

def characters : List Character := charactersFrom c text 0

/-- The maximal runs of characters of one type. -/
def runs (cs : List Character) : List (List Character) := cs.splitBy fun a b => a.type = b.type

/-- The ranges of the characters of a run, each after that of its pair with the next one. -/
def subTokens (needBinary : Bool) : List Character → List (ℕ × ℕ)
  | [] => []
  | [a] => [(a.offset, a.stop)]
  | a :: b :: cs =>
    (if needBinary then [(a.offset, b.stop)] else []) ++
      (a.offset, a.stop) :: subTokens needBinary (b :: cs)

/-- The range of a whole run. -/
def wholeRange (run : List Character) : List (ℕ × ℕ) :=
  match run.head?, run.getLast? with
  | some first, some last => [(first.offset, last.stop)]
  | _, _ => []

/-- The ranges that are delivered for a run. -/
def runRanges (run : List Character) : List (ℕ × ℕ) :=
  match run.head?.map Character.type with
  | some .letter | some .digit => wholeRange run
  | some .symbol => if c.needSymbol then subTokens c.needBinary run else []
  | some .other | some .auxiliaryOther => subTokens c.needBinary run
  | some .none | none => []

/-- The ranges that are delivered for some characters. -/
def rangesOf (cs : List Character) : List (ℕ × ℕ) := (runs cs).flatMap (runRanges c)

/-- **The ranges of the tokens of a text.** -/
def tokenRanges : List (ℕ × ℕ) := rangesOf c (characters c text)

/-! ### The characters of a text -/

section Characters

variable {c text} {offset : ℕ}

theorem charactersFrom_of_ne (h : (characterAt c text offset).1 ≠ .none) :
    charactersFrom c text offset =
      ⟨offset, (characterAt c text offset).2, (characterAt c text offset).1⟩ ::
        charactersFrom c text (offset + (characterAt c text offset).2) := by
  rw [charactersFrom, dif_pos h]

theorem charactersFrom_of_eq (h : (characterAt c text offset).1 = .none) :
    charactersFrom c text offset = [] := by
  rw [charactersFrom, dif_neg (not_not.mpr h)]

variable (c text) in
theorem length_charactersFrom_le (offset : ℕ) :
    (charactersFrom c text offset).length ≤ text.length - offset := by
  induction offset using charactersFrom.induct c text with
  | case1 offset h ih =>
    have hpos := characterAt_pos h
    have hle := characterAt_le c text offset
    rw [charactersFrom_of_ne h, List.length_cons]
    omega
  | case2 offset h =>
    rw [charactersFrom_of_eq (not_not.mp h)]
    exact Nat.zero_le _

/-- Characters that follow each other from an offset on. -/
def Consecutive : ℕ → List Character → Prop
  | _, [] => True
  | offset, a :: cs =>
    a.offset = offset ∧ 0 < a.length ∧ a.type ≠ .none ∧ Consecutive (offset + a.length) cs

/-- How many bytes some characters take. -/
def bytes (cs : List Character) : ℕ := (cs.map Character.length).sum

theorem consecutive_append (offset : ℕ) (xs ys : List Character) :
    Consecutive offset (xs ++ ys) ↔
      Consecutive offset xs ∧ Consecutive (offset + bytes xs) ys := by
  induction xs generalizing offset with
  | nil => simp [Consecutive, bytes]
  | cons a xs ih =>
    simp only [List.cons_append, Consecutive, ih, bytes, List.map_cons, List.sum_cons,
      Nat.add_assoc]
    tauto

variable (c text) in
theorem consecutive_charactersFrom (offset : ℕ) :
    Consecutive offset (charactersFrom c text offset) := by
  induction offset using charactersFrom.induct c text with
  | case1 offset h ih =>
    rw [charactersFrom_of_ne h]
    exact ⟨rfl, characterAt_pos h, h, ih⟩
  | case2 offset h =>
    rw [charactersFrom_of_eq (not_not.mp h)]
    trivial

theorem wholeRange_eq {a : Character} {cs : List Character} (h : Consecutive offset (a :: cs)) :
    wholeRange (a :: cs) = [(offset, offset + bytes (a :: cs))] := by
  have hlast : ∀ (cs : List Character) (a : Character) (offset : ℕ), Consecutive offset (a :: cs) →
      ((a :: cs).getLast (List.cons_ne_nil a cs)).stop = offset + bytes (a :: cs) := by
    intro cs
    induction cs with
    | nil =>
      intro a offset h
      simp [Character.stop, bytes, h.1]
    | cons b cs ih =>
      intro a offset h
      rw [List.getLast_cons (List.cons_ne_nil b cs), ih b _ h.2.2.2]
      simp [bytes, Nat.add_assoc]
  rw [wholeRange, List.head?_cons, List.getLast?_eq_getLast_of_ne_nil (List.cons_ne_nil a cs)]
  simp only [hlast cs a offset h, h.1]

end Characters

/-! ### Runs -/

section Runs

variable {c} {a : Character} {cs : List Character}

/-- The characters of the run of `a` that follow it. -/
def sameType (a : Character) (cs : List Character) : List Character :=
  cs.takeWhile fun b => b.type = a.type

/-- What follows the run of `a`. -/
def afterRun (a : Character) (cs : List Character) : List Character :=
  cs.dropWhile fun b => b.type = a.type

theorem type_of_mem_run {b : Character} (hb : b ∈ a :: sameType a cs) : b.type = a.type := by
  rcases List.mem_cons.mp hb with rfl | hb
  · rfl
  · have htype := List.mem_takeWhile_imp hb
    exact of_decide_eq_true htype

theorem runs_cons : runs (a :: cs) = (a :: sameType a cs) :: runs (afterRun a cs) := by
  have hsplit : a :: cs = (a :: sameType a cs) ++ afterRun a cs := by
    rw [List.cons_append, sameType, afterRun, List.takeWhile_append_dropWhile]
  have hchain : (a :: sameType a cs).IsChain fun b d => decide (b.type = d.type) = true := by
    refine List.Pairwise.isChain (List.pairwise_iff_forall_sublist.mpr fun {b d} hsub => ?_)
    rw [decide_eq_true_eq, type_of_mem_run (hsub.subset List.mem_cons_self),
      type_of_mem_run (hsub.subset (List.mem_cons_of_mem _ List.mem_cons_self))]
  rw [runs, hsplit, List.splitBy_append, List.splitBy_of_isChain (List.cons_ne_nil _ _) hchain]
  · rfl
  · intro b hb d hd
    have hdrop := List.head?_dropWhile_not (fun b : Character => decide (b.type = a.type)) cs
    rw [afterRun] at hd
    rw [hd] at hdrop
    rw [type_of_mem_run (List.mem_of_getLast? hb)]
    simpa [eq_comm] using hdrop

theorem rangesOf_cons :
    rangesOf c (a :: cs) = runRanges c (a :: sameType a cs) ++ rangesOf c (afterRun a cs) := by
  rw [rangesOf, runs_cons, List.flatMap_cons]
  rfl

/-- Symbols that are not requested are passed over. -/
theorem rangesOf_dropWhile_symbol (h : c.needSymbol = false) (cs : List Character) :
    rangesOf c (cs.dropWhile fun a => a.type = .symbol) = rangesOf c cs := by
  cases cs with
  | nil => rfl
  | cons a cs =>
    by_cases ha : a.type = .symbol
    · rw [rangesOf_cons, runRanges, List.head?_cons, Option.map_some, ha, h]
      simp [ha, afterRun]
    · rw [List.dropWhile_cons_of_neg (by simpa using ha)]

end Runs

/-! ### The cursor -/

section Cursor

/-- The cursor at the character at an offset. -/
def atOffset (s : State) (offset : ℕ) : State :=
  { s with
    cursor := offset
    cursorTokenType := (characterAt c text offset).1
    cursorTokenLength := (characterAt c text offset).2 }

variable {c text} {s : State} {offset fuel : ℕ}

theorem type_atOffset :
    (atOffset c text s offset).cursorTokenType = (characterAt c text offset).1 := rfl

theorem cursorStep_atOffset (h : (characterAt c text offset).1 ≠ .none) :
    cursorStep c text (atOffset c text s offset) =
      atOffset c text s (offset + (characterAt c text offset).2) := by
  have hle := characterAt_le c text offset
  have hpos := characterAt_pos h
  rw [cursorStep]
  split_ifs with hlt
  · rfl
  · have hend : offset + (characterAt c text offset).2 = text.length := by
      simp only [atOffset] at hlt
      omega
    simp only [hend, atOffset, characterAt_end]

/-- The first step. -/
theorem cursorStep_loadInput : cursorStep c text loadInput = atOffset c text loadInput 0 := by
  rw [cursorStep]
  split_ifs with hlt
  · rfl
  · have hnil : text = [] := List.length_eq_zero_iff.mp (Nat.le_zero.mp (not_lt.mp hlt))
    subst hnil
    rfl

theorem skipSymbol_atOffset (hfuel : (charactersFrom c text offset).length ≤ fuel) :
    ∃ next, skipSymbol c text fuel (atOffset c text s offset) = atOffset c text s next ∧
      charactersFrom c text next =
        (charactersFrom c text offset).dropWhile fun a => a.type = .symbol := by
  induction fuel generalizing offset with
  | zero =>
    have hnil := List.length_eq_zero_iff.mp (Nat.le_zero.mp hfuel)
    exact ⟨offset, rfl, by rw [hnil, List.dropWhile_nil]⟩
  | succ fuel ih =>
    rw [skipSymbol, type_atOffset]
    by_cases hsymbol : (characterAt c text offset).1 = .symbol
    · have hne : (characterAt c text offset).1 ≠ .none := by simp [hsymbol]
      rw [charactersFrom_of_ne hne] at hfuel ⊢
      obtain ⟨next, hskip, hnext⟩ := ih (Nat.le_of_succ_le_succ hfuel)
      rw [if_pos hsymbol, cursorStep_atOffset hne]
      exact ⟨next, hskip, by rw [hnext, List.dropWhile_cons_of_pos (by simpa using hsymbol)]⟩
    · rw [if_neg hsymbol]
      refine ⟨offset, rfl, ?_⟩
      by_cases hne : (characterAt c text offset).1 = .none
      · rw [charactersFrom_of_eq hne, List.dropWhile_nil]
      · rw [charactersFrom_of_ne hne, List.dropWhile_cons_of_neg (by simpa using hsymbol)]

/-- **The loops over a run.** Both end at what follows it, and the second one has pushed its
characters. -/
theorem loop_atOffset (hfuel : (charactersFrom c text offset).length ≤ fuel)
    {a : Character} {cs : List Character} (hcs : charactersFrom c text offset = a :: cs)
    (hpre : s.preTokenType = a.type) :
    ∃ next, next = offset + bytes (a :: sameType a cs) ∧
      charactersFrom c text next = afterRun a cs ∧
      stepWhile c text fuel (atOffset c text s offset) = atOffset c text s next ∧
      pushWhile c text fuel (atOffset c text s offset) =
        atOffset c text { s with
          subTokensLengthArray := s.subTokensLengthArray ++
            (a :: sameType a cs).map Character.length } next := by
  induction fuel generalizing offset a cs s with
  | zero =>
    rw [hcs] at hfuel
    exact absurd hfuel (Nat.not_succ_le_zero _)
  | succ fuel ih =>
    have hne : (characterAt c text offset).1 ≠ .none := by
      intro hnone
      rw [charactersFrom_of_eq hnone] at hcs
      cases hcs
    rw [charactersFrom_of_ne hne] at hcs hfuel
    obtain ⟨rfl, rfl⟩ := List.cons.inj hcs
    -- the first character of the run, then the rest of it
    have hstep : stepWhile c text (fuel + 1) (atOffset c text s offset) =
        let s := atOffset c text s (offset + (characterAt c text offset).2)
        if s.cursorTokenType = s.preTokenType then stepWhile c text fuel s else s := by
      rw [stepWhile, cursorStep_atOffset hne]
    have hpush : pushWhile c text (fuel + 1) (atOffset c text s offset) =
        let s := atOffset c text
          { s with subTokensLengthArray := s.subTokensLengthArray ++
            [(characterAt c text offset).2] }
          (offset + (characterAt c text offset).2)
        if s.cursorTokenType = s.preTokenType then pushWhile c text fuel s else s := by
      rw [← cursorStep_atOffset hne]
      rfl
    rw [hstep, hpush]
    generalize hafter : offset + (characterAt c text offset).2 = after at hfuel ⊢
    by_cases htype : (characterAt c text after).1 = s.preTokenType
    · have hne' : (characterAt c text after).1 ≠ .none := by
        rw [htype, hpre]
        exact hne
      have hcs := charactersFrom_of_ne hne'
      generalize hb : Character.mk after _ _ = b at hcs
      have hbtype : b.type = s.preTokenType := by rw [← hb, ← htype]
      have hlength := Nat.le_of_succ_le_succ hfuel
      obtain ⟨next, hnext, hrest, hstep, -⟩ := ih hlength hcs hbtype.symm
      obtain ⟨next', hnext', -, -, hpush⟩ := ih (s := { s with
        subTokensLengthArray := s.subTokensLengthArray ++ [(characterAt c text offset).2] })
        hlength hcs hbtype.symm
      obtain rfl := hnext.trans hnext'.symm
      have hsame : ∀ a : Character, a.type = b.type → ∀ cs,
          sameType a (b :: cs) = b :: sameType b cs ∧ afterRun a (b :: cs) = afterRun b cs := by
        intro a ha cs
        simp [sameType, afterRun, ha]
      obtain ⟨hrun, hafterRun⟩ := hsame ⟨offset, (characterAt c text offset).2,
        (characterAt c text offset).1⟩ (hpre.symm.trans hbtype.symm) _
      refine ⟨next, ?_, ?_, ?_, ?_⟩
      · rw [hnext, hcs, hrun, ← hafter]
        simp [bytes, Nat.add_assoc]
      · rw [hrest, hcs, hafterRun]
      · exact (if_pos htype).trans hstep
      · refine (if_pos htype).trans (hpush.trans ?_)
        rw [hcs, hrun]
        simp
    · have hstops : ∀ b ∈ (charactersFrom c text after).head?, b.type ≠ s.preTokenType := by
        intro b hb heq
        by_cases hne' : (characterAt c text after).1 = .none
        · rw [charactersFrom_of_eq hne'] at hb
          cases hb
        · rw [charactersFrom_of_ne hne'] at hb
          cases hb
          exact htype heq
      have hrun : sameType ⟨offset, (characterAt c text offset).2, (characterAt c text offset).1⟩
          (charactersFrom c text after) = [] ∧ afterRun ⟨offset, (characterAt c text offset).2,
            (characterAt c text offset).1⟩ (charactersFrom c text after) =
              charactersFrom c text after := by
        cases hcs : charactersFrom c text after with
        | nil => exact ⟨rfl, rfl⟩
        | cons b cs =>
          have hb := hstops b (by rw [hcs]; rfl)
          rw [hpre] at hb
          simp only [] at hb
          simp [sameType, afterRun, hb]
      refine ⟨after, ?_, hrun.2.symm, if_neg htype, ?_⟩
      · rw [hrun.1, ← hafter]
        simp [bytes]
      · rw [hrun.1]
        exact if_neg htype

end Cursor

/-! ### One call -/

section Call

variable {c text} {s : State} {offset : ℕ} {a : Character} {cs rest : List Character}

/-- The ranges of the characters of a run that are still to be delivered. -/
def pendingRanges (needBinary doubleChar : Bool) : List Character → List (ℕ × ℕ)
  | [] => []
  | a :: cs =>
    if doubleChar then subTokens needBinary (a :: cs)
    else (a.offset, a.stop) :: subTokens needBinary cs

theorem pendingRanges_start (needBinary : Bool) (cs : List Character) :
    pendingRanges needBinary needBinary cs = subTokens needBinary cs := by
  cases needBinary with
  | true => cases cs <;> rfl
  | false => rcases cs with _ | ⟨a, _ | ⟨b, cs⟩⟩ <;> rfl

variable (c text) in
/-- The state is about to deliver some ranges: the rest of a run, and then the characters from the
cursor on. -/
structure Reads (s : State) (pend rest : List Character) : Prop where
  array : s.subTokensLengthArray = pend.map Character.length
  consecutive : Consecutive s.subTokensCursor pend
  double : pend ≠ [] → s.subTokensDoubleChar = true → c.needBinary = true
  cursor : (s.cursorTokenType, s.cursorTokenLength) = characterAt c text s.cursor
  characters : charactersFrom c text s.cursor = rest

variable (c) in
/-- What it is about to deliver. -/
def remaining (s : State) (pend rest : List Character) : List (ℕ × ℕ) :=
  pendingRanges c.needBinary s.subTokensDoubleChar pend ++ rangesOf c rest

/-- The first range, and a state that is about to deliver the others. -/
def Delivers (c : Settings) (text : List UInt8) (s s' : State) (ranges : List (ℕ × ℕ)) : Prop :=
  s'.position = s.position ∧ ∃ pend rest, Reads c text s' pend rest ∧
    ranges = (s'.startOffset, s'.endOffset) :: remaining c s' pend rest

theorem atOffset_self (h : (s.cursorTokenType, s.cursorTokenLength) = characterAt c text s.cursor) :
    atOffset c text s s.cursor = s := by
  rw [atOffset, ← h]

/-- **A range within a run.** -/
theorem Reads.subTokensStep (h : Reads c text s (a :: cs) rest) :
    Delivers c text s (subTokensStep c s) (remaining c s (a :: cs) rest) := by
  obtain ⟨harray, ⟨hoffset, hpos, htype, hcs⟩, hdouble, hcursor, hcharacters⟩ := h
  rw [List.map_cons] at harray
  rw [remaining]
  cases hd : s.subTokensDoubleChar with
  | false =>
    -- a character
    have hstep : OneOrBinaryTokenizer.subTokensStep c s =
        { s with
          startOffset := s.subTokensCursor
          endOffset := s.subTokensCursor + a.length
          tokenLength := a.length
          subTokensCursor := s.subTokensCursor + a.length
          subTokensLengthArray := cs.map Character.length
          subTokensDoubleChar := c.needBinary } := by
      simp [OneOrBinaryTokenizer.subTokensStep, harray, hd]
    rw [hstep]
    refine ⟨rfl, cs, rest, ⟨rfl, hcs, fun _ => id, hcursor, hcharacters⟩, ?_⟩
    rw [remaining, pendingRanges_start, pendingRanges, if_neg Bool.false_ne_true, Character.stop,
      hoffset, List.cons_append]
  | true =>
    have hbinary := hdouble (List.cons_ne_nil a cs) hd
    rw [pendingRanges, if_pos rfl, hbinary]
    cases cs with
    | nil =>
      -- the last character of the run
      have hstep : OneOrBinaryTokenizer.subTokensStep c s =
          { s with
            startOffset := s.subTokensCursor
            endOffset := s.subTokensCursor + a.length
            tokenLength := a.length
            subTokensLengthArray := [] } := by
        simp [OneOrBinaryTokenizer.subTokensStep, harray, hd]
      rw [hstep]
      refine ⟨rfl, [], rest, ⟨rfl, trivial, fun h => absurd rfl h, hcursor, hcharacters⟩, ?_⟩
      rw [remaining, subTokens, Character.stop, hoffset, List.singleton_append]
      rfl
    | cons b cs =>
      -- a pair
      have hstep : OneOrBinaryTokenizer.subTokensStep c s =
          { s with
            startOffset := s.subTokensCursor
            endOffset := s.subTokensCursor + (a.length + b.length)
            tokenLength := a.length + b.length
            subTokensDoubleChar := false } := by
        simp [OneOrBinaryTokenizer.subTokensStep, harray, hbinary, hd]
      rw [hstep]
      refine ⟨rfl, a :: b :: cs, rest, ⟨harray, ⟨hoffset, hpos, htype, hcs⟩, ?_, hcursor,
        hcharacters⟩, ?_⟩
      · exact fun _ hfalse => absurd hfalse Bool.false_ne_true
      · rw [remaining, pendingRanges, if_neg Bool.false_ne_true, subTokens, if_pos rfl, hbinary,
          Character.stop, hcs.1, hoffset, Nat.add_assoc]
        rfl

variable (c text) in
/-- What a run begins with after the symbols that are not requested. -/
theorem startRun_atOffset (s : State) (offset : ℕ) :
    ∃ next, rangesOf c (charactersFrom c text next) = rangesOf c (charactersFrom c text offset) ∧
      (c.needSymbol = false → ∀ a ∈ (charactersFrom c text next).head?, a.type ≠ .symbol) ∧
      (if c.needSymbol then atOffset c text s offset
        else skipSymbol c text text.length (atOffset c text s offset)) =
          atOffset c text s next := by
  cases hneed : c.needSymbol with
  | true => exact ⟨offset, rfl, fun h => absurd h.symm Bool.false_ne_true, rfl⟩
  | false =>
    have hfuel := (length_charactersFrom_le c text offset).trans
      (Nat.sub_le text.length offset)
    obtain ⟨next, hskip, hnext⟩ := skipSymbol_atOffset (s := s) hfuel
    refine ⟨next, ?_, fun _ a ha => ?_, hskip⟩
    · rw [hnext, rangesOf_dropWhile_symbol hneed]
    · have hdrop := List.head?_dropWhile_not (fun a : Character => decide (a.type = .symbol))
        (charactersFrom c text offset)
      rw [hnext] at ha
      rw [ha] at hdrop
      simpa using hdrop

theorem consecutive_run (hcs : charactersFrom c text offset = a :: cs) :
    Consecutive offset (a :: sameType a cs) := by
  have hall := consecutive_charactersFrom c text offset
  rw [hcs, ← List.takeWhile_append_dropWhile (p := fun b => decide (b.type = a.type))
    (l := cs)] at hall
  exact ((consecutive_append offset (a :: sameType a cs) (afterRun a cs)).mp hall).1

theorem type_characterAt (hcs : charactersFrom c text offset = a :: cs) :
    (characterAt c text offset).1 = a.type ∧ a.type ≠ .none := by
  by_cases hne : (characterAt c text offset).1 = .none
  · rw [charactersFrom_of_eq hne] at hcs
    cases hcs
  · rw [charactersFrom_of_ne hne] at hcs
    cases hcs
    exact ⟨rfl, hne⟩

/-- **A run of letters or digits.** -/
theorem delivers_wholeRun {next : ℕ} (hcs : charactersFrom c text next = a :: cs)
    (harray : s.subTokensLengthArray = []) :
    Delivers c text s (wholeRun c text (atOffset c text { s with preTokenType := a.type } next))
      (wholeRange (a :: sameType a cs) ++ rangesOf c (afterRun a cs)) := by
  have hfuel := (length_charactersFrom_le c text next).trans
    (Nat.sub_le text.length next)
  obtain ⟨after, hafter, hrest, hstep, -⟩ := loop_atOffset
    (s := { s with preTokenType := a.type, startOffset := next }) hfuel hcs rfl
  have hrun : wholeRun c text (atOffset c text { s with preTokenType := a.type } next) =
      { atOffset c text { s with preTokenType := a.type, startOffset := next } after with
        endOffset := after
        tokenLength := after - next } :=
    congrArg (fun s : State =>
      { s with endOffset := s.cursor, tokenLength := s.cursor - s.startOffset }) hstep
  rw [hrun]
  refine ⟨rfl, [], afterRun a cs, ⟨harray, trivial, fun h => absurd rfl h, rfl, hrest⟩, ?_⟩
  rw [wholeRange_eq (consecutive_run hcs), ← hafter]
  rfl

/-- **A run of other characters.** -/
theorem delivers_subTokens {next : ℕ} (hcs : charactersFrom c text next = a :: cs)
    (harray : s.subTokensLengthArray = []) :
    Delivers c text s (characterRun c text (atOffset c text { s with preTokenType := a.type } next))
      (subTokens c.needBinary (a :: sameType a cs) ++ rangesOf c (afterRun a cs)) := by
  have hfuel := (length_charactersFrom_le c text next).trans
    (Nat.sub_le text.length next)
  obtain ⟨after, -, hrest, -, hpush⟩ := loop_atOffset
    (s := { s with
      preTokenType := a.type
      subTokensCursor := next
      subTokensDoubleChar := c.needBinary }) hfuel hcs rfl
  have hrun : characterRun c text (atOffset c text { s with preTokenType := a.type } next) =
      subTokensStep c (atOffset c text
        { s with
          preTokenType := a.type
          subTokensCursor := next
          subTokensDoubleChar := c.needBinary
          subTokensLengthArray := (a :: sameType a cs).map Character.length } after) := by
    rw [characterRun]
    simp only [harray, List.nil_append] at hpush
    rw [← hpush, harray]
    rfl
  rw [hrun]
  generalize ht : atOffset c text _ after = t
  have hreads : Reads c text t (a :: sameType a cs) (afterRun a cs) := by
    rw [← ht]
    exact ⟨rfl, consecutive_run hcs, fun _ => id, rfl, hrest⟩
  have hremaining : remaining c t (a :: sameType a cs) (afterRun a cs) =
      subTokens c.needBinary (a :: sameType a cs) ++ rangesOf c (afterRun a cs) := by
    rw [remaining, ← ht]
    exact congrArg (· ++ _) (pendingRanges_start ..)
  have hdelivers := hreads.subTokensStep
  rw [hremaining] at hdelivers
  exact ⟨hdelivers.1.trans (by rw [← ht]; rfl), hdelivers.2⟩

variable (c text) in
/-- **The next run.** -/
theorem startRun_delivers (s : State) (offset : ℕ) (harray : s.subTokensLengthArray = []) :
    (rangesOf c (charactersFrom c text offset) = [] ∧
        startRun c text (atOffset c text s offset) = none) ∨
      ∃ s', startRun c text (atOffset c text s offset) = some s' ∧
        Delivers c text s s' (rangesOf c (charactersFrom c text offset)) := by
  obtain ⟨next, hranges, hsymbol, hskip⟩ := startRun_atOffset c text s offset
  have hstart : startRun c text (atOffset c text s offset) =
      switch c text
        (atOffset c text { s with preTokenType := (characterAt c text next).1 } next) := by
    rw [startRun, hskip]
    rfl
  rw [← hranges, hstart, switch]
  cases hcs : charactersFrom c text next with
  | nil =>
    have hnone : (characterAt c text next).1 = .none := by
      by_contra hne
      rw [charactersFrom_of_ne hne] at hcs
      cases hcs
    refine Or.inl ⟨rfl, ?_⟩
    rw [hnone]
    rfl
  | cons a cs =>
    obtain ⟨htype, hne⟩ := type_characterAt hcs
    refine Or.inr ?_
    have hwhole := delivers_wholeRun hcs harray
    have hsub := delivers_subTokens hcs harray
    rw [htype, rangesOf_cons, runRanges, List.head?_cons, Option.map_some]
    cases ha : a.type with
    | none => exact absurd ha hne
    | letter | digit =>
      rw [ha] at hwhole
      exact ⟨_, rfl, hwhole⟩
    | symbol =>
      have hneed : c.needSymbol = true := by
        by_contra hneed
        exact hsymbol (Bool.eq_false_iff.mpr hneed) a (by rw [hcs]; rfl) ha
      rw [ha] at hsub
      simp only [hneed, if_true]
      exact ⟨_, rfl, hsub⟩
    | other | auxiliaryOther =>
      rw [ha] at hsub
      exact ⟨_, rfl, hsub⟩

/-- What the next call does. -/
def Next (c : Settings) (text : List UInt8) (s : State) (ranges : List (ℕ × ℕ)) : Prop :=
  (ranges = [] ∧ stepNextToken c text s = none) ∨
    ∃ s', stepNextToken c text s = some s' ∧ Delivers c text s s' ranges

theorem next_loadInput : Next c text loadInput (tokenRanges c text) := by
  have hstep : stepNextToken c text loadInput = startRun c text (atOffset c text loadInput 0) := by
    have hposition : loadInput.position = 0 := rfl
    rw [stepNextToken, if_pos hposition, cursorStep_loadInput]
    rfl
  rw [Next, hstep]
  exact startRun_delivers c text loadInput 0 rfl

/-- **One call**, after the first one. -/
theorem Reads.next {pend : List Character} (h : Reads c text s pend rest)
    (hposition : s.position ≠ 0) : Next c text s (remaining c s pend rest) := by
  rw [Next, stepNextToken, if_neg hposition]
  cases pend with
  | nil =>
    have hstart := startRun_delivers c text s s.cursor h.array
    rw [atOffset_self h.cursor, h.characters] at hstart
    have harray : s.subTokensLengthArray = [] := h.array
    rw [if_pos harray]
    exact hstart
  | cons a cs =>
    have harray : s.subTokensLengthArray ≠ [] := by simp [h.array]
    rw [if_neg harray]
    exact Or.inr ⟨_, rfl, h.subTokensStep⟩

/-- The byte range of a token. -/
def Token.range (t : Token) : ℕ × ℕ := (t.start, t.stop)

/-- **A whole run.** -/
theorem Next.nextTokens {ranges : List (ℕ × ℕ)} (h : Next c text s ranges) :
    ∃ tokens : List Token, tokens.map Token.range = ranges ∧
      ∀ fuel, tokens.length < fuel → nextTokens c text fuel s = some tokens := by
  induction ranges generalizing s with
  | nil =>
    rcases h with ⟨-, hnone⟩ | ⟨s', -, -, pend, rest, -, hranges⟩
    · refine ⟨[], rfl, fun fuel hfuel => ?_⟩
      obtain ⟨fuel, rfl⟩ := Nat.exists_eq_add_of_lt hfuel
      rw [OneOrBinaryTokenizer.nextTokens, nextToken, hnone]
      rfl
    · cases hranges
  | cons r ranges ih =>
    rcases h with ⟨hnil, -⟩ | ⟨s', hstep, -, pend, rest, hreads, hranges⟩
    · cases hnil
    · obtain ⟨rfl, rfl⟩ := List.cons.inj hranges
      -- the position is raised after the step
      have hraised : Reads c text { s' with position := s'.position + 1 } pend rest :=
        ⟨hreads.array, hreads.consecutive, hreads.double, hreads.cursor, hreads.characters⟩
      obtain ⟨tokens, hmap, htokens⟩ := ih (hraised.next (Nat.succ_ne_zero _))
      refine ⟨⟨genToken c text s', s'.startOffset, s'.endOffset, s'.position + 1⟩ :: tokens,
        by rw [List.map_cons, hmap]; rfl, fun fuel hfuel => ?_⟩
      obtain ⟨fuel, rfl⟩ := Nat.exists_eq_succ_of_ne_zero (Nat.ne_zero_of_lt hfuel)
      rw [OneOrBinaryTokenizer.nextTokens, nextToken, hstep]
      simp only [Option.map_some, htokens fuel (Nat.lt_of_succ_lt_succ hfuel)]

end Call

/-! ### The ranges -/

section Ranges

variable {c text} {offset stop i : ℕ} {a : Character} {cs : List Character}

/-- The character holds the byte at `i`. -/
def Character.Holds (a : Character) (i : ℕ) : Prop := a.offset ≤ i ∧ i < a.stop

/-- Some range holds the byte at `i`. -/
def Covered (ranges : List (ℕ × ℕ)) (i : ℕ) : Prop := ∃ r ∈ ranges, r.1 ≤ i ∧ i < r.2

/-- Ranges of the bytes between two offsets, by their starts. -/
structure Ordered (offset stop : ℕ) (ranges : List (ℕ × ℕ)) : Prop where
  within : ∀ r ∈ ranges, offset ≤ r.1 ∧ r.1 < r.2 ∧ r.2 ≤ stop
  sorted : ranges.Pairwise fun r r' => r.1 ≤ r'.1

theorem ordered_nil : Ordered offset stop [] := ⟨(fun _ h => nomatch h), List.Pairwise.nil⟩

theorem Ordered.append {middle : ℕ} {xs ys : List (ℕ × ℕ)} (hxs : Ordered offset middle xs)
    (hys : Ordered middle stop ys) (hoffset : offset ≤ middle) (hstop : middle ≤ stop) :
    Ordered offset stop (xs ++ ys) := by
  refine ⟨fun r hr => ?_, List.pairwise_append.mpr ⟨hxs.sorted, hys.sorted, fun r hr r' hr' => ?_⟩⟩
  · rcases List.mem_append.mp hr with hr | hr
    · have hwithin := hxs.within r hr
      omega
    · have hwithin := hys.within r hr
      omega
  · have hwithin := hxs.within r hr
    have hwithin' := hys.within r' hr'
    omega

/-- One more range in front. -/
theorem Ordered.cons {r : ℕ × ℕ} {ranges : List (ℕ × ℕ)} (h : Ordered offset stop ranges)
    (hr : r.1 = offset) (hpos : r.1 < r.2) (hstop : r.2 ≤ stop) :
    Ordered offset stop (r :: ranges) := by
  refine ⟨List.forall_mem_cons.mpr ⟨⟨hr.ge, hpos, hstop⟩, h.within⟩,
    List.pairwise_cons.mpr ⟨fun r' hr' => ?_, h.sorted⟩⟩
  exact hr.le.trans (h.within r' hr').1

theorem Ordered.mono {start : ℕ} {ranges : List (ℕ × ℕ)} (h : Ordered offset stop ranges)
    (hstart : start ≤ offset) : Ordered start stop ranges :=
  ⟨fun r hr => ⟨hstart.trans (h.within r hr).1, (h.within r hr).2⟩, h.sorted⟩

theorem covered_append {xs ys : List (ℕ × ℕ)} :
    Covered (xs ++ ys) i ↔ Covered xs i ∨ Covered ys i := by
  simp only [Covered, List.mem_append, or_and_right, exists_or]

theorem bytes_cons : bytes (a :: cs) = a.length + bytes cs := rfl

/-- Characters that follow each other hold the bytes of their range. -/
theorem holds_of_consecutive (h : Consecutive offset cs) :
    (∃ a ∈ cs, a.Holds i) ↔ offset ≤ i ∧ i < offset + bytes cs := by
  induction cs generalizing offset with
  | nil => simp [bytes]
  | cons a cs ih =>
    rw [List.exists_mem_cons_iff, ih h.2.2.2, bytes_cons, Character.Holds, Character.stop, h.1]
    omega

theorem Consecutive.le_offset (h : Consecutive offset cs) (ha : a ∈ cs) : offset ≤ a.offset := by
  induction cs generalizing offset with
  | nil => cases ha
  | cons b cs ih =>
    rcases List.mem_cons.mp ha with rfl | ha
    · exact h.1.ge
    · exact (Nat.le_add_right _ _).trans (ih h.2.2.2 ha)

/-- A byte is held by one character. -/
theorem Consecutive.eq_of_holds {b : Character} (h : Consecutive offset cs) (ha : a ∈ cs)
    (hb : b ∈ cs) (hai : a.Holds i) (hbi : b.Holds i) : a = b := by
  induction cs generalizing offset with
  | nil => cases ha
  | cons d cs ih =>
    have hstop : ∀ e ∈ cs, d.stop ≤ e.offset := by
      intro e he
      rw [Character.stop, h.1]
      exact h.2.2.2.le_offset he
    rcases List.mem_cons.mp ha with had | hamem <;> rcases List.mem_cons.mp hb with hbd | hbmem
    · rw [had, hbd]
    · rw [had] at hai
      exact absurd (hai.2.trans_le ((hstop b hbmem).trans hbi.1)) (lt_irrefl i)
    · rw [hbd] at hbi
      exact absurd (hbi.2.trans_le ((hstop a hamem).trans hai.1)) (lt_irrefl i)
    · exact ih h.2.2.2 hamem hbmem

/-- **The ranges of the characters of a run.** -/
theorem ordered_subTokens (needBinary : Bool) (h : Consecutive offset cs) :
    Ordered offset (offset + bytes cs) (subTokens needBinary cs) := by
  induction cs generalizing offset with
  | nil => exact ordered_nil
  | cons a cs ih =>
    obtain ⟨hoffset, hpos, -, hcs⟩ := h
    have hrange : a.offset < a.stop := Nat.lt_add_of_pos_right hpos
    have hstop : a.stop = offset + a.length := by rw [Character.stop, hoffset]
    have htail := (ih hcs).mono (Nat.le_add_right offset a.length)
    rw [Nat.add_assoc, ← bytes_cons] at htail
    have hend : a.stop ≤ offset + bytes (a :: cs) := by
      rw [hstop, bytes_cons]
      omega
    cases cs with
    | nil => exact ordered_nil.cons hoffset hrange hend
    | cons b cs =>
      have hfirst := htail.cons (r := (a.offset, a.stop)) hoffset hrange hend
      have hb : b.stop = offset + a.length + b.length := by rw [Character.stop, hcs.1]
      rw [subTokens]
      split_ifs
      · refine hfirst.cons (r := (a.offset, b.stop)) hoffset ?_ ?_
        · simp only
          omega
        · simp only [hb, bytes_cons]
          omega
      · exact hfirst

theorem covered_subTokens (needBinary : Bool) (h : Consecutive offset cs) :
    Covered (subTokens needBinary cs) i ↔ ∃ a ∈ cs, a.Holds i := by
  induction cs generalizing offset with
  | nil => simp [subTokens, Covered]
  | cons a cs ih =>
    cases cs with
    | nil => simp [subTokens, Covered, Character.Holds]
    | cons b cs =>
      have hb : b.offset = a.stop := by rw [h.2.2.2.1, Character.stop, h.1]
      have hcons : ∀ (r : ℕ × ℕ) ranges,
          Covered (r :: ranges) i ↔ (r.1 ≤ i ∧ i < r.2) ∨ Covered ranges i := by
        intro r ranges
        rw [Covered, List.exists_mem_cons_iff]
        rfl
      -- a pair holds what its characters hold
      have hpair : a.offset ≤ i ∧ i < b.stop → a.Holds i ∨ b.Holds i := by
        rw [Character.Holds, Character.Holds, hb]
        omega
      rw [subTokens, covered_append, hcons, ih h.2.2.2]
      constructor
      · rintro (hbinary | ha | ⟨d, hd, hdi⟩)
        · split_ifs at hbinary
          · obtain ⟨r, hr, hri⟩ := hbinary
            rw [List.mem_singleton.mp hr] at hri
            rcases hpair hri with ha | hb
            · exact ⟨a, List.mem_cons_self, ha⟩
            · exact ⟨b, List.mem_cons_of_mem _ List.mem_cons_self, hb⟩
          · obtain ⟨r, hr, -⟩ := hbinary
            cases hr
        · exact ⟨a, List.mem_cons_self, ha⟩
        · exact ⟨d, List.mem_cons_of_mem _ hd, hdi⟩
      · rintro ⟨d, hd, hdi⟩
        rcases List.mem_cons.mp hd with rfl | hd
        · exact Or.inr (Or.inl hdi)
        · exact Or.inr (Or.inr ⟨d, hd, hdi⟩)

/-- A character that is delivered. -/
def Delivered (c : Settings) (a : Character) : Prop := a.type = .symbol → c.needSymbol = true

/-- **The ranges of a run.** -/
theorem ordered_runRanges (c : Settings) (h : Consecutive offset (a :: cs)) :
    Ordered offset (offset + bytes (a :: cs)) (runRanges c (a :: cs)) := by
  have hsub := ordered_subTokens c.needBinary h
  have hwhole : Ordered offset (offset + bytes (a :: cs)) (wholeRange (a :: cs)) := by
    have hpos := h.2.1
    rw [wholeRange_eq h]
    refine ordered_nil.cons rfl ?_ (Nat.le_refl _)
    rw [bytes_cons]
    omega
  rw [runRanges, List.head?_cons, Option.map_some]
  cases a.type with
  | none => exact ordered_nil
  | letter | digit => exact hwhole
  | symbol =>
    dsimp only
    split_ifs
    · exact hsub
    · exact ordered_nil
  | other | auxiliaryOther => exact hsub

theorem covered_runRanges (c : Settings) (h : Consecutive offset (a :: cs))
    (htype : ∀ b ∈ a :: cs, b.type = a.type) :
    Covered (runRanges c (a :: cs)) i ↔ ∃ b ∈ a :: cs, Delivered c b ∧ b.Holds i := by
  have hdelivered : (∃ b ∈ a :: cs, Delivered c b ∧ b.Holds i) ↔
      Delivered c a ∧ ∃ b ∈ a :: cs, b.Holds i := by
    constructor
    · rintro ⟨b, hb, hbd, hbi⟩
      exact ⟨by rw [Delivered, ← htype b hb]; exact hbd, b, hb, hbi⟩
    · rintro ⟨had, b, hb, hbi⟩
      exact ⟨b, hb, by rw [Delivered, htype b hb]; exact had, hbi⟩
  have hsub := covered_subTokens (i := i) c.needBinary h
  have hwhole : Covered (wholeRange (a :: cs)) i ↔ ∃ b ∈ a :: cs, b.Holds i := by
    rw [wholeRange_eq h, holds_of_consecutive h]
    simp [Covered]
  rw [hdelivered, runRanges, List.head?_cons, Option.map_some, Delivered]
  have hnone := h.2.2.1
  cases ha : a.type with
  | none => exact absurd ha hnone
  | letter | digit => simpa using hwhole
  | symbol =>
    cases hneed : c.needSymbol with
    | true => simpa [hneed] using hsub
    | false => simp [Covered]
  | other | auxiliaryOther => simpa using hsub

/-- **The ranges of some characters.** -/
theorem rangesOf_spec (c : Settings) (h : Consecutive offset cs) :
    Ordered offset (offset + bytes cs) (rangesOf c cs) ∧
      ∀ i, Covered (rangesOf c cs) i ↔ ∃ a ∈ cs, Delivered c a ∧ a.Holds i := by
  induction hlength : cs.length using Nat.strong_induction_on generalizing offset cs with
  | _ n ih =>
    cases cs with
    | nil => exact ⟨ordered_nil, fun i => by simp [rangesOf, runs, Covered]⟩
    | cons a cs =>
      -- the first run, and what follows it
      have hsplit : a :: cs = (a :: sameType a cs) ++ afterRun a cs := by
        rw [List.cons_append, sameType, afterRun, List.takeWhile_append_dropWhile]
      have hall := h
      rw [hsplit] at hall
      obtain ⟨hrun, hafter⟩ := (consecutive_append ..).mp hall
      have hshorter : (afterRun a cs).length < n := by
        have hle : (afterRun a cs).length ≤ cs.length := List.length_dropWhile_le ..
        rw [← hlength, List.length_cons]
        omega
      obtain ⟨hordered, hcovered⟩ := ih _ hshorter hafter rfl
      have hbytes : bytes (a :: cs) = bytes (a :: sameType a cs) + bytes (afterRun a cs) := by
        rw [hsplit, bytes, List.map_append, List.sum_append]
        rfl
      rw [rangesOf_cons]
      refine ⟨?_, fun i => ?_⟩
      · rw [Nat.add_assoc, ← hbytes] at hordered
        refine (ordered_runRanges c hrun).append hordered (Nat.le_add_right ..) ?_
        omega
      · rw [covered_append, hcovered, covered_runRanges c hrun fun b => type_of_mem_run,
          ← exists_or]
        refine exists_congr fun b => ?_
        rw [← or_and_right, ← List.mem_append, ← hsplit]

variable (c text) in
/-- Where the last complete character ends. -/
def endOfCharacters : ℕ := bytes (characters c text)

/-- Bytes that begin with no complete character. -/
def Incomplete (isSymbol : ℕ → Bool) : List UInt8 → Prop
  | [] => True
  | first :: rest => (first :: rest).length < (announced isSymbol first.toNat rest).2

theorem incomplete_iff {isSymbol : ℕ → Bool} {bs : List UInt8} :
    Incomplete isSymbol bs ↔ (stepOneUnicode isSymbol bs).1 = .none := by
  cases bs with
  | nil => exact iff_of_true trivial rfl
  | cons first rest =>
    have hannounced : (announced isSymbol first.toNat rest).1 ≠ .none := by
      rw [announced, singleType]
      split_ifs <;> simp
    dsimp only [Incomplete, stepOneUnicode]
    split_ifs with hlength
    · exact iff_of_true hlength rfl
    · exact iff_of_false hlength hannounced

variable (c text) in
/-- The text is its characters, and then an incomplete one or nothing. -/
theorem incomplete_drop (offset : ℕ) :
    Incomplete c.isSymbol (text.drop (offset + bytes (charactersFrom c text offset))) := by
  induction offset using charactersFrom.induct c text with
  | case1 offset h ih =>
    rw [charactersFrom_of_ne h, bytes_cons, ← Nat.add_assoc]
    exact ih
  | case2 offset h =>
    rw [charactersFrom_of_eq (not_not.mp h)]
    exact incomplete_iff.mpr (not_not.mp h)

theorem add_bytes_le (offset : ℕ) (h : offset ≤ text.length) :
    offset + bytes (charactersFrom c text offset) ≤ text.length := by
  induction offset using charactersFrom.induct c text with
  | case1 offset h' ih =>
    have hle := characterAt_le c text offset
    rw [charactersFrom_of_ne h', bytes_cons, ← Nat.add_assoc]
    exact ih (by omega)
  | case2 offset h' =>
    rw [charactersFrom_of_eq (not_not.mp h')]
    exact h

theorem endOfCharacters_le : endOfCharacters c text ≤ text.length := by
  have hle := add_bytes_le (c := c) 0 (Nat.zero_le text.length)
  rwa [Nat.zero_add] at hle

/-- **The bytes that no token covers.** -/
theorem not_covered_iff :
    ¬ Covered (tokenRanges c text) i ↔
      (c.needSymbol = false ∧ ∃ a ∈ characters c text, a.type = .symbol ∧ a.Holds i) ∨
        endOfCharacters c text ≤ i := by
  have hconsecutive := consecutive_charactersFrom c text 0
  have hholds := holds_of_consecutive (i := i) hconsecutive
  rw [tokenRanges, characters, (rangesOf_spec c hconsecutive).2]
  rw [Nat.zero_add] at hholds
  constructor
  · intro hnot
    by_cases hlt : i < endOfCharacters c text
    · obtain ⟨a, ha, hai⟩ := hholds.mpr ⟨Nat.zero_le i, hlt⟩
      have hsymbol : ¬ Delivered c a := fun hdelivered => hnot ⟨a, ha, hdelivered, hai⟩
      rw [Delivered, Classical.not_imp, Bool.not_eq_true] at hsymbol
      exact Or.inl ⟨hsymbol.2, a, ha, hsymbol.1, hai⟩
    · exact Or.inr (not_lt.mp hlt)
  · rintro (⟨hneed, a, ha, hsymbol, hai⟩ | hend) ⟨b, hb, hdelivered, hbi⟩
    · obtain rfl := hconsecutive.eq_of_holds ha hb hai hbi
      exact Bool.false_ne_true (hneed.symm.trans (hdelivered hsymbol))
    · exact absurd (hholds.mp ⟨b, hb, hbi⟩).2 (not_lt.mpr hend)

end Ranges

/-- **Tokenization covers the text.** The calls of `nextToken` deliver the ranges of `tokenRanges`
and then `Done`. The ranges are non-empty, inside the text and in the order of their starts, and
leave out the symbols that are not requested and an incomplete character at the end. -/
theorem tokenizes (c : Settings) (text : List UInt8) :
    (∃ tokens : List Token, tokens.map Token.range = tokenRanges c text ∧
      ∀ fuel, tokens.length < fuel → nextTokens c text fuel loadInput = some tokens) ∧
    (∀ r ∈ tokenRanges c text, r.1 < r.2 ∧ r.2 ≤ text.length) ∧
    ((tokenRanges c text).Pairwise fun r r' => r.1 ≤ r'.1) ∧
    (∀ i, ¬ Covered (tokenRanges c text) i ↔
      (c.needSymbol = false ∧ ∃ a ∈ characters c text, a.type = .symbol ∧ a.Holds i) ∨
        endOfCharacters c text ≤ i) ∧
    Incomplete c.isSymbol (text.drop (endOfCharacters c text)) := by
  have hordered := (rangesOf_spec c (consecutive_charactersFrom c text 0)).1
  rw [Nat.zero_add] at hordered
  have hend := incomplete_drop c text 0
  rw [Nat.zero_add] at hend
  refine ⟨next_loadInput.nextTokens, fun r hr => ?_, hordered.sorted,
    fun i => not_covered_iff, hend⟩
  have hwithin := hordered.within r hr
  exact ⟨hwithin.2.1, hwithin.2.2.trans endOfCharacters_le⟩

end Wcdb.OneOrBinaryTokenizer
