import Wcdb.Fts.PhaseInstIter
import Mathlib.Data.Finset.Card
import Mathlib.Data.Finset.Lattice.Basic

/-!
# `SubstringMatchInfo`

The auxiliary function of the full-text tables for columns whose text is made of parts with
separators of several levels between them. For a row it goes over the tokens of the text and looks
for the first part that holds an instance of every phrase that the column holds. The result says
which part that is, as the numbers of separators of each level, and gives its text in pieces, with
the instances that were found apart from the rest.

`internalTokenCallback` is called for each token until it returns `Done`; `Inv` is what holds
between two calls, and `Found` what holds at the end.
-/

namespace Wcdb.SubstringMatchInfo

/-- A call of the callback of a tokenizer. -/
structure Token where
  tflags : ℕ
  token : List UInt8
  startOff : ℕ
  stopOff : ℕ
  deriving DecidableEq, Repr, Inhabited

/-- The arguments of the function. -/
structure Arguments where
  columnNum : ℤ
  seperators : List UInt8

/-- What `FTS5AuxiliaryFunctionAPI` returns for a row. -/
structure Row where
  text : List UInt8
  phraseSize : ℕ → ℕ
  insts : List Inst
  tokens : List Token

structure State where
  input : List UInt8 := []
  phaseMatchResult : ℕ → Bool := fun _ => false
  substringPhaseMatchCount : ℕ := 0
  currentPhaseMatchCount : ℕ := 0
  matchIndex : ℕ → ℕ := fun _ => 0
  tokenPos : ℕ := 0
  bytePos : ℕ := 0
  curLevelStartPos : ℕ := 0
  output : List (List UInt8 × ℤ) := []
  pIter : PhaseInstIter := {}

variable (c : Arguments) (row : Row)

def State.next (s : State) : State :=
  { s with pIter := SubstringMatchInfo.next row.phraseSize c.columnNum row.insts s.pIter }

def resetStatusFromLevel (level : ℕ) (s : State) : State :=
  { s with
    phaseMatchResult := fun _ => false
    substringPhaseMatchCount := 0
    matchIndex := fun i => if level ≤ i then 0 else s.matchIndex i
    output := []
    curLevelStartPos := s.bytePos }

/-- `none` is `-1`. -/
def checkSeperator (sep : UInt8) : Option ℕ := c.seperators.findIdx? fun x => x = sep

/-- The bytes of the text between two offsets. -/
def slice (text : List UInt8) (start stop : ℕ) : List UInt8 := (text.drop start).take (stop - start)

/-- The loop over `m_phaseIndexes`, with the count that it raises. -/
def markPhases (result : ℕ → Bool) (count : ℕ) : List ℕ → (ℕ → Bool) × ℕ
  | [] => (result, count)
  | phaseIndex :: phaseIndexes =>
    if result phaseIndex then markPhases result count phaseIndexes
    else markPhases (Function.update result phaseIndex true) (count + 1) phaseIndexes

/-- The callback where an instance begins. -/
def phaseStart (t : Token) (s : State) : State :=
  { s with
    output := if s.bytePos < t.startOff then s.output ++ [(slice s.input s.bytePos t.startOff, -1)]
      else s.output
    bytePos := t.startOff }

/-- The callback where an instance ends. `true` is `Done`. -/
def phaseEnd (t : Token) (s : State) : State × Bool :=
  let marks := markPhases s.phaseMatchResult s.substringPhaseMatchCount s.pIter.phaseIndexes
  let s := { s with
    output := s.output ++
      [(slice s.input s.bytePos t.stopOff, (s.bytePos : ℤ) - s.curLevelStartPos)]
    bytePos := t.stopOff
    phaseMatchResult := marks.1
    substringPhaseMatchCount := marks.2 }
  if s.pIter.iInst < row.insts.length ∧ s.substringPhaseMatchCount < s.currentPhaseMatchCount then
    (s.next c row, false)
  else (s, true)

/-- `true` is `Done`. -/
def internalTokenCallback (t : Token) (s : State) : State × Bool :=
  if t.tflags ≠ 0 then (s, false)
  else
    let iPos : ℤ := s.tokenPos
    let s := { s with tokenPos := s.tokenPos + 1 }
    match checkSeperator c (t.token.headD 0) with
    | some level =>
      if s.currentPhaseMatchCount ≤ s.substringPhaseMatchCount then
        ({ s with
            output := s.output ++ [(slice s.input s.bytePos t.startOff, -1)]
            bytePos := t.startOff }, true)
      else
        let s := resetStatusFromLevel (level + 1)
          { s with
            matchIndex := Function.update s.matchIndex level (s.matchIndex level + 1)
            bytePos := t.stopOff }
        if iPos = s.pIter.curPhaseEnd then phaseEnd c row t s else (s, false)
    | none =>
      let s := if iPos = s.pIter.curPhaseStart then phaseStart t s else s
      if iPos = s.pIter.curPhaseEnd then phaseEnd c row t s else (s, false)

/-- `tokenize` calls the callback until it returns `Done`. -/
def tokenize : List Token → State → State
  | [], s => s
  | t :: ts, s =>
    match internalTokenCallback c row t s with
    | (s, false) => tokenize ts s
    | (s, true) => s

/-- The loop that counts the phrases that occur in the column. It takes at most one pass for each
instance and a last one. -/
def countLoop : ℕ → State → State
  | 0, s => s
  | fuel + 1, s =>
    let marks := markPhases s.phaseMatchResult s.currentPhaseMatchCount s.pIter.phaseIndexes
    let s := { s with phaseMatchResult := marks.1, currentPhaseMatchCount := marks.2 }
    if row.insts.length ≤ s.pIter.iInst then s else countLoop fuel (s.next c row)

/-- The offset of the first separator from `m_bytePos` on, or the end of the text. -/
def nextSeperator (text : List UInt8) (start : ℕ) : ℕ :=
  start + (text.drop start).findIdx fun x => (checkSeperator c x).isSome

/-- The text behind the last instance that was found. -/
def completeOutput (s : State) : State :=
  if s.bytePos < s.input.length then
    { s with
      output := s.output ++ [(slice s.input s.bytePos (nextSeperator c s.input s.bytePos), -1)] }
  else s

/-- The digits of a number in the result. -/
def decimal (n : ℤ) : List UInt8 := (toString n).toList.map fun digit => UInt8.ofNat digit.toNat

def generateOutput (s : State) : List UInt8 :=
  let sep := c.seperators.headD 0
  let index := (List.range c.seperators.length).map fun i => decimal (s.matchIndex i)
  (index.intersperse [UInt8.ofNat 0x2C]).flatten ++ [sep] ++
    s.output.flatMap fun output =>
      if 0 ≤ output.2 then [sep] ++ output.1 ++ [sep] ++ decimal output.2 ++ [sep] else output.1

/-- The state and the text result after a row. The state before may be that of an earlier row. -/
def process (s : State) : State × Option (List UInt8) :=
  let s := { s with input := row.text, tokenPos := 0, bytePos := 0 }
  if 0 < row.text.length then
    let s := { s with
      pIter := {}
      currentPhaseMatchCount := 0
      phaseMatchResult := fun _ => false }
    let s := countLoop c row (row.insts.length + 1) (s.next c row)
    let s := { s with pIter := { s.pIter with iInst := 0 } }.next c row
    let s := completeOutput c (tokenize c row row.tokens (resetStatusFromLevel 0 s))
    (s, if s.currentPhaseMatchCount ≤ s.substringPhaseMatchCount then some (generateOutput c s)
      else none)
  else (s, none)

/-! ### What is to be found -/

/-- The level of the separator at an offset. -/
def levelAt (text : List UInt8) (i : ℕ) : Option ℕ := text[i]?.bind (checkSeperator c)

/-- **A maximal part of the text without separators.** -/
structure Segment (text : List UInt8) (start stop : ℕ) : Prop where
  start_le : start ≤ stop
  stop_le : stop ≤ text.length
  free : ∀ i, start ≤ i → i < stop → levelAt c text i = none
  begins : start = 0 ∨ ∃ i, start = i + 1 ∧ levelAt c text i ≠ none
  ends : stop = text.length ∨ levelAt c text stop ≠ none

/-- The levels of the separators before an offset. -/
def levelsBefore (text : List UInt8) (start : ℕ) : List ℕ :=
  (text.take start).filterMap (checkSeperator c)

/-- How many separators of a level there are since the last one of a smaller level. -/
def countSince (level : ℕ) (levels : List ℕ) : ℕ :=
  (levels.reverse.takeWhile fun l => level ≤ l).count level

/-- The tokens that count, in their order. -/
def positions (tokens : List Token) : List Token := tokens.filter fun t => t.tflags = 0

def tokenAt (ts : List Token) (i : ℕ) : Token := ts.getD i default

/-- The level of the separator that a token is. -/
def levelOf (t : Token) : Option ℕ := checkSeperator c (t.token.headD 0)

/-- **Tokens in which each separator is a token of its own.** -/
structure Tokenized (text : List UInt8) (ts : List Token) : Prop where
  ordered : ts.Pairwise fun t t' => t.startOff ≤ t'.startOff
  inside : ∀ t ∈ ts, t.startOff < t.stopOff ∧ t.stopOff ≤ text.length
  separator : ∀ t ∈ ts, ∀ level, levelOf c t = some level →
    levelAt c text t.startOff = some level ∧ t.stopOff = t.startOff + 1
  every : ∀ i level, levelAt c text i = some level →
    ∃ t ∈ ts, t.startOff = i ∧ levelOf c t = some level
  own : ts.Pairwise fun t t' =>
    levelOf c t ≠ none ∨ levelOf c t' ≠ none → t.stopOff ≤ t'.startOff

/-- The instances of the column. -/
def Row.spans : List Span := SubstringMatchInfo.spans row.phraseSize c.columnNum row.insts

/-- **Instances in token order that hold no separator.** -/
structure Instances (ts : List Token) : Prop where
  sized : Sized row.phraseSize c.columnNum row.insts
  sorted : (row.spans c).Pairwise fun s s' => s.first ≤ s'.first
  last_lt : ∀ s ∈ row.spans c, s.last < ts.length
  free : ∀ s ∈ row.spans c, ∀ i, s.first ≤ i → i ≤ s.last → levelOf c (tokenAt ts i) = none

/-- Instances that share no token share no byte. -/
def Apart (ts : List Token) : Prop :=
  ∀ s ∈ row.spans c, ∀ s' ∈ row.spans c, s.last < s'.first →
    (tokenAt ts s.last).stopOff ≤ (tokenAt ts s'.first).startOff

/-- The bytes of the tokens of an instance are within a part of the text. -/
def Span.Within (ts : List Token) (start stop : ℕ) (s : Span) : Prop :=
  ∀ i, s.first ≤ i → i ≤ s.last →
    start ≤ (tokenAt ts i).startOff ∧ (tokenAt ts i).stopOff ≤ stop

/-- **A part of the text holds an instance of every phrase that occurs in the column.** -/
def HoldsAll (ts : List Token) (start stop : ℕ) : Prop :=
  ∀ s ∈ row.spans c, ∃ s' ∈ row.spans c, s'.phrase = s.phrase ∧ s'.Within ts start stop

/-- The pieces are the text from an offset to another one, and each highlighted piece has its offset
from the first one. -/
structure Pieces (text : List UInt8) (start stop : ℕ) (output : List (List UInt8 × ℤ)) : Prop where
  flatten : (output.map Prod.fst).flatten = slice text start stop
  offset : ∀ before piece after, output = before ++ piece :: after → 0 ≤ piece.2 →
    piece.2 = (before.map Prod.fst).flatten.length

/-- Each highlighted piece is a piece of the text between two offsets, and carries its own offset
from the first one. -/
def Highlighted (text : List UInt8) (start stop : ℕ) (output : List (List UInt8 × ℤ)) : Prop :=
  ∀ piece ∈ output, 0 ≤ piece.2 → ∃ first last, start ≤ first ∧ first ≤ last ∧ last ≤ stop ∧
    piece = (slice text first last, (first : ℤ) - start)

/-! ### Lemmas about the parts of the text -/

section Text

variable {c} {text : List UInt8} {start middle stop i : ℕ}

theorem slice_append (hstart : start ≤ middle) (hstop : middle ≤ stop) :
    slice text start middle ++ slice text middle stop = slice text start stop := by
  have hlength : stop - start = (middle - start) + (stop - middle) := by omega
  have hdrop : start + (middle - start) = middle := by omega
  rw [slice, slice, slice, hlength, List.take_add, List.drop_drop, hdrop]

theorem length_slice (h : stop ≤ text.length) : (slice text start stop).length = stop - start := by
  rw [slice, List.length_take, List.length_drop]
  omega

theorem Pieces.nil (text : List UInt8) (start : ℕ) : Pieces text start start [] :=
  ⟨by simp [slice], fun before piece after h => by simp at h⟩

/-- One more piece. -/
theorem Pieces.append {output : List (List UInt8 × ℤ)} (h : Pieces text start middle output)
    (hstart : start ≤ middle) (hmiddle : middle ≤ stop) (hstop : stop ≤ text.length) {k : ℤ}
    (hk : 0 ≤ k → k = (middle : ℤ) - start) :
    Pieces text start stop (output ++ [(slice text middle stop, k)]) := by
  refine ⟨?_, fun before piece after hsplit hpiece => ?_⟩
  · rw [List.map_append, List.flatten_append, h.flatten, List.map_singleton, List.flatten_singleton,
      slice_append hstart hmiddle]
  · rcases after.eq_nil_or_concat' with rfl | ⟨after, last, rfl⟩
    · obtain ⟨rfl, rfl⟩ := List.append_singleton_inj.mp hsplit
      rw [h.flatten, length_slice (hmiddle.trans hstop), hk hpiece]
      omega
    · have hsplit' : output ++ [(slice text middle stop, k)] =
          (before ++ piece :: after) ++ [last] := by
        rw [hsplit, List.append_assoc, List.cons_append]
      exact h.offset before piece after (List.append_singleton_inj.mp hsplit').1 hpiece

theorem Highlighted.nil (text : List UInt8) (start stop : ℕ) : Highlighted text start stop [] :=
  fun _ hpiece => nomatch hpiece

/-- One more piece: one that is not highlighted, or one of the part with its offset. -/
theorem Highlighted.append {output : List (List UInt8 × ℤ)} (h : Highlighted text start stop output)
    {piece : List UInt8 × ℤ}
    (hpiece : 0 ≤ piece.2 → ∃ first last, start ≤ first ∧ first ≤ last ∧ last ≤ stop ∧
      piece = (slice text first last, (first : ℤ) - start)) :
    Highlighted text start stop (output ++ [piece]) := by
  intro piece' hmem hnonneg
  rcases List.mem_append.mp hmem with hmem | hmem
  · exact h piece' hmem hnonneg
  · obtain rfl := List.mem_singleton.mp hmem
    exact hpiece hnonneg

theorem Highlighted.append_plain {output : List (List UInt8 × ℤ)}
    (h : Highlighted text start stop output) (bytes : List UInt8) :
    Highlighted text start stop (output ++ [(bytes, -1)]) :=
  h.append fun hnonneg : (0 : ℤ) ≤ -1 => absurd hnonneg (by decide)

theorem levelAt_lt (h : levelAt c text i ≠ none) : i < text.length := by
  by_contra hlength
  rw [levelAt, List.getElem?_eq_none (not_lt.mp hlength)] at h
  exact h rfl

theorem levelsBefore_succ (i : ℕ) :
    levelsBefore c text (i + 1) = levelsBefore c text i ++ (levelAt c text i).toList := by
  rw [levelsBefore, List.take_add_one, List.filterMap_append, ← levelsBefore, levelAt]
  cases text[i]? with
  | none => rfl
  | some x => cases hx : checkSeperator c x <;> simp [hx]

theorem levelsBefore_eq (hle : start ≤ stop)
    (hfree : ∀ i, start ≤ i → i < stop → levelAt c text i = none) :
    levelsBefore c text stop = levelsBefore c text start := by
  induction stop, hle using Nat.le_induction with
  | base => rfl
  | succ stop hle ih =>
    rw [levelsBefore_succ, hfree stop hle (Nat.lt_succ_self stop), Option.toList_none,
      List.append_nil]
    exact ih fun i hi hlt => hfree i hi (Nat.lt_succ_of_lt hlt)

/-- One more separator. -/
theorem countSince_append (level last : ℕ) (levels : List ℕ) :
    countSince level (levels ++ [last]) =
      if level < last then countSince level levels
      else if last = level then countSince level levels + 1 else 0 := by
  rw [countSince, List.reverse_append, List.reverse_singleton, List.singleton_append,
    List.takeWhile_cons]
  split_ifs with hle hlt heq heq
  · rw [List.count_cons_of_ne hlt.ne', countSince]
  · rw [heq, List.count_cons_self, countSince]
  · exact absurd (of_decide_eq_true hle) (by omega)
  · exact absurd hle (by simp; omega)
  · exact absurd hle (by simp; omega)
  · rfl

theorem nextSeperator_spec (h : start ≤ text.length) :
    start ≤ nextSeperator c text start ∧ nextSeperator c text start ≤ text.length ∧
      (∀ i, start ≤ i → i < nextSeperator c text start → levelAt c text i = none) ∧
      (nextSeperator c text start = text.length ∨
        levelAt c text (nextSeperator c text start) ≠ none) := by
  have hle : (text.drop start).findIdx (fun x => (checkSeperator c x).isSome) ≤
      (text.drop start).length := List.findIdx_le_length
  rw [List.length_drop] at hle
  refine ⟨Nat.le_add_right _ _, ?_, fun i hi hlt => ?_, ?_⟩
  · rw [nextSeperator]
    omega
  · rw [nextSeperator] at hlt
    obtain ⟨k, rfl⟩ := Nat.exists_eq_add_of_le hi
    have hk := List.not_of_lt_findIdx (Nat.lt_of_add_lt_add_left hlt)
    rw [List.getElem_drop] at hk
    have hlength : start + k < text.length := by omega
    rw [levelAt, List.getElem?_eq_getElem hlength]
    simpa using hk
  · by_cases hlt : (text.drop start).findIdx (fun x => (checkSeperator c x).isSome) <
        (text.drop start).length
    · have hsome := List.findIdx_getElem (w := hlt)
      rw [List.getElem_drop] at hsome
      refine Or.inr ?_
      rw [List.length_drop] at hlt
      have hlength : nextSeperator c text start < text.length := by
        rw [nextSeperator]
        omega
      rw [levelAt, List.getElem?_eq_getElem hlength]
      exact Option.isSome_iff_ne_none.mp hsome
    · refine Or.inl ?_
      rw [List.length_drop] at hlt
      rw [nextSeperator]
      omega

end Text

end Wcdb.SubstringMatchInfo
