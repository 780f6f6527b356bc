import Wcdb.Fts.TokenCallback

/-!
# The result of `SubstringMatchInfo`

`process` counts the phrases that occur in the column, goes over the tokens and completes the text
of the part that was found. For a text that is not empty, `process_finds` says that there is a
result exactly when a part of the text holds every phrase, that it is about the first such part,
that each highlighted piece carries its offset in the part, and that the pieces are the text of the
part, as long as instances that share no token share no byte.

An empty text has no result, though its one part holds all of no phrases; and where tokens overlap,
the bytes that two instances share are given twice. `not_finds` has both.
-/

namespace Wcdb.SubstringMatchInfo

variable {c : Arguments} {row : Row} {s : State} {gs : List Group} {phrases : Finset ℕ}

/-! ### Before the first token -/

/-- Tokens with flags are passed over. -/
theorem tokenize_positions (tokens : List Token) (s : State) :
    tokenize c row tokens s = tokenize c row (positions tokens) s := by
  induction tokens generalizing s with
  | nil => rfl
  | cons t ts ih =>
    by_cases hflags : t.tflags = 0
    · rw [positions, List.filter_cons_of_pos (by simpa using hflags), tokenize, tokenize]
      cases internalTokenCallback c row t s with
      | mk s' done =>
        cases done with
        | false => exact ih s'
        | true => rfl
    · rw [positions, List.filter_cons_of_neg (by simpa using hflags), tokenize,
        internalTokenCallback, if_pos hflags]
      exact ih s

theorem length_groupsFrom_le (g : Group) (ss : List Span) :
    (groupsFrom g ss).length ≤ ss.length + 1 := by
  induction ss generalizing g with
  | nil => exact Nat.le_refl _
  | cons s ss ih =>
    rw [groupsFrom]
    split_ifs
    · exact (ih _).trans (Nat.le_succ _)
    · exact Nat.succ_le_succ (ih _)

theorem length_groups_le (c : Arguments) (row : Row) :
    (row.groups c).length ≤ row.insts.length := by
  have hgroups : ∀ ss : List Span, (groups ss).length ≤ ss.length := by
    intro ss
    cases ss with
    | nil => exact Nat.le_refl _
    | cons s ss => exact length_groupsFrom_le _ ss
  refine (hgroups _).trans ?_
  rw [Row.spans, spans, List.length_map]
  exact List.length_filter_le ..

/-- **The loop that counts the phrases.** -/
theorem countLoop_spec (hsized : Sized row.phraseSize c.columnNum row.insts) {fuel : ℕ}
    (hreads : s.pIter.Reads row.phraseSize c.columnNum row.insts gs)
    (hmarked : Marked s.phaseMatchResult s.currentPhaseMatchCount phrases)
    (hfuel : gs.length < fuel) :
    (countLoop c row fuel s).currentPhaseMatchCount = (phrases ∪ phrasesOf gs).card ∧
      (countLoop c row fuel s).input = s.input ∧
      (countLoop c row fuel s).tokenPos = s.tokenPos ∧
      (countLoop c row fuel s).bytePos = s.bytePos := by
  induction fuel generalizing s gs phrases with
  | zero => exact absurd hfuel (Nat.not_lt_zero _)
  | succ fuel ih =>
    have hmarks := hmarked.markPhases s.pIter.phaseIndexes
    rw [countLoop]
    cases gs with
    | nil =>
      obtain ⟨⟨-, -, hindexes⟩, hlength⟩ := hreads
      rw [hindexes] at hmarks
      simp only [hindexes, if_pos hlength]
      refine ⟨hmarks.card.trans ?_, trivial, trivial, trivial⟩
      rfl
    | cons g gs =>
      obtain ⟨⟨-, -, hindexes⟩, hgroups⟩ := hreads
      have hunion :
        phrases ∪ phrasesOf (g :: gs) = phrases ∪ g.phrases.toFinset ∪ phrasesOf gs := by
        rw [phrasesOf, List.flatMap_cons, List.toFinset_append, Finset.union_assoc, ← phrasesOf]
      rw [hindexes] at hmarks
      simp only [hindexes, hunion]
      by_cases hlength : row.insts.length ≤ s.pIter.iInst
      · have hnil : gs = [] := by
          rw [← hgroups, List.drop_eq_nil_of_le hlength]
          rfl
        simp only [if_pos hlength, hnil]
        refine ⟨hmarks.card.trans ?_, trivial, trivial, trivial⟩
        simp [phrasesOf]
      · simp only [if_neg hlength]
        have hnext := next_reads hsized s.pIter
        rw [hgroups] at hnext
        exact ih hnext hmarks (Nat.lt_of_succ_lt_succ hfuel)

/-- The state before the first token. -/
def startState (c : Arguments) (row : Row) (s : State) : State :=
  let s := { s with
    input := row.text
    tokenPos := 0
    bytePos := 0
    pIter := {}
    currentPhaseMatchCount := 0
    phaseMatchResult := fun _ => false }
  let s := countLoop c row (row.insts.length + 1) (s.next c row)
  resetStatusFromLevel 0 ({ s with pIter := { s.pIter with iInst := 0 } }.next c row)

theorem inv_startState (s : State) (ht : Tokenized c row.text (positions row.tokens))
    (hi : Instances c row (positions row.tokens)) :
    Inv c row (positions row.tokens) 0 [] (row.groups c) (startState c row s) := by
  have hnext : ∀ it : PhaseInstIter, it.iInst = 0 →
      (next row.phraseSize c.columnNum row.insts it).Reads row.phraseSize c.columnNum row.insts
        (row.groups c) := by
    intro it hzero
    have hreads := next_reads hi.sized it
    rw [hzero, List.drop_zero] at hreads
    exact hreads
  obtain ⟨htotal, hinput, htokenPos, hbytePos⟩ := countLoop_spec (s := State.next c row { s with
    input := row.text
    tokenPos := 0
    bytePos := 0
    pIter := {}
    currentPhaseMatchCount := 0
    phaseMatchResult := fun _ => false }) hi.sized (hnext {} rfl) Marked.empty
      (Nat.lt_succ_of_le (length_groups_le c row))
  rw [Finset.empty_union] at htotal
  have hstart : (startState c row s).curLevelStartPos = 0 := hbytePos
  refine ⟨?_, ?_, ?_⟩
  · rw [hstart]
    exact
      { groups := rfl
        last_lt := fun g hg => nomatch hg
        le_last := fun g _ => Nat.zero_le _
        begins := Or.inl rfl
        pending := fun i level _ hlevel => by
          obtain ⟨j, hj, hjstart, hjof⟩ := ht.exists_token hlevel
          exact ⟨j, Nat.zero_le j, hj, hjstart, hjof⟩
        earlier := fun start _ _ _ => Nat.zero_le start }
  · exact
      { input := hinput
        tokenPos := htokenPos
        reads := hnext _ rfl
        start_le := Nat.le_refl _
        le_length := hbytePos.trans_le (Nat.zero_le _)
        pieces := fun _ => Pieces.nil _ _
        highlighted := fun _ _ => Highlighted.nil _ _ _
        within := fun g _ hlt => absurd hlt (Nat.not_lt_zero _)
        between := fun _ => Or.inl rfl
        marked := Marked.empty
        total := htotal
        index := fun level => by
          rw [hstart]
          rfl }
  · cases hgroups : row.groups c with
    | nil => exact Or.inr rfl
    | cons g gs =>
      have hg : g ∈ row.groups c := by
        rw [hgroups]
        exact List.mem_cons_self
      obtain ⟨x, hx, -⟩ := (hi.of_mem hg).begins
      have hp : x.phrase ∈ phrasesOf (row.groups c) := hi.mem_phrases.mpr ⟨x, hx, rfl⟩
      refine Or.inl (lt_of_lt_of_eq (Finset.card_pos.mpr ⟨x.phrase, hp⟩) ?_)
      exact htotal.symm

/-! ### The result -/

variable (c row) in
/-- **The result is about the first part that holds every phrase**, and its numbers are those of the
separators before it. -/
structure Result (start stop : ℕ) (s : State) : Prop where
  segment : Segment c row.text start stop
  holds : HoldsAll c row (positions row.tokens) start stop
  first : ∀ start' stop', Segment c row.text start' stop' →
    HoldsAll c row (positions row.tokens) start' stop' → start ≤ start'
  index : ∀ level, s.matchIndex level = countSince level (levelsBefore c row.text start)

/-- The text of the part is completed up to the next separator. -/
theorem Found.complete (h : Found c row (positions row.tokens) s) :
    ∃ stop, Result c row s.curLevelStartPos stop (completeOutput c s) ∧
      Highlighted row.text s.curLevelStartPos stop (completeOutput c s).output ∧
      (Apart c row (positions row.tokens) →
        Pieces row.text s.curLevelStartPos stop (completeOutput c s).output) := by
  obtain ⟨hle, hlength, hfree, hend⟩ := nextSeperator_spec (c := c) h.le_length
  generalize hstop : nextSeperator c row.text s.bytePos = stop at hle hlength hfree hend
  have hsegment : Segment c row.text s.curLevelStartPos stop := by
    refine ⟨h.start_le.trans hle, hlength, fun i hi hlt => ?_, h.begins, hend⟩
    by_cases hi' : i < s.bytePos
    · exact h.free i hi hi'
    · exact hfree i (not_lt.mp hi') hlt
  refine ⟨stop, ⟨hsegment, h.holds stop hsegment, h.earlier, ?_⟩, ?_, fun hapart => ?_⟩
  · rw [completeOutput]
    split_ifs <;> exact h.index
  · rw [completeOutput]
    split_ifs
    · exact (h.highlighted stop hsegment).append_plain _
    · exact h.highlighted stop hsegment
  · rw [completeOutput, h.input, hstop]
    split_ifs with hlt
    · exact (h.pieces hapart).append h.start_le hle hlength fun hneg => absurd hneg (by decide)
    · have hsame : stop = s.bytePos := by
        have hall := h.le_length.antisymm (not_lt.mp hlt)
        omega
      rw [hsame]
      exact h.pieces hapart

theorem completeOutput_counts (s : State) :
    (completeOutput c s).currentPhaseMatchCount = s.currentPhaseMatchCount ∧
      (completeOutput c s).substringPhaseMatchCount = s.substringPhaseMatchCount := by
  rw [completeOutput]
  split_ifs <;> exact ⟨rfl, rfl⟩

/-- **Substring match info finds the right part.** For a text that is not empty, there is a result
exactly when a part of the text holds every phrase that occurs in the column. The result is about
the first such part, whatever the state before, and each highlighted piece is a piece of it that
carries its offset. When instances that share no token share no byte, the pieces are the text of the
part. -/
theorem process_finds (c : Arguments) (row : Row) (s : State) (hne : row.text ≠ [])
    (ht : Tokenized c row.text (positions row.tokens))
    (hi : Instances c row (positions row.tokens)) :
    ((process c row s).2.isSome ↔ ∃ start stop, Segment c row.text start stop ∧
      HoldsAll c row (positions row.tokens) start stop) ∧
    ∀ output, (process c row s).2 = some output →
      output = generateOutput c (process c row s).1 ∧
      ∃ start stop, Result c row start stop (process c row s).1 ∧
        Highlighted row.text start stop (process c row s).1.output ∧
        (Apart c row (positions row.tokens) →
          Pieces row.text start stop (process c row s).1.output) := by
  generalize hend : tokenize c row row.tokens (startState c row s) = final
  have houtcome : Outcome c row (positions row.tokens) final := by
    have hinv := (inv_startState s ht hi).tokenize ht hi (Nat.zero_le _)
      fun t ht => of_decide_eq_true (List.mem_filter.mp ht).2
    rwa [List.drop_zero, ← tokenize_positions, hend] at hinv
  have hprocess : process c row s = (completeOutput c final,
      if final.currentPhaseMatchCount ≤ final.substringPhaseMatchCount then
        some (generateOutput c (completeOutput c final)) else none) := by
    have hpos : 0 < row.text.length := List.length_pos_iff.mpr hne
    rw [← (completeOutput_counts (c := c) final).1,
      ← (completeOutput_counts (c := c) final).2, ← hend]
    exact if_pos hpos
  rw [hprocess]
  rcases houtcome with ⟨hle, hfound⟩ | ⟨hlt, hnone⟩
  · obtain ⟨stop, hresult, hhighlighted, hpieces⟩ := hfound.complete
    simp only [if_pos hle, Option.isSome_some, true_iff, Option.some.injEq]
    refine ⟨⟨_, stop, hresult.segment, hresult.holds⟩, fun output houtput => ?_⟩
    exact ⟨houtput.symm, _, stop, hresult, hhighlighted, hpieces⟩
  · simp only [if_neg (not_le.mpr hlt), Option.isSome_none, Bool.false_eq_true, false_iff]
    refine ⟨?_, fun output houtput => nomatch houtput⟩
    rintro ⟨start, stop, hsegment, hall⟩
    exact hnone start stop hsegment hall

/-- The first column, with a semicolon as the only separator. -/
def semicolon : Arguments := ⟨0, [0x3B]⟩

/-- The text `a;b`, with an instance at `b`. -/
def twoParts : Row where
  text := [0x61, 0x3B, 0x62]
  phraseSize _ := 1
  insts := [⟨0, 0, 2⟩]
  tokens := [⟨0, [0x61], 0, 1⟩, ⟨0, [0x3B], 1, 2⟩, ⟨0, [0x62], 2, 3⟩]

theorem process_finds_twoParts : ∃ start stop,
    Result semicolon twoParts start stop (process semicolon twoParts {}).1 := by
  have ht : Tokenized semicolon twoParts.text (positions twoParts.tokens) := by
    refine ⟨by decide, by decide, ?_, fun i level hlevel => ?_, by decide⟩
    · intro t ht level hlevel
      have hmem : t = ⟨0, [0x61], 0, 1⟩ ∨ t = ⟨0, [0x3B], 1, 2⟩ ∨ t = ⟨0, [0x62], 2, 3⟩ := by
        simpa [twoParts, positions] using ht
      rcases hmem with rfl | rfl | rfl
      · cases hlevel
      · exact ⟨hlevel, rfl⟩
      · cases hlevel
    · have hlt : i < 3 := levelAt_lt (by rw [hlevel]; exact Option.some_ne_none level)
      match i with
      | 0 => cases hlevel
      | 1 => exact ⟨⟨0, [0x3B], 1, 2⟩, by decide, rfl, hlevel⟩
      | 2 => cases hlevel
      | i + 3 => omega
  have hi : Instances semicolon twoParts (positions twoParts.tokens) :=
    ⟨fun _ _ _ => Nat.one_pos, by decide, by decide, fun s hs i hfirst hlast => by
      have hspans : twoParts.spans semicolon = [⟨0, 2, 2⟩] := by decide
      rw [hspans] at hs
      obtain rfl := List.mem_singleton.mp hs
      obtain rfl : i = 2 := by
        simp only at hfirst hlast
        omega
      rfl⟩
  have hsome : (process semicolon twoParts {}).2.isSome = true := by decide
  obtain ⟨output, houtput⟩ := Option.isSome_iff_exists.mp hsome
  obtain ⟨-, start, stop, hresult, -⟩ :=
    (process_finds semicolon twoParts {} (by decide) ht hi).2 output houtput
  exact ⟨start, stop, hresult⟩

/-- Everything that `process_finds` says, for every text and all tokens. -/
def Finds (c : Arguments) (row : Row) (s : State) : Prop :=
  ((process c row s).2.isSome ↔ ∃ start stop, Segment c row.text start stop ∧
    HoldsAll c row (positions row.tokens) start stop) ∧
  ∀ output, (process c row s).2 = some output → ∃ start stop,
    Result c row start stop (process c row s).1 ∧
      Pieces row.text start stop (process c row s).1.output

/-- A row whose column is empty. -/
def emptyText : Row := ⟨[], fun _ => 1, [], []⟩

/-- The text `abc` with the tokens `ab` and `bc`, and an instance at each. -/
def overlapping : Row where
  text := [0x61, 0x62, 0x63]
  phraseSize _ := 1
  insts := [⟨0, 0, 0⟩, ⟨1, 0, 1⟩]
  tokens := [⟨0, [0x61, 0x62], 0, 2⟩, ⟨0, [0x62, 0x63], 1, 3⟩]

theorem not_finds :
    (Tokenized semicolon emptyText.text (positions emptyText.tokens) ∧
      Instances semicolon emptyText (positions emptyText.tokens) ∧
      ¬ Finds semicolon emptyText {}) ∧
    (Tokenized semicolon overlapping.text (positions overlapping.tokens) ∧
      Instances semicolon overlapping (positions overlapping.tokens) ∧
      ¬ Finds semicolon overlapping {}) := by
  refine ⟨⟨⟨by decide, by decide, by simp [emptyText, positions], fun i level hlevel => ?_,
      by decide⟩, ⟨fun _ _ _ => Nat.one_pos, by decide, by decide,
      fun s hs => nomatch hs⟩, fun hfinds => ?_⟩,
    ⟨⟨by decide, by decide, fun t ht level hlevel => ?_, fun i level hlevel => ?_, by decide⟩,
      ⟨fun _ _ _ => Nat.one_pos, by decide, by decide, fun s hs i hfirst hlast => ?_⟩,
      fun hfinds => ?_⟩⟩
  · cases hlevel
  · -- the empty part holds all of no phrases
    have hsegment : Segment semicolon emptyText.text 0 0 :=
      ⟨Nat.le_refl 0, Nat.le_refl 0, fun _ _ hlt => absurd hlt (Nat.not_lt_zero _), Or.inl rfl,
        Or.inl rfl⟩
    have hsome := hfinds.1.mpr ⟨0, 0, hsegment, fun s hs => nomatch hs⟩
    cases hsome
  · have hmem : t = ⟨0, [0x61, 0x62], 0, 2⟩ ∨ t = ⟨0, [0x62, 0x63], 1, 3⟩ := by
      simpa [overlapping, positions] using ht
    rcases hmem with rfl | rfl <;> cases hlevel
  · have hlt : i < 3 := levelAt_lt (by rw [hlevel]; exact Option.some_ne_none level)
    match i with
    | 0 | 1 | 2 => cases hlevel
    | i + 3 => omega
  · have hspans : overlapping.spans semicolon = [⟨0, 0, 0⟩, ⟨1, 1, 1⟩] := by decide
    rw [hspans] at hs
    rcases List.mem_pair.mp hs with rfl | rfl
    · obtain rfl : i = 0 := Nat.le_zero.mp hlast
      rfl
    · obtain rfl : i = 1 := Nat.le_antisymm hlast hfirst
      rfl
  · -- four bytes for a text of three
    have hsome : (process semicolon overlapping {}).2.isSome = true := by decide
    obtain ⟨output, houtput⟩ := Option.isSome_iff_exists.mp hsome
    obtain ⟨start, stop, hresult, hpieces⟩ := hfinds.2 output houtput
    have hlength := congrArg List.length hpieces.flatten
    rw [length_slice hresult.segment.stop_le] at hlength
    have hfour : ((process semicolon overlapping {}).1.output.map Prod.fst).flatten.length = 4 := by
      decide
    have hstop : stop ≤ 3 := hresult.segment.stop_le
    omega

end Wcdb.SubstringMatchInfo
