import Wcdb.Fts.FirstSegment

/-!
# The calls of `internalTokenCallback`

Between two calls of the callback, `Inv` holds: the pieces are the text from the begin of the part
to `m_bytePos`, the marks are the phrases of the groups delivered in the part, the numbers of
separators are those before it, and no earlier part holds every phrase. At a separator the part is
given up, as it misses a phrase (`Inv.separator`); at the end of a group that completes the phrases
the part is the one that is to be found (`Inv.group`). `Inv.tokenize` is about all calls.
-/

namespace Wcdb.SubstringMatchInfo

/-! ### Marks -/

/-- The marked phrases and their number. -/
structure Marked (result : ℕ → Bool) (count : ℕ) (phrases : Finset ℕ) : Prop where
  mem : ∀ p, result p = true ↔ p ∈ phrases
  card : count = phrases.card

theorem Marked.empty : Marked (fun _ => false) 0 ∅ := ⟨fun p => by simp, rfl⟩

theorem Marked.markPhases {result : ℕ → Bool} {count : ℕ} {phrases : Finset ℕ}
    (h : Marked result count phrases) (phaseIndexes : List ℕ) :
    Marked (markPhases result count phaseIndexes).1 (markPhases result count phaseIndexes).2
      (phrases ∪ phaseIndexes.toFinset) := by
  induction phaseIndexes generalizing result count phrases with
  | nil => simpa [SubstringMatchInfo.markPhases] using h
  | cons p ps ih =>
    rw [SubstringMatchInfo.markPhases, List.toFinset_cons]
    split_ifs with hp
    · have hmem := (h.mem p).mp hp
      have hunion : phrases ∪ insert p ps.toFinset = phrases ∪ ps.toFinset := by
        rw [Finset.union_insert, Finset.insert_eq_of_mem (Finset.mem_union_left _ hmem)]
      rw [hunion]
      exact ih h
    · have hmem : p ∉ phrases := fun hmem => hp ((h.mem p).mpr hmem)
      have hinsert : Marked (Function.update result p true) (count + 1) (insert p phrases) := by
        refine ⟨fun q => ?_, ?_⟩
        · by_cases hq : q = p
          · simp [hq]
          · rw [Function.update_of_ne hq, h.mem, Finset.mem_insert, or_iff_right hq]
        · rw [Finset.card_insert_of_notMem hmem, h.card]
      have hunion : phrases ∪ insert p ps.toFinset = insert p phrases ∪ ps.toFinset := by
        rw [Finset.union_insert, Finset.insert_union]
      rw [hunion]
      exact ih hinsert

variable {c : Arguments} {row : Row} {ts : List Token}

/-! ### The state -/

/-- **The state** before the token at `k`. -/
structure Held (c : Arguments) (row : Row) (ts : List Token) (k : ℕ) (delivered rest : List Group)
    (s : State) : Prop where
  input : s.input = row.text
  tokenPos : s.tokenPos = k
  reads : s.pIter.Reads row.phraseSize c.columnNum row.insts rest
  start_le : s.curLevelStartPos ≤ s.bytePos
  le_length : s.bytePos ≤ row.text.length
  pieces : Apart c row ts → Pieces row.text s.curLevelStartPos s.bytePos s.output
  highlighted : ∀ stop, Segment c row.text s.curLevelStartPos stop →
    Highlighted row.text s.curLevelStartPos stop s.output
  within : ∀ g ∈ rest.head?, g.first < k → s.bytePos = (tokenAt ts g.first).startOff
  between : (∀ g ∈ rest.head?, k ≤ g.first) → s.bytePos = s.curLevelStartPos ∨
    ∃ g ∈ delivered, s.bytePos = (tokenAt ts g.last).stopOff
  marked : Marked s.phaseMatchResult s.substringPhaseMatchCount
    (found ts s.curLevelStartPos delivered)
  total : s.currentPhaseMatchCount = (phrasesOf (row.groups c)).card
  index : ∀ level, s.matchIndex level =
    countSince level (levelsBefore c row.text s.curLevelStartPos)

/-- **What holds between two calls of the callback**, before the token at `k`. -/
structure Inv (c : Arguments) (row : Row) (ts : List Token) (k : ℕ) (delivered rest : List Group)
    (s : State) : Prop where
  part : Part c row ts k s.curLevelStartPos delivered rest
  held : Held c row ts k delivered rest s
  missing : s.substringPhaseMatchCount < s.currentPhaseMatchCount ∨ row.groups c = []

/-- The part that is to be found, up to `m_bytePos`. -/
structure Found (c : Arguments) (row : Row) (ts : List Token) (s : State) : Prop where
  input : s.input = row.text
  start_le : s.curLevelStartPos ≤ s.bytePos
  le_length : s.bytePos ≤ row.text.length
  pieces : Apart c row ts → Pieces row.text s.curLevelStartPos s.bytePos s.output
  highlighted : ∀ stop, Segment c row.text s.curLevelStartPos stop →
    Highlighted row.text s.curLevelStartPos stop s.output
  index : ∀ level, s.matchIndex level =
    countSince level (levelsBefore c row.text s.curLevelStartPos)
  begins : s.curLevelStartPos = 0 ∨
    ∃ i, s.curLevelStartPos = i + 1 ∧ levelAt c row.text i ≠ none
  free : ∀ i, s.curLevelStartPos ≤ i → i < s.bytePos → levelAt c row.text i = none
  earlier : ∀ start stop, Segment c row.text start stop → HoldsAll c row ts start stop →
    s.curLevelStartPos ≤ start
  holds : ∀ stop, Segment c row.text s.curLevelStartPos stop →
    HoldsAll c row ts s.curLevelStartPos stop

/-- **What holds at the end.** -/
def Outcome (c : Arguments) (row : Row) (ts : List Token) (s : State) : Prop :=
  (s.currentPhaseMatchCount ≤ s.substringPhaseMatchCount ∧ Found c row ts s) ∨
    (s.substringPhaseMatchCount < s.currentPhaseMatchCount ∧
      ∀ start stop, Segment c row.text start stop → ¬ HoldsAll c row ts start stop)

section Steps

variable {k : ℕ} {delivered rest : List Group} {s : State} {g : Group}

/-- The count falls short as long as a phrase is missing. -/
theorem Held.not_subset (h : Held c row ts k delivered rest s)
    (hlt : s.substringPhaseMatchCount < s.currentPhaseMatchCount) :
    ¬ phrasesOf (row.groups c) ⊆ found ts s.curLevelStartPos delivered := by
  intro hsubset
  have hcard := Finset.card_le_card hsubset
  rw [← h.marked.card, ← h.total] at hcard
  exact absurd hlt (not_lt.mpr hcard)

/-- And reaches its limit with the last one. -/
theorem Held.subset (h : Held c row ts k delivered rest s)
    (hgroups : ∀ g ∈ delivered, g ∈ row.groups c)
    (hle : s.currentPhaseMatchCount ≤ s.substringPhaseMatchCount) :
    phrasesOf (row.groups c) ⊆ found ts s.curLevelStartPos delivered := by
  have hsubset : found ts s.curLevelStartPos delivered ⊆ phrasesOf (row.groups c) := by
    intro p hp
    rw [found, mem_phrasesOf] at hp
    obtain ⟨g, hg, hphrase⟩ := hp
    exact mem_phrasesOf.mpr ⟨g, hgroups g (List.mem_of_mem_filter hg), hphrase⟩
  rw [h.total, h.marked.card] at hle
  exact (Finset.eq_of_subset_of_card_le hsubset hle).ge

theorem Held.curPhaseStart_iff (h : Held c row ts k delivered rest s) :
    (k : ℤ) = s.pIter.curPhaseStart ↔ ∃ g ∈ rest.head?, g.first = k := by
  have hreads := h.reads
  cases rest with
  | nil =>
    rw [hreads.1.1]
    refine iff_of_false (by omega) ?_
    rintro ⟨g, hg, -⟩
    cases hg
  | cons g gs =>
    rw [hreads.1.1]
    simp [eq_comm]

theorem Held.curPhaseEnd_iff (h : Held c row ts k delivered rest s) :
    (k : ℤ) = s.pIter.curPhaseEnd ↔ ∃ g ∈ rest.head?, g.last = k := by
  have hreads := h.reads
  cases rest with
  | nil =>
    rw [hreads.1.2.1]
    refine iff_of_false (by omega) ?_
    rintro ⟨g, hg, -⟩
    cases hg
  | cons g gs =>
    rw [hreads.1.2.1]
    simp [eq_comm]

variable (ht : Tokenized c row.text ts) (hi : Instances c row ts)
include hi

/-- A separator is in no group. -/
theorem Part.outside {start : ℕ} (h : Part c row ts k start delivered rest)
    (hsep : levelOf c (tokenAt ts k) ≠ none) (hg : g ∈ rest) : k < g.first := by
  have hmem := h.mem_groups (Or.inr hg)
  by_contra hnot
  exact hsep (hi.group_free hmem (not_lt.mp hnot) (h.le_last g hg))

/-- The groups follow one after the other. -/
theorem Part.last_lt_first {start : ℕ} {gs : List Group}
    (h : Part c row ts k start delivered (g :: gs)) : ∀ g' ∈ gs, g.last < g'.first := by
  have hsorted := pairwise_groups hi.order
  have hgroups := h.groups
  rw [Row.groups] at hgroups
  rw [hgroups] at hsorted
  exact (List.pairwise_cons.mp (List.pairwise_append.mp hsorted).2.1).1

theorem Part.last_lt_last {start : ℕ} {gs : List Group}
    (h : Part c row ts k start delivered (g :: gs)) : ∀ g' ∈ gs, g.last < g'.last := by
  intro g' hg'
  have hmem := h.mem_groups (Or.inr (List.mem_cons_of_mem g hg'))
  exact (h.last_lt_first hi g' hg').trans_le (hi.of_mem hmem).first_le_last

include ht

/-- **A separator before all phrases were found.** -/
theorem Inv.separator (h : Inv c row ts k delivered rest s) (hk : k < ts.length) {level : ℕ}
    (hflags : (tokenAt ts k).tflags = 0) (hlevel : levelOf c (tokenAt ts k) = some level)
    (hlt : s.substringPhaseMatchCount < s.currentPhaseMatchCount) :
    ∃ s', internalTokenCallback c row (tokenAt ts k) s = (s', false) ∧
      Inv c row ts (k + 1) delivered rest s' := by
  have hsep : levelOf c (tokenAt ts k) ≠ none := by simp [hlevel]
  obtain ⟨hat, hstop⟩ := ht.separator _ (tokenAt_mem hk) level hlevel
  have hpart := h.part.separator ht hi hk hlevel (h.held.not_subset hlt)
  have hend : ¬ (k : ℤ) = s.pIter.curPhaseEnd := by
    rw [h.held.curPhaseEnd_iff]
    rintro ⟨g, hg, rfl⟩
    have hmem := List.mem_of_mem_head? hg
    have houtside := h.part.outside hi hsep hmem
    have hle := (hi.of_mem (h.part.mem_groups (Or.inr hmem))).first_le_last
    omega
  have hfree := fun i (hle : s.curLevelStartPos ≤ i) (hlt : i < (tokenAt ts k).startOff) =>
    h.part.free ht hle hlt
  have hnone : found ts (tokenAt ts k).stopOff delivered = ∅ := by
    refine Finset.eq_empty_of_forall_notMem fun p hp => ?_
    rw [found, mem_phrasesOf] at hp
    obtain ⟨g, hg, -⟩ := hp
    obtain ⟨hmem, hbegin⟩ := List.mem_filter.mp hg
    have hfirst := (hi.of_mem (h.part.mem_groups (Or.inl hmem))).first_le_last
    have hle := ht.start_le (hfirst.trans (h.part.last_lt g hmem).le) hk
    have hpos := ht.start_lt_stop hk
    have hbegin := of_decide_eq_true hbegin
    omega
  refine ⟨resetStatusFromLevel (level + 1) { s with
    tokenPos := s.tokenPos + 1
    matchIndex := Function.update s.matchIndex level (s.matchIndex level + 1)
    bytePos := (tokenAt ts k).stopOff }, ?_, hpart, ?_, ?_⟩
  · rw [internalTokenCallback, if_neg (not_not.mpr hflags)]
    simp only [levelOf] at hlevel
    simp only [hlevel, if_neg (not_le.mpr hlt), h.held.tokenPos]
    exact if_neg hend
  · exact
      { input := h.held.input
        tokenPos := congrArg (· + 1) h.held.tokenPos
        reads := h.held.reads
        start_le := Nat.le_refl _
        le_length := ht.stop_le_length hk
        pieces := fun _ => Pieces.nil _ _
        highlighted := fun _ _ => Highlighted.nil _ _ _
        within := fun g hg hfirst => by
          have houtside := h.part.outside hi hsep (List.mem_of_mem_head? hg)
          omega
        between := fun _ => Or.inl rfl
        marked := by
          simp only [resetStatusFromLevel, hnone]
          exact Marked.empty
        total := h.held.total
        index := fun l => by
          have hlevels : levelsBefore c row.text (tokenAt ts k).stopOff =
              levelsBefore c row.text s.curLevelStartPos ++ [level] := by
            rw [hstop, levelsBefore_succ, hat, levelsBefore_eq (h.part.start_le ht hk) hfree]
            rfl
          have hindex := h.held.index
          simp only [resetStatusFromLevel, hlevels, countSince_append, hindex,
            Function.update_apply]
          rcases lt_trichotomy l level with hlt | rfl | hlt
          · rw [if_neg (by omega), if_neg hlt.ne, if_pos hlt]
          · rw [if_neg (by omega), if_pos rfl, if_neg (lt_irrefl l), if_pos rfl]
          · rw [if_pos (Nat.succ_le_of_lt hlt), if_neg (by omega), if_neg hlt.ne] }
  · exact Or.inl (Nat.zero_lt_of_lt hlt)

/-- The state after the begin of a group, at a token that is no separator. -/
def enter (t : Token) (s : State) : State :=
  if (s.tokenPos : ℤ) = s.pIter.curPhaseStart then
    phaseStart t { s with tokenPos := s.tokenPos + 1 }
  else { s with tokenPos := s.tokenPos + 1 }

omit ht hi in
theorem enter_curLevelStartPos (t : Token) (s : State) :
    (enter t s).curLevelStartPos = s.curLevelStartPos := by
  rw [enter]
  split_ifs <;> rfl

omit ht hi in
theorem enter_counts (t : Token) (s : State) :
    (enter t s).substringPhaseMatchCount = s.substringPhaseMatchCount ∧
      (enter t s).currentPhaseMatchCount = s.currentPhaseMatchCount := by
  rw [enter]
  split_ifs <;> exact ⟨rfl, rfl⟩

omit ht hi in
theorem internalTokenCallback_of_none {t : Token} (hflags : t.tflags = 0)
    (hnone : levelOf c t = none) :
    internalTokenCallback c row t s =
      if (s.tokenPos : ℤ) = s.pIter.curPhaseEnd then phaseEnd c row t (enter t s)
      else (enter t s, false) := by
  rw [levelOf] at hnone
  have hiter : (enter t s).pIter = s.pIter := by
    rw [enter]
    split_ifs <;> rfl
  have hcallback : internalTokenCallback c row t s =
      if (s.tokenPos : ℤ) = (enter t s).pIter.curPhaseEnd then phaseEnd c row t (enter t s)
      else (enter t s, false) := by
    rw [internalTokenCallback, if_neg (not_not.mpr hflags)]
    simp only [hnone]
    rfl
  rw [hcallback, hiter]

/-- The text before the next group is still to be delivered. -/
theorem Held.bytePos_le (h : Held c row ts k delivered rest s)
    (hpart : Part c row ts k s.curLevelStartPos delivered rest) (hapart : Apart c row ts)
    (hk : k < ts.length) (hg : g ∈ rest.head?) (hfirst : g.first = k) :
    s.bytePos ≤ (tokenAt ts k).startOff := by
  have hbetween := h.between fun g' hg' => by
    rw [Option.mem_unique hg' hg, hfirst]
  rcases hbetween with heq | ⟨g', hg', heq⟩
  · rw [heq]
    exact hpart.start_le ht hk
  · obtain ⟨x, hx, hlast⟩ := (hi.of_mem (hpart.mem_groups (Or.inl hg'))).ends
    obtain ⟨y, hy, hbegin⟩ :=
      (hi.of_mem (hpart.mem_groups (Or.inr (List.mem_of_mem_head? hg)))).begins
    have hlt : x.last < y.first := by
      rw [hlast, hbegin, hfirst]
      exact hpart.last_lt g' hg'
    have hle := hapart x hx y hy hlt
    rwa [hlast, hbegin, hfirst, ← heq] at hle

theorem Held.enter (h : Held c row ts k delivered rest s) (hk : k < ts.length)
    (hpart : Part c row ts k s.curLevelStartPos delivered rest) :
    Held c row ts (k + 1) delivered rest (enter (tokenAt ts k) s) := by
  rw [SubstringMatchInfo.enter, h.tokenPos]
  split_ifs with hstart
  · obtain ⟨g, hg, hfirst⟩ := h.curPhaseStart_iff.mp hstart
    have hlength := (ht.start_lt_stop hk).le.trans (ht.stop_le_length hk)
    exact
      { input := h.input
        tokenPos := rfl
        reads := h.reads
        start_le := hpart.start_le ht hk
        le_length := hlength
        pieces := fun hapart => by
          have hle := h.bytePos_le ht hi hpart hapart hk hg hfirst
          simp only [phaseStart]
          split_ifs with hlt
          · rw [h.input]
            exact (h.pieces hapart).append h.start_le hle hlength
              fun hneg => absurd hneg (by decide)
          · rw [← hle.antisymm (not_lt.mp hlt)]
            exact h.pieces hapart
        highlighted := fun stop hsegment => by
          simp only [phaseStart]
          split_ifs
          · exact (h.highlighted stop hsegment).append_plain _
          · exact h.highlighted stop hsegment
        within := fun g' hg' _ => by
          rw [Option.mem_unique hg' hg, hfirst]
          rfl
        between := fun hall => by
          have hbehind := hall g hg
          omega
        marked := h.marked
        total := h.total
        index := h.index }
  · exact
      { input := h.input
        tokenPos := rfl
        reads := h.reads
        start_le := h.start_le
        le_length := h.le_length
        pieces := h.pieces
        highlighted := h.highlighted
        within := fun g hg hlt => by
          refine h.within g hg ((Nat.le_of_lt_succ hlt).lt_of_ne fun heq => ?_)
          exact hstart (h.curPhaseStart_iff.mpr ⟨g, hg, heq⟩)
        between := fun hall => h.between fun g hg => (Nat.le_succ k).trans (hall g hg)
        marked := h.marked
        total := h.total
        index := h.index }

/-- **A token at which no group ends.** -/
theorem Inv.token (h : Inv c row ts k delivered rest s) (hk : k < ts.length)
    (hflags : (tokenAt ts k).tflags = 0) (hnone : levelOf c (tokenAt ts k) = none)
    (hlast : ∀ g ∈ rest.head?, g.last ≠ k) :
    ∃ s', internalTokenCallback c row (tokenAt ts k) s = (s', false) ∧
      Inv c row ts (k + 1) delivered rest s' := by
  have hend : ¬ (s.tokenPos : ℤ) = s.pIter.curPhaseEnd := by
    rw [h.held.tokenPos, h.held.curPhaseEnd_iff]
    rintro ⟨g, hg, heq⟩
    exact hlast g hg heq
  have hle : ∀ g ∈ rest, k + 1 ≤ g.last := by
    cases hrest : rest with
    | nil => exact fun g hg => nomatch hg
    | cons g gs =>
      -- only the first group could end here
      have hpart := h.part
      rw [hrest] at hpart hlast
      have hfirst : k < g.last := (hpart.le_last g List.mem_cons_self).lt_of_ne (hlast g rfl).symm
      refine List.forall_mem_cons.mpr ⟨hfirst, fun g' hg' => ?_⟩
      exact hfirst.trans (hpart.last_lt_last hi g' hg')
  refine ⟨_, (internalTokenCallback_of_none hflags hnone).trans (if_neg hend), ?_,
    h.held.enter ht hi hk h.part, ?_⟩
  · rw [enter_curLevelStartPos]
    exact h.part.token hnone rfl (fun g hg => Nat.lt_succ_of_lt (h.part.last_lt g hg)) hle
  · rw [(enter_counts _ s).1, (enter_counts _ s).2]
    exact h.missing

/-- The state after the end of a group, before `next`. -/
def leave (t : Token) (s : State) : State :=
  let marks := markPhases s.phaseMatchResult s.substringPhaseMatchCount s.pIter.phaseIndexes
  { s with
    output := s.output ++
      [(slice s.input s.bytePos t.stopOff, (s.bytePos : ℤ) - s.curLevelStartPos)]
    bytePos := t.stopOff
    phaseMatchResult := marks.1
    substringPhaseMatchCount := marks.2 }

omit hi in
/-- A token that is no separator ends before the part does. -/
theorem Part.stop_le {start stop : ℕ} (h : Part c row ts k start delivered rest)
    (hk : k < ts.length)
    (hnone : levelOf c (tokenAt ts k) = none) (hsegment : Segment c row.text start stop) :
    (tokenAt ts k).stopOff ≤ stop := by
  have hlength := ht.stop_le_length hk
  rcases hsegment.ends with rfl | hsep
  · exact hlength
  obtain ⟨level, hlevel⟩ := Option.ne_none_iff_exists'.mp hsep
  obtain ⟨j, hj, hjlength, rfl, hof⟩ := h.pending stop level hsegment.start_le hlevel
  rcases hj.eq_or_lt with rfl | hlt
  · rw [hnone] at hof
    cases hof
  · exact ht.stop_le hlt hjlength (Or.inr (by simp [hof]))

theorem Held.leave {gs : List Group} (h : Held c row ts (k + 1) delivered (g :: gs) s)
    (hk : k < ts.length) (hpart : Part c row ts k s.curLevelStartPos delivered (g :: gs))
    (hnone : levelOf c (tokenAt ts k) = none) (hlast : g.last = k) :
    Held c row ts (k + 1) (delivered ++ [g]) gs ((leave (tokenAt ts k) s).next c row) := by
  have hmem := hpart.mem_groups (Or.inr List.mem_cons_self)
  have hfirst := (hi.of_mem hmem).first_le_last
  have hwithin := h.within g rfl (by omega)
  have hle : s.bytePos ≤ (tokenAt ts k).stopOff := by
    rw [hwithin]
    exact (ht.start_le (hfirst.trans_eq hlast) hk).trans (ht.start_lt_stop hk).le
  have hlength := ht.stop_le_length hk
  have hfound : found ts s.curLevelStartPos (delivered ++ [g]) =
      found ts s.curLevelStartPos delivered ∪ g.phrases.toFinset := by
    have hstart := hpart.start_le_group ht hi List.mem_cons_self
    rw [found, List.filter_append, phrasesOf, List.flatMap_append, List.toFinset_append]
    simp [found, phrasesOf, hstart]
  exact
    { input := h.input
      tokenPos := h.tokenPos
      reads := by
        have hreads := next_reads hi.sized s.pIter
        rwa [h.reads.2] at hreads
      start_le := h.start_le.trans hle
      le_length := hlength
      pieces := by
        intro hapart
        show Pieces row.text s.curLevelStartPos (tokenAt ts k).stopOff (s.output ++
          [(slice s.input s.bytePos (tokenAt ts k).stopOff, (s.bytePos : ℤ) - s.curLevelStartPos)])
        rw [h.input]
        exact (h.pieces hapart).append h.start_le hle hlength fun _ => rfl
      highlighted := fun stop hsegment => by
        have hstop := hpart.stop_le ht hk hnone hsegment
        refine (h.highlighted stop hsegment).append fun _ => ?_
        rw [h.input]
        exact ⟨s.bytePos, (tokenAt ts k).stopOff, h.start_le, hle, hstop, rfl⟩
      within := fun g' hg' hlt => by
        have hbefore := hpart.last_lt_first hi g' (List.mem_of_mem_head? hg')
        omega
      between := fun _ => Or.inr ⟨g, List.mem_append_right _ (List.mem_singleton_self g), by
        rw [hlast]
        rfl⟩
      marked := by
        have hmarked := h.marked.markPhases s.pIter.phaseIndexes
        rw [h.reads.1.2.2, ← hfound, ← h.reads.1.2.2] at hmarked
        exact hmarked
      total := h.total
      index := h.index }

/-- **The part was found.** -/
theorem Found.of_held (hpart : Part c row ts k s.curLevelStartPos delivered rest)
    (h : Held c row ts k delivered rest s)
    (hfree : ∀ i, s.curLevelStartPos ≤ i → i < s.bytePos → levelAt c row.text i = none)
    (hall : phrasesOf (row.groups c) ⊆ found ts s.curLevelStartPos delivered) :
    Found c row ts s where
  input := h.input
  start_le := h.start_le
  le_length := h.le_length
  pieces := h.pieces
  highlighted := h.highlighted
  index := h.index
  begins := hpart.begins_text ht
  free := hfree
  earlier := hpart.earlier
  holds _ hsegment := hpart.holdsAll ht hi hall hsegment

/-- **A token at which a group ends.** -/
theorem Inv.group {gs : List Group} (h : Inv c row ts k delivered (g :: gs) s) (hk : k < ts.length)
    (hflags : (tokenAt ts k).tflags = 0) (hnone : levelOf c (tokenAt ts k) = none)
    (hlast : g.last = k) :
    (∃ s', internalTokenCallback c row (tokenAt ts k) s = (s', false) ∧
      Inv c row ts (k + 1) (delivered ++ [g]) gs s') ∨
    ∃ s', internalTokenCallback c row (tokenAt ts k) s = (s', true) ∧ Outcome c row ts s' := by
  have hend : (s.tokenPos : ℤ) = s.pIter.curPhaseEnd := by
    rw [h.held.tokenPos, h.held.curPhaseEnd_iff]
    exact ⟨g, rfl, hlast⟩
  rw [internalTokenCallback_of_none hflags hnone, if_pos hend]
  have henter := h.held.enter ht hi hk h.part
  have hpart := h.part
  rw [← enter_curLevelStartPos (tokenAt ts k) s] at hpart
  generalize enter (tokenAt ts k) s = s₁ at henter hpart ⊢
  have hheld := henter.leave ht hi hk hpart hnone hlast
  have hpart' : Part c row ts (k + 1) s₁.curLevelStartPos (delivered ++ [g]) gs := by
    refine hpart.token hnone (by simp) (fun g' hg' => ?_) fun g' hg' => ?_
    · rcases List.mem_append.mp hg' with hg' | hg'
      · exact Nat.lt_succ_of_lt (hpart.last_lt g' hg')
      · rw [List.mem_singleton.mp hg', hlast]
        exact Nat.lt_succ_self k
    · rw [← hlast]
      exact hpart.last_lt_last hi g' hg'
  by_cases hmore : (leave (tokenAt ts k) s₁).pIter.iInst < row.insts.length ∧
      (leave (tokenAt ts k) s₁).substringPhaseMatchCount < s₁.currentPhaseMatchCount
  · exact Or.inl ⟨_, if_pos hmore, hpart', hheld, Or.inl hmore.2⟩
  · refine Or.inr ⟨_, if_neg hmore, ?_⟩
    by_cases hlt : (leave (tokenAt ts k) s₁).substringPhaseMatchCount < s₁.currentPhaseMatchCount
    · -- there are no more instances, and a phrase is missing
      have hnil : gs = [] := by
        have hlength := not_lt.mp fun hlt' => hmore ⟨hlt', hlt⟩
        rw [← henter.reads.2]
        have hdrop : row.insts.drop s₁.pIter.iInst = [] := List.drop_eq_nil_of_le hlength
        rw [hdrop]
        rfl
      exact Or.inr ⟨hlt, fun start stop =>
        hpart'.not_holdsAll ht hi hnil (hheld.not_subset hlt)⟩
    · have hfree : ∀ i, s₁.curLevelStartPos ≤ i → i < (tokenAt ts k).stopOff →
          levelAt c row.text i = none := by
        intro i hle hi'
        by_contra hsep
        obtain ⟨level, hlevel⟩ := Option.ne_none_iff_exists'.mp hsep
        obtain ⟨j, hj, hjlength, hjstart, hjof⟩ := hpart'.pending i level hle hlevel
        have hstop := ht.stop_le hj hjlength (Or.inr (by simp [hjof]))
        rw [hjstart] at hstop
        exact absurd hi' (not_lt.mpr hstop)
      have hall := hheld.subset (fun g' hg' => hpart'.mem_groups (Or.inl hg')) (not_lt.mp hlt)
      have hfound := Found.of_held (s := (leave (tokenAt ts k) s₁).next c row) ht hi hpart' hheld
        hfree hall
      exact Or.inl ⟨not_lt.mp hlt, ⟨hfound.input, hfound.start_le, hfound.le_length, hfound.pieces,
        hfound.highlighted, hfound.index, hfound.begins, hfound.free, hfound.earlier, hfound.holds⟩⟩

/-- **A separator where nothing is to be found.** -/
theorem Inv.nothing (h : Inv c row ts k delivered rest s) (hk : k < ts.length) {level : ℕ}
    (hflags : (tokenAt ts k).tflags = 0) (hlevel : levelOf c (tokenAt ts k) = some level)
    (hnil : row.groups c = []) :
    ∃ s', internalTokenCallback c row (tokenAt ts k) s = (s', true) ∧ Outcome c row ts s' := by
  have hphrases : phrasesOf (row.groups c) = ∅ := by rw [hnil]; rfl
  have hcount : s.currentPhaseMatchCount = 0 := by
    rw [h.held.total, hphrases, Finset.card_empty]
  have hle : s.currentPhaseMatchCount ≤ s.substringPhaseMatchCount := by
    rw [hcount]
    exact Nat.zero_le _
  obtain ⟨hdelivered, hrest⟩ := List.append_eq_nil_iff.mp (h.part.groups.symm.trans hnil)
  have hbyte : s.bytePos ≤ (tokenAt ts k).startOff := by
    have hbetween := h.held.between (by simp [hrest])
    rw [hdelivered] at hbetween
    rcases hbetween with heq | ⟨g, hg, -⟩
    · rw [heq]
      exact h.part.start_le ht hk
    · cases hg
  have hlength := (ht.start_lt_stop hk).le.trans (ht.stop_le_length hk)
  refine ⟨{ s with
    tokenPos := s.tokenPos + 1
    output := s.output ++ [(slice s.input s.bytePos (tokenAt ts k).startOff, -1)]
    bytePos := (tokenAt ts k).startOff }, ?_, Or.inl ⟨hle, ?_⟩⟩
  · rw [internalTokenCallback, if_neg (not_not.mpr hflags)]
    rw [levelOf] at hlevel
    simp only [hlevel, if_pos hle]
  · exact
      { input := h.held.input
        start_le := h.held.start_le.trans hbyte
        le_length := hlength
        pieces := by
          intro hapart
          show Pieces row.text s.curLevelStartPos (tokenAt ts k).startOff
            (s.output ++ [(slice s.input s.bytePos (tokenAt ts k).startOff, -1)])
          rw [h.held.input]
          exact (h.held.pieces hapart).append h.held.start_le hbyte hlength
            fun hneg => absurd hneg (by decide)
        highlighted := fun stop hsegment => (h.held.highlighted stop hsegment).append_plain _
        index := h.held.index
        begins := h.part.begins_text ht
        free := fun i hi' hlt => h.part.free ht hi' hlt
        earlier := h.part.earlier
        holds := fun stop hsegment =>
          h.part.holdsAll ht hi (by rw [hphrases]; exact Finset.empty_subset _) hsegment }

/-- **One call of the callback.** -/
theorem Inv.step (h : Inv c row ts k delivered rest s) (hk : k < ts.length)
    (hflags : (tokenAt ts k).tflags = 0) :
    (∃ s', internalTokenCallback c row (tokenAt ts k) s = (s', false) ∧
      ∃ delivered' rest', Inv c row ts (k + 1) delivered' rest' s') ∨
    ∃ s', internalTokenCallback c row (tokenAt ts k) s = (s', true) ∧ Outcome c row ts s' := by
  cases hlevel : levelOf c (tokenAt ts k) with
  | some level =>
    rcases h.missing with hlt | hnil
    · obtain ⟨s', hcallback, hinv⟩ := h.separator ht hi hk hflags hlevel hlt
      exact Or.inl ⟨s', hcallback, delivered, rest, hinv⟩
    · exact Or.inr (h.nothing ht hi hk hflags hlevel hnil)
  | none =>
    by_cases hlast : ∃ g ∈ rest.head?, g.last = k
    · obtain ⟨g, hg, hlast⟩ := hlast
      obtain ⟨gs, rfl⟩ := List.head?_eq_some_iff.mp hg
      rcases h.group ht hi hk hflags hlevel hlast with ⟨s', hcallback, hinv⟩ | hdone
      · exact Or.inl ⟨s', hcallback, _, _, hinv⟩
      · exact Or.inr hdone
    · obtain ⟨s', hcallback, hinv⟩ := h.token ht hi hk hflags hlevel
        fun g hg heq => hlast ⟨g, hg, heq⟩
      exact Or.inl ⟨s', hcallback, delivered, rest, hinv⟩

/-- After the last token. -/
theorem Inv.outcome (h : Inv c row ts ts.length delivered rest s) : Outcome c row ts s := by
  have hrest : rest = [] := by
    refine List.eq_nil_iff_forall_not_mem.mpr fun g hg => ?_
    have hlt := hi.group_last_lt (h.part.mem_groups (Or.inr hg))
    exact absurd (h.part.le_last g hg) (not_le.mpr hlt)
  by_cases hlt : s.substringPhaseMatchCount < s.currentPhaseMatchCount
  · exact Or.inr ⟨hlt, fun start stop => h.part.not_holdsAll ht hi hrest (h.held.not_subset hlt)⟩
  · have hall := h.held.subset (fun g hg => h.part.mem_groups (Or.inl hg)) (not_lt.mp hlt)
    refine Or.inl ⟨not_lt.mp hlt, Found.of_held ht hi h.part h.held (fun i hle _ => ?_) hall⟩
    by_contra hsep
    obtain ⟨level, hlevel⟩ := Option.ne_none_iff_exists'.mp hsep
    obtain ⟨j, hj, hjlength, -⟩ := h.part.pending i level hle hlevel
    exact absurd hjlength (not_lt.mpr hj)

/-- **All calls of the callback.** -/
theorem Inv.tokenize (h : Inv c row ts k delivered rest s) (hk : k ≤ ts.length)
    (hflags : ∀ t ∈ ts, t.tflags = 0) :
    Outcome c row ts (tokenize c row (ts.drop k) s) := by
  induction hn : ts.length - k generalizing k delivered rest s with
  | zero =>
    obtain rfl : k = ts.length := by omega
    rw [List.drop_length]
    exact h.outcome ht hi
  | succ n ih =>
    have hlt : k < ts.length := by omega
    rw [List.drop_eq_getElem_cons hlt, ← tokenAt_eq hlt, SubstringMatchInfo.tokenize]
    rcases h.step ht hi hlt (hflags _ (tokenAt_mem hlt)) with
      ⟨s', hcallback, delivered', rest', hinv⟩ | ⟨s', hcallback, houtcome⟩
    · rw [hcallback]
      exact ih hinv hlt (by omega)
    · rw [hcallback]
      exact houtcome

end Steps

end Wcdb.SubstringMatchInfo
