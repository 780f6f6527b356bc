import Mathlib.Algebra.Order.Ring.Int
import Mathlib.Data.List.Basic

/-!
# `SubstringMatchInfo::PhaseInstIter`

The iterator goes over the instances of the phrases of a query in one column, and puts instances
that share a token together: `next` reads one such group. `groups` is what it should read, and
`next_reads` is the rule for a call: it reads the first group, and what it leaves behind are the
instances of the others.

The groups of instances in token order lie apart (`pairwise_groups`), each instance is within one of
them (`exists_group`), and a group holds nothing but its instances (`Group.Of`).
-/

namespace Wcdb.SubstringMatchInfo

/-- An instance of a phrase. -/
structure Inst where
  phrase : ℕ
  column : ℤ
  offset : ℕ
  deriving DecidableEq, Repr

structure PhaseInstIter where
  curPhaseStart : ℤ := -1
  curPhaseEnd : ℤ := -1
  iInst : ℕ := 0
  phaseIndexes : List ℕ := []
  deriving DecidableEq, Repr

variable (phraseSize : ℕ → ℕ) (iCol : ℤ)

/-- The loop of `next`, over the instances from `m_iInst` on. -/
def nextLoop : List Inst → PhaseInstIter → PhaseInstIter
  | [], it => it
  | inst :: insts, it =>
    if inst.column = iCol then
      let iEnd := (inst.offset : ℤ) - 1 + phraseSize inst.phrase
      if it.curPhaseEnd < 0 then
        nextLoop insts
          { curPhaseStart := inst.offset
            curPhaseEnd := iEnd
            iInst := it.iInst + 1
            phaseIndexes := it.phaseIndexes ++ [inst.phrase] }
      else if (inst.offset : ℤ) ≤ it.curPhaseEnd then
        nextLoop insts
          { it with
            curPhaseEnd := if it.curPhaseEnd < iEnd then iEnd else it.curPhaseEnd
            iInst := it.iInst + 1
            phaseIndexes := it.phaseIndexes ++ [inst.phrase] }
      else it
    else nextLoop insts { it with iInst := it.iInst + 1 }

def next (insts : List Inst) (it : PhaseInstIter) : PhaseInstIter :=
  nextLoop phraseSize iCol (insts.drop it.iInst)
    { it with curPhaseStart := -1, curPhaseEnd := -1, phaseIndexes := [] }

/-! ### Groups -/

/-- The tokens of an instance, from the first to the last one. -/
structure Span where
  phrase : ℕ
  first : ℕ
  last : ℕ
  deriving DecidableEq, Repr

/-- Instances that share tokens. -/
structure Group where
  first : ℕ
  last : ℕ
  phrases : List ℕ
  deriving DecidableEq, Repr

def Inst.span (inst : Inst) : Span :=
  ⟨inst.phrase, inst.offset, inst.offset + phraseSize inst.phrase - 1⟩

/-- The instances in the column. -/
def spans (insts : List Inst) : List Span :=
  (insts.filter fun inst => inst.column = iCol).map (Inst.span phraseSize)

def Group.single (s : Span) : Group := ⟨s.first, s.last, [s.phrase]⟩

def Group.absorb (g : Group) (s : Span) : Group :=
  ⟨g.first, max g.last s.last, g.phrases ++ [s.phrase]⟩

/-- The groups of a group that has been begun and of the instances that follow. -/
def groupsFrom (g : Group) : List Span → List Group
  | [] => [g]
  | s :: ss =>
    if s.first ≤ g.last then groupsFrom (g.absorb s) ss else g :: groupsFrom (Group.single s) ss

def groups : List Span → List Group
  | [] => []
  | s :: ss => groupsFrom (Group.single s) ss

/-- A group of some instances: its tokens are theirs, and its phrases. -/
structure Group.Of (ss : List Span) (g : Group) : Prop where
  first_le_last : g.first ≤ g.last
  begins : ∃ s ∈ ss, s.first = g.first
  ends : ∃ s ∈ ss, s.last = g.last
  filled : ∀ i, g.first ≤ i → i ≤ g.last → ∃ s ∈ ss, s.first ≤ i ∧ i ≤ s.last
  of_mem : ∀ p ∈ g.phrases, ∃ s ∈ ss, s.phrase = p ∧ g.first ≤ s.first ∧ s.last ≤ g.last

/-- Instances in token order. -/
structure InOrder (ss : List Span) : Prop where
  sorted : ss.Pairwise fun s s' => s.first ≤ s'.first
  first_le_last : ∀ s ∈ ss, s.first ≤ s.last

section Groups

variable {ss all : List Span} {s : Span} {g : Group}

theorem InOrder.tail (h : InOrder (s :: ss)) : InOrder ss :=
  ⟨(List.pairwise_cons.mp h.sorted).2,
    fun s' hs' => h.first_le_last s' (List.mem_cons_of_mem _ hs')⟩

theorem InOrder.head_le (h : InOrder (s :: ss)) : ∀ s' ∈ ss, s.first ≤ s'.first :=
  (List.pairwise_cons.mp h.sorted).1

theorem Group.of_single (hs : s ∈ all) (hle : s.first ≤ s.last) : (Group.single s).Of all where
  first_le_last := hle
  begins := ⟨s, hs, rfl⟩
  ends := ⟨s, hs, rfl⟩
  filled _ hfirst hlast := ⟨s, hs, hfirst, hlast⟩
  of_mem _ hp := ⟨s, hs, (List.mem_singleton.mp hp).symm, Nat.le_refl _, Nat.le_refl _⟩

theorem Group.Of.absorb (h : g.Of all) (hs : s ∈ all) (hfirst : g.first ≤ s.first)
    (hle : s.first ≤ g.last) : (g.absorb s).Of all where
  first_le_last := h.first_le_last.trans (le_max_left _ _)
  begins := h.begins
  ends := by
    rcases max_choice g.last s.last with hmax | hmax
    · obtain ⟨s', hs', hlast⟩ := h.ends
      exact ⟨s', hs', hlast.trans hmax.symm⟩
    · exact ⟨s, hs, hmax.symm⟩
  filled i hi hlast := by
    by_cases hin : i ≤ g.last
    · exact h.filled i hi hin
    · refine ⟨s, hs, hle.trans (not_le.mp hin).le, ?_⟩
      exact (le_max_iff.mp hlast).resolve_left hin
  of_mem p hp := by
    rcases List.mem_append.mp hp with hp | hp
    · obtain ⟨s', hs', hphrase, hfirst', hlast'⟩ := h.of_mem p hp
      exact ⟨s', hs', hphrase, hfirst', hlast'.trans (le_max_left _ _)⟩
    · exact ⟨s, hs, (List.mem_singleton.mp hp).symm, hfirst, le_max_right _ _⟩

/-- The groups are groups of the instances, and begin where the first one does. -/
theorem groupsFrom_of (hss : ∀ s ∈ ss, s ∈ all) (horder : InOrder ss) (hg : g.Of all)
    (hle : ∀ s ∈ ss, g.first ≤ s.first) :
    ∀ g' ∈ groupsFrom g ss, g'.Of all ∧ g.first ≤ g'.first := by
  induction ss generalizing g with
  | nil =>
    intro g' hg'
    rw [List.mem_singleton.mp hg']
    exact ⟨hg, Nat.le_refl _⟩
  | cons s ss ih =>
    have hs := hss s List.mem_cons_self
    have hss' := fun s' hs' => hss s' (List.mem_cons_of_mem _ hs')
    have hfirst := hle s List.mem_cons_self
    rw [groupsFrom]
    split_ifs with hin
    · exact ih hss' horder.tail (hg.absorb hs hfirst hin)
        fun s' hs' => hle s' (List.mem_cons_of_mem _ hs')
    · intro g' hg'
      rcases List.mem_cons.mp hg' with rfl | hg'
      · exact ⟨hg, Nat.le_refl _⟩
      · have hsingle := Group.of_single hs (horder.first_le_last s List.mem_cons_self)
        obtain ⟨hof, hle'⟩ := ih hss' horder.tail hsingle horder.head_le g' hg'
        exact ⟨hof, hfirst.trans hle'⟩

theorem groups_of (horder : InOrder ss) : ∀ g ∈ groups ss, g.Of ss := by
  cases ss with
  | nil => exact fun g hg => nomatch hg
  | cons s ss =>
    intro g hg
    have hsingle : (Group.single s).Of (s :: ss) := Group.of_single List.mem_cons_self
      (horder.first_le_last s List.mem_cons_self)
    exact (groupsFrom_of
      (fun s' => List.mem_cons_of_mem s) horder.tail hsingle horder.head_le g hg).1

/-- Each group ends before the next one begins. -/
theorem pairwise_groupsFrom (horder : InOrder ss) (hg : g.Of all) (hss : ∀ s ∈ ss, s ∈ all)
    (hle : ∀ s ∈ ss, g.first ≤ s.first) :
    (groupsFrom g ss).Pairwise fun g g' => g.last < g'.first := by
  induction ss generalizing g with
  | nil => exact List.pairwise_singleton _ _
  | cons s ss ih =>
    have hs := hss s List.mem_cons_self
    have hss' := fun s' hs' => hss s' (List.mem_cons_of_mem _ hs')
    have hfirst := hle s List.mem_cons_self
    rw [groupsFrom]
    split_ifs with hin
    · exact ih horder.tail (hg.absorb hs hfirst hin) hss'
        fun s' hs' => hle s' (List.mem_cons_of_mem _ hs')
    · have hsingle := Group.of_single hs (horder.first_le_last s List.mem_cons_self)
      refine List.pairwise_cons.mpr ⟨fun g' hg' => ?_, ih horder.tail hsingle hss' horder.head_le⟩
      exact (not_le.mp hin).trans_le
        (groupsFrom_of hss' horder.tail hsingle horder.head_le g' hg').2

theorem pairwise_groups (horder : InOrder ss) :
    (groups ss).Pairwise fun g g' => g.last < g'.first := by
  cases ss with
  | nil => exact List.Pairwise.nil
  | cons s ss =>
    have hsingle : (Group.single s).Of (s :: ss) := Group.of_single List.mem_cons_self
      (horder.first_le_last s List.mem_cons_self)
    exact pairwise_groupsFrom horder.tail hsingle (fun s' => List.mem_cons_of_mem s) horder.head_le

/-- The group holds the instance. -/
structure Group.Has (g : Group) (s : Span) : Prop where
  mem : s.phrase ∈ g.phrases
  first_le : g.first ≤ s.first
  le_last : s.last ≤ g.last

theorem exists_groupFrom (horder : InOrder ss) (hle : ∀ s ∈ ss, g.first ≤ s.first) :
    (∃ g' ∈ groupsFrom g ss, ∀ s, g.Has s → g'.Has s) ∧
      ∀ s ∈ ss, ∃ g' ∈ groupsFrom g ss, g'.Has s := by
  induction ss generalizing g with
  | nil => exact ⟨⟨g, List.mem_singleton_self g, fun _ => id⟩, fun s hs => nomatch hs⟩
  | cons s ss ih =>
    have hfirst := hle s List.mem_cons_self
    rw [groupsFrom]
    split_ifs with hin
    · obtain ⟨⟨g', hg', hhas⟩, hrest⟩ := ih (g := g.absorb s) horder.tail
        fun s' hs' => hle s' (List.mem_cons_of_mem _ hs')
      have hs : (g.absorb s).Has s :=
        ⟨List.mem_append_right _ (List.mem_singleton_self _), hfirst, le_max_right _ _⟩
      refine ⟨⟨g', hg', fun s' hs' => hhas s' ?_⟩,
        List.forall_mem_cons.mpr ⟨⟨g', hg', hhas s hs⟩, hrest⟩⟩
      exact ⟨List.mem_append_left _ hs'.mem, hs'.first_le, hs'.le_last.trans (le_max_left _ _)⟩
    · obtain ⟨⟨g', hg', hhas⟩, hrest⟩ := ih (g := Group.single s) horder.tail horder.head_le
      have hs : (Group.single s).Has s := ⟨List.mem_singleton_self _, Nat.le_refl _, Nat.le_refl _⟩
      refine ⟨⟨g, List.mem_cons_self, fun _ => id⟩, List.forall_mem_cons.mpr ⟨?_, fun s' hs' => ?_⟩⟩
      · exact ⟨g', List.mem_cons_of_mem _ hg', hhas s hs⟩
      · obtain ⟨g'', hg'', hhas'⟩ := hrest s' hs'
        exact ⟨g'', List.mem_cons_of_mem _ hg'', hhas'⟩

/-- Each instance is within a group. -/
theorem exists_group (horder : InOrder ss) : ∀ s ∈ ss, ∃ g ∈ groups ss, g.Has s := by
  cases ss with
  | nil => exact fun s hs => nomatch hs
  | cons s ss =>
    obtain ⟨⟨g, hg, hhas⟩, hrest⟩ :=
      exists_groupFrom (g := Group.single s) horder.tail horder.head_le
    have hs : (Group.single s).Has s := ⟨List.mem_singleton_self _, Nat.le_refl _, Nat.le_refl _⟩
    exact List.forall_mem_cons.mpr ⟨⟨g, hg, hhas s hs⟩, hrest⟩

end Groups

/-! ### What `next` reads -/

section Next

variable {phraseSize iCol} {insts : List Inst} {it : PhaseInstIter} {g : Group}

/-- The iterator is at a group. -/
def PhaseInstIter.At (it : PhaseInstIter) (g : Group) : Prop :=
  it.curPhaseStart = g.first ∧ it.curPhaseEnd = g.last ∧ it.phaseIndexes = g.phrases

/-- The iterator is at no group. -/
def PhaseInstIter.Idle (it : PhaseInstIter) : Prop :=
  it.curPhaseStart = -1 ∧ it.curPhaseEnd = -1 ∧ it.phaseIndexes = []

/-- Every phrase of an instance in the column has tokens. -/
def Sized (phraseSize : ℕ → ℕ) (iCol : ℤ) (insts : List Inst) : Prop :=
  ∀ inst ∈ insts, inst.column = iCol → 0 < phraseSize inst.phrase

theorem Sized.tail {inst : Inst} (h : Sized phraseSize iCol (inst :: insts)) :
    Sized phraseSize iCol insts := fun inst' hinst' => h inst' (List.mem_cons_of_mem _ hinst')

theorem Inst.last_span {inst : Inst} (h : 0 < phraseSize inst.phrase) :
    (inst.offset : ℤ) - 1 + phraseSize inst.phrase = (inst.span phraseSize).last := by
  simp only [Inst.span]
  omega

theorem spans_cons_of_eq {inst : Inst} (h : inst.column = iCol) :
    spans phraseSize iCol (inst :: insts) =
      inst.span phraseSize :: spans phraseSize iCol insts := by
  rw [spans, List.filter_cons_of_pos (by simpa using h), List.map_cons, spans]

theorem spans_cons_of_ne {inst : Inst} (h : inst.column ≠ iCol) :
    spans phraseSize iCol (inst :: insts) = spans phraseSize iCol insts := by
  rw [spans, List.filter_cons_of_neg (by simpa using h), spans]

/-- The loop after the first instance of a group. -/
theorem nextLoop_at (hsized : Sized phraseSize iCol insts) (hat : it.At g) :
    ∃ (it' : PhaseInstIter) (k : ℕ) (g' : Group),
      nextLoop phraseSize iCol insts it = it' ∧ it'.iInst = it.iInst + k ∧ k ≤ insts.length ∧
      it'.At g' ∧ groupsFrom g (spans phraseSize iCol insts) =
        g' :: groups (spans phraseSize iCol (insts.drop k)) := by
  induction insts generalizing it g with
  | nil => exact ⟨it, 0, g, rfl, rfl, Nat.le_refl _, hat, rfl⟩
  | cons inst insts ih =>
    obtain ⟨hstart, hend, hindexes⟩ := hat
    rw [nextLoop]
    by_cases hcolumn : inst.column = iCol
    · have hsize := hsized inst List.mem_cons_self hcolumn
      have hnonneg : ¬ it.curPhaseEnd < 0 := by
        rw [hend]
        omega
      rw [if_pos hcolumn, if_neg hnonneg, spans_cons_of_eq hcolumn, groupsFrom]
      by_cases hin : inst.offset ≤ g.last
      · -- one more instance of the group
        have hin' : (inst.offset : ℤ) ≤ it.curPhaseEnd := by
          rw [hend]
          exact_mod_cast hin
        have hfirst : (inst.span phraseSize).first ≤ g.last := hin
        rw [if_pos hin', if_pos hfirst]
        have habsorb : ({ it with
            curPhaseEnd := if it.curPhaseEnd < (inst.offset : ℤ) - 1 + phraseSize inst.phrase then
              (inst.offset : ℤ) - 1 + phraseSize inst.phrase else it.curPhaseEnd
            iInst := it.iInst + 1
            phaseIndexes := it.phaseIndexes ++ [inst.phrase] } : PhaseInstIter).At
              (g.absorb (inst.span phraseSize)) := by
          refine ⟨hstart, ?_, by rw [hindexes]; rfl⟩
          rw [Inst.last_span hsize, hend, Group.absorb]
          split_ifs with hlt <;> push_cast at * <;> omega
        obtain ⟨it', k, g', hloop, hk, hle, hat', hgroups⟩ := ih hsized.tail habsorb
        refine ⟨it', k + 1, g', hloop, ?_, Nat.succ_le_succ hle, hat', hgroups⟩
        rw [hk]
        simp only
        omega
      · -- an instance behind the group
        have hin' : ¬ (inst.offset : ℤ) ≤ it.curPhaseEnd := by
          rw [hend]
          exact_mod_cast hin
        have hfirst : ¬ (inst.span phraseSize).first ≤ g.last := hin
        rw [if_neg hin', if_neg hfirst]
        refine ⟨it, 0, g, rfl, rfl, Nat.zero_le _, ⟨hstart, hend, hindexes⟩, ?_⟩
        rw [List.drop_zero, spans_cons_of_eq hcolumn, groups]
    · rw [if_neg hcolumn, spans_cons_of_ne hcolumn]
      have hat : ({ it with iInst := it.iInst + 1 } : PhaseInstIter).At g :=
        ⟨hstart, hend, hindexes⟩
      obtain ⟨it', k, g', hloop, hk, hle, hat', hgroups⟩ := ih hsized.tail hat
      refine ⟨it', k + 1, g', hloop, ?_, Nat.succ_le_succ hle, hat', hgroups⟩
      rw [hk]
      simp only
      omega

/-- The loop at no group. -/
theorem nextLoop_idle (hsized : Sized phraseSize iCol insts) (hidle : it.Idle) :
    ∃ (it' : PhaseInstIter) (k : ℕ),
      nextLoop phraseSize iCol insts it = it' ∧ it'.iInst = it.iInst + k ∧ k ≤ insts.length ∧
      ((it'.Idle ∧ spans phraseSize iCol insts = [] ∧ k = insts.length) ∨
        ∃ g, it'.At g ∧ groups (spans phraseSize iCol insts) =
          g :: groups (spans phraseSize iCol (insts.drop k))) := by
  induction insts generalizing it with
  | nil => exact ⟨it, 0, rfl, rfl, Nat.le_refl _, Or.inl ⟨hidle, rfl, rfl⟩⟩
  | cons inst insts ih =>
    obtain ⟨hstart, hend, hindexes⟩ := hidle
    rw [nextLoop]
    by_cases hcolumn : inst.column = iCol
    · have hsize := hsized inst List.mem_cons_self hcolumn
      have hneg : it.curPhaseEnd < 0 := by
        rw [hend]
        decide
      rw [if_pos hcolumn, if_pos hneg, spans_cons_of_eq hcolumn, groups]
      have hat : (PhaseInstIter.mk inst.offset ((inst.offset : ℤ) - 1 + phraseSize inst.phrase)
          (it.iInst + 1) (it.phaseIndexes ++ [inst.phrase])).At
            (Group.single (inst.span phraseSize)) :=
        ⟨rfl, Inst.last_span hsize, by rw [hindexes]; rfl⟩
      obtain ⟨it', k, g, hloop, hk, hle, hat', hgroups⟩ := nextLoop_at hsized.tail hat
      refine ⟨it', k + 1, hloop, ?_, Nat.succ_le_succ hle, Or.inr ⟨g, hat', hgroups⟩⟩
      rw [hk]
      simp only
      omega
    · rw [if_neg hcolumn, spans_cons_of_ne hcolumn]
      have hidle : ({ it with iInst := it.iInst + 1 } : PhaseInstIter).Idle :=
        ⟨hstart, hend, hindexes⟩
      obtain ⟨it', k, hloop, hk, hle, hcases⟩ := ih hsized.tail hidle
      refine ⟨it', k + 1, hloop, ?_, Nat.succ_le_succ hle, ?_⟩
      · rw [hk]
        simp only
        omega
      · rcases hcases with ⟨hidle, hnil, hlength⟩ | hat
        · exact Or.inl ⟨hidle, hnil, by rw [hlength, List.length_cons]⟩
        · exact Or.inr hat

/-- The iterator is at the first of some groups, and the others are still to be read. -/
def PhaseInstIter.Reads (phraseSize : ℕ → ℕ) (iCol : ℤ) (insts : List Inst) (it : PhaseInstIter) :
    List Group → Prop
  | [] => it.Idle ∧ insts.length ≤ it.iInst
  | g :: gs => it.At g ∧ groups (spans phraseSize iCol (insts.drop it.iInst)) = gs

/-- **A call of `next`.** -/
theorem next_reads (hsized : Sized phraseSize iCol insts) (it : PhaseInstIter) :
    (next phraseSize iCol insts it).Reads phraseSize iCol insts
      (groups (spans phraseSize iCol (insts.drop it.iInst))) := by
  have hdrop : Sized phraseSize iCol (insts.drop it.iInst) :=
    fun inst hinst => hsized inst (List.mem_of_mem_drop hinst)
  have hidle : ({ it with
      curPhaseStart := -1, curPhaseEnd := -1, phaseIndexes := [] } : PhaseInstIter).Idle :=
    ⟨rfl, rfl, rfl⟩
  obtain ⟨it', k, hloop, hk, hle, hcases⟩ := nextLoop_idle hdrop hidle
  rw [next, hloop]
  rcases hcases with ⟨hidle, hnil, hlength⟩ | ⟨g, hat, hgroups⟩
  · rw [hnil]
    refine ⟨hidle, ?_⟩
    rw [hk, hlength, List.length_drop]
    simp only
    omega
  · rw [hgroups]
    refine ⟨hat, ?_⟩
    rw [hk, List.drop_drop]

end Next

end Wcdb.SubstringMatchInfo
