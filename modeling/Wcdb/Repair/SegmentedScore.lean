import Mathlib.Algebra.Order.Field.Rat
import Mathlib.Algebra.Order.Group.Multiset
import Mathlib.Tactic.Linarith
import Mathlib.Tactic.Positivity
import Wcdb.Lib.Run

/-!
# The segmented score of a repair

A `Repairman` counts the weight of what it assembles in a segment, and at every milestone, when the
transaction of the assembling handle is committed, the segment is folded into the score or dropped.
SQLite may end a transaction by itself when a statement fails, a constraint that is declared with
`ON CONFLICT ROLLBACK` or an interrupt for instance; the milestone takes a handle that is in no
transaction for one that has nothing to commit.

`work_settles`: every run ends with nothing pending and with the score of the segments whose
milestone succeeded, and the cells in it are committed if no statement ends a transaction that holds
counted cells. Sums of fractions are taken as exact.
-/

namespace Wcdb.SegmentedScore

variable {C : Type}

/-! ### The assembling handle -/

/-- How a statement ends; one that fails may take the transaction with it. -/
inductive Executed where
  | done
  | failed (rolledBack : Bool)
  deriving DecidableEq, Repr

/-- How the statements of a milestone end. -/
structure MilestoneEvent where
  commits : Bool := true
  rollsBack : Bool := true
  begins : Bool := true
  deriving DecidableEq, Repr

/-- The handle: whether it is in a transaction, the cells of it, and those that are committed. -/
structure AssembleHandle (C : Type) where
  inTransaction : Bool := false
  pending : Multiset C := 0
  committed : Multiset C := 0

namespace AssembleHandle

/-- A statement that inserts no cell. -/
def execute (h : AssembleHandle C) (e : Executed) : AssembleHandle C :=
  if e = .failed true ∧ h.inTransaction then { h with inTransaction := false, pending := 0 } else h

/-- `assembleCell`; outside of a transaction the statement commits itself. -/
def assembleCell (h : AssembleHandle C) (cell : C) (e : Executed) : AssembleHandle C :=
  if e = .done then
    if h.inTransaction then { h with pending := cell ::ₘ h.pending }
    else { h with committed := cell ::ₘ h.committed }
  else h.execute e

def commitOrRollbackTransaction (h : AssembleHandle C) (m : MilestoneEvent) :
    Bool × AssembleHandle C :=
  if m.commits then
    (true, { inTransaction := false, pending := 0, committed := h.committed + h.pending })
  else (false, if m.rollsBack then { h with inTransaction := false, pending := 0 } else h)

def beginTransaction (h : AssembleHandle C) (m : MilestoneEvent) : Bool × AssembleHandle C :=
  if m.begins then (true, { h with inTransaction := true }) else (false, h)

def markAsMilestone (h : AssembleHandle C) (m : MilestoneEvent) : Bool × AssembleHandle C :=
  if h.inTransaction then
    if (h.commitOrRollbackTransaction m).1 then
      (h.commitOrRollbackTransaction m).2.beginTransaction m
    else (false, (h.commitOrRollbackTransaction m).2)
  else h.beginTransaction m

/-- `markAsAssembled`: the dummy table is dropped before the last transaction ends. -/
def markAsAssembled (h : AssembleHandle C) (drop : Executed) (m : MilestoneEvent) :
    AssembleHandle C :=
  if (h.execute drop).inTransaction then ((h.execute drop).commitOrRollbackTransaction m).2
  else h.execute drop

end AssembleHandle

/-! ### The repairman -/

/-- A cell that was crawled, and the page it is on. -/
structure CrawledCell (C : Type) where
  cell : C
  isIndexPage : Bool
  numberOfCells : ℕ
  deriving DecidableEq, Repr

structure CrawledPage where
  isLeafTable : Bool
  numberOfCells : ℕ
  deriving DecidableEq, Repr

/-- What is counted and how the milestones end: for the statement about the score, not for the
code. -/
inductive ScoreEvent (C : Type) where
  | counted (weight : ℚ) (cell : Option C)
  | milestone (succeeded : Bool)
  deriving DecidableEq, Repr

structure Repairman (C : Type) where
  pageWeight : ℚ
  score : ℚ := 0
  segmentedScore : ℚ := 0
  mile : ℕ := 0
  handle : AssembleHandle C := {}
  history : List (ScoreEvent C) := []

namespace Repairman

/-- `m_milestone`. -/
def milestone : ℕ := 1000

/-- `SegmentedScoreable::increaseScore`, for an assembled cell or something else. -/
def increaseScore (r : Repairman C) (increment : ℚ) (cell : Option C) : Repairman C :=
  { r with
    segmentedScore := r.segmentedScore + increment
    history := r.history ++ [.counted increment cell] }

/-- `markSegmentedScoreCounted`, with `Scoreable::increaseScore`. -/
def markSegmentedScoreCounted (r : Repairman C) : Repairman C :=
  { r with
    score := if 1 < r.score + r.segmentedScore then 1 else r.score + r.segmentedScore
    segmentedScore := 0 }

def markSegmentedScoreDropped (r : Repairman C) : Repairman C := { r with segmentedScore := 0 }

def markCellAsCounted (r : Repairman C) (c : CrawledCell C) (assembled : Option C) : Repairman C :=
  if c.isIndexPage then r
  else if 0 < c.numberOfCells then r.increaseScore (r.pageWeight * (1 / c.numberOfCells)) assembled
  else r

def markPageAsCounted (r : Repairman C) (page : CrawledPage) : Repairman C :=
  if page.isLeafTable ∧ page.numberOfCells = 0 then r.increaseScore r.pageWeight none else r

def markAsMilestone (r : Repairman C) (m : MilestoneEvent) : Repairman C :=
  let result := r.handle.markAsMilestone m
  let r := { r with
    mile := 0, handle := result.2, history := r.history ++ [ScoreEvent.milestone result.1] }
  if result.1 then r.markSegmentedScoreCounted else r.markSegmentedScoreDropped

def towardMilestone (r : Repairman C) (mile : ℕ) (m : MilestoneEvent) : Repairman C :=
  let r := { r with mile := r.mile + mile }
  if milestone < r.mile then r.markAsMilestone m else r

/-- What the crawlers call, in any order. -/
inductive Call (C : Type) where
  | assembleTable (e : Executed) (m : MilestoneEvent)
  | assembleCell (c : CrawledCell C) (e : Executed) (m : MilestoneEvent)
  | assembleSequence (e : Executed) (m : MilestoneEvent)
  | assembleAssociatedSQL (e : Executed)
  | markCellAsCounted (c : CrawledCell C)
  | markPageAsCounted (page : CrawledPage)

/-- How the statement of a call ends. -/
def Call.executed : Call C → Executed
  | .assembleTable e _ | .assembleCell _ e _ | .assembleSequence e _ | .assembleAssociatedSQL e => e
  | .markCellAsCounted _ | .markPageAsCounted _ => .done

def step (r : Repairman C) : Call C → Repairman C
  | .assembleTable e m =>
      let r := { r with handle := r.handle.execute e }
      if e = .done then r.markAsMilestone m else r
  | .assembleCell c e m =>
      let r := { r with handle := r.handle.assembleCell c.cell e }
      if e = .done then (r.markCellAsCounted c (some c.cell)).towardMilestone 1 m else r
  | .assembleSequence e m =>
      let r := { r with handle := r.handle.execute e }
      if e = .done then r.towardMilestone 1 m else r
  | .assembleAssociatedSQL e => { r with handle := r.handle.execute e }
  | .markCellAsCounted c => r.markCellAsCounted c none
  | .markPageAsCounted page => r.markPageAsCounted page

def run (r : Repairman C) (calls : List (Call C)) : Repairman C := calls.foldl step r

/-- How the work ends: the last milestone, and what comes after it unless an error is critical. -/
structure Ending where
  last : MilestoneEvent := {}
  critical : Bool := false
  drop : Executed := .done
  close : MilestoneEvent := {}
  deriving DecidableEq, Repr

def markAsAssembled (r : Repairman C) (e : Ending) : Repairman C :=
  let r := r.markAsMilestone e.last
  if e.critical then r else { r with handle := r.handle.markAsAssembled e.drop e.close }

/-- The repairman at the start, over a database with some leaf pages. -/
def start (C : Type) (pages : ℕ) : Repairman C :=
  { pageWeight := 1 / (if pages = 0 then 1 else pages) }

/-- `work`; `opens` is what `markAsAssembling` returns. Without it nothing is counted. -/
def work (pages : ℕ) (opens : Bool) (calls : List (Call C)) (e : Ending) : Repairman C :=
  if opens then ((start C pages).run calls).markAsAssembled e else start C pages

end Repairman

/-! ### What the score is to be -/

/-- What is counted since the last milestone, and what in the segments whose milestone succeeded. -/
structure Ledger (C : Type) where
  weight : ℚ := 0
  cells : Multiset C := 0
  settledWeight : ℚ := 0
  settledCells : Multiset C := 0

def Ledger.record (l : Ledger C) : ScoreEvent C → Ledger C
  | .counted weight cell =>
      { l with weight := l.weight + weight, cells := l.cells + (cell.toList : Multiset C) }
  | .milestone true => {
      settledWeight := l.settledWeight + l.weight
      settledCells := l.settledCells + l.cells }
  | .milestone false => { l with weight := 0, cells := 0 }

def ledger (history : List (ScoreEvent C)) : Ledger C := history.foldl Ledger.record {}

@[simp]
theorem ledger_concat (history : List (ScoreEvent C)) (e : ScoreEvent C) :
    ledger (history ++ [e]) = (ledger history).record e := by
  rw [ledger, List.foldl_append]
  rfl

namespace Repairman

/-- The scores are those of the ledger. -/
structure Scored (r : Repairman C) : Prop where
  pageWeight_nonneg : 0 ≤ r.pageWeight
  segmented : r.segmentedScore = (ledger r.history).weight
  score : r.score = min 1 (ledger r.history).settledWeight
  weight_nonneg : 0 ≤ (ledger r.history).weight

section Scored

variable {r : Repairman C}

theorem Scored.withHandle (h : r.Scored) (handle : AssembleHandle C) :
    Scored { r with handle := handle } := ⟨h.1, h.2, h.3, h.4⟩

theorem Scored.increaseScore (h : r.Scored) {increment : ℚ} (hincrement : 0 ≤ increment)
    (cell : Option C) : (r.increaseScore increment cell).Scored where
  pageWeight_nonneg := h.pageWeight_nonneg
  segmented := by
    rw [Repairman.increaseScore, ledger_concat, h.segmented]
    rfl
  score := by
    rw [Repairman.increaseScore, ledger_concat]
    exact h.score
  weight_nonneg := by
    rw [Repairman.increaseScore, ledger_concat]
    exact add_nonneg h.weight_nonneg hincrement

theorem Scored.markCellAsCounted (h : r.Scored) (c : CrawledCell C) (assembled : Option C) :
    (r.markCellAsCounted c assembled).Scored := by
  rw [Repairman.markCellAsCounted]
  split_ifs
  · exact h
  · exact h.increaseScore (mul_nonneg h.pageWeight_nonneg (by positivity)) assembled
  · exact h

theorem Scored.markPageAsCounted (h : r.Scored) (page : CrawledPage) :
    (r.markPageAsCounted page).Scored := by
  rw [Repairman.markPageAsCounted]
  split_ifs
  · exact h.increaseScore h.pageWeight_nonneg none
  · exact h

/-- Folding a segment in: the smaller of 1 and the sum stays that. -/
theorem min_one_add {a b : ℚ} (hb : 0 ≤ b) :
    (if 1 < min 1 a + b then 1 else min 1 a + b) = min 1 (a + b) := by
  rcases le_total 1 a with h | h
  · rw [min_eq_left h, min_eq_left (by linarith)]
    split_ifs <;> linarith
  · rw [min_eq_right h]
    split_ifs with hlt
    · rw [min_eq_left hlt.le]
    · rw [min_eq_right (not_lt.mp hlt)]

theorem Scored.markAsMilestone (h : r.Scored) (m : MilestoneEvent) :
    (r.markAsMilestone m).Scored ∧ (r.markAsMilestone m).segmentedScore = 0 := by
  rw [Repairman.markAsMilestone]
  cases hresult : (r.handle.markAsMilestone m).1 with
  | true =>
    refine ⟨⟨h.pageWeight_nonneg, ?_, ?_, ?_⟩, rfl⟩
    · simp [markSegmentedScoreCounted, Ledger.record]
    · simp [markSegmentedScoreCounted, Ledger.record, h.score, h.segmented,
        min_one_add h.weight_nonneg]
    · simp [markSegmentedScoreCounted, Ledger.record]
  | false =>
    refine ⟨⟨h.pageWeight_nonneg, ?_, ?_, ?_⟩, rfl⟩
    · simp [markSegmentedScoreDropped, Ledger.record]
    · simp [markSegmentedScoreDropped, Ledger.record, h.score]
    · simp [markSegmentedScoreDropped, Ledger.record]

theorem Scored.towardMilestone (h : r.Scored) (mile : ℕ) (m : MilestoneEvent) :
    (r.towardMilestone mile m).Scored := by
  have hmile : Scored { r with mile := r.mile + mile } := ⟨h.1, h.2, h.3, h.4⟩
  rw [Repairman.towardMilestone]
  split_ifs
  · exact (hmile.markAsMilestone m).1
  · exact hmile

theorem Scored.step (h : r.Scored) (call : Call C) : (r.step call).Scored := by
  cases call with
  | assembleTable e m =>
    rw [Repairman.step]
    split_ifs
    · exact ((h.withHandle _).markAsMilestone m).1
    · exact h.withHandle _
  | assembleCell c e m =>
    rw [Repairman.step]
    split_ifs
    · exact ((h.withHandle _).markCellAsCounted c _).towardMilestone 1 m
    · exact h.withHandle _
  | assembleSequence e m =>
    rw [Repairman.step]
    split_ifs
    · exact (h.withHandle _).towardMilestone 1 m
    · exact h.withHandle _
  | assembleAssociatedSQL e => exact h.withHandle _
  | markCellAsCounted c => exact h.markCellAsCounted c none
  | markPageAsCounted page => exact h.markPageAsCounted page

theorem Scored.run (h : r.Scored) (calls : List (Call C)) : (r.run calls).Scored := by
  induction calls generalizing r with
  | nil => exact h
  | cons call calls ih => exact ih (h.step call)

theorem Scored.markAsAssembled (h : r.Scored) (e : Ending) :
    (r.markAsAssembled e).Scored ∧ (r.markAsAssembled e).segmentedScore = 0 := by
  obtain ⟨hscored, hzero⟩ := h.markAsMilestone e.last
  rw [Repairman.markAsAssembled]
  split_ifs
  · exact ⟨hscored, hzero⟩
  · exact ⟨hscored.withHandle _, hzero⟩

end Scored

end Repairman

/-! ### The cells in the score -/

namespace AssembleHandle

/-- Outside of a transaction nothing is pending. -/
def Alone (h : AssembleHandle C) : Prop := h.inTransaction = false → h.pending = 0

section Handle

variable {h : AssembleHandle C}

theorem committed_execute (h : AssembleHandle C) (e : Executed) :
    (h.execute e).committed = h.committed := by
  rw [execute]
  split_ifs <;> rfl

theorem Alone.execute (ha : h.Alone) (e : Executed) : (h.execute e).Alone := by
  rw [AssembleHandle.execute]
  split_ifs
  · exact fun _ => rfl
  · exact ha

theorem execute_eq_or (h : AssembleHandle C) (e : Executed) :
    h.execute e = h ∨ e = .failed true ∧ h.inTransaction = true := by
  rw [execute]
  split_ifs with he
  · exact Or.inr he
  · exact Or.inl rfl

/-- A milestone that succeeds commits everything; one that fails commits everything or nothing. -/
theorem markAsMilestone_committed (ha : h.Alone) (m : MilestoneEvent) :
    ((h.markAsMilestone m).1 = true → (h.markAsMilestone m).2.committed = h.committed + h.pending) ∧
      h.committed ≤ (h.markAsMilestone m).2.committed ∧ (h.markAsMilestone m).2.Alone := by
  rw [markAsMilestone]
  cases htransaction : h.inTransaction with
  | true =>
    rw [if_pos rfl, commitOrRollbackTransaction]
    cases m.commits with
    | true =>
      rw [if_pos rfl, if_pos rfl, beginTransaction]
      cases m.begins with
      | true => exact ⟨fun _ => rfl, Multiset.le_add_right _ _, fun _ => rfl⟩
      | false => exact ⟨nofun, Multiset.le_add_right _ _, fun _ => rfl⟩
    | false =>
      cases m.rollsBack with
      | true => exact ⟨nofun, le_refl _, fun _ => rfl⟩
      | false => exact ⟨nofun, le_refl _, ha⟩
  | false =>
    have hpending := ha htransaction
    rw [if_neg Bool.false_ne_true, beginTransaction]
    cases m.begins with
    | true => exact ⟨fun _ => by simp [hpending], le_refl _, nofun⟩
    | false => exact ⟨nofun, le_refl _, ha⟩

theorem le_committed_markAsAssembled (drop : Executed) (m : MilestoneEvent) :
    h.committed ≤ (h.markAsAssembled drop m).committed := by
  have hexecute := committed_execute h drop
  rw [markAsAssembled]
  split_ifs
  · rw [commitOrRollbackTransaction]
    split_ifs
    · rw [← hexecute]
      exact Multiset.le_add_right _ _
    · exact hexecute.ge
    · exact hexecute.ge
  · exact hexecute.ge

end Handle

end AssembleHandle

namespace Repairman

/-- The cells in the score are committed, and those of the open segment are committed or pending. -/
structure Settled (r : Repairman C) : Prop where
  settled : (ledger r.history).settledCells ≤ r.handle.committed
  counted : (ledger r.history).settledCells + (ledger r.history).cells ≤
    r.handle.committed + r.handle.pending
  alone : r.handle.Alone

/-- A statement that fails does not end a transaction that holds counted cells. -/
def Keeps (r : Repairman C) (call : Call C) : Prop :=
  call.executed = .failed true → r.handle.inTransaction = true → (ledger r.history).cells = 0

section Settled

variable {r : Repairman C}

theorem Settled.execute (h : r.Settled) {e : Executed}
    (hkeeps : e = .failed true → r.handle.inTransaction = true → (ledger r.history).cells = 0) :
    Settled { r with handle := r.handle.execute e } := by
  rcases r.handle.execute_eq_or e with heq | ⟨he, htransaction⟩
  · rw [heq]
    exact h
  · refine ⟨?_, ?_, h.alone.execute e⟩
    · rw [AssembleHandle.committed_execute]
      exact h.settled
    · rw [AssembleHandle.committed_execute, hkeeps he htransaction, add_zero]
      exact h.settled.trans (Multiset.le_add_right _ _)

/-- A weight that is no assembled cell's changes nothing. -/
theorem Settled.increaseScore (h : r.Settled) (increment : ℚ) :
    (r.increaseScore increment none).Settled := by
  refine ⟨?_, ?_, h.alone⟩
  · rw [Repairman.increaseScore, ledger_concat]
    exact h.settled
  · rw [Repairman.increaseScore, ledger_concat]
    simpa [Ledger.record] using h.counted

theorem Settled.markCellAsCounted (h : r.Settled) (c : CrawledCell C) :
    (r.markCellAsCounted c none).Settled := by
  rw [Repairman.markCellAsCounted]
  split_ifs
  · exact h
  · exact h.increaseScore _
  · exact h

theorem Settled.markPageAsCounted (h : r.Settled) (page : CrawledPage) :
    (r.markPageAsCounted page).Settled := by
  rw [Repairman.markPageAsCounted]
  split_ifs
  · exact h.increaseScore _
  · exact h

/-- An assembled cell is pending, or committed by itself. -/
theorem Settled.assembleCell (h : r.Settled) (c : CrawledCell C) :
    Settled (({ r with handle := r.handle.assembleCell c.cell .done }).markCellAsCounted c
      (some c.cell)) := by
  have hhandle : ∀ cells ≤ c.cell ::ₘ (ledger r.history).cells,
      (ledger r.history).settledCells ≤ (r.handle.assembleCell c.cell .done).committed ∧
      (ledger r.history).settledCells + cells ≤
        (r.handle.assembleCell c.cell .done).committed +
          (r.handle.assembleCell c.cell .done).pending ∧
      (r.handle.assembleCell c.cell .done).Alone := by
    intro cells hcells
    have hcounted : (ledger r.history).settledCells + cells ≤
        c.cell ::ₘ (r.handle.committed + r.handle.pending) := by
      refine (add_le_add_right hcells _).trans ?_
      rw [Multiset.add_cons]
      exact Multiset.cons_le_cons _ h.counted
    rw [AssembleHandle.assembleCell, if_pos rfl]
    split_ifs with htransaction
    · exact ⟨h.settled, by rwa [Multiset.add_cons], fun hfalse => by
        rw [htransaction] at hfalse
        cases hfalse⟩
    · exact ⟨h.settled.trans (Multiset.le_cons_self _ _), by rwa [Multiset.cons_add], h.alone⟩
  rw [Repairman.markCellAsCounted]
  split_ifs
  · obtain ⟨hsettled, hcounted, halone⟩ := hhandle _ (Multiset.le_cons_self _ _)
    exact ⟨hsettled, hcounted, halone⟩
  · obtain ⟨hsettled, hcounted, halone⟩ := hhandle _ le_rfl
    refine ⟨?_, ?_, halone⟩
    · rw [Repairman.increaseScore, ledger_concat]
      exact hsettled
    · rw [Repairman.increaseScore, ledger_concat]
      refine le_of_eq_of_le ?_ hcounted
      simp [Ledger.record, ← Multiset.singleton_add, add_comm]
  · obtain ⟨hsettled, hcounted, halone⟩ := hhandle _ (Multiset.le_cons_self _ _)
    exact ⟨hsettled, hcounted, halone⟩

theorem Settled.markAsMilestone (h : r.Settled) (m : MilestoneEvent) :
    (r.markAsMilestone m).Settled := by
  obtain ⟨hsucceeds, hle, halone⟩ := AssembleHandle.markAsMilestone_committed h.alone m
  rw [Repairman.markAsMilestone]
  cases hresult : (r.handle.markAsMilestone m).1 with
  | true =>
    have hcommitted : (ledger r.history).settledCells + (ledger r.history).cells ≤
        (r.handle.markAsMilestone m).2.committed := hsucceeds hresult ▸ h.counted
    refine ⟨?_, ?_, halone⟩
    · simpa [markSegmentedScoreCounted, Ledger.record] using hcommitted
    · simpa [markSegmentedScoreCounted, Ledger.record] using
        hcommitted.trans (Multiset.le_add_right _ _)
  | false =>
    have hcommitted : (ledger r.history).settledCells ≤
        (r.handle.markAsMilestone m).2.committed := h.settled.trans hle
    refine ⟨?_, ?_, halone⟩
    · simpa [markSegmentedScoreDropped, Ledger.record] using hcommitted
    · simpa [markSegmentedScoreDropped, Ledger.record] using
        hcommitted.trans (Multiset.le_add_right _ _)

theorem Settled.towardMilestone (h : r.Settled) (mile : ℕ) (m : MilestoneEvent) :
    (r.towardMilestone mile m).Settled := by
  have hmile : Settled { r with mile := r.mile + mile } := ⟨h.1, h.2, h.3⟩
  rw [Repairman.towardMilestone]
  split_ifs
  · exact hmile.markAsMilestone m
  · exact hmile

theorem Settled.step (h : r.Settled) {call : Call C} (hkeeps : r.Keeps call) :
    (r.step call).Settled := by
  cases call with
  | assembleTable e m =>
    rw [Repairman.step]
    split_ifs
    · exact (h.execute hkeeps).markAsMilestone m
    · exact h.execute hkeeps
  | assembleCell c e m =>
    rw [Repairman.step]
    split_ifs with he
    · subst he
      exact (h.assembleCell c).towardMilestone 1 m
    · rw [AssembleHandle.assembleCell, if_neg he]
      exact h.execute hkeeps
  | assembleSequence e m =>
    rw [Repairman.step]
    split_ifs
    · exact (h.execute hkeeps).towardMilestone 1 m
    · exact h.execute hkeeps
  | assembleAssociatedSQL e => exact h.execute hkeeps
  | markCellAsCounted c => exact h.markCellAsCounted c
  | markPageAsCounted page => exact h.markPageAsCounted page

theorem Settled.run (h : r.Settled) {calls : List (Call C)}
    (hkeeps : Run.Meets (fun r call => some (Repairman.step r call)) Keeps r calls) :
    (r.run calls).Settled := by
  induction calls generalizing r with
  | nil => exact h
  | cons call calls ih => exact ih (h.step hkeeps.1) (hkeeps.2 _ rfl)

end Settled

theorem start_scored (pages : ℕ) : (start C pages).Scored where
  pageWeight_nonneg := by
    rw [start]
    positivity
  segmented := rfl
  score := by simp [start, ledger]
  weight_nonneg := le_refl _

theorem start_settled (pages : ℕ) : (start C pages).Settled :=
  ⟨le_refl _, le_refl _, fun _ => rfl⟩

/-- **The score at the end.** Nothing is pending, the score is that of the segments whose milestone
succeeded, and the cells in it are committed unless a statement that fails has ended a transaction
with counted cells. -/
theorem work_settles (pages : ℕ) (opens : Bool) (calls : List (Call C)) (e : Ending) :
    (work pages opens calls e).segmentedScore = 0 ∧
    (work pages opens calls e).score =
      min 1 (ledger (work pages opens calls e).history).settledWeight ∧
    (Run.Meets (fun r call => some (Repairman.step r call)) Keeps (start C pages) calls →
      (ledger (work pages opens calls e).history).settledCells ≤
        (work pages opens calls e).handle.committed) := by
  have hrun := (start_scored (C := C) pages).run calls
  have hend := hrun.markAsAssembled e
  rw [work]
  cases opens with
  | false => exact ⟨rfl, (start_scored pages).score, fun _ => le_refl _⟩
  | true =>
    refine ⟨hend.2, hend.1.score, fun hkeeps => ?_⟩
    have hsettled := ((start_settled pages).run hkeeps).markAsMilestone e.last
    rw [if_pos rfl, markAsAssembled]
    split_ifs
    · exact hsettled.settled
    · exact hsettled.settled.trans (AssembleHandle.le_committed_markAsAssembled _ _)

/-- A cell is assembled, and the next one fails on a constraint with `ON CONFLICT ROLLBACK`. -/
def conflictCalls : List (Call ℕ) := [
  .assembleTable .done {},
  .assembleCell ⟨1, false, 2⟩ .done {},
  .assembleCell ⟨2, false, 2⟩ (.failed true) {}]

theorem conflict_lost :
    (work 1 true conflictCalls {}).score = 1 / 2 ∧
    (ledger (work 1 true conflictCalls {}).history).settledCells = {1} ∧
    (work 1 true conflictCalls {}).handle.committed = 0 := by
  decide +kernel

theorem work_settles_ignored :
    (ledger (work 1 true [.assembleTable .done {}, .assembleCell ⟨1, false, 1⟩ .done {},
        .assembleCell (⟨2, false, 1⟩ : CrawledCell ℕ) (.failed false) {}]
          {}).history).settledCells ≤
      (work 1 true [.assembleTable .done {}, .assembleCell ⟨1, false, 1⟩ .done {},
        .assembleCell (⟨2, false, 1⟩ : CrawledCell ℕ) (.failed false) {}] {}).handle.committed :=
  (work_settles 1 true _ {}).2.2 (by simp [Run.Meets, Keeps, Call.executed])

end Repairman

end Wcdb.SegmentedScore
