import Wcdb.Lib.Run
import Mathlib.Data.List.Count

/-!
# `HandleCounter`: how many handles are out

Threads wait for one of 32 handles and, with a write hint, for one of 4 writer slots. Each critical
section, from the acquisition of the mutex to a wait or to its release, is one step; a thread that
waits takes the next one when it runs again, woken or not. The queues of the source name threads
by position: whoever runs again pops the front.

`decreaseHandleCount` wakes one queue only, so a release can leave a free handle and a thread that
waits for it (`lostWakeUp`). Both counts stay below their maxima, and no wake-up is lost in a run in
which every release wakes enough threads (`counted_of_exec`): `WakesEnough` weighs what is free
after the release against the threads that have been woken then.
-/

namespace Wcdb

/-! ### Types of handles -/

inductive HandleSlot where
  | normal
  | autoTask
  | assemble
  | vacuum
  | cipher
  deriving DecidableEq, Repr

inductive HandleCategory where
  | normal
  | migrate
  | compress
  | backup
  | cipher
  | checkpoint
  | integrity
  | mergeIndex
  | vacuum
  deriving DecidableEq, Repr

inductive HandleType where
  | normal
  | migrate
  | compress
  | backupCipher
  | backup
  | checkpoint
  | integrityCheck
  | assemble
  | assembleCipher
  | assembleBackup
  | vacuum
  | autoVacuum
  | mergeIndex
  deriving DecidableEq, Repr

namespace HandleType

def slotOfHandleType : HandleType → HandleSlot
  | .normal => .normal
  | .migrate | .compress | .backup | .checkpoint | .integrityCheck | .autoVacuum
  | .mergeIndex => .autoTask
  | .assemble | .assembleBackup => .assemble
  | .vacuum => .vacuum
  | .backupCipher | .assembleCipher => .cipher

def categoryOfHandleType : HandleType → HandleCategory
  | .normal | .assemble => .normal
  | .migrate => .migrate
  | .compress => .compress
  | .backupCipher | .assembleCipher => .cipher
  | .backup | .assembleBackup => .backup
  | .checkpoint => .checkpoint
  | .integrityCheck => .integrity
  | .vacuum | .autoVacuum => .vacuum
  | .mergeIndex => .mergeIndex

def handleShouldWaitWhenFull (type : HandleType) : Bool := type = .normal

end HandleType

namespace HandleCounter

def maxAllowedNumberOfHandles : ℕ := 32

def maxAllowedNumberOfWriters : ℕ := 4

/-- A call of `tryIncreaseHandleCount`. -/
structure Caller (T : Type) where
  thread : T
  type : HandleType := .normal
  writeHint : Bool := false
  deriving DecidableEq, Repr

/-- A call that waits. -/
structure Waiter (T : Type) extends Caller T where
  woken : Bool := false
  deriving DecidableEq, Repr

/-- The fields of `HandleCounter`, and the threads in the waits of its two condition variables. -/
structure State (T : Type) where
  writerCount : ℕ := 0
  totalCount : ℕ := 0
  pendingNormals : List T := []
  pendingWriters : List T := []
  inNormals : List (Waiter T) := []
  inWriters : List (Waiter T) := []
  deriving DecidableEq, Repr

variable {T : Type}

namespace State

def waitNormals (s : State T) (c : Caller T) : State T :=
  { s with
    pendingNormals := s.pendingNormals ++ [c.thread]
    inNormals := s.inNormals ++ [{ toCaller := c }] }

def waitWriters (s : State T) (c : Caller T) : State T :=
  { s with
    pendingWriters := s.pendingWriters ++ [c.thread]
    inWriters := s.inWriters ++ [{ toCaller := c }] }

/-- What `tryIncreaseHandleCount` returns, or `none` when it waits. -/
abbrev Outcome := Option Bool

/-- The inner loop over the writer slots. -/
def loopWriters (s : State T) (c : Caller T) (next : State T × Outcome) : State T × Outcome :=
  if c.writeHint ∧ maxAllowedNumberOfWriters ≤ s.writerCount then
    if !c.type.handleShouldWaitWhenFull then (s, some false) else (s.waitWriters c, none)
  else next

/-- The inner loop over the handles. -/
def loopNormals (s : State T) (c : Caller T) (next : State T × Outcome) : State T × Outcome :=
  if maxAllowedNumberOfHandles ≤ s.totalCount then
    if !c.type.handleShouldWaitWhenFull then (s, some false) else (s.waitNormals c, none)
  else next

/-- The end of `tryIncreaseHandleCount`. -/
def increase (s : State T) (c : Caller T) : State T × Outcome :=
  ({ s with
      writerCount := if c.writeHint then s.writerCount + 1 else s.writerCount
      totalCount := s.totalCount + 1 }, some true)

/-- The outer loop; its body is run until both conditions fail one after the other. -/
def tryIncreaseHandleCount (s : State T) (c : Caller T) : State T × Outcome :=
  s.loopNormals c (s.loopWriters c (s.increase c))

section Waits

variable [DecidableEq T]

/-- A wait for a handle ends. -/
def resumeNormals (s : State T) (w : Waiter T) : State T × Outcome :=
  let s := { s with
    pendingNormals := s.pendingNormals.tail
    inNormals := s.inNormals.erase w }
  s.loopNormals w.toCaller (s.loopWriters w.toCaller (s.increase w.toCaller))

/-- A wait for a writer slot ends. -/
def resumeWriters (s : State T) (w : Waiter T) : State T × Outcome :=
  let s := { s with
    pendingWriters := s.pendingWriters.tail
    inWriters := s.inWriters.erase w }
  s.loopWriters w.toCaller (s.tryIncreaseHandleCount w.toCaller)

/-- `notify` of the front on Apple platforms (`targeted`), `notify_all` elsewhere. -/
def notify (targeted : Bool) (pending : List T) (waiters : List (Waiter T)) : List (Waiter T) :=
  if pending ≠ [] then
    waiters.map fun w =>
      if !targeted || pending.head? = some w.thread then { w with woken := true } else w
  else waiters

def decreaseHandleCount (targeted : Bool) (s : State T) (writeHint : Bool) : State T :=
  let hasNotified := writeHint && s.pendingWriters ≠ []
  let s := if writeHint then
      { s with
        writerCount := s.writerCount - 1
        inWriters := notify targeted s.pendingWriters s.inWriters }
    else s
  let s := { s with totalCount := s.totalCount - 1 }
  if hasNotified then s
  else { s with inNormals := notify targeted s.pendingNormals s.inNormals }

end Waits

end State

inductive Action (T : Type) where
  | tryIncrease (c : Caller T)
  | decrease (writeHint : Bool)
  | resumeNormals (w : Waiter T)
  | resumeWriters (w : Waiter T)
  deriving DecidableEq, Repr

/-- A thread that waits makes no call, and a handle is given back by who has it. -/
def step [DecidableEq T] (targeted : Bool) (s : State T) : Action T → Option (State T)
  | .tryIncrease c =>
      if ∃ w ∈ s.inNormals ++ s.inWriters, w.thread = c.thread then none
      else some (s.tryIncreaseHandleCount c).1
  | .decrease writeHint =>
      if if writeHint then 0 < s.writerCount else s.writerCount < s.totalCount then
        some (s.decreaseHandleCount targeted writeHint)
      else none
  | .resumeNormals w => if w ∈ s.inNormals then some (s.resumeNormals w).1 else none
  | .resumeWriters w => if w ∈ s.inWriters then some (s.resumeWriters w).1 else none

section Calls

variable {s : State T} {c : Caller T}

/-- A call that gets a handle finds both counts below their maxima. -/
theorem tryIncreaseHandleCount_eq (h : (s.tryIncreaseHandleCount c).2 = some true) :
    s.totalCount < maxAllowedNumberOfHandles ∧
      (s.tryIncreaseHandleCount c).1.totalCount = s.totalCount + 1 ∧
      (s.tryIncreaseHandleCount c).1.writerCount = s.writerCount + c.writeHint.toNat := by
  unfold State.tryIncreaseHandleCount State.loopNormals State.loopWriters at h ⊢
  split_ifs at h ⊢ with hfull hrefused hblocked hrefused'
  · simp at h
  · simp at h
  · refine ⟨Nat.lt_of_not_le hfull, rfl, ?_⟩
    cases hhint : c.writeHint <;> simp [State.increase, hhint]

@[simp] theorem decreaseHandleCount_totalCount [DecidableEq T] (targeted writeHint : Bool) :
    (s.decreaseHandleCount targeted writeHint).totalCount = s.totalCount - 1 := by
  unfold State.decreaseHandleCount
  cases writeHint <;> simp only [if_true, Bool.false_eq_true, if_false] <;> split_ifs <;> rfl

@[simp] theorem decreaseHandleCount_writerCount [DecidableEq T] (targeted writeHint : Bool) :
    (s.decreaseHandleCount targeted writeHint).writerCount =
      s.writerCount - writeHint.toNat := by
  unfold State.decreaseHandleCount
  cases writeHint <;> simp only [if_true, Bool.false_eq_true, if_false] <;> split_ifs <;> rfl

end Calls

/-! ### Counts and wake-ups -/

/-- **The counts hold and no wake-up is lost**: with no wake-up left to consume, nobody waits for a
handle while one is free, and nobody for a writer slot while both are. -/
structure Counted (s : State T) : Prop where
  total : s.totalCount ≤ maxAllowedNumberOfHandles
  writer : s.writerCount ≤ maxAllowedNumberOfWriters
  normals : (∀ w ∈ s.inNormals ++ s.inWriters, w.woken = false) → s.inNormals ≠ [] →
    maxAllowedNumberOfHandles ≤ s.totalCount
  writers : (∀ w ∈ s.inNormals ++ s.inWriters, w.woken = false) → s.inWriters ≠ [] →
    maxAllowedNumberOfHandles ≤ s.totalCount ∨ maxAllowedNumberOfWriters ≤ s.writerCount

/-- How many of the threads have been woken, by their write hint. -/
def countWoken (writeHint : Bool) (waiters : List (Waiter T)) : ℕ :=
  waiters.countP fun w => w.woken && w.writeHint == writeHint

/-- The woken threads take what is free, or every thread that waits for it has been woken. A woken
reader takes a handle, a woken writer a handle and a writer slot. -/
def Suffices (free freeWriters : ℕ) (normals writers : List (Waiter T)) : Prop :=
  let readers := countWoken false (normals ++ writers)
  let woken := countWoken true (normals ++ writers)
  ((∀ w ∈ normals, w.woken = true) ∨ free ≤ readers + min woken freeWriters) ∧
    ((∀ w ∈ writers, w.woken = true) ∨ freeWriters ≤ woken ∨ free ≤ readers + woken)

instance (free freeWriters : ℕ) (normals writers : List (Waiter T)) :
    Decidable (Suffices free freeWriters normals writers) := by
  unfold Suffices
  infer_instance

/-- **A release wakes enough threads** for the handle, and the writer slot, that it gives back. -/
def WakesEnough [DecidableEq T] (targeted : Bool) (s : State T) : Action T → Prop
  | .decrease true =>
      Suffices (maxAllowedNumberOfHandles - s.totalCount + 1)
        (maxAllowedNumberOfWriters - s.writerCount + 1)
        (if s.pendingWriters ≠ [] then s.inNormals
          else State.notify targeted s.pendingNormals s.inNormals)
        (State.notify targeted s.pendingWriters s.inWriters)
  | .decrease false =>
      Suffices (maxAllowedNumberOfHandles - s.totalCount + 1)
        (maxAllowedNumberOfWriters - s.writerCount)
        (State.notify targeted s.pendingNormals s.inNormals) s.inWriters
  | _ => True

instance [DecidableEq T] (targeted : Bool) (s : State T) (a : Action T) :
    Decidable (WakesEnough targeted s a) := by
  cases a with
  | decrease writeHint => cases writeHint <;> (unfold WakesEnough; infer_instance)
  | tryIncrease c => exact instDecidableTrue
  | resumeNormals w => exact instDecidableTrue
  | resumeWriters w => exact instDecidableTrue

theorem countWoken_append (writeHint : Bool) (xs ys : List (Waiter T)) :
    countWoken writeHint (xs ++ ys) = countWoken writeHint xs + countWoken writeHint ys :=
  List.countP_append

/-- A thread that starts to wait is not woken and changes no count. -/
theorem countWoken_wait (writeHint : Bool) (c : Caller T) (xs ys : List (Waiter T)) :
    countWoken writeHint (xs ++ { toCaller := c } :: ys) = countWoken writeHint (xs ++ ys) := by
  rw [countWoken_append, countWoken_append]
  rfl

/-- A thread that leaves a wait counted for at most one, by its write hint. -/
theorem countWoken_le_erase [DecidableEq T] {w : Waiter T} {waiters : List (Waiter T)}
    (h : w ∈ waiters) (b : Bool) :
    countWoken b waiters ≤ countWoken b (waiters.erase w) + if w.writeHint = b then 1 else 0 := by
  rw [countWoken, (List.perm_cons_erase h).countP_eq, List.countP_cons, countWoken]
  cases w.woken <;> cases hhint : w.writeHint <;> cases b <;> simp

/-- What every state of a run keeps. -/
structure Inv (s : State T) : Prop where
  total : s.totalCount ≤ maxAllowedNumberOfHandles
  writer : s.writerCount ≤ maxAllowedNumberOfWriters
  writer_le : s.writerCount ≤ s.totalCount
  woken : Suffices (maxAllowedNumberOfHandles - s.totalCount)
    (maxAllowedNumberOfWriters - s.writerCount) s.inNormals s.inWriters

/-- The state in which a call looks at the counts: the caller, who has left the waits, still stands
for what it can take. -/
structure Ready (s : State T) (writeHint : Bool) : Prop where
  total : s.totalCount ≤ maxAllowedNumberOfHandles
  writer : s.writerCount ≤ maxAllowedNumberOfWriters
  writer_le : s.writerCount ≤ s.totalCount
  normals : (∀ w ∈ s.inNormals, w.woken = true) ∨
    maxAllowedNumberOfHandles - s.totalCount ≤
      countWoken false (s.inNormals ++ s.inWriters) + (if writeHint then 0 else 1) +
        min (countWoken true (s.inNormals ++ s.inWriters) + (if writeHint then 1 else 0))
          (maxAllowedNumberOfWriters - s.writerCount)
  writers : (∀ w ∈ s.inWriters, w.woken = true) ∨
    maxAllowedNumberOfWriters - s.writerCount ≤
      countWoken true (s.inNormals ++ s.inWriters) + (if writeHint then 1 else 0) ∨
    maxAllowedNumberOfHandles - s.totalCount ≤
      countWoken false (s.inNormals ++ s.inWriters) +
        countWoken true (s.inNormals ++ s.inWriters) + 1

section Steps

variable {s : State T} {c : Caller T} {targeted : Bool}

theorem Inv.ready (h : Inv s) (writeHint : Bool) : Ready s writeHint := by
  obtain ⟨hnormals, hwriters⟩ := h.woken
  refine ⟨h.total, h.writer, h.writer_le, hnormals.imp_right fun hle => ?_,
    hwriters.imp_right fun hle => ?_⟩
  · cases writeHint <;> simp <;> omega
  · cases writeHint <;> simp <;> omega

/-- With no handle free, the woken threads are enough. -/
theorem suffices_of_full (freeWriters : ℕ) (normals writers : List (Waiter T)) :
    Suffices 0 freeWriters normals writers :=
  ⟨Or.inr (Nat.zero_le _), Or.inr (Or.inr (Nat.zero_le _))⟩

theorem inv_increase (h : Ready s c.writeHint) (hfree : ¬ maxAllowedNumberOfHandles ≤ s.totalCount)
    (hwriter : ¬ (c.writeHint = true ∧ maxAllowedNumberOfWriters ≤ s.writerCount)) :
    Inv (s.increase c).1 := by
  have htotal := h.total
  have hwriters := h.writer
  have hle := h.writer_le
  have hn := h.normals
  have hw := h.writers
  refine ⟨?_, ?_, ?_, ?_, ?_⟩
  · simp only [State.increase]
    omega
  · cases hhint : c.writeHint <;> simp [State.increase, hhint] at hwriter ⊢ <;> omega
  · cases hhint : c.writeHint <;> simp [State.increase, hhint] <;> omega
  · refine hn.imp_right fun hle => ?_
    cases hhint : c.writeHint <;> simp [State.increase, hhint] at hle hwriter ⊢ <;> omega
  · refine hw.imp_right fun hle => ?_
    cases hhint : c.writeHint <;> simp [State.increase, hhint] at hle hwriter ⊢ <;> omega

theorem inv_loopWriters {next : State T × State.Outcome} (h : Ready s c.writeHint)
    (hnext : ¬ (c.writeHint = true ∧ maxAllowedNumberOfWriters ≤ s.writerCount) → Inv next.1) :
    Inv (s.loopWriters c next).1 := by
  unfold State.loopWriters
  split_ifs with hblocked hrefused
  · -- No writer slot is free, so woken writers take nothing and the caller stands for nothing.
    obtain ⟨hhint, hfull⟩ := hblocked
    refine ⟨h.total, h.writer, h.writer_le, h.normals.imp_right fun hle => ?_, Or.inr (Or.inl ?_)⟩
    · simp [hhint, Nat.sub_eq_zero_of_le hfull] at hle ⊢
      omega
    · rw [Nat.sub_eq_zero_of_le hfull]
      exact Nat.zero_le _
  · obtain ⟨hhint, hfull⟩ := hblocked
    refine ⟨h.total, h.writer, h.writer_le, h.normals.imp_right fun hle => ?_, Or.inr (Or.inl ?_)⟩
    · simp only [State.waitWriters, ← List.append_assoc, countWoken_wait, List.append_nil]
      simp [hhint, Nat.sub_eq_zero_of_le hfull] at hle ⊢
      omega
    · simp only [State.waitWriters, Nat.sub_eq_zero_of_le hfull]
      exact Nat.zero_le _
  · exact hnext hblocked

theorem inv_loopNormals {next : State T × State.Outcome} (h : Ready s c.writeHint)
    (hnext : ¬ maxAllowedNumberOfHandles ≤ s.totalCount → Inv next.1) :
    Inv (s.loopNormals c next).1 := by
  unfold State.loopNormals
  split_ifs with hfull hrefused
  · refine ⟨h.total, h.writer, h.writer_le, ?_⟩
    rw [Nat.sub_eq_zero_of_le hfull]
    exact suffices_of_full _ _ _
  · refine ⟨h.total, h.writer, h.writer_le, ?_⟩
    simp only [State.waitNormals, Nat.sub_eq_zero_of_le hfull]
    exact suffices_of_full _ _ _
  · exact hnext hfull

theorem inv_tryIncreaseHandleCount (h : Ready s c.writeHint) :
    Inv (s.tryIncreaseHandleCount c).1 :=
  inv_loopNormals h fun hfree => inv_loopWriters h fun hwriter => inv_increase h hfree hwriter

/-- A thread that runs again stands for what it counted for while it waited. -/
theorem ready_resume {w : Waiter T} (normals writers : List (Waiter T)) (h : Inv s)
    (hcount : ∀ b, countWoken b (s.inNormals ++ s.inWriters) ≤
      countWoken b (normals ++ writers) + if w.writeHint = b then 1 else 0)
    (hnormals : ∀ v ∈ normals, v ∈ s.inNormals) (hwriters : ∀ v ∈ writers, v ∈ s.inWriters)
    (pendingNormals pendingWriters : List T) :
    Ready { s with pendingNormals, pendingWriters, inNormals := normals, inWriters := writers }
      w.writeHint := by
  have hreader := hcount false
  have hwriter := hcount true
  obtain ⟨hn, hw⟩ := h.woken
  refine ⟨h.total, h.writer, h.writer_le, ?_, ?_⟩
  · refine hn.imp (fun hall v hv => hall v (hnormals v hv)) fun hle => ?_
    cases hhint : w.writeHint <;> simp [hhint] at hreader hwriter ⊢ <;> omega
  · refine hw.imp (fun hall v hv => hall v (hwriters v hv)) fun hle => ?_
    cases hhint : w.writeHint <;> simp [hhint] at hreader hwriter ⊢ <;> omega

variable [DecidableEq T]

theorem inv_resumeNormals {w : Waiter T} (h : Inv s) (hw : w ∈ s.inNormals) :
    Inv (s.resumeNormals w).1 := by
  have hready := ready_resume (w := w) (s.inNormals.erase w) s.inWriters h
    (fun b => by
      rw [countWoken_append, countWoken_append]
      have := countWoken_le_erase hw b
      omega)
    (fun v hv => List.mem_of_mem_erase hv) (fun v hv => hv) s.pendingNormals.tail s.pendingWriters
  exact inv_loopNormals hready fun hfree =>
    inv_loopWriters hready fun hwriter => inv_increase hready hfree hwriter

theorem inv_resumeWriters {w : Waiter T} (h : Inv s) (hw : w ∈ s.inWriters) :
    Inv (s.resumeWriters w).1 := by
  have hready := ready_resume (w := w) s.inNormals (s.inWriters.erase w) h
    (fun b => by
      rw [countWoken_append, countWoken_append]
      have := countWoken_le_erase hw b
      omega)
    (fun v hv => hv) (fun v hv => List.mem_of_mem_erase hv) s.pendingNormals s.pendingWriters.tail
  exact inv_loopWriters hready fun _ => inv_tryIncreaseHandleCount hready

/-- A release keeps the invariant when it wakes enough threads. -/
theorem inv_decreaseHandleCount {writeHint : Bool} (h : Inv s)
    (hheld : if writeHint then 0 < s.writerCount else s.writerCount < s.totalCount)
    (hwakes : WakesEnough targeted s (.decrease writeHint)) :
    Inv (s.decreaseHandleCount targeted writeHint) := by
  have htotal := h.total
  have hwriter := h.writer
  have hle := h.writer_le
  have hpos : 0 < s.totalCount := by
    cases writeHint <;> simp at hheld <;> omega
  have hfree : maxAllowedNumberOfHandles - (s.totalCount - 1) =
      maxAllowedNumberOfHandles - s.totalCount + 1 := by omega
  cases writeHint with
  | false =>
    simp only [Bool.false_eq_true, if_false] at hheld
    simp only [State.decreaseHandleCount, Bool.false_and, Bool.false_eq_true, if_false]
    refine ⟨?_, hwriter, ?_, ?_⟩
    · simp only
      omega
    · simp only
      omega
    · simp only [hfree]
      exact hwakes
  | true =>
    simp only [if_true] at hheld
    have hfreeWriters : maxAllowedNumberOfWriters - (s.writerCount - 1) =
        maxAllowedNumberOfWriters - s.writerCount + 1 := by omega
    simp only [State.decreaseHandleCount, Bool.true_and, decide_eq_true_eq, if_true]
    simp only [WakesEnough] at hwakes
    split_ifs at hwakes ⊢ with hpending
    · refine ⟨?_, ?_, ?_, ?_⟩
      · simp only
        omega
      · simp only
        omega
      · simp only
        omega
      · simp only [hfree, hfreeWriters]
        exact hwakes
    · refine ⟨?_, ?_, ?_, ?_⟩
      · simp only
        omega
      · simp only
        omega
      · simp only
        omega
      · simp only [hfree, hfreeWriters]
        exact hwakes

/-- **Every step keeps the invariant** when its release, if it is one, wakes enough threads. -/
theorem step_inv (s : State T) (a : Action T) (s' : State T) (h : Inv s)
    (hok : WakesEnough targeted s a) (hstep : step targeted s a = some s') : Inv s' := by
  cases a with
  | tryIncrease c =>
    obtain ⟨-, hs⟩ := Option.ite_none_left_eq_some.mp hstep
    cases hs
    exact inv_tryIncreaseHandleCount (h.ready _)
  | decrease writeHint =>
    obtain ⟨hheld, hs⟩ := Option.ite_none_right_eq_some.mp hstep
    cases hs
    exact inv_decreaseHandleCount h hheld hok
  | resumeNormals w =>
    obtain ⟨hw, hs⟩ := Option.ite_none_right_eq_some.mp hstep
    cases hs
    exact inv_resumeNormals h hw
  | resumeWriters w =>
    obtain ⟨hw, hs⟩ := Option.ite_none_right_eq_some.mp hstep
    cases hs
    exact inv_resumeWriters h hw

omit [DecidableEq T] in
theorem Inv.counted (h : Inv s) : Counted s := by
  have hzero (b : Bool) (hquiet : ∀ w ∈ s.inNormals ++ s.inWriters, w.woken = false) :
      countWoken b (s.inNormals ++ s.inWriters) = 0 := by
    refine List.countP_eq_zero.mpr fun w hw => ?_
    simp [hquiet w hw]
  have hasleep {waiters : List (Waiter T)} (hne : waiters ≠ [])
      (hsub : ∀ w ∈ waiters, w ∈ s.inNormals ++ s.inWriters)
      (hquiet : ∀ w ∈ s.inNormals ++ s.inWriters, w.woken = false) :
      ¬ ∀ w ∈ waiters, w.woken = true := by
    intro hall
    obtain ⟨w, hw⟩ := List.exists_mem_of_ne_nil waiters hne
    exact absurd (hall w hw) (by simp [hquiet w (hsub w hw)])
  obtain ⟨hn, hw⟩ := h.woken
  refine ⟨h.total, h.writer, fun hquiet hne => ?_, fun hquiet hne => ?_⟩
  · have hle := hn.resolve_left (hasleep hne (fun w hw => List.mem_append_left _ hw) hquiet)
    simp only [hzero _ hquiet] at hle
    omega
  · have hle := hw.resolve_left (hasleep hne (fun w hw => List.mem_append_right _ hw) hquiet)
    simp only [hzero _ hquiet] at hle
    omega

end Steps

theorem Inv.init : Inv ({} : State T) :=
  ⟨Nat.zero_le _, Nat.zero_le _, Nat.le_refl _,
    ⟨Or.inl fun _ h => by simp at h, Or.inl fun _ h => by simp at h⟩⟩

variable [DecidableEq T]

/-- **No wake-up is lost in a run in which every release wakes enough threads.** -/
theorem counted_of_exec (targeted : Bool) {actions : List (Action T)} {s : State T}
    (hwakes : Run.Meets (step targeted) (WakesEnough targeted) {} actions)
    (h : Run.exec (step targeted) {} actions = some s) : Counted s :=
  (Run.inv_exec step_inv Inv.init hwakes h).counted

/-- All handles are out, 4 of them to writers; a writer waits for a writer slot and a reader for a
handle. -/
def crowded : List (Action ℕ) :=
  (List.range 4).map (fun n => .tryIncrease { thread := n, writeHint := true }) ++
    (List.range 27).map (fun n => .tryIncrease { thread := 10 + n }) ++
    [.tryIncrease { thread := 50, writeHint := true }, .tryIncrease { thread := 51 },
      .tryIncrease { thread := 60 }]

/-- Two writers give their handles back before the writer that waits runs again. -/
def twoReleases : List (Action ℕ) :=
  crowded ++ [.decrease true, .decrease true,
    .resumeWriters { thread := 50, writeHint := true, woken := true }]

/-- The second release wakes the writer again and not the reader, who waits on with a handle
free. -/
theorem not_counted_twoReleases :
    ∃ s, Run.exec (step false) {} twoReleases = some s ∧ ¬ Counted s ∧ s.totalCount = 31 ∧
      s.inWriters = [] ∧ s.inNormals = [{ thread := 60 }] := by
  cases h : Run.exec (step false) ({} : State ℕ) twoReleases with
  | none => exact absurd h (by decide +kernel)
  | some s =>
    have hs : Run.exec (step false) ({} : State ℕ) twoReleases =
        some { writerCount := 3, totalCount := 31, pendingNormals := [60],
               inNormals := [{ thread := 60 }] } := by decide +kernel
    obtain rfl := Option.some.inj (h.symm.trans hs)
    exact ⟨_, rfl, fun hcounted => absurd (hcounted.normals (by decide) (by decide)) (by decide),
      rfl, rfl, rfl⟩

/-- With one release before the writer runs again, and one more for the reader, all is well. -/
theorem counted_crowded :
    ∃ s, Run.exec (step true) {} (crowded ++ [.decrease true,
        .resumeWriters { thread := 50, writeHint := true, woken := true }, .decrease false,
        .resumeNormals { thread := 60, woken := true }]) = some s ∧ Counted s := by
  cases h : Run.exec (step true) ({} : State ℕ) (crowded ++ [.decrease true,
      .resumeWriters { thread := 50, writeHint := true, woken := true }, .decrease false,
      .resumeNormals { thread := 60, woken := true }]) with
  | none => exact absurd h (by decide +kernel)
  | some s => exact ⟨s, rfl, counted_of_exec true (by decide +kernel) h⟩

end HandleCounter

end Wcdb
