import Wcdb.Base.TimedQueue
import Wcdb.Lib.Run

/-!
# Waiting for the locks of other connections

The threads report the lock changes of their connections to the `State` of a database file, and a
thread whose lock is busy waits there until a report satisfies what it expects. All connections are
folded into one pager level, with a copy in each thread that is only set with it; the masks of the
shared memory are kept for each connection. A report decides in its own thread, for all that wait,
who is woken, and it stops at a main thread that has to wait, since the others are to come later.

A critical section, from the acquisition of the mutex to a wait or to its release, is one step. A
thread may run again without a wake-up, and its wait may time out. What the connections hold is
kept beside the state: `levels` and `holder` have what was reported last for a connection, and
`updatePagerLock` does not see whose report it is.

`blocked_of_exec`: in every run a thread that sleeps and has not been woken is kept from its lock by
what is held, and by another thread if it waits for a pager lock. For the main thread this holds
whatever the others do, and for the others as long as the main thread does not wait.
`told_of_exec`: a thread that is asked to make way for the main thread, and one that the client is
told about after a time-out, holds what is waited for.
-/

namespace Wcdb.BusyRetryConfig

open Function (update)

/-- `Global::PagerLock`. -/
inductive PagerLock where
  | none
  | shared
  | reserved
  | pending
  | exclusive
  deriving DecidableEq, Repr

def PagerLock.level : PagerLock → ℕ
  | .none => 0
  | .shared => 1
  | .reserved => 2
  | .pending => 3
  | .exclusive => 4

/-- `Global::ShmLock`. -/
inductive ShmLock where
  | shared
  | exclusive
  deriving DecidableEq, Repr

inductive Expecting where
  | pager (type : PagerLock)
  | shm (type : ShmLock) (mask : ℕ)
  deriving DecidableEq, Repr

namespace Expecting

/-- `satisfied` by a pager lock. -/
def satisfiedPager : Expecting → PagerLock → Bool
  | .pager .reserved, type => type.level < PagerLock.reserved.level
  | .pager .pending, type => type = .none
  | .pager .exclusive, type => type = .none
  | .pager .shared, type => type.level < PagerLock.pending.level
  | .pager .none, _ => true
  | .shm _ _, _ => true

/-- `satisfied` by the masks of a connection. -/
def satisfiedShm : Expecting → ℕ → ℕ → Bool
  | .shm .shared mask, _, exclusiveMask => mask &&& exclusiveMask = 0
  | .shm .exclusive mask, sharedMask, exclusiveMask =>
    mask &&& sharedMask = 0 && mask &&& exclusiveMask = 0
  | .pager _, _, _ => true

end Expecting

structure ShmMask (T : Type) where
  shared : ℕ
  exclusive : ℕ
  tid : T

/-- A thread in the `wait_for` of `wait`, with the variables of the function. -/
structure Sleep where
  expecting : Expecting
  timeOut : ℕ
  timeOutTimes : ℕ := 0
  /-- A wake-up was issued. -/
  woken : Bool := false

/-- `Exclusivity::Must` and `Exclusivity::NoMatter`. -/
def must : ℕ := 0

def noMatter : ℕ := 1

/-- In milliseconds. -/
def busyRetryTimeOut : ℕ := 10000

/-- The fields of `State`, and the threads that sleep. `monitored` are the threads that the client
was told about, and who waited. -/
structure State (T I : Type) where
  pagerType : PagerLock := .none
  localPagerType : T → PagerLock := fun _ => .none
  pagerChangeTid : Option T := none
  shmMasks : List (I × ShmMask T) := []
  waitings : UniqueList T Expecting := []
  mainThreadBusyTrying : Option Expecting := none
  busyMonitor : Bool := false
  timeOut : ℕ := 0
  sleeping : T → Option Sleep := fun _ => none
  monitored : List (T × T) := []

section State

variable {T I : Type} [DecidableEq T] [DecidableEq I]

namespace State

variable (s : State T I)

/-- Whether some connection's masks keep a thread from what it expects. -/
def shmUnsatisfied (expecting : Expecting) : Bool :=
  s.shmMasks.any fun m => !expecting.satisfiedShm m.2.shared m.2.exclusive

/-- `shouldWait`, called by the thread. -/
def shouldWait (thread : T) (expecting : Expecting) : Bool :=
  (!expecting.satisfiedPager s.pagerType && s.pagerType ≠ s.localPagerType thread) ||
    s.shmUnsatisfied expecting

def localShouldWait (thread : T) (expecting : Expecting) : Bool :=
  (s.pagerChangeTid = some thread && !expecting.satisfiedPager s.pagerType) ||
    s.shmMasks.any fun m =>
      m.2.tid = thread && !expecting.satisfiedShm m.2.shared m.2.exclusive

/-- `m_conditional.notify(thread)` and `m_waitings.erase`. -/
def notify (thread : T) : State T I :=
  { s with
    sleeping := update s.sleeping thread
      ((s.sleeping thread).map fun sleep => { sleep with woken := true })
    waitings := s.waitings.erase thread }

/-- `m_conditional.notify_all`. -/
def notifyAll : State T I :=
  { s with sleeping := fun t => (s.sleeping t).map fun sleep => { sleep with woken := true } }

/-- The loop of `tryNotify`. On Apple platforms (`targeted`) the threads are woken one by one. -/
def tryNotifyLoop (targeted : Bool) (thread : T) :
    List (UniqueListElement T Expecting) → State T I → State T I
  | [], s => s
  | waiting :: rest, s =>
    if s.shouldWait thread waiting.value then
      -- the main thread can hold the mutex first
      if waiting.order = must then s else tryNotifyLoop targeted thread rest s
    else if targeted then tryNotifyLoop targeted thread rest (s.notify waiting.key)
    else s.notifyAll

def tryNotify (targeted : Bool) (thread : T) : State T I :=
  tryNotifyLoop targeted thread s.waitings s

def updatePagerLock (targeted : Bool) (thread : T) (type : PagerLock) : State T I :=
  if s.pagerType = type then s
  else
    let s' := { s with
      pagerType := type
      localPagerType := update s.localPagerType thread type
      pagerChangeTid := some thread }
    if type.level < s.pagerType.level then s'.tryNotify targeted thread else s'

/-- `m_shmMasks.erase`. -/
def eraseMask (identifier : I) : List (I × ShmMask T) := s.shmMasks.filter fun m => m.1 ≠ identifier

/-- The masks of a connection, which are created empty. -/
def maskOf (identifier : I) : ℕ × ℕ :=
  match s.shmMasks.find? fun m => m.1 = identifier with
  | some m => (m.2.shared, m.2.exclusive)
  | none => (0, 0)

def updateShmLock (targeted : Bool) (thread : T) (identifier : I) (sharedMask exclusiveMask : ℕ) :
    State T I :=
  if sharedMask = 0 ∧ exclusiveMask = 0 then
    { s with shmMasks := s.eraseMask identifier }.tryNotify targeted thread
  else
    let mask := s.maskOf identifier
    let s' := { s with
      shmMasks := (identifier, ⟨sharedMask, exclusiveMask, thread⟩) :: s.eraseMask identifier }
    if sharedMask < mask.1 ∨ exclusiveMask < mask.2 then s'.tryNotify targeted thread else s'

variable (main : T)

/-- The thread starts to wait, or waits again. -/
def fallAsleep (thread : T) (sleep : Sleep) : State T I :=
  { s with
    waitings := s.waitings.insert thread sleep.expecting (if thread = main then must else noMatter)
    mainThreadBusyTrying :=
      if thread = main then some sleep.expecting else s.mainThreadBusyTrying
    sleeping := update s.sleeping thread (some { sleep with woken := false }) }

/-- The condition of the loop in `wait`. -/
def tryWait (thread : T) (sleep : Sleep) : State T I :=
  if s.shouldWait thread sleep.expecting then s.fallAsleep main thread sleep else s

def wait (thread : T) (expecting : Expecting) : State T I :=
  s.tryWait main thread
    ⟨expecting, if s.busyMonitor ∧ 0 < s.timeOut then s.timeOut else busyRetryTimeOut, 0, false⟩

/-- The thread runs again. -/
def awake (thread : T) : State T I :=
  { s with
    mainThreadBusyTrying := if thread = main then none else s.mainThreadBusyTrying
    waitings := s.waitings.erase thread
    sleeping := update s.sleeping thread none }

/-- The thread that the client is told about. -/
def blamed (expecting : Expecting) : Option T :=
  if !expecting.satisfiedPager s.pagerType then s.pagerChangeTid
  else (s.shmMasks.find? fun m => !expecting.satisfiedShm m.2.shared m.2.exclusive).map fun m =>
    m.2.tid

/-- The rest of the loop in `wait` after a time-out. -/
def timedOut (thread : T) (sleep : Sleep) : State T I :=
  let s := s.awake main thread
  if s.busyMonitor then
    match s.blamed sleep.expecting with
    | some tid =>
      let s := { s with monitored := s.monitored ++ [(thread, tid)] }
      let sleep := { sleep with timeOutTimes := sleep.timeOutTimes + 1 }
      if busyRetryTimeOut ≤ sleep.timeOut * sleep.timeOutTimes then s
      else s.tryWait main thread sleep
    | none =>
      if busyRetryTimeOut ≤ sleep.timeOut * sleep.timeOutTimes then s
      else s.tryWait main thread sleep
  else s

def checkMainThreadBusyRetry (thread : T) : Bool :=
  s.mainThreadBusyTrying.any fun expecting => s.localShouldWait thread expecting

end State

end State

/-! ### Threads and connections -/

/-- The state, and what was reported last for each connection: its pager level, and the thread that
reported it. -/
structure System (T C I : Type) where
  state : State T I := {}
  levels : C → PagerLock := fun _ => .none
  holder : C → Option T := fun _ => none

inductive Event (T C I : Type) where
  | lockDidChange (thread : T) (connection : C) (type : PagerLock)
  | shmLockDidChange (thread : T) (identifier : I) (sharedMask exclusiveMask : ℕ)
  | wait (thread : T) (expecting : Expecting)
  | awoken (thread : T)
  | timedOut (thread : T)
  | setBusyMonitor (monitor : Bool) (timeOut : ℕ)

section System

variable {T C I : Type} [DecidableEq T] [DecidableEq C] [DecidableEq I]

/-- A thread that sleeps reports nothing. -/
def step (targeted : Bool) (main : T) (s : System T C I) : Event T C I → Option (System T C I)
  | .lockDidChange thread connection type =>
    if (s.state.sleeping thread).isSome then none
    else some ⟨s.state.updatePagerLock targeted thread type, update s.levels connection type,
      update s.holder connection (some thread)⟩
  | .shmLockDidChange thread identifier sharedMask exclusiveMask =>
    if (s.state.sleeping thread).isSome then none
    else some { s with
      state := s.state.updateShmLock targeted thread identifier sharedMask exclusiveMask }
  | .wait thread expecting =>
    if (s.state.sleeping thread).isSome then none
    else some { s with state := s.state.wait main thread expecting }
  | .awoken thread =>
    (s.state.sleeping thread).map fun sleep =>
      { s with state := (s.state.awake main thread).tryWait main thread sleep }
  | .timedOut thread =>
    (s.state.sleeping thread).map fun sleep =>
      { s with state := s.state.timedOut main thread sleep }
  | .setBusyMonitor monitor timeOut =>
    some { s with state := { s.state with busyMonitor := monitor, timeOut := timeOut } }

/-- What `os_unix.c` reports: the level of the file, which is mostly another one than before, and
masks to which bits are added, or from which bits are removed. `NO_LOCK` is reported again when the
file is closed, and `PENDING_LOCK` when its connection tries once more for `EXCLUSIVE_LOCK`. No
connection passes to another thread in between. -/
def Reported (s : System T C I) : Event T C I → Prop
  | .lockDidChange thread connection type => type = .none ∨ s.state.pagerType ≠ type ∨
    s.levels connection ≠ type ∨ s.holder connection = some thread
  | .shmLockDidChange _ identifier sharedMask exclusiveMask =>
    let mask := s.state.maskOf identifier
    (sharedMask &&& mask.1 = sharedMask ∨ sharedMask &&& mask.1 = mask.1) ∧
      (exclusiveMask &&& mask.2 = exclusiveMask ∨ exclusiveMask &&& mask.2 = mask.2)
  | _ => True

instance Reported.decidable (s : System T C I) :
    (event : Event T C I) → Decidable (Reported s event)
  | .lockDidChange _ _ _ => inferInstanceAs (Decidable (_ ∨ _ ∨ _ ∨ _))
  | .shmLockDidChange _ _ _ _ => inferInstanceAs (Decidable ((_ ∨ _) ∧ (_ ∨ _)))
  | .wait _ _ => inferInstanceAs (Decidable True)
  | .awoken _ => inferInstanceAs (Decidable True)
  | .timedOut _ => inferInstanceAs (Decidable True)
  | .setBusyMonitor _ _ => inferInstanceAs (Decidable True)

/-- What keeps a thread from the lock that it expects, and is held by the other one. -/
def System.Blocks (s : System T C I) (expecting : Expecting) (holder : T) : Prop :=
  (∃ connection, s.holder connection = some holder ∧
      expecting.satisfiedPager (s.levels connection) = false) ∨
    ∃ identifier mask, (identifier, mask) ∈ s.state.shmMasks ∧ mask.tid = holder ∧
      expecting.satisfiedShm mask.shared mask.exclusive = false

end System

/-! ### Waking up -/

theorem Expecting.satisfiedPager_mono {expecting : Expecting} {type type' : PagerLock}
    (hle : type.level ≤ type'.level) (h : expecting.satisfiedPager type' = true) :
    expecting.satisfiedPager type = true := by
  cases expecting with
  | shm => rfl
  | pager expected =>
    cases expected <;> cases type <;> cases type' <;> revert hle h <;> decide

theorem Expecting.satisfiedPager_none (expecting : Expecting) :
    expecting.satisfiedPager .none = true := by
  cases expecting with
  | shm => rfl
  | pager expected => cases expected <;> rfl

theorem and_eq_zero_of_grows {mask old new : ℕ} (hgrows : new &&& old = old)
    (h : mask &&& new = 0) : mask &&& old = 0 := by
  rw [← hgrows, ← Nat.and_assoc, h, Nat.zero_and]

section Waking

variable {T C I : Type} [DecidableEq T] [DecidableEq C] [DecidableEq I] {s s' : State T I}
  {targeted : Bool} {main thread : T} {expecting : Expecting}

namespace State

/-- Something keeps a thread from what it expects, whoever looks. -/
def unsatisfied (s : State T I) (expecting : Expecting) : Bool :=
  !expecting.satisfiedPager s.pagerType || s.shmUnsatisfied expecting

omit [DecidableEq T] [DecidableEq I] in
theorem unsatisfied_of_shouldWait (h : s.shouldWait thread expecting = true) :
    s.unsatisfied expecting = true := by
  obtain h | h := (Bool.or_eq_true _ _).mp h
  · exact (Bool.or_eq_true _ _).mpr (.inl ((Bool.and_eq_true _ _).mp h).1)
  · exact (Bool.or_eq_true _ _).mpr (.inr h)

omit [DecidableEq T] [DecidableEq I] in
theorem shmUnsatisfied_pager (type : PagerLock) : s.shmUnsatisfied (.pager type) = false :=
  List.any_eq_false.mpr fun m _ => by simp [Expecting.satisfiedShm]

omit [DecidableEq I] in
theorem sleeping_awake : (s.awake main thread).sleeping thread = none := Function.update_self ..

omit [DecidableEq I] in
theorem sleeping_awake_of_ne {u : T} (hu : u ≠ thread) :
    (s.awake main thread).sleeping u = s.sleeping u := Function.update_of_ne hu ..

omit [DecidableEq I] in
theorem sleeping_fallAsleep {sleep : Sleep} : (s.fallAsleep main thread sleep).sleeping thread =
    some { sleep with woken := false } := Function.update_self ..

omit [DecidableEq I] in
theorem sleeping_fallAsleep_of_ne {u : T} (hu : u ≠ thread) {sleep : Sleep} :
    (s.fallAsleep main thread sleep).sleeping u = s.sleeping u := Function.update_of_ne hu ..

omit [DecidableEq I] in
variable (s main thread) in
/-- After a time-out the thread runs again, or waits again. -/
theorem timedOut_cases (sleep : Sleep) : ∃ monitored sleep',
    s.timedOut main thread sleep = { s.awake main thread with monitored := monitored } ∨
      s.timedOut main thread sleep =
        State.tryWait { s.awake main thread with monitored := monitored } main thread sleep' := by
  rw [timedOut]
  dsimp only
  by_cases hmonitor : (s.awake main thread).busyMonitor = true
  · rw [if_pos hmonitor]
    cases (s.awake main thread).blamed sleep.expecting with
    | some tid =>
      dsimp only
      split_ifs
      · exact ⟨_, sleep, .inl rfl⟩
      · exact ⟨_, _, .inr rfl⟩
    | none =>
      dsimp only
      split_ifs
      · exact ⟨_, sleep, .inl rfl⟩
      · exact ⟨_, sleep, .inr rfl⟩
  · rw [if_neg hmonitor]
    exact ⟨_, sleep, .inl rfl⟩

/-- Threads were woken: flags were set, and some of these threads taken from the list. -/
structure Wakes (s s' : State T I) : Prop where
  frame : s' = { s with waitings := s'.waitings, sleeping := s'.sleeping }
  sleeping : ∀ t, s'.sleeping t = s.sleeping t ∨
    ∃ sleep, s.sleeping t = some sleep ∧ s'.sleeping t = some { sleep with woken := true }
  sublist : s'.waitings.Sublist s.waitings
  waits : ∀ w ∈ s.waitings, ∀ sleep, s'.sleeping w.key = some sleep → sleep.woken = false →
    w ∈ s'.waitings

omit [DecidableEq T] [DecidableEq I] in
theorem Wakes.refl : s.Wakes s :=
  ⟨rfl, fun _ => .inl rfl, List.Sublist.refl _, fun _ hw _ _ _ => hw⟩

omit [DecidableEq T] [DecidableEq I] in
/-- One that has not been woken slept like this before. -/
theorem Wakes.before (h : s.Wakes s') {t : T} {sleep : Sleep} (hsleep : s'.sleeping t = some sleep)
    (hwoken : sleep.woken = false) : s.sleeping t = some sleep := by
  obtain heq | ⟨sleep', -, heq⟩ := h.sleeping t
  · exact heq ▸ hsleep
  · obtain rfl := Option.some.inj (heq.symm.trans hsleep)
    cases hwoken

omit [DecidableEq T] [DecidableEq I] in
/-- One that sleeps slept for the same before. -/
theorem Wakes.map_expecting (h : s.Wakes s') (t : T) :
    (s'.sleeping t).map Sleep.expecting = (s.sleeping t).map Sleep.expecting := by
  obtain heq | ⟨sleep, hsleep, heq⟩ := h.sleeping t
  · rw [heq]
  · rw [heq, hsleep]
    rfl

omit [DecidableEq T] [DecidableEq I] in
theorem Wakes.trans {s'' : State T I} (h : s.Wakes s') (h' : s'.Wakes s'') : s.Wakes s'' where
  frame := by
    rw [h'.frame, h.frame]
  sleeping t := by
    obtain heq' | ⟨sleep', hsleep', heq'⟩ := h'.sleeping t
    · rw [heq']
      exact h.sleeping t
    · obtain heq | ⟨sleep, hsleep, heq⟩ := h.sleeping t
      · exact .inr ⟨sleep', heq ▸ hsleep', heq'⟩
      · obtain rfl := Option.some.inj (heq.symm.trans hsleep')
        exact .inr ⟨sleep, hsleep, heq'⟩
  sublist := h'.sublist.trans h.sublist
  waits w hw sleep hsleep hwoken :=
    h'.waits w (h.waits w hw sleep (h'.before hsleep hwoken) hwoken) sleep hsleep hwoken

omit [DecidableEq I] in
theorem wakes_notify (hunique : s.waitings.Unique) (t : T) : s.Wakes (s.notify t) where
  frame := rfl
  sleeping u := by
    by_cases hu : u = t
    · subst hu
      cases hsleep : s.sleeping u with
      | none => exact .inl (by simp [notify, hsleep])
      | some sleep => exact .inr ⟨sleep, rfl, by simp [notify, hsleep]⟩
    · exact .inl (Function.update_of_ne hu ..)
  sublist := List.eraseP_sublist
  waits w hw sleep hsleep hwoken := by
    refine (UniqueList.mem_erase hunique).mpr ⟨hw, fun hkey => ?_⟩
    subst hkey
    simp only [notify, Function.update_self, Option.map_eq_some_iff] at hsleep
    obtain ⟨sleep', -, rfl⟩ := hsleep
    cases hwoken

omit [DecidableEq T] [DecidableEq I] in
theorem wakes_notifyAll : s.Wakes s.notifyAll where
  frame := rfl
  sleeping t := by
    cases hsleep : s.sleeping t with
    | none => exact .inl (by simp [notifyAll, hsleep])
    | some sleep => exact .inr ⟨sleep, rfl, by simp [notifyAll, hsleep]⟩
  sublist := List.Sublist.refl _
  waits w hw sleep _ _ := hw

variable (targeted thread) in
omit [DecidableEq I] in
/-- **Who has not been woken has to wait**, or the main thread had to and was looked at before. -/
theorem tryNotifyLoop_spec {l : List (UniqueListElement T Expecting)}
    (hunique : s.waitings.Unique) (hl : UniqueList.Unique l) :
    s.Wakes (tryNotifyLoop targeted thread l s) ∧
      ∀ w ∈ l, ∀ sleep, (tryNotifyLoop targeted thread l s).sleeping w.key = some sleep →
        sleep.woken = false → s.shouldWait thread w.value = true ∨
          ∃ m ∈ l, m.order = must ∧ m.key ≠ w.key ∧ s.shouldWait thread m.value = true := by
  induction l generalizing s with
  | nil => exact ⟨.refl, fun w hw => absurd hw List.not_mem_nil⟩
  | cons waiting rest ih =>
    have hne : ∀ w ∈ rest, waiting.key ≠ w.key := by
      intro w hw heq
      exact (List.nodup_cons.mp hl).1 (heq ▸ List.mem_map_of_mem hw)
    rw [tryNotifyLoop]
    split_ifs with hwait hmust htargeted
    · -- the main thread stops the loop
      refine ⟨.refl, fun w hw _ _ _ => ?_⟩
      obtain rfl | hw := List.mem_cons.mp hw
      · exact .inl hwait
      · exact .inr ⟨waiting, List.mem_cons_self, hmust, hne w hw, hwait⟩
    · obtain ⟨hwakes, hspec⟩ := ih hunique hl.tail
      refine ⟨hwakes, fun w hw sleep hsleep hwoken => ?_⟩
      obtain rfl | hw := List.mem_cons.mp hw
      · exact .inl hwait
      · refine (hspec w hw sleep hsleep hwoken).imp_right ?_
        rintro ⟨m, hm, hrest⟩
        exact ⟨m, List.mem_cons_of_mem _ hm, hrest⟩
    · have hnotify := wakes_notify hunique waiting.key
      obtain ⟨hwakes, hspec⟩ := ih (s := s.notify waiting.key) (hunique.erase _) hl.tail
      refine ⟨hnotify.trans hwakes, fun w hw sleep hsleep hwoken => ?_⟩
      obtain rfl | hw := List.mem_cons.mp hw
      · -- this one has been woken
        have hbefore := hwakes.before hsleep hwoken
        simp only [notify, Function.update_self, Option.map_eq_some_iff] at hbefore
        obtain ⟨sleep', -, rfl⟩ := hbefore
        cases hwoken
      · refine (hspec w hw sleep hsleep hwoken).imp_right ?_
        rintro ⟨m, hm, hrest⟩
        exact ⟨m, List.mem_cons_of_mem _ hm, hrest⟩
    · refine ⟨wakes_notifyAll, fun w _ sleep hsleep hwoken => ?_⟩
      simp only [notifyAll, Option.map_eq_some_iff] at hsleep
      obtain ⟨sleep', -, rfl⟩ := hsleep
      cases hwoken

end State

end Waking

/-! ### The invariant -/

section Invariant

variable {T C I : Type} [DecidableEq T] [DecidableEq C] [DecidableEq I] {targeted : Bool}
  {main thread : T} {s t : System T C I} {state' : State T I}

/-- `Exclusivity` of a thread. -/
def exclusivity (main thread : T) : ℕ := if thread = main then must else noMatter

/-- Who sleeps and has not been woken is in the list. -/
structure State.Queued (main : T) (state : State T I) : Prop where
  unique : state.waitings.Unique
  order : ∀ w ∈ state.waitings, w.order = exclusivity main w.key
  waits : ∀ u sleep, state.sleeping u = some sleep → sleep.woken = false →
    ⟨u, sleep.expecting, exclusivity main u⟩ ∈ state.waitings

structure Inv (main : T) (s : System T C I) : Prop where
  queued : s.state.Queued main
  /-- The level is the one of a connection, and its thread knows it. -/
  known : ∀ u, s.state.pagerChangeTid = some u → s.state.localPagerType u = s.state.pagerType ∧
    (s.state.pagerType ≠ .none →
      ∃ connection, s.levels connection = s.state.pagerType ∧ s.holder connection = some u)
  initial : s.state.pagerChangeTid = none → s.state.pagerType = .none
  foreign : ∀ u sleep type, s.state.sleeping u = some sleep → sleep.expecting = .pager type →
    s.state.pagerChangeTid ≠ some u
  mainTrying : s.state.mainThreadBusyTrying = (s.state.sleeping main).map Sleep.expecting
  masks : (s.state.shmMasks.map Prod.fst).Nodup

/-- What keeps a sleeping thread asleep is there, or it has been woken. -/
def State.Kept (state : State T I) (u : T) : Prop :=
  ∀ sleep, state.sleeping u = some sleep → sleep.woken = false →
    state.unsatisfied sleep.expecting = true

omit [DecidableEq C] [DecidableEq I] in
theorem Inv.init : Inv main ({} : System T C I) where
  queued := ⟨List.nodup_nil, fun _ h => absurd h List.not_mem_nil, fun _ _ h => by cases h⟩
  known _ h := by cases h
  initial _ := rfl
  foreign _ _ _ h := by cases h
  mainTrying := rfl
  masks := List.nodup_nil

omit [DecidableEq C] [DecidableEq I] in
theorem Inv.wakes (h : Inv main s) (hwakes : s.state.Wakes state') :
    Inv main { s with state := state' } := by
  obtain ⟨hframe, hsleeping, hsublist, hwaits⟩ := id hwakes
  rw [hframe]
  refine ⟨⟨h.queued.unique.sublist (hsublist.map _), fun w hw =>
    h.queued.order w (hsublist.subset hw), fun u sleep hsleep hwoken => ?_⟩, h.known, h.initial,
    fun u sleep type hsleep htype => ?_, ?_, h.masks⟩
  · have hmem := h.queued.waits u sleep (hwakes.before hsleep hwoken) hwoken
    exact hwaits _ hmem sleep hsleep hwoken
  · have hmap := hwakes.map_expecting u
    have hsome : (s.state.sleeping u).map Sleep.expecting = some (.pager type) := by
      rw [← hmap, hsleep, Option.map_some, htype]
    obtain ⟨sleep', hsleep', htype'⟩ := Option.map_eq_some_iff.mp hsome
    exact h.foreign u sleep' type hsleep' htype'
  · exact h.mainTrying.trans (hwakes.map_expecting main).symm

omit [DecidableEq C] [DecidableEq I] in
theorem Inv.tryNotify (h : Inv main s) :
    Inv main { s with state := s.state.tryNotify targeted thread } :=
  h.wakes (State.tryNotifyLoop_spec targeted thread h.queued.unique h.queued.unique).1

omit [DecidableEq I] in
/-- Whoever decides, a thread that is not woken has to wait, unless the main thread comes first. -/
theorem State.Queued.kept_tryNotify {state : State T I} (h : state.Queued main) {u : T}
    (hfirst : u = main ∨ ∀ w ∈ state.waitings, w.key ≠ main) :
    (state.tryNotify targeted thread).Kept u := by
  intro sleep hsleep hwoken
  obtain ⟨hwakes, hspec⟩ := State.tryNotifyLoop_spec targeted thread h.unique h.unique
  have hunsatisfied : (state.tryNotify targeted thread).unsatisfied sleep.expecting =
      state.unsatisfied sleep.expecting := by
    rw [State.tryNotify, hwakes.frame]
    rfl
  rw [hunsatisfied]
  have hmem := h.waits u sleep (hwakes.before hsleep hwoken) hwoken
  obtain hwait | ⟨m, hm, hmust, hne, -⟩ := hspec _ hmem sleep hsleep hwoken
  · exact State.unsatisfied_of_shouldWait hwait
  · -- an element of the highest order is the main thread's
    have hmain : m.key = main := by
      by_contra hother
      rw [h.order m hm, exclusivity, if_neg hother] at hmust
      exact absurd hmust (by decide)
    obtain rfl | hnone := hfirst
    · exact absurd hmain hne
    · exact absurd hmain (hnone m hm)

/-! #### Reports -/

omit [DecidableEq T] [DecidableEq C] [DecidableEq I] in
theorem awake_of_isNone (hawake : ¬(s.state.sleeping thread).isSome = true) {u : T} {sleep : Sleep}
    (hsleep : s.state.sleeping u = some sleep) : u ≠ thread := by
  rintro rfl
  rw [hsleep] at hawake
  exact hawake rfl

omit [DecidableEq I] in
theorem Inv.updatePagerLock (h : Inv main s) (hawake : ¬(s.state.sleeping thread).isSome = true)
    {connection : C} {type : PagerLock} (hreported : type = .none ∨ s.state.pagerType ≠ type ∨
      s.levels connection ≠ type ∨ s.holder connection = some thread) :
    Inv main ⟨s.state.updatePagerLock targeted thread type, update s.levels connection type,
      update s.holder connection (some thread)⟩ := by
  rw [State.updatePagerLock]
  split_ifs with hsame hlower
  · refine ⟨h.queued, fun u hu => ?_, h.initial, h.foreign, h.mainTrying, h.masks⟩
    obtain ⟨hlocal, hheld⟩ := h.known u hu
    refine ⟨hlocal, fun hnone => ?_⟩
    obtain ⟨other, hlevel, hholder⟩ := hheld hnone
    by_cases hother : other = connection
    · -- the connection reports its own level again
      subst hother
      obtain hnone' | hchange | hchange | hthread := hreported
      · exact absurd (hsame.trans hnone') hnone
      · exact absurd hsame hchange
      · exact absurd (hlevel.trans hsame) hchange
      · obtain rfl := Option.some.inj (hholder.symm.trans hthread)
        exact ⟨other, (Function.update_self ..).trans hsame.symm, Function.update_self ..⟩
    · refine ⟨other, ?_, ?_⟩
      · exact (Function.update_of_ne hother ..).trans hlevel
      · exact (Function.update_of_ne hother ..).trans hholder
  all_goals
    have hchanged : Inv main (⟨{ s.state with
        pagerType := type
        localPagerType := update s.state.localPagerType thread type
        pagerChangeTid := some thread }, update s.levels connection type,
        update s.holder connection (some thread)⟩ : System T C I) := by
      refine ⟨⟨h.queued.unique, h.queued.order, h.queued.waits⟩, fun u hu => ?_,
        fun hnone => absurd hnone (Option.some_ne_none _), fun u sleep _ hsleep _ htid => ?_,
        h.mainTrying, h.masks⟩
      · obtain rfl := Option.some.inj hu
        exact ⟨Function.update_self .., fun _ => ⟨connection, Function.update_self ..,
          Function.update_self ..⟩⟩
      · exact awake_of_isNone hawake hsleep (Option.some.inj htid).symm
  · exact hchanged.tryNotify
  · exact hchanged

omit [DecidableEq T] in
theorem masks_eraseMask {state : State T I} (h : (state.shmMasks.map Prod.fst).Nodup)
    (identifier : I) : ((state.eraseMask identifier).map Prod.fst).Nodup :=
  h.sublist (List.filter_sublist.map _)

omit [DecidableEq C] in
theorem Inv.updateShmLock (h : Inv main s) (identifier : I) (sharedMask exclusiveMask : ℕ) :
    Inv main { s with
      state := s.state.updateShmLock targeted thread identifier sharedMask exclusiveMask } := by
  have herased := masks_eraseMask h.masks identifier
  rw [State.updateShmLock]
  split_ifs with hzero
  · have hchanged : Inv main { s with
        state := { s.state with shmMasks := s.state.eraseMask identifier } } :=
      ⟨⟨h.queued.unique, h.queued.order, h.queued.waits⟩, h.known, h.initial, h.foreign,
        h.mainTrying, herased⟩
    exact hchanged.tryNotify
  all_goals
    have hchanged : Inv main { s with state := { s.state with
        shmMasks := (identifier, ⟨sharedMask, exclusiveMask, thread⟩) ::
          s.state.eraseMask identifier } } := by
      refine ⟨⟨h.queued.unique, h.queued.order, h.queued.waits⟩, h.known, h.initial, h.foreign,
        h.mainTrying, ?_⟩
      refine List.nodup_cons.mpr ⟨fun hmem => ?_, herased⟩
      obtain ⟨m, hm, heq⟩ := List.mem_map.mp hmem
      exact of_decide_eq_true (List.mem_filter.mp hm).2 heq
    dsimp only
    split_ifs
  · exact hchanged.tryNotify
  · exact hchanged

/-! #### Waiting -/

omit [DecidableEq C] [DecidableEq I] in
theorem Inv.awake (h : Inv main s) : Inv main { s with state := s.state.awake main thread } where
  queued := by
    refine ⟨h.queued.unique.erase thread, fun w hw => h.queued.order w (List.eraseP_subset hw),
      fun u sleep hsleep hwoken => ?_⟩
    have hne : u ≠ thread := by
      rintro rfl
      exact absurd (State.sleeping_awake.symm.trans hsleep) (Option.some_ne_none _).symm
    rw [State.sleeping_awake_of_ne hne] at hsleep
    have hmem := h.queued.waits u sleep hsleep hwoken
    exact (UniqueList.mem_erase h.queued.unique).mpr ⟨hmem, hne⟩
  known := h.known
  initial := h.initial
  foreign u sleep type hsleep htype := by
    have hne : u ≠ thread := by
      rintro rfl
      exact absurd (State.sleeping_awake.symm.trans hsleep) (Option.some_ne_none _).symm
    rw [State.sleeping_awake_of_ne hne] at hsleep
    exact h.foreign u sleep type hsleep htype
  mainTrying := by
    by_cases hmain : thread = main
    · simp [State.awake, hmain]
    · simp [State.awake, hmain, Function.update_of_ne (Ne.symm hmain), h.mainTrying]
  masks := h.masks

omit [DecidableEq C] [DecidableEq I] in
theorem Inv.tryWait (h : Inv main s) (hnone : s.state.sleeping thread = none) (sleep : Sleep) :
    Inv main { s with state := s.state.tryWait main thread sleep } := by
  rw [State.tryWait]
  split_ifs with hwait
  · refine ⟨⟨h.queued.unique.insert, fun w hw => ?_, fun u sleep' hsleep hwoken => ?_⟩, h.known,
      h.initial, fun u sleep' type hsleep htype htid => ?_, ?_, h.masks⟩
    · obtain rfl | ⟨hw, -⟩ := (UniqueList.mem_insert h.queued.unique).mp hw
      · rfl
      · exact h.queued.order w hw
    · refine (UniqueList.mem_insert h.queued.unique).mpr ?_
      by_cases hu : u = thread
      · subst hu
        obtain rfl := Option.some.inj (State.sleeping_fallAsleep.symm.trans hsleep)
        exact .inl rfl
      · rw [State.sleeping_fallAsleep_of_ne hu] at hsleep
        exact .inr ⟨h.queued.waits u sleep' hsleep hwoken, hu⟩
    · by_cases hu : u = thread
      · -- a thread does not wait for the level that it knows
        subst hu
        obtain rfl := Option.some.inj (State.sleeping_fallAsleep.symm.trans hsleep)
        rw [State.shouldWait, show sleep.expecting = .pager type from htype,
          State.shmUnsatisfied_pager, Bool.or_false, Bool.and_eq_true] at hwait
        exact of_decide_eq_true hwait.2 (h.known u htid).1.symm
      · rw [State.sleeping_fallAsleep_of_ne hu] at hsleep
        exact h.foreign u sleep' type hsleep htype htid
    · by_cases hmain : thread = main
      · simp [State.fallAsleep, hmain]
      · simp [State.fallAsleep, hmain, Function.update_of_ne (Ne.symm hmain), h.mainTrying]
  · exact h

omit [DecidableEq C] [DecidableEq I] in
theorem Inv.monitored (h : Inv main s) (monitored : List (T × T)) :
    Inv main { s with state := { s.state with monitored := monitored } } :=
  ⟨⟨h.queued.unique, h.queued.order, h.queued.waits⟩, h.known, h.initial, h.foreign, h.mainTrying,
    h.masks⟩

omit [DecidableEq C] [DecidableEq I] in
theorem Inv.timedOut (h : Inv main s) (sleep : Sleep) :
    Inv main { s with state := s.state.timedOut main thread sleep } := by
  obtain ⟨monitored, sleep', heq⟩ := s.state.timedOut_cases main thread sleep
  have hawake : Inv main { s with state := s.state.awake main thread } := h.awake
  have hmonitored := hawake.monitored monitored
  have hnone : (s.state.awake main thread).sleeping thread = none := State.sleeping_awake
  obtain heq | heq := heq
  · rw [heq]
    exact hmonitored
  · rw [heq]
    exact hmonitored.tryWait hnone sleep'

theorem inv_step {event : Event T C I} (h : Inv main s) (hreported : Reported s event)
    (hstep : step targeted main s event = some t) : Inv main t := by
  cases event with
  | lockDidChange thread connection type =>
    simp only [step] at hstep
    split_ifs at hstep with hawake
    obtain rfl := Option.some.inj hstep
    exact h.updatePagerLock hawake hreported
  | shmLockDidChange thread identifier sharedMask exclusiveMask =>
    simp only [step] at hstep
    split_ifs at hstep
    obtain rfl := Option.some.inj hstep
    exact h.updateShmLock identifier sharedMask exclusiveMask
  | wait thread expecting =>
    simp only [step] at hstep
    split_ifs at hstep with hawake
    obtain rfl := Option.some.inj hstep
    exact h.tryWait (by simpa using hawake) _
  | awoken thread =>
    obtain ⟨sleep, -, rfl⟩ := Option.map_eq_some_iff.mp hstep
    have hawake : Inv main { s with state := s.state.awake main thread } := h.awake
    exact hawake.tryWait State.sleeping_awake sleep
  | timedOut thread =>
    obtain ⟨sleep, -, rfl⟩ := Option.map_eq_some_iff.mp hstep
    exact h.timedOut sleep
  | setBusyMonitor monitor timeOut =>
    obtain rfl := Option.some.inj hstep
    exact ⟨⟨h.queued.unique, h.queued.order, h.queued.waits⟩, h.known, h.initial, h.foreign,
      h.mainTrying, h.masks⟩

/-! ### Who sleeps -/

/-- What a step keeps: the reports keep it, and so do the calls of the loop in `wait`. -/
theorem holds_step {P : State T I → Prop} {event : Event T C I} (h : Inv main s) (hP : P s.state)
    (hstep : step targeted main s event = some t)
    (hpager : ∀ thread type, P (s.state.updatePagerLock targeted thread type))
    (hshm : ∀ thread identifier sharedMask exclusiveMask,
      event = .shmLockDidChange thread identifier sharedMask exclusiveMask →
        P (s.state.updateShmLock targeted thread identifier sharedMask exclusiveMask))
    (hmonitor : ∀ state busyMonitor timeOut monitored, P state →
      P { state with busyMonitor, timeOut, monitored })
    (hawake : ∀ thread, (s.state.sleeping thread).isSome = true → P (s.state.awake main thread))
    (hwait : ∀ thread state sleep, state.waitings.Unique →
      (∃ expecting, event = .wait thread expecting) ∨ (s.state.sleeping thread).isSome = true →
        P state → P (state.tryWait main thread sleep)) : P t.state := by
  have hunique (thread : T) : (s.state.awake main thread).waitings.Unique :=
    h.queued.unique.erase thread
  cases event with
  | lockDidChange thread connection type =>
    simp only [step] at hstep
    split_ifs at hstep
    obtain rfl := Option.some.inj hstep
    exact hpager thread type
  | shmLockDidChange thread identifier sharedMask exclusiveMask =>
    simp only [step] at hstep
    split_ifs at hstep
    obtain rfl := Option.some.inj hstep
    exact hshm _ _ _ _ rfl
  | wait thread expecting =>
    simp only [step] at hstep
    split_ifs at hstep
    obtain rfl := Option.some.inj hstep
    exact hwait thread s.state _ h.queued.unique (.inl ⟨expecting, rfl⟩) hP
  | awoken thread =>
    obtain ⟨sleep, hsleep, rfl⟩ := Option.map_eq_some_iff.mp hstep
    have hsome := Option.isSome_of_mem hsleep
    exact hwait thread _ sleep (hunique thread) (.inr hsome) (hawake thread hsome)
  | timedOut thread =>
    obtain ⟨sleep, hsleep, rfl⟩ := Option.map_eq_some_iff.mp hstep
    have hsome := Option.isSome_of_mem hsleep
    obtain ⟨monitored, sleep', heq⟩ := s.state.timedOut_cases main thread sleep
    have hmonitored : P { s.state.awake main thread with monitored } :=
      hmonitor _ _ _ monitored (hawake thread hsome)
    obtain heq | heq := heq
    · exact heq ▸ hmonitored
    · exact heq ▸ hwait thread _ sleep' (hunique thread) (.inr hsome) hmonitored
  | setBusyMonitor monitor timeOut =>
    obtain rfl := Option.some.inj hstep
    exact hmonitor s.state monitor timeOut s.state.monitored hP

omit [DecidableEq T] [DecidableEq I] in
/-- A rise of the pager level satisfies nobody. -/
theorem State.Kept.raised {state state' : State T I} {u : T} (h : state.Kept u)
    (hsleeping : state'.sleeping = state.sleeping)
    (hlevel : state.pagerType.level ≤ state'.pagerType.level)
    (hmasks : ∀ expecting, state.shmUnsatisfied expecting = true →
      state'.shmUnsatisfied expecting = true) : state'.Kept u := by
  intro sleep hsleep hwoken
  rw [hsleeping] at hsleep
  obtain hpager | hshm := (Bool.or_eq_true _ _).mp (h sleep hsleep hwoken)
  · refine (Bool.or_eq_true _ _).mpr (.inl ?_)
    rw [Bool.not_eq_true', Bool.eq_false_iff] at hpager ⊢
    exact fun hsatisfied => hpager (Expecting.satisfiedPager_mono hlevel hsatisfied)
  · exact (Bool.or_eq_true _ _).mpr (.inr (hmasks _ hshm))

omit [DecidableEq C] [DecidableEq I] in
theorem kept_updatePagerLock (h : Inv main s) {u : T}
    (hfirst : u = main ∨ ∀ w ∈ s.state.waitings, w.key ≠ main) (hkept : s.state.Kept u)
    (type : PagerLock) : (s.state.updatePagerLock targeted thread type).Kept u := by
  rw [State.updatePagerLock]
  split_ifs with hsame hlower
  · exact hkept
  · refine State.Queued.kept_tryNotify ?_ hfirst
    exact ⟨h.queued.unique, h.queued.order, h.queued.waits⟩
  · exact hkept.raised rfl (not_lt.mp hlower) fun _ hmasks => hmasks

theorem Expecting.satisfiedShm_of_grows {expecting : Expecting}
    {shared shared' exclusive exclusive' : ℕ} (hshared : shared' &&& shared = shared)
    (hexclusive : exclusive' &&& exclusive = exclusive)
    (h : expecting.satisfiedShm shared' exclusive' = true) :
    expecting.satisfiedShm shared exclusive = true := by
  cases expecting with
  | pager => rfl
  | shm type mask =>
    cases type with
    | shared =>
      exact decide_eq_true (and_eq_zero_of_grows hexclusive (of_decide_eq_true h))
    | exclusive =>
      obtain ⟨hs, he⟩ := (Bool.and_eq_true _ _).mp h
      refine (Bool.and_eq_true _ _).mpr ⟨?_, ?_⟩
      · exact decide_eq_true (and_eq_zero_of_grows hshared (of_decide_eq_true hs))
      · exact decide_eq_true (and_eq_zero_of_grows hexclusive (of_decide_eq_true he))

omit [DecidableEq T] in
theorem maskOf_eq {state : State T I} (hnodup : (state.shmMasks.map Prod.fst).Nodup)
    {identifier : I} {mask : ShmMask T} (hmem : (identifier, mask) ∈ state.shmMasks) :
    state.maskOf identifier = (mask.shared, mask.exclusive) := by
  suffices hfind : state.shmMasks.find? (fun m => m.1 = identifier) = some (identifier, mask) by
    rw [State.maskOf, hfind]
  revert hnodup hmem
  generalize state.shmMasks = masks
  intro hnodup hmem
  induction masks with
  | nil => exact absurd hmem List.not_mem_nil
  | cons m rest ih =>
    obtain ⟨hne, hrest⟩ := List.nodup_cons.mp hnodup
    obtain rfl | hmem := List.mem_cons.mp hmem
    · exact List.find?_cons_of_pos (decide_eq_true rfl)
    · have hother : m.1 ≠ identifier := by
        rintro rfl
        exact hne (List.mem_map.mpr ⟨_, hmem, rfl⟩)
      rw [List.find?_cons_of_neg (by simpa using hother)]
      exact ih hrest hmem

/-- Bits that are not fewer, as far as they are compared. -/
theorem grows_of_not_lt {old new : ℕ} (h : new &&& old = new ∨ new &&& old = old)
    (hlt : ¬new < old) : new &&& old = old := by
  obtain h | h := h
  · have hle : new ≤ old := h ▸ Nat.and_le_right
    obtain rfl : new = old := le_antisymm hle (not_lt.mp hlt)
    exact h
  · exact h

omit [DecidableEq C] in
theorem kept_updateShmLock (h : Inv main s) {u : T}
    (hfirst : u = main ∨ ∀ w ∈ s.state.waitings, w.key ≠ main) (hkept : s.state.Kept u)
    {identifier : I} {sharedMask exclusiveMask : ℕ}
    (hreported : Reported s (.shmLockDidChange thread identifier sharedMask exclusiveMask)) :
    (s.state.updateShmLock targeted thread identifier sharedMask exclusiveMask).Kept u := by
  rw [State.updateShmLock]
  split_ifs with hzero
  · refine State.Queued.kept_tryNotify ?_ hfirst
    exact ⟨h.queued.unique, h.queued.order, h.queued.waits⟩
  dsimp only
  split_ifs with hlower
  · refine State.Queued.kept_tryNotify ?_ hfirst
    exact ⟨h.queued.unique, h.queued.order, h.queued.waits⟩
  · obtain ⟨hshared, hexclusive⟩ := not_or.mp hlower
    refine hkept.raised rfl le_rfl fun expecting hunsatisfied => ?_
    obtain ⟨⟨other, mask⟩, hmem, hmask⟩ := List.any_eq_true.mp hunsatisfied
    refine List.any_eq_true.mpr ?_
    by_cases hother : other = identifier
    · -- this connection has no fewer bits than before
      subst hother
      refine ⟨_, List.mem_cons_self, ?_⟩
      have hold := maskOf_eq h.masks hmem
      have hgrows := grows_of_not_lt hreported.1 hshared
      have hgrows' := grows_of_not_lt hreported.2 hexclusive
      rw [hold] at hgrows hgrows'
      rw [Bool.not_eq_true', Bool.eq_false_iff] at hmask ⊢
      exact fun hsatisfied =>
        hmask (Expecting.satisfiedShm_of_grows hgrows hgrows' hsatisfied)
    · refine ⟨(other, mask), List.mem_cons_of_mem _ ?_, hmask⟩
      exact List.mem_filter.mpr ⟨hmem, decide_eq_true hother⟩

omit [DecidableEq I] in
theorem State.Kept.awake {state : State T I} {u : T} (h : state.Kept u) :
    (state.awake main thread).Kept u := by
  intro sleep hsleep hwoken
  by_cases hu : u = thread
  · subst hu
    exact absurd (State.sleeping_awake.symm.trans hsleep) (Option.some_ne_none _).symm
  · rw [State.sleeping_awake_of_ne hu] at hsleep
    exact h sleep hsleep hwoken

omit [DecidableEq I] in
theorem State.Kept.tryWait {state : State T I} {u : T} (h : state.Kept u) (sleep : Sleep) :
    (state.tryWait main thread sleep).Kept u := by
  rw [State.tryWait]
  split_ifs with hwait
  · intro sleep' hsleep hwoken
    by_cases hu : u = thread
    · subst hu
      obtain rfl := Option.some.inj (State.sleeping_fallAsleep.symm.trans hsleep)
      exact State.unsatisfied_of_shouldWait hwait
    · rw [State.sleeping_fallAsleep_of_ne hu] at hsleep
      exact h sleep' hsleep hwoken
  · exact h

theorem kept_step {event : Event T C I} {u : T} (h : Inv main s)
    (hfirst : u = main ∨ ∀ w ∈ s.state.waitings, w.key ≠ main) (hkept : s.state.Kept u)
    (hreported : Reported s event) (hstep : step targeted main s event = some t) :
    t.state.Kept u := by
  refine holds_step (P := fun state => state.Kept u) h hkept hstep (fun _ type => ?_) ?_
    (fun _ _ _ _ hkept => hkept) (fun _ _ => hkept.awake) fun _ _ sleep _ _ hkept =>
    hkept.tryWait sleep
  · exact kept_updatePagerLock h hfirst hkept type
  · rintro thread identifier sharedMask exclusiveMask rfl
    exact kept_updateShmLock h hfirst hkept hreported

/-- The main thread does not sleep, and is not in the list. -/
def State.WithoutMain (main : T) (state : State T I) : Prop :=
  state.sleeping main = none ∧ ∀ w ∈ state.waitings, w.key ≠ main

omit [DecidableEq T] [DecidableEq I] in
theorem State.WithoutMain.wakes {state : State T I} (h : state.WithoutMain main)
    (hwakes : state.Wakes state') : state'.WithoutMain main := by
  refine ⟨?_, fun w hw => h.2 w (hwakes.sublist.subset hw)⟩
  obtain heq | ⟨sleep, hsleep, -⟩ := hwakes.sleeping main
  · exact heq.trans h.1
  · exact absurd (h.1.symm.trans hsleep) (Option.some_ne_none _).symm

omit [DecidableEq I] in
theorem State.WithoutMain.tryNotify {state : State T I} (h : state.WithoutMain main)
    (hunique : state.waitings.Unique) : (state.tryNotify targeted thread).WithoutMain main :=
  h.wakes (State.tryNotifyLoop_spec targeted thread hunique hunique).1

omit [DecidableEq C] [DecidableEq I] in
theorem withoutMain_updatePagerLock (h : Inv main s) (hwithout : s.state.WithoutMain main)
    (type : PagerLock) : (s.state.updatePagerLock targeted thread type).WithoutMain main := by
  rw [State.updatePagerLock]
  split_ifs
  · exact hwithout
  · refine State.WithoutMain.tryNotify ?_ h.queued.unique
    exact hwithout
  · exact hwithout

omit [DecidableEq C] in
theorem withoutMain_updateShmLock (h : Inv main s) (hwithout : s.state.WithoutMain main)
    (identifier : I) (sharedMask exclusiveMask : ℕ) :
    (s.state.updateShmLock targeted thread identifier sharedMask exclusiveMask).WithoutMain
      main := by
  rw [State.updateShmLock]
  dsimp only
  split_ifs
  · refine State.WithoutMain.tryNotify ?_ h.queued.unique
    exact hwithout
  · refine State.WithoutMain.tryNotify ?_ h.queued.unique
    exact hwithout
  · exact hwithout

omit [DecidableEq I] in
theorem State.WithoutMain.awake {state : State T I} (h : state.WithoutMain main)
    (hne : thread ≠ main) : (state.awake main thread).WithoutMain main := by
  refine ⟨?_, fun w hw => h.2 w (List.eraseP_subset hw)⟩
  rw [State.sleeping_awake_of_ne hne.symm]
  exact h.1

omit [DecidableEq I] in
theorem State.WithoutMain.tryWait {state : State T I} (h : state.WithoutMain main)
    (hunique : state.waitings.Unique) (hne : thread ≠ main) (sleep : Sleep) :
    (state.tryWait main thread sleep).WithoutMain main := by
  rw [State.tryWait]
  split_ifs
  · refine ⟨?_, fun w hw => ?_⟩
    · rw [State.sleeping_fallAsleep_of_ne hne.symm]
      exact h.1
    · obtain rfl | ⟨hw, -⟩ := (UniqueList.mem_insert hunique).mp hw
      · exact hne
      · exact h.2 w hw
  · exact h

theorem withoutMain_step {event : Event T C I} (h : Inv main s)
    (hwithout : s.state.WithoutMain main) (hwait : ∀ expecting, event ≠ .wait main expecting)
    (hstep : step targeted main s event = some t) : t.state.WithoutMain main := by
  have hne : ∀ {u}, (s.state.sleeping u).isSome = true → u ≠ main := by
    rintro u hsleep rfl
    rw [hwithout.1] at hsleep
    cases hsleep
  refine holds_step (P := State.WithoutMain main) h hwithout hstep
    (fun _ type => withoutMain_updatePagerLock h hwithout type)
    (fun _ identifier sharedMask exclusiveMask _ =>
      withoutMain_updateShmLock h hwithout identifier sharedMask exclusiveMask)
    (fun _ _ _ _ hwithout => hwithout) (fun _ hsleep => hwithout.awake (hne hsleep))
    fun thread _ sleep hunique hwaits hwithout => hwithout.tryWait hunique ?_ sleep
  rintro rfl
  obtain ⟨expecting, rfl⟩ | hsleep := hwaits
  · exact hwait expecting rfl
  · exact hne hsleep rfl

/-! ### What keeps threads asleep -/

omit [DecidableEq C] [DecidableEq I] in
/-- The level that does not satisfy is the one of a connection. -/
theorem Inv.blocks_of_pager (h : Inv main s) {holder : T} {expecting : Expecting}
    (htid : s.state.pagerChangeTid = some holder)
    (hpager : expecting.satisfiedPager s.state.pagerType = false) :
    ∃ connection, s.holder connection = some holder ∧
      expecting.satisfiedPager (s.levels connection) = false := by
  have hnone : s.state.pagerType ≠ .none := by
    intro hnone
    rw [hnone, expecting.satisfiedPager_none] at hpager
    cases hpager
  obtain ⟨connection, hlevel, hholder⟩ := (h.known holder htid).2 hnone
  exact ⟨connection, hholder, hlevel ▸ hpager⟩

omit [DecidableEq C] [DecidableEq I] in
/-- The thread whose level or masks do not satisfy. -/
theorem Inv.blocks_of_unsatisfied (h : Inv main s) {expecting : Expecting}
    (hunsatisfied : s.state.unsatisfied expecting = true) : ∃ holder, s.Blocks expecting holder ∧
      ∀ type, expecting = .pager type → s.state.pagerChangeTid = some holder := by
  obtain hpager | hshm := (Bool.or_eq_true _ _).mp hunsatisfied
  · rw [Bool.not_eq_true'] at hpager
    cases htid : s.state.pagerChangeTid with
    | none =>
      -- nothing has been reported, and no level is held
      rw [h.initial htid, expecting.satisfiedPager_none] at hpager
      cases hpager
    | some holder => exact ⟨holder, .inl (h.blocks_of_pager htid hpager), fun _ _ => rfl⟩
  · obtain ⟨⟨identifier, mask⟩, hmem, hmask⟩ := List.any_eq_true.mp hshm
    refine ⟨mask.tid, .inr ⟨identifier, mask, hmem, rfl, by simpa using hmask⟩, ?_⟩
    rintro type rfl
    exact absurd hshm (by rw [State.shmUnsatisfied_pager]; decide)

end Invariant

section Runs

variable {T C I : Type} [DecidableEq T] [DecidableEq C] [DecidableEq I] {targeted : Bool} {main : T}
  {s : System T C I} {events : List (Event T C I)}

theorem inv_exec (hreported : Run.Meets (step targeted main) Reported {} events)
    (hexec : Run.exec (step targeted main) {} events = some s) : Inv main s :=
  Run.inv_exec (fun _ _ _ h hreported hstep => inv_step h hreported hstep) .init hreported hexec

/-- **Nobody sleeps without a reason.** In every run of reports, waits, time-outs and wake-ups of
any threads, a thread that sleeps and has not been woken is kept from what it expects by a lock that
is held, and one that waits for a pager lock by another thread's: the main thread always, and any
other thread if the main thread never waits. -/
theorem blocked_of_exec (hreported : Run.Meets (step targeted main) Reported {} events)
    (hexec : Run.exec (step targeted main) {} events = some s) {thread : T} {sleep : Sleep}
    (hsleep : s.state.sleeping thread = some sleep) (hwoken : sleep.woken = false)
    (hmain : thread = main ∨ ∀ expecting, Event.wait main expecting ∉ events) :
    ∃ holder, s.Blocks sleep.expecting holder ∧
      ∀ type, sleep.expecting = .pager type → holder ≠ thread := by
  have hinv := inv_exec hreported hexec
  suffices hkept : s.state.Kept thread by
    obtain ⟨holder, hblocks, htid⟩ := hinv.blocks_of_unsatisfied (hkept sleep hsleep hwoken)
    refine ⟨holder, hblocks, ?_⟩
    rintro type htype rfl
    exact hinv.foreign holder sleep type hsleep htype (htid type htype)
  obtain rfl | hnever := hmain
  · have hboth : Inv thread s ∧ s.state.Kept thread := by
      refine Run.inv_exec (I := fun s => Inv thread s ∧ s.state.Kept thread)
        (fun _ _ _ h hreported hstep => ?_) ⟨.init, fun _ h => by cases h⟩ hreported hexec
      exact ⟨inv_step h.1 hreported hstep, kept_step h.1 (.inl rfl) h.2 hreported hstep⟩
    exact hboth.2
  · have hnone : ∀ event ∈ events, ∀ expecting, event ≠ .wait main expecting := by
      rintro event hevent expecting rfl
      exact hnever expecting hevent
    have hmeets := hreported.and_of_forall hnone
    have hall : Inv main s ∧ s.state.WithoutMain main ∧ s.state.Kept thread := by
      refine Run.inv_exec
        (I := fun s => Inv main s ∧ s.state.WithoutMain main ∧ s.state.Kept thread)
        (fun _ _ _ h hok hstep => ?_)
        ⟨.init, ⟨rfl, fun _ h => absurd h List.not_mem_nil⟩, fun _ h => by cases h⟩ hmeets hexec
      obtain ⟨hinv, hwithout, hkept⟩ := h
      exact ⟨inv_step hinv hok.1 hstep, withoutMain_step hinv hwithout hok.2 hstep,
        kept_step hinv (.inr hwithout.2) hkept hok.1 hstep⟩
    exact hall.2.2

/-- A thread waits for `Reserved`, which another one holds, when a third one releases a lock of the
shared memory. The file was closed before, which reports its level again. -/
def reservedByAnother : List (Event ℕ ℕ ℕ) :=
  [.lockDidChange 4 7 .shared, .lockDidChange 4 7 .none, .lockDidChange 1 7 .none,
    .lockDidChange 1 7 .shared, .lockDidChange 2 8 .shared,
    .lockDidChange 1 7 .reserved, .wait 2 (.pager .reserved), .shmLockDidChange 3 9 0 3,
      .shmLockDidChange 3 9 0 1]

theorem blocked_of_exec_reserved : ∃ s sleep,
    Run.exec (step true 0) {} reservedByAnother = some s ∧
      s.state.sleeping 2 = some sleep ∧ sleep.woken = false ∧
      ∃ holder, s.Blocks sleep.expecting holder ∧
        ∀ type, sleep.expecting = .pager type → holder ≠ 2 := by
  have hrun : ∃ s sleep, Run.exec (step true 0) {} reservedByAnother = some s ∧
      s.state.sleeping 2 = some sleep ∧ sleep.woken = false := ⟨_, _, rfl, rfl, rfl⟩
  obtain ⟨s, sleep, hexec, hsleep, hwoken⟩ := hrun
  have hreported : Run.Meets (step true 0) Reported {} reservedByAnother := by decide
  exact ⟨s, sleep, hexec, hsleep, hwoken, blocked_of_exec hreported hexec hsleep hwoken
    (.inr fun _ => by simp [reservedByAnother])⟩

/-- **Who is told.** In every run, a thread that is asked to make way for the main thread holds what
the main thread sleeps for; and the thread that the client would be told about after a time-out
holds what the sleeping thread waits for, and is another one if that is a pager lock. -/
theorem told_of_exec (hreported : Run.Meets (step targeted main) Reported {} events)
    (hexec : Run.exec (step targeted main) {} events = some s) :
    (∀ thread, s.state.checkMainThreadBusyRetry thread = true →
      ∃ sleep, s.state.sleeping main = some sleep ∧ s.Blocks sleep.expecting thread) ∧
    ∀ thread sleep tid, s.state.sleeping thread = some sleep →
      s.state.blamed sleep.expecting = some tid → s.Blocks sleep.expecting tid ∧
        ∀ type, sleep.expecting = .pager type → tid ≠ thread := by
  have hinv := inv_exec hreported hexec
  refine ⟨fun thread hcheck => ?_, fun thread sleep tid hsleep htid => ?_⟩
  · rw [State.checkMainThreadBusyRetry, hinv.mainTrying] at hcheck
    cases hmain : s.state.sleeping main with
    | none =>
      rw [hmain] at hcheck
      cases hcheck
    | some sleep =>
      rw [hmain] at hcheck
      refine ⟨sleep, rfl, ?_⟩
      obtain hpager | hshm := (Bool.or_eq_true _ _).mp hcheck
      · obtain ⟨hchanged, hunsatisfied⟩ := (Bool.and_eq_true _ _).mp hpager
        rw [Bool.not_eq_true'] at hunsatisfied
        exact .inl (hinv.blocks_of_pager (of_decide_eq_true hchanged) hunsatisfied)
      · obtain ⟨⟨identifier, mask⟩, hmem, hmask⟩ := List.any_eq_true.mp hshm
        obtain ⟨hown, hunsatisfied⟩ := (Bool.and_eq_true _ _).mp hmask
        rw [Bool.not_eq_true'] at hunsatisfied
        exact .inr ⟨identifier, mask, hmem, of_decide_eq_true hown, hunsatisfied⟩
  · rw [State.blamed] at htid
    split_ifs at htid with hpager
    · rw [Bool.not_eq_true'] at hpager
      refine ⟨.inl (hinv.blocks_of_pager htid hpager), ?_⟩
      rintro type htype rfl
      exact hinv.foreign tid sleep type hsleep htype htid
    · obtain ⟨⟨identifier, mask⟩, hfind, rfl⟩ := Option.map_eq_some_iff.mp htid
      have hmask := List.find?_some hfind
      rw [Bool.not_eq_true'] at hmask
      refine ⟨.inr ⟨identifier, mask, List.mem_of_find?_eq_some hfind, rfl, hmask⟩, ?_⟩
      intro type htype
      rw [htype] at hmask
      cases hmask

/-- The main thread waits for `Exclusive`, and the other thread asks. -/
def exclusiveForMain : List (Event ℕ ℕ ℕ) :=
  [.lockDidChange 1 7 .shared, .wait 0 (.pager .exclusive)]

theorem told_of_exec_exclusive : ∃ s, Run.exec (step false 0) {} exclusiveForMain = some s ∧
    s.state.checkMainThreadBusyRetry 1 = true ∧
    ∃ sleep, s.state.sleeping 0 = some sleep ∧ s.Blocks sleep.expecting 1 := by
  have hrun : ∃ s, Run.exec (step false 0) {} exclusiveForMain = some s ∧
      s.state.checkMainThreadBusyRetry 1 = true := ⟨_, rfl, rfl⟩
  obtain ⟨s, hexec, hcheck⟩ := hrun
  have hreported : Run.Meets (step false 0) Reported {} exclusiveForMain := by decide
  exact ⟨s, hexec, hcheck, (told_of_exec hreported hexec).1 1 hcheck⟩

end Runs

end Wcdb.BusyRetryConfig
