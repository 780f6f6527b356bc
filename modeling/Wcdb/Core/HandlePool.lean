import Wcdb.Base.Lock
import Wcdb.Core.HandleCounter
import Mathlib.Data.List.Nodup
import Mathlib.Algebra.GroupWithZero.Nat

/-!
# `HandlePool`: lending handles to threads

A thread that asks for a handle of a category it already has gets the same one again; otherwise the
call goes through the counter, the shared lock, the free handles of the slot or the generation of a
new one, and each of its critical sections is one step here (`Place` says where in the call the
thread is). Taking a lock is possible only when it needs no wait. The memory lock is held within a
step.

The last value of a handle that is recycled says by its type which slot the handle goes back to. The
types `normal` and `assemble` have one category and two slots, so that this need not be the slot the
handle is filed under (`keptHandle`). In a run in which handles go back to their slot and the pool
is cleared only while the draining thread has none, the books of the pool are right in every state
(`accounted_of_exec`).
-/

namespace Wcdb

def HandleSlot.all : List HandleSlot := [.normal, .autoTask, .assemble, .vacuum, .cipher]

def HandleCategory.all : List HandleCategory :=
  [.normal, .migrate, .compress, .backup, .cipher, .checkpoint, .integrity, .mergeIndex, .vacuum]

theorem HandleCategory.mem_all (category : HandleCategory) : category ∈ HandleCategory.all := by
  cases category <;> decide

namespace HandlePool

open Function (update)

/-- A handle is named by its number. -/
structure ReferencedHandle where
  handle : ℕ
  reference : ℕ
  deriving DecidableEq, Repr

/-- Where in `flowOut` or `flowBack` a thread is. -/
inductive Place where
  | idle
  /-- Counted, before the shared lock. -/
  | counted (type : HandleType) (writeHint : Bool)
  | entered (type : HandleType) (writeHint : Bool)
  | generating (type : HandleType) (writeHint : Bool)
  | reusing (type : HandleType) (writeHint : Bool) (handle : ℕ)
  /-- The handle is not used again and was removed. -/
  | failing (writeHint : Bool)
  | ready (type : HandleType) (writeHint : Bool) (handle : ℕ)
  /-- At the end of `flowOut`, before the shared lock of its guard is released. -/
  | leaving
  /-- In `flowBack`, before the shared lock is released. -/
  | returned (writeHint : Bool)
  /-- In `flowBack`, before the handle is uncounted. -/
  | uncounting (writeHint : Bool)
  deriving DecidableEq, Repr

/-- The fields of `HandlePool`, the write hints of the handles, the `RecyclableHandle` values that
were not recycled yet, and where each thread is. `allowed` records the assertion on the number of
handles. -/
structure State (T : Type) where
  handles : HandleSlot → List ℕ := fun _ => []
  frees : HandleSlot → List ℕ := fun _ => []
  counter : HandleCounter.State T := {}
  concurrency : SharedLock.State T := {}
  threadedHandles : T → HandleCategory → Option ReferencedHandle := fun _ _ => none
  writeHint : ℕ → Bool := fun _ => false
  recyclable : T → List HandleType := fun _ => []
  place : T → Place := fun _ => .idle
  /-- How many drained blocks the thread is in. -/
  draining : T → ℕ := fun _ => 0
  generated : ℕ := 0
  allowed : Bool := true

variable {T : Type} [DecidableEq T]

namespace State

def goto (s : State T) (t : T) (place : Place) : State T :=
  { s with place := update s.place t place }

def refer (s : State T) (t : T) (category : HandleCategory) (handle : Option ReferencedHandle) :
    State T :=
  { s with threadedHandles :=
      update s.threadedHandles t (update (s.threadedHandles t) category handle) }

/-- A `RecyclableHandle` value for the thread. -/
def addRecyclable (s : State T) (t : T) (type : HandleType) : State T :=
  { s with recyclable := update s.recyclable t (type :: s.recyclable t) }

def setWriteHint (s : State T) (handle : ℕ) (writeHint : Bool) : State T :=
  { s with writeHint := update s.writeHint handle writeHint }

def numberOfAliveHandles (s : State T) : ℕ :=
  (HandleSlot.all.map fun slot => (s.handles slot).length).sum

def isNumberOfHandlesAllowed (s : State T) : Bool :=
  s.numberOfAliveHandles ≤ HandleCounter.maxAllowedNumberOfHandles

/-- The body of `purge`. -/
def purge (s : State T) : State T :=
  { s with
    handles := fun slot => (s.handles slot).diff (s.frees slot)
    frees := fun _ => [] }

def clearAllHandles (s : State T) : State T :=
  { s with handles := fun _ => [], frees := fun _ => [] }

/-- `flowOut` up to its first wait. A call that would wait for the counter is not possible. -/
def flowOut (s : State T) (t : T) (type : HandleType) (writeHint : Bool) : Option (State T) :=
  match s.threadedHandles t type.categoryOfHandleType with
  | some referencedHandle =>
      some ((s.refer t type.categoryOfHandleType
        (some { referencedHandle with reference := referencedHandle.reference + 1 })).addRecyclable
          t type)
  | none =>
      match s.counter.tryIncreaseHandleCount { thread := t, type, writeHint } with
      | (_, none) => none
      | (_, some false) => some s
      | (counter, some true) => some ({ s with counter }.goto t (.counted type writeHint))

/-- The shared lock, if it needs no wait. -/
def lockShared (s : State T) (t : T) (place : Place) : Option (State T) :=
  let concurrency := s.concurrency.lockShared t
  if concurrency.place t = .running then some ({ s with concurrency }.goto t place) else none

def unlockShared (s : State T) (t : T) (place : Place) : State T :=
  { s with concurrency := s.concurrency.unlockShared false t }.goto t place

def uncount (s : State T) (t : T) (writeHint : Bool) (place : Place) : State T :=
  { s with counter := s.counter.decreaseHandleCount false writeHint }.goto t place

/-- The free handle of a slot that was pushed last. -/
def take (s : State T) (t : T) (type : HandleType) (writeHint : Bool) : State T :=
  let slot := type.slotOfHandleType
  match (s.frees slot).getLast? with
  | some handle =>
      { s with frees := update s.frees slot (s.frees slot).dropLast }.goto t
        (.reusing type writeHint handle)
  | none => s.goto t (.generating type writeHint)

/-- A new handle is filed; with too many alive, the free ones are closed. -/
def file (s : State T) (t : T) (type : HandleType) (writeHint : Bool) : State T :=
  let slot := type.slotOfHandleType
  let handle := s.generated
  let s := { s with
      handles := update s.handles slot (handle :: s.handles slot)
      generated := s.generated + 1 }.goto t (.ready type writeHint handle)
  if !s.isNumberOfHandlesAllowed then
    let s := s.purge
    { s with allowed := s.allowed && s.isNumberOfHandlesAllowed }
  else s

/-- A handle that fails is removed. -/
def remove (s : State T) (t : T) (type : HandleType) (writeHint : Bool) (handle : ℕ) : State T :=
  let slot := type.slotOfHandleType
  { s with handles := update s.handles slot ((s.handles slot).erase handle) }.goto t
    (.failing writeHint)

/-- The handle is the thread's. -/
def lend (s : State T) (t : T) (type : HandleType) (writeHint : Bool) (handle : ℕ) :
    Option (State T) :=
  (((s.setWriteHint handle writeHint).refer t type.categoryOfHandleType
    (some ⟨handle, 1⟩)).addRecyclable t type).lockShared t .leaving

/-- The next critical section of a thread's call. `succeed` is what the generation or the reuse of a
handle comes to. -/
def resume (s : State T) (t : T) (succeed : Bool) : Option (State T) :=
  match s.place t with
  | .idle => none
  | .counted type writeHint => s.lockShared t (.entered type writeHint)
  | .entered type writeHint => some (s.take t type writeHint)
  | .generating type writeHint =>
      some (if succeed then s.file t type writeHint else s.uncount t writeHint .leaving)
  | .reusing type writeHint handle =>
      some (if succeed then s.goto t (.ready type writeHint handle)
        else s.remove t type writeHint handle)
  | .failing writeHint => some (s.uncount t writeHint .leaving)
  | .ready type writeHint handle => s.lend t type writeHint handle
  | .leaving => some (s.unlockShared t .idle)
  | .returned writeHint => some (s.unlockShared t (.uncounting writeHint))
  | .uncounting writeHint => some (s.uncount t writeHint .idle)

/-- `flowBack` up to the release of the memory lock. -/
def flowBack (s : State T) (t : T) (type : HandleType) : Option (State T) :=
  if type ∈ s.recyclable t then
    let s := { s with recyclable := update s.recyclable t ((s.recyclable t).erase type) }
    let category := type.categoryOfHandleType
    match s.threadedHandles t category with
    | none => none
    | some ⟨handle, reference⟩ =>
        if reference - 1 = 0 then
          let slot := type.slotOfHandleType
          let writeHint := s.writeHint handle
          let s := s.refer t category none
          some (({ s with frees := update s.frees slot (s.frees slot ++ [handle]) }.setWriteHint
            handle false).goto t (.returned writeHint))
        else some (s.refer t category (some ⟨handle, reference - 1⟩))
  else none

/-- `drain`, up to the drained block if there is one. -/
def drain (s : State T) (t : T) (onDrained : Bool) : Option (State T) :=
  if s.concurrency.locking ≠ some t ∧ 0 < s.concurrency.threadedReaders t then some s
  else
    let concurrency := s.concurrency.lock t
    if concurrency.place t = .running then
      let s := { s with concurrency }.clearAllHandles
      some (if onDrained then { s with draining := update s.draining t (s.draining t + 1) }
        else { s with concurrency := concurrency.unlock false t })
    else none

/-- The end of a drained block. -/
def drained (s : State T) (t : T) : Option (State T) :=
  if 0 < s.draining t then
    some { s.clearAllHandles with
      concurrency := s.concurrency.unlock false t
      draining := update s.draining t (s.draining t - 1) }
  else none

end State

inductive Action (T : Type) where
  | flowOut (t : T) (type : HandleType) (writeHint : Bool)
  | flowBack (t : T) (type : HandleType)
  | purge (t : T)
  | drain (t : T) (onDrained : Bool)
  | drained (t : T)
  | resume (t : T) (succeed : Bool)
  deriving DecidableEq, Repr

/-- A thread makes a call when it is in none. -/
def step (s : State T) : Action T → Option (State T)
  | .flowOut t type writeHint => if s.place t = .idle then s.flowOut t type writeHint else none
  | .flowBack t type => if s.place t = .idle then s.flowBack t type else none
  | .purge t =>
      if s.place t = .idle ∧ (s.concurrency.lockShared t).place t = .running then some s.purge
      else none
  | .drain t onDrained => if s.place t = .idle then s.drain t onDrained else none
  | .drained t => if s.place t = .idle then s.drained t else none
  | .resume t succeed => s.resume t succeed

/-! ### What a thread stands for in the books -/

/-- The write hint of the handle that the call has counted. -/
def Place.unit : Place → Option Bool
  | .counted _ writeHint | .entered _ writeHint | .generating _ writeHint
  | .reusing _ writeHint _ | .failing writeHint | .ready _ writeHint _ | .returned writeHint
  | .uncounting writeHint => some writeHint
  | .idle | .leaving => none

/-- The shared locks that the call has to release. -/
def Place.guards : Place → ℕ
  | .entered _ _ | .generating _ _ | .reusing _ _ _ | .failing _ | .ready _ _ _ | .leaving
  | .returned _ => 1
  | .idle | .counted _ _ | .uncounting _ => 0

/-- The handle that the call has in hand, with the type it was asked for. -/
def Place.held : Place → Option (HandleType × ℕ)
  | .reusing type _ handle | .ready type _ handle => some (type, handle)
  | _ => none

/-- The type that a call of `flowOut` was made with, while it has no handle to lend yet. -/
def Place.asked : Place → Option HandleType
  | .counted type _ | .entered type _ | .generating type _ | .reusing type _ _
  | .ready type _ _ => some type
  | .idle | .failing _ | .leaving | .returned _ | .uncounting _ => none

/-- A call that has a handle in hand has counted it. -/
theorem Place.unit_of_held {place : Place} {held : HandleType × ℕ} (h : place.held = some held) :
    place.unit.isSome = true := by
  cases place <;> first | rfl | cases h

namespace State

/-- The handle of a category that is lent to a thread. -/
def lentTo (s : State T) (t : T) (category : HandleCategory) : Option ℕ :=
  (s.threadedHandles t category).map ReferencedHandle.handle

/-- What the counter counts: the handles lent by thread and category, and the calls of the threads,
each with its write hint. -/
def units (s : State T) : T × Option HandleCategory → Option Bool
  | (t, some category) => (s.lentTo t category).map s.writeHint
  | (t, none) => (s.place t).unit

/-- The shared locks of a thread: one for each category lent, and that of its call. -/
def shared (s : State T) (t : T) : Option HandleCategory → ℕ
  | some category => if (s.lentTo t category).isSome then 1 else 0
  | none => (s.place t).guards

def held (s : State T) (t : T) : Option (HandleType × ℕ) := (s.place t).held

theorem units_goto (s : State T) (t : T) (place : Place) :
    (s.goto t place).units = update s.units (t, none) place.unit := by
  funext ⟨u, category⟩
  cases category with
  | some category => simp [units, goto, lentTo]
  | none =>
    by_cases hu : u = t
    · subst hu
      simp [units, goto]
    · simp [units, goto, hu]

theorem shared_goto (s : State T) (t : T) (place : Place) :
    (s.goto t place).shared = update s.shared t (update (s.shared t) none place.guards) := by
  funext u category
  by_cases hu : u = t
  · subst hu
    cases category <;> simp [shared, goto, lentTo]
  · cases category <;> simp [shared, goto, lentTo, hu]

theorem held_goto (s : State T) (t : T) (place : Place) :
    (s.goto t place).held = update s.held t place.held := by
  funext u
  by_cases hu : u = t
  · subst hu
    simp [held, goto]
  · simp [held, goto, hu]

theorem lentTo_refer (s : State T) (t : T) (category : HandleCategory)
    (handle : Option ReferencedHandle) :
    (s.refer t category handle).lentTo =
      update s.lentTo t (update (s.lentTo t) category (handle.map ReferencedHandle.handle)) := by
  funext u c
  by_cases hu : u = t
  · subst hu
    by_cases hc : c = category
    · subst hc
      simp [lentTo, refer]
    · simp [lentTo, refer, hc]
  · simp [lentTo, refer, hu]

theorem units_refer (s : State T) (t : T) (category : HandleCategory)
    (handle : Option ReferencedHandle) :
    (s.refer t category handle).units =
      update s.units (t, some category) ((handle.map ReferencedHandle.handle).map s.writeHint) := by
  funext ⟨u, c⟩
  cases c with
  | none => simp [units, refer]
  | some c =>
    rw [units, lentTo_refer]
    by_cases hu : u = t
    · subst hu
      by_cases hc : c = category
      · subst hc
        simp [refer]
      · simp [units, refer, hc]
    · simp [units, refer, hu]

theorem shared_refer (s : State T) (t : T) (category : HandleCategory)
    (handle : Option ReferencedHandle) :
    (s.refer t category handle).shared =
      update s.shared t (update (s.shared t) (some category) (if handle.isSome then 1 else 0)) := by
  funext u c
  by_cases hu : u = t
  · subst hu
    cases c with
    | none => simp [shared, refer]
    | some c =>
      by_cases hc : c = category
      · subst hc
        simp [shared, lentTo_refer]
      · simp [shared, lentTo_refer, hc]
  · cases c with
    | none => simp [shared, refer, hu]
    | some c => simp [shared, lentTo, refer, hu]

theorem units_goto_same {s : State T} {t : T} {place : Place} (h : place.unit = (s.place t).unit) :
    (s.goto t place).units = s.units := by
  rw [units_goto, h]
  exact Function.update_eq_self (t, none) s.units

theorem shared_goto_same {s : State T} {t : T} {place : Place}
    (h : place.guards = (s.place t).guards) : (s.goto t place).shared = s.shared := by
  rw [shared_goto, h]
  have hsame : update (s.shared t) none (s.place t).guards = s.shared t :=
    Function.update_eq_self none (s.shared t)
  rw [hsame, Function.update_eq_self]

theorem held_goto_same {s : State T} {t : T} {place : Place} (h : place.held = s.held t) :
    (s.goto t place).held = s.held := by
  rw [held_goto, h, Function.update_eq_self]

/-- A reference more or less to the same handle. -/
theorem lentTo_refer_same {s : State T} {t : T} {category : HandleCategory}
    {before : ReferencedHandle} (after : ReferencedHandle)
    (hbefore : s.threadedHandles t category = some before) (hafter : after.handle = before.handle) :
    (s.refer t category (some after)).lentTo = s.lentTo := by
  have hsame : (some after).map ReferencedHandle.handle = s.lentTo t category := by
    simp [lentTo, hbefore, hafter]
  rw [lentTo_refer, hsame, Function.update_eq_self, Function.update_eq_self]

omit [DecidableEq T] in
theorem units_congr {s s' : State T} (hlent : s'.lentTo = s.lentTo)
    (hhint : s'.writeHint = s.writeHint) (hplace : s'.place = s.place) : s'.units = s.units := by
  funext ⟨t, category⟩
  cases category <;> simp [units, hlent, hhint, hplace]

omit [DecidableEq T] in
theorem shared_congr {s s' : State T} (hlent : s'.lentTo = s.lentTo) (hplace : s'.place = s.place) :
    s'.shared = s.shared := by
  funext t category
  cases category <;> simp [shared, hlent, hplace]

omit [DecidableEq T] in
/-- The hint of a handle that nobody has is in nobody's unit. -/
theorem units_setWriteHint {s : State T} {handle : ℕ}
    (h : ∀ t category, s.lentTo t category ≠ some handle) (hint : Bool) :
    (s.setWriteHint handle hint).units = s.units := by
  funext ⟨t, category⟩
  cases category with
  | none => rfl
  | some category =>
    simp only [units, lentTo, setWriteHint]
    cases hlent : s.threadedHandles t category with
    | none => rfl
    | some referenced =>
      have hne : referenced.handle ≠ handle := by
        intro heq
        exact h t category (by simp [lentTo, hlent, heq])
      simp [hne]

end State

/-! ### The lock -/

/-- The shared lock and who has it: each thread as often as `shared` says, and the thread in a
drained block exclusively. -/
structure Locks (lock : SharedLock.State T) (shared : T → Option HandleCategory → ℕ)
    (draining : T → ℕ) : Prop where
  inv : SharedLock.Inv lock
  running : ∀ t, lock.place t = .running
  readers : ∀ t, Tally (lock.threadedReaders t) (shared t)
  locking : ∀ t, 0 < draining t → lock.locking = some t
  writers : ∀ t, lock.locking = some t → lock.writers = draining t

section Locks

variable {l : SharedLock.State T} {shared : T → Option HandleCategory → ℕ} {draining : T → ℕ}
  {t : T}

theorem Locks.lockShared (h : Locks l shared draining)
    (hrunning : (l.lockShared t).place t = .running) (key : Option HandleCategory) :
    Locks (l.lockShared t)
      (update shared t (update (shared t) key (shared t key + 1))) draining := by
  have hinv := SharedLock.inv_lockShared h.inv (h.running t)
  rw [SharedLock.lockShared_eq hrunning] at hinv ⊢
  refine ⟨hinv, h.running, fun u => ?_, h.locking, h.writers⟩
  by_cases hu : u = t
  · subst hu
    simpa [SharedLock.State.acquireShared] using (h.readers u).add key
  · simpa [SharedLock.State.acquireShared, hu] using h.readers u

theorem Locks.unlockShared (h : Locks l shared draining) (key : Option HandleCategory)
    (hkey : 0 < shared t key) :
    Locks (l.unlockShared false t)
      (update shared t (update (shared t) key (shared t key - 1))) draining := by
  refine ⟨SharedLock.inv_unlockShared h.inv, by simpa using h.running, fun u => ?_,
    by simpa using h.locking, by simpa using h.writers⟩
  rw [SharedLock.unlockShared_threadedReaders]
  by_cases hu : u = t
  · subst hu
    simpa using (h.readers u).remove hkey
  · simpa [hu] using h.readers u

/-- A thread's lock stands for something else of its own. -/
theorem Locks.move (h : Locks l shared draining) {key key' : Option HandleCategory}
    (hne : key ≠ key') (hkey : shared t key = 1) (hkey' : shared t key' = 0) :
    Locks l (update shared t (update (update (shared t) key 0) key' 1)) draining := by
  refine ⟨h.inv, h.running, fun u => ?_, h.locking, h.writers⟩
  by_cases hu : u = t
  · subst hu
    have hremove := (h.readers u).remove (t := key) (by rw [hkey]; decide)
    have hadd := hremove.add key'
    have hpos : 0 < l.threadedReaders u :=
      (h.readers u).pos_iff.mpr ⟨key, by rw [hkey]; decide⟩
    rw [Nat.sub_add_cancel hpos, Function.update_of_ne hne.symm, hkey, hkey'] at hadd
    simpa using hadd
  · simpa [hu] using h.readers u

/-- The end of a drained block, or of a drain without one. -/
theorem Locks.unlock (h : Locks l shared draining) (hdraining : 0 < draining t)
    (hreading : l.threadedReaders t = 0) :
    (∀ u key, shared u key = 0) ∧
      Locks (l.unlock false t) shared (update draining t (draining t - 1)) := by
  have hlocking := h.locking t hdraining
  have hothers : ∀ u, u ≠ t → draining u = 0 := by
    intro u hu
    by_contra hne
    have := h.locking u (Nat.pos_of_ne_zero hne)
    rw [hlocking] at this
    exact hu (Option.some.inj this).symm
  obtain ⟨hwriters, hlocking'⟩ := SharedLock.unlock_eq false hreading hlocking
  rw [h.writers t hlocking] at hwriters hlocking'
  refine ⟨fun u key => ?_, SharedLock.inv_unlock h.inv, by simpa using h.running,
    by simpa using h.readers, fun u hu => ?_, fun u hu => ?_⟩
  · have hzero : l.threadedReaders u = 0 := by
      by_contra hne
      exact hne (h.inv.exclusive t hlocking u (Nat.pos_of_ne_zero hne) ▸ hreading)
    exact (h.readers u).eq_zero_iff.mp hzero key
  · by_cases hut : u = t
    · subst hut
      rw [Function.update_self] at hu
      rw [hlocking', if_neg (Nat.ne_of_gt hu)]
    · rw [Function.update_of_ne hut, hothers u hut] at hu
      exact absurd hu (Nat.lt_irrefl 0)
  · rw [hlocking'] at hu
    split_ifs at hu
    obtain rfl := Option.some.inj hu
    rw [Function.update_self, hwriters]

/-- A thread that takes the lock exclusively. -/
theorem Locks.acquire (h : Locks l shared draining) (hreading : l.threadedReaders t = 0)
    (hrunning : (l.lock t).place t = .running) :
    Locks (l.lock t) shared (update draining t (draining t + 1)) := by
  obtain ⟨hbefore, hlocking, hwriters, hreaders, hplace⟩ :=
    SharedLock.lock_eq hreading (h.running t) hrunning
  have hdraining : ∀ u, 0 < draining u → u = t := by
    intro u hu
    have hu' := h.locking u hu
    rcases hbefore with hbefore | hbefore
    · rw [hbefore] at hu'
      exact (Option.some.inj hu').symm
    · exact absurd (h.inv.locking.mpr (by simp [hu'])) (by simp [hbefore])
  have hcount : l.writers = draining t := by
    rcases hbefore with hbefore | hbefore
    · exact h.writers t hbefore
    · rw [hbefore]
      by_contra hne
      have hlocked := h.locking t (Nat.pos_of_ne_zero (Ne.symm hne))
      exact absurd (h.inv.locking.mpr (by simp [hlocked])) (by simp [hbefore])
  refine ⟨SharedLock.inv_lock h.inv (h.running t), by rw [hplace]; exact h.running,
    by rw [hreaders]; exact h.readers, fun u hu => ?_, fun u hu => ?_⟩
  · by_cases hut : u = t
    · rw [hut, hlocking]
    · rw [Function.update_of_ne hut] at hu
      exact absurd (hdraining u hu) hut
  · obtain rfl : t = u := Option.some.inj (hlocking.symm.trans hu)
    rw [Function.update_self, hwriters, hcount]

/-- A drain without a block: nobody has a share in the lock, and it is as it was. -/
theorem Locks.drain (h : Locks l shared draining) (hreading : l.threadedReaders t = 0)
    (hrunning : (l.lock t).place t = .running) :
    (∀ u key, shared u key = 0) ∧ Locks ((l.lock t).unlock false t) shared draining := by
  have hacquired := h.acquire hreading hrunning
  have hreading' : (l.lock t).threadedReaders t = 0 := by
    rw [(SharedLock.lock_eq hreading (h.running t) hrunning).2.2.2.1, hreading]
  obtain ⟨hnobody, hunlocked⟩ := hacquired.unlock (by simp) hreading'
  exact ⟨hnobody, by simpa using hunlocked⟩

end Locks

/-! ### The counter -/

/-- A unit counts for one handle. -/
def handleUnit (unit : Option Bool) : ℕ := if unit.isSome then 1 else 0

/-- A unit with a write hint counts for one writer. -/
def writerUnit (unit : Option Bool) : ℕ := if unit = some true then 1 else 0

/-- The counter counts the units. -/
structure Counts (counter : HandleCounter.State T)
    (units : T × Option HandleCategory → Option Bool) :
    Prop where
  total : Tally counter.totalCount (handleUnit ∘ units)
  writer : Tally counter.writerCount (writerUnit ∘ units)
  bound : counter.totalCount ≤ HandleCounter.maxAllowedNumberOfHandles

section Counts

variable {c : HandleCounter.State T} {units : T × Option HandleCategory → Option Bool}
  {key key' : T × Option HandleCategory} {writeHint : Bool}

/-- A call is counted. -/
theorem Counts.increase (caller : HandleCounter.Caller T) (h : Counts c units)
    (hkey : units key = none) (hincrease : (c.tryIncreaseHandleCount caller).2 = some true) :
    Counts (c.tryIncreaseHandleCount caller).1 (update units key (some caller.writeHint)) := by
  obtain ⟨hlt, htotal, hwriter⟩ := HandleCounter.tryIncreaseHandleCount_eq hincrease
  have htotal' := h.total.set key 1
  have hwriter' := h.writer.set key caller.writeHint.toNat
  simp only [Function.comp_apply, hkey, handleUnit, writerUnit] at htotal' hwriter'
  refine ⟨?_, ?_, by omega⟩
  · rw [htotal, Function.comp_update]
    exact htotal'
  · rw [hwriter, Function.comp_update]
    have hunit : writerUnit (some caller.writeHint) = caller.writeHint.toNat := by
      cases caller.writeHint <;> rfl
    rw [hunit]
    exact hwriter'

/-- What is counted is given back. -/
theorem Counts.decrease (h : Counts c units) (hkey : units key = some writeHint) :
    Counts (c.decreaseHandleCount false writeHint) (update units key none) := by
  have htotal' := h.total.set key 0
  have hwriter' := h.writer.set key 0
  have hunit : writerUnit (some writeHint) = writeHint.toNat := by cases writeHint <;> rfl
  simp only [Function.comp_apply, hkey, hunit] at htotal' hwriter'
  have hbound := h.bound
  refine ⟨?_, ?_, ?_⟩
  · rw [HandleCounter.decreaseHandleCount_totalCount, Function.comp_update]
    exact htotal'
  · rw [HandleCounter.decreaseHandleCount_writerCount, Function.comp_update]
    exact hwriter'
  · rw [HandleCounter.decreaseHandleCount_totalCount]
    omega

/-- What is counted stands elsewhere in the books. -/
theorem Counts.move (h : Counts c units) (hne : key ≠ key') (hkey : units key = some writeHint)
    (hkey' : units key' = none) :
    Counts c (update (update units key none) key' (some writeHint)) := by
  have hmove {n : ℕ} {count : Option Bool → ℕ} (hnone : count none = 0)
      (htally : Tally n (count ∘ units)) :
      Tally n (count ∘ update (update units key none) key' (some writeHint)) := by
    have hle := htally.share_le key
    have hset := (htally.set key 0).set key' (count (some writeHint))
    rw [Function.update_of_ne hne.symm, Function.comp_apply, Function.comp_apply, hkey, hkey',
      hnone] at hset
    rw [Function.comp_apply, hkey] at hle
    rw [Function.comp_update, Function.comp_update, hnone]
    rwa [show n - count (some writeHint) + 0 - 0 + count (some writeHint) = n by omega] at hset
  exact ⟨hmove rfl h.total, hmove rfl h.writer, h.bound⟩

end Counts

/-! ### The handles -/

/-- Who has a handle. -/
inductive Owner (T : Type) where
  /-- Closed, or not generated yet. -/
  | gone
  | free
  | thread (t : T) (category : HandleCategory)
  | call (t : T)
  deriving DecidableEq

/-- The owner of every handle, and the slot it is filed under, agree with all containers. -/
structure Books (handles frees : HandleSlot → List ℕ) (lentTo : T → HandleCategory → Option ℕ)
    (held : T → Option (HandleType × ℕ)) (generated : ℕ) (owner : ℕ → Owner T)
    (home : ℕ → HandleSlot) : Prop where
  mem_handles : ∀ slot h, h ∈ handles slot ↔ owner h ≠ .gone ∧ home h = slot
  mem_frees : ∀ slot h, h ∈ frees slot ↔ owner h = .free ∧ home h = slot
  nodup_handles : ∀ slot, (handles slot).Nodup
  nodup_frees : ∀ slot, (frees slot).Nodup
  lent : ∀ t category h, lentTo t category = some h ↔ owner h = .thread t category
  inHand : ∀ t h, (held t).map Prod.snd = some h ↔ owner h = .call t
  filed : ∀ t type h, held t = some (type, h) → home h = type.slotOfHandleType
  below : ∀ h, owner h ≠ .gone → h < generated

section Books

variable {handles frees : HandleSlot → List ℕ} {lentTo : T → HandleCategory → Option ℕ}
  {held : T → Option (HandleType × ℕ)} {generated : ℕ} {owner : ℕ → Owner T}
  {home : ℕ → HandleSlot} {t : T} {type : HandleType} {h : ℕ}

/-- A free handle is taken in hand. -/
theorem Books.take (b : Books handles frees lentTo held generated owner home)
    (hlast : (frees type.slotOfHandleType).getLast? = some h) (hheld : held t = none) :
    Books handles (update frees type.slotOfHandleType (frees type.slotOfHandleType).dropLast) lentTo
      (update held t (some (type, h))) generated (update owner h (.call t)) home := by
  have hsplit : frees type.slotOfHandleType = (frees type.slotOfHandleType).dropLast ++ [h] :=
    (List.dropLast_append_getLast? h hlast).symm
  have hnodup := b.nodup_frees type.slotOfHandleType
  rw [hsplit, List.nodup_append] at hnodup
  have hnodup' := hnodup.1
  have hnotMem : h ∉ (frees type.slotOfHandleType).dropLast := fun hmem =>
    hnodup.2.2 h hmem h (by simp) rfl
  obtain ⟨hfree, hhome⟩ := (b.mem_frees _ h).mp (by rw [hsplit]; simp)
  have hdrop : ∀ h', h' ≠ h →
      (h' ∈ (frees type.slotOfHandleType).dropLast ↔ h' ∈ frees type.slotOfHandleType) := by
    intro h' hne
    conv_rhs => rw [hsplit]
    simp [hne]
  clear hsplit hnodup hlast
  refine ⟨?_, ?_, b.nodup_handles, ?_, ?_, ?_, ?_, ?_⟩ <;> simp only [Function.update_apply]
  · intro slot h'
    grind [b.mem_handles slot h']
  · intro slot h'
    grind [b.mem_frees slot h']
  · intro slot
    grind [b.nodup_frees slot]
  · intro u category h'
    grind [b.lent u category h']
  · intro u h'
    grind [b.inHand u h']
  · intro u type' h'
    grind [b.filed u type' h']
  · intro h'
    have hbelow := b.below h'
    grind

/-- A new handle is filed and in hand. -/
theorem Books.file (b : Books handles frees lentTo held generated owner home)
    (hheld : held t = none) :
    Books (update handles type.slotOfHandleType (generated :: handles type.slotOfHandleType)) frees
      lentTo (update held t (some (type, generated))) (generated + 1)
      (update owner generated (.call t)) (update home generated type.slotOfHandleType) := by
  have hgone : owner generated = .gone := by
    by_contra hne
    exact Nat.lt_irrefl _ (b.below generated hne)
  have hnew : generated ∉ handles type.slotOfHandleType := by
    rw [b.mem_handles]
    simp [hgone]
  refine ⟨?_, ?_, ?_, b.nodup_frees, ?_, ?_, ?_, ?_⟩ <;> simp only [Function.update_apply]
  · intro slot h'
    grind [b.mem_handles slot h']
  · intro slot h'
    grind [b.mem_frees slot h']
  · intro slot
    grind [b.nodup_handles slot]
  · intro u category h'
    grind [b.lent u category h']
  · intro u h'
    grind [b.inHand u h']
  · intro u type' h'
    grind [b.filed u type' h', b.inHand u h']
  · intro h'
    have hbelow := b.below h'
    grind

/-- A handle in hand is removed. -/
theorem Books.remove (b : Books handles frees lentTo held generated owner home)
    (hheld : held t = some (type, h)) :
    Books (update handles type.slotOfHandleType ((handles type.slotOfHandleType).erase h)) frees
      lentTo (update held t none) generated (update owner h .gone) home := by
  have hcall : owner h = .call t := (b.inHand t h).mp (by rw [hheld]; rfl)
  have hhome := b.filed t type h hheld
  have herase : ∀ h', h' ∈ (handles type.slotOfHandleType).erase h ↔
      h' ≠ h ∧ h' ∈ handles type.slotOfHandleType :=
    fun h' => (b.nodup_handles _).mem_erase_iff
  have hnodup := (b.nodup_handles type.slotOfHandleType).erase h
  refine ⟨?_, ?_, ?_, b.nodup_frees, ?_, ?_, ?_, ?_⟩ <;> simp only [Function.update_apply]
  · intro slot h'
    grind [b.mem_handles slot h']
  · intro slot h'
    grind [b.mem_frees slot h']
  · intro slot
    grind [b.nodup_handles slot]
  · intro u category h'
    grind [b.lent u category h']
  · intro u h'
    grind [b.inHand u h']
  · intro u type' h'
    grind [b.filed u type' h']
  · intro h'
    have hbelow := b.below h'
    grind

/-- A handle in hand is lent. -/
theorem Books.lend (b : Books handles frees lentTo held generated owner home)
    {category : HandleCategory} (hheld : held t = some (type, h))
    (hlent : lentTo t category = none) :
    Books handles frees (update lentTo t (update (lentTo t) category (some h))) (update held t none)
      generated (update owner h (.thread t category)) home := by
  have hcall : owner h = .call t := (b.inHand t h).mp (by rw [hheld]; rfl)
  refine ⟨?_, ?_, b.nodup_handles, b.nodup_frees, ?_, ?_, ?_, ?_⟩ <;>
    simp only [Function.update_apply]
  · intro slot h'
    grind [b.mem_handles slot h']
  · intro slot h'
    grind [b.mem_frees slot h']
  · intro u category' h'
    grind [b.lent u category' h', Function.update_apply]
  · intro u h'
    grind [b.inHand u h']
  · intro u type' h'
    grind [b.filed u type' h']
  · intro h'
    have hbelow := b.below h'
    grind

/-- A lent handle goes back to the slot it is filed under. -/
theorem Books.giveBack (b : Books handles frees lentTo held generated owner home)
    {category : HandleCategory} {slot : HandleSlot} (hlent : lentTo t category = some h)
    (hslot : h ∈ handles slot) :
    Books handles (update frees slot (frees slot ++ [h]))
      (update lentTo t (update (lentTo t) category none)) held generated (update owner h .free)
      home := by
  have hthread := (b.lent t category h).mp hlent
  obtain ⟨-, hhome⟩ := (b.mem_handles slot h).mp hslot
  have hnotMem : h ∉ frees slot := by
    rw [b.mem_frees, hthread]
    simp
  have hnodup : (frees slot ++ [h]).Nodup := by
    simpa [List.nodup_append] using ⟨b.nodup_frees slot, fun h' hmem heq => hnotMem (heq ▸ hmem)⟩
  refine ⟨?_, ?_, b.nodup_handles, ?_, ?_, ?_, b.filed, ?_⟩ <;> simp only [Function.update_apply]
  · intro slot' h'
    grind [b.mem_handles slot' h']
  · intro slot' h'
    grind [b.mem_frees slot' h']
  · intro slot'
    grind [b.nodup_frees slot']
  · intro u category' h'
    grind [b.lent u category' h', Function.update_apply]
  · intro u h'
    grind [b.inHand u h']
  · intro h'
    have hbelow := b.below h'
    grind

/-- The free handles are closed. -/
theorem Books.purge (b : Books handles frees lentTo held generated owner home) :
    Books (fun slot => (handles slot).diff (frees slot)) (fun _ => []) lentTo held generated
      (fun h => if owner h = .free then .gone else owner h) home := by
  refine ⟨?_, ?_, fun slot => (b.nodup_handles slot).diff, fun _ => List.nodup_nil, ?_, ?_, b.filed,
    ?_⟩
  · intro slot h'
    rw [(b.nodup_handles slot).mem_sdiff_iff]
    grind [b.mem_handles slot h', b.mem_frees slot h']
  · intro slot h'
    grind
  · intro u category h'
    grind [b.lent u category h']
  · intro u h'
    grind [b.inHand u h']
  · intro h'
    have hbelow := b.below h'
    grind

omit [DecidableEq T] in
/-- All handles are closed, while every handle is free. -/
theorem Books.clear (b : Books handles frees lentTo held generated owner home)
    (hlent : ∀ t category, lentTo t category = none) (hheld : ∀ t, held t = none) :
    Books (fun _ => []) (fun _ => []) lentTo held generated (fun _ => .gone) home := by
  refine ⟨fun slot h' => by simp, fun slot h' => by simp, fun _ => List.nodup_nil,
    fun _ => List.nodup_nil, fun u category h' => ?_, fun u h' => ?_, b.filed, fun h' => by simp⟩
  · simp [hlent]
  · simp [hheld]

end Books

/-! ### The invariant -/

/-- How often a thread has the handle of a category. -/
def references : Option ReferencedHandle → ℕ
  | none => 0
  | some referencedHandle => referencedHandle.reference

/-- What every state of an orderly run keeps. -/
structure Inv (s : State T) : Prop where
  locks : Locks s.concurrency s.shared s.draining
  counts : Counts s.counter s.units
  books : ∃ owner home, Books s.handles s.frees s.lentTo s.held s.generated owner home
  recyclable : ∀ t category,
    (s.recyclable t).countP (fun type => type.categoryOfHandleType = category) =
      references (s.threadedHandles t category)
  positive : ∀ t category referenced, s.threadedHandles t category = some referenced →
    0 < referenced.reference
  vacant : ∀ t type, (s.place t).asked = some type →
    s.threadedHandles t type.categoryOfHandleType = none
  allowed : s.allowed = true

/-- **Handles go back to their slot, and the pool is cleared only while the draining thread has
none.** This is a condition on the state before the step. -/
def Orderly (s : State T) : Action T → Prop
  | .flowBack t type => ∀ referenced ∈ s.threadedHandles t type.categoryOfHandleType,
      referenced.reference = 1 → referenced.handle ∈ s.handles type.slotOfHandleType
  | .drain t _ => s.concurrency.locking = some t → ∀ category, s.threadedHandles t category = none
  | .drained t => ∀ category, s.threadedHandles t category = none
  | _ => True

instance (s : State T) (t : T) : Decidable (∀ category, s.threadedHandles t category = none) :=
  decidable_of_iff (∀ category ∈ HandleCategory.all, s.threadedHandles t category = none)
    ⟨fun h category => h category category.mem_all, fun h category _ => h category⟩

instance Orderly.decidable (s : State T) : (a : Action T) → Decidable (Orderly s a)
  | .flowOut _ _ _ => inferInstanceAs (Decidable True)
  | .flowBack t type => inferInstanceAs (Decidable
      (∀ referenced ∈ s.threadedHandles t type.categoryOfHandleType,
        referenced.reference = 1 → referenced.handle ∈ s.handles type.slotOfHandleType))
  | .purge _ => inferInstanceAs (Decidable True)
  | .drain t _ => inferInstanceAs (Decidable
      (s.concurrency.locking = some t → ∀ category, s.threadedHandles t category = none))
  | .drained t => inferInstanceAs (Decidable (∀ category, s.threadedHandles t category = none))
  | .resume _ _ => inferInstanceAs (Decidable True)

section Steps

variable {s s' : State T} {t : T} {type : HandleType} {writeHint : Bool} {handle : ℕ}

/-- A step after which each thread has what it had. -/
theorem Inv.keep (h : Inv s) (hthreaded : s'.threadedHandles = s.threadedHandles)
    (hrecyclable : s'.recyclable = s.recyclable)
    (hlocks : Locks s'.concurrency s'.shared s'.draining)
    (hcounts : Counts s'.counter s'.units)
    (hbooks : ∃ owner home,
      Books s'.handles s'.frees s'.lentTo s'.held s'.generated owner home)
    (hvacant : ∀ u type, (s'.place u).asked = some type →
      s'.threadedHandles u type.categoryOfHandleType = none)
    (hallowed : s'.allowed = true) : Inv s' := by
  refine ⟨hlocks, hcounts, hbooks, ?_, ?_, hvacant, hallowed⟩
  · rw [hthreaded, hrecyclable]
    exact h.recyclable
  · rw [hthreaded]
    exact h.positive

/-- A call goes on with the same type, or with none. -/
theorem Inv.vacant_goto (h : Inv s) {place : Place}
    (hasked : place.asked = none ∨ place.asked = (s.place t).asked) (u : T) (type : HandleType)
    (hu : (update s.place t place u).asked = some type) :
    s.threadedHandles u type.categoryOfHandleType = none := by
  by_cases hut : u = t
  · subst hut
    rw [Function.update_self] at hu
    rcases hasked with hasked | hasked
    · rw [hasked] at hu
      cases hu
    · exact h.vacant u type (hasked ▸ hu)
  · exact h.vacant u type (by simpa [hut] using hu)

/-- A step of a call that changes nothing but its place. -/
theorem Inv.goto (h : Inv s) {place : Place} (hunit : place.unit = (s.place t).unit)
    (hguards : place.guards = (s.place t).guards) (hheld : place.held = s.held t)
    (hasked : place.asked = none ∨ place.asked = (s.place t).asked) : Inv (s.goto t place) := by
  refine h.keep rfl rfl ?_ ?_ ?_ (h.vacant_goto hasked) h.allowed
  · rw [State.shared_goto_same hguards]
    exact h.locks
  · rw [State.units_goto_same hunit]
    exact h.counts
  · rw [State.held_goto_same hheld]
    exact h.books

/-- The values of a thread after its handle of a category changed. -/
theorem Inv.recyclable_refer (h : Inv s) {types : List HandleType} {category : HandleCategory}
    {referenced : Option ReferencedHandle}
    (hself : types.countP (fun type => type.categoryOfHandleType = category) =
      references referenced)
    (hother : ∀ c, c ≠ category → types.countP (fun type => type.categoryOfHandleType = c) =
      (s.recyclable t).countP (fun type => type.categoryOfHandleType = c))
    (u : T) (c : HandleCategory) :
    (update s.recyclable t types u).countP (fun type => type.categoryOfHandleType = c) =
      references (update s.threadedHandles t
        (update (s.threadedHandles t) category referenced) u c) := by
  by_cases hu : u = t
  · subst hu
    rw [Function.update_self, Function.update_self]
    by_cases hc : c = category
    · subst hc
      rw [Function.update_self, hself]
    · rw [Function.update_of_ne hc, hother c hc, h.recyclable]
  · rw [Function.update_of_ne hu, Function.update_of_ne hu, h.recyclable]

/-- The references of a thread after its handle of a category changed. -/
theorem Inv.positive_refer (h : Inv s) {category : HandleCategory}
    {referenced : Option ReferencedHandle} (hself : ∀ r, referenced = some r → 0 < r.reference)
    (u : T) (c : HandleCategory) (r : ReferencedHandle)
    (hr : update s.threadedHandles t (update (s.threadedHandles t) category referenced) u c =
      some r) : 0 < r.reference := by
  by_cases hu : u = t
  · subst hu
    rw [Function.update_self] at hr
    by_cases hc : c = category
    · subst hc
      rw [Function.update_self] at hr
      exact hself r hr
    · rw [Function.update_of_ne hc] at hr
      exact h.positive u c r hr
  · rw [Function.update_of_ne hu] at hr
    exact h.positive u c r hr

/-- No call is asked for what a thread in no call of its own gets. -/
theorem Inv.vacant_refer (h : Inv s) {place : T → Place} (hasked : (place t).asked = none)
    (hplace : ∀ u, u ≠ t → place u = s.place u) {category : HandleCategory}
    {referenced : Option ReferencedHandle} (u : T) (type : HandleType)
    (hu : (place u).asked = some type) :
    update s.threadedHandles t (update (s.threadedHandles t) category referenced) u
      type.categoryOfHandleType = none := by
  by_cases hut : u = t
  · subst hut
    rw [hasked] at hu
    cases hu
  · rw [Function.update_of_ne hut]
    rw [hplace u hut] at hu
    exact h.vacant u type hu

/-- The number of values changes for a handle that the thread has and keeps. -/
theorem inv_recount (h : Inv s) {category : HandleCategory} {reference reference' : ℕ}
    {types : List HandleType}
    (hreferenced : s.threadedHandles t category = some ⟨handle, reference⟩)
    (hplace : s.place t = .idle) (hpos : 0 < reference')
    (hself : types.countP (fun type => type.categoryOfHandleType = category) = reference')
    (hother : ∀ c, c ≠ category → types.countP (fun type => type.categoryOfHandleType = c) =
      (s.recyclable t).countP (fun type => type.categoryOfHandleType = c)) :
    Inv ({ s with recyclable := update s.recyclable t types }.refer t category
      (some ⟨handle, reference'⟩)) := by
  have hlent := State.lentTo_refer_same (s := s) (t := t) ⟨handle, reference'⟩ hreferenced rfl
  obtain ⟨owner, home, hbooks⟩ := h.books
  refine ⟨?_, ?_, ⟨owner, home, ?_⟩, h.recyclable_refer hself hother, h.positive_refer ?_,
    h.vacant_refer (by simp [hplace, Place.asked]) fun _ _ => rfl, h.allowed⟩
  · have hshared := State.shared_congr (s := s) hlent rfl
    change Locks s.concurrency (State.shared (s.refer _ _ _)) s.draining
    rw [hshared]
    exact h.locks
  · have hunits := State.units_congr (s := s) hlent rfl rfl
    change Counts s.counter (State.units (s.refer _ _ _))
    rw [hunits]
    exact h.counts
  · change Books s.handles s.frees (State.lentTo (s.refer _ _ _)) s.held s.generated owner home
    rw [hlent]
    exact hbooks
  · rintro _ ⟨⟩
    exact hpos

/-- One more value for a handle that the thread has. -/
theorem inv_refer (h : Inv s) {referenced : ReferencedHandle}
    (hreferenced : s.threadedHandles t type.categoryOfHandleType = some referenced)
    (hplace : s.place t = .idle) :
    Inv ((s.refer t type.categoryOfHandleType
      (some { referenced with reference := referenced.reference + 1 })).addRecyclable t type) := by
  have hself := h.recyclable t type.categoryOfHandleType
  rw [hreferenced] at hself
  refine inv_recount h hreferenced hplace (Nat.succ_pos _) ?_ fun c hc => ?_
  · simpa [State.refer, references] using hself
  · simp [State.refer, Ne.symm hc]

theorem inv_flowOut (h : Inv s) (hplace : s.place t = .idle)
    (hstep : s.flowOut t type writeHint = some s') : Inv s' := by
  unfold State.flowOut at hstep
  split at hstep
  next referenced hreferenced =>
    cases hstep
    exact inv_refer h hreferenced hplace
  next hnone =>
    split at hstep
    · cases hstep
    · cases hstep
      exact h
    next counter hcounter =>
      have hidle : s.units (t, none) = none := by simp [State.units, hplace, Place.unit]
      have hcounts := h.counts.increase { thread := t, type, writeHint } hidle
        (by rw [hcounter])
      rw [hcounter] at hcounts
      cases hstep
      refine h.keep rfl rfl ?_ ?_ ?_ (fun u type' hu => ?_) h.allowed
      · rw [State.shared_goto_same (by rw [hplace]; rfl)]
        exact h.locks
      · rw [State.units_goto]
        exact hcounts
      · rw [State.held_goto_same (by simp [State.held, hplace, Place.held])]
        exact h.books
      · by_cases hut : u = t
        · subst hut
          simp only [State.goto, Function.update_self, Place.asked, Option.some.injEq] at hu
          exact hu ▸ hnone
        · exact h.vacant u type' (by simpa [State.goto, hut] using hu)

/-- The shared lock of the call. -/
theorem inv_enter (h : Inv s) (hplace : s.place t = .counted type writeHint)
    (hstep : s.lockShared t (.entered type writeHint) = some s') : Inv s' := by
  obtain ⟨hrunning, hs⟩ := Option.ite_none_right_eq_some.mp hstep
  cases hs
  have hguards : s.shared t none = 0 := by simp [State.shared, hplace, Place.guards]
  have hlocks := h.locks.lockShared hrunning none
  rw [hguards] at hlocks
  refine h.keep rfl rfl ?_ ?_ ?_ (h.vacant_goto (Or.inr (by rw [hplace]; rfl))) h.allowed
  · rw [State.shared_goto]
    exact hlocks
  · rw [State.units_goto_same (by simp [hplace, Place.unit])]
    exact h.counts
  · rw [State.held_goto_same (by simp [State.held, hplace, Place.held])]
    exact h.books

/-- The shared lock of the call is released. -/
theorem inv_unlockShared (h : Inv s) {place : Place} (hguards : (s.place t).guards = 1)
    (hnext : place.guards = 0) (hunit : place.unit = (s.place t).unit)
    (hheld : place.held = s.held t) (hasked : place.asked = none) :
    Inv (s.unlockShared t place) := by
  have hshared : s.shared t none = 1 := by simp [State.shared, hguards]
  have hlocks := h.locks.unlockShared (t := t) none (by rw [hshared]; decide)
  rw [hshared] at hlocks
  refine h.keep rfl rfl ?_ ?_ ?_ (h.vacant_goto (Or.inl hasked)) h.allowed
  · rw [State.unlockShared, State.shared_goto, hnext]
    exact hlocks
  · rw [State.unlockShared, State.units_goto_same (by simp [hunit])]
    exact h.counts
  · rw [State.unlockShared, State.held_goto_same (by simpa [State.held] using hheld)]
    exact h.books

/-- What the call counted is given back. -/
theorem inv_uncount (h : Inv s) {place : Place} (hunit : (s.place t).unit = some writeHint)
    (hnext : place.unit = none) (hguards : place.guards = (s.place t).guards)
    (hheld : place.held = s.held t) (hasked : place.asked = none) :
    Inv (s.uncount t writeHint place) := by
  have hkey : s.units (t, none) = some writeHint := hunit
  refine h.keep rfl rfl ?_ ?_ ?_ (h.vacant_goto (Or.inl hasked)) h.allowed
  · rw [State.uncount, State.shared_goto_same (by simp [hguards])]
    exact h.locks
  · rw [State.uncount, State.units_goto, hnext]
    exact h.counts.decrease hkey
  · rw [State.uncount, State.held_goto_same (by simpa [State.held] using hheld)]
    exact h.books

theorem inv_take (h : Inv s) (hplace : s.place t = .entered type writeHint) :
    Inv (s.take t type writeHint) := by
  obtain ⟨owner, home, hbooks⟩ := h.books
  have hheld : s.held t = none := by simp [State.held, hplace, Place.held]
  unfold State.take
  simp only
  split
  next handle hlast =>
    refine h.keep rfl rfl ?_ ?_ ?_ (h.vacant_goto (Or.inr (by rw [hplace]; rfl))) h.allowed
    · rw [State.shared_goto_same (by simp [hplace, Place.guards])]
      exact h.locks
    · rw [State.units_goto_same (by simp [hplace, Place.unit])]
      exact h.counts
    · rw [State.held_goto]
      exact ⟨_, home, hbooks.take hlast hheld⟩
  next =>
    exact h.goto (by rw [hplace]; rfl) (by rw [hplace]; rfl)
      hheld.symm (Or.inr (by rw [hplace]; rfl))

theorem inv_remove (h : Inv s) (hplace : s.place t = .reusing type writeHint handle) :
    Inv (s.remove t type writeHint handle) := by
  obtain ⟨owner, home, hbooks⟩ := h.books
  refine h.keep rfl rfl ?_ ?_ ?_ (h.vacant_goto (Or.inl rfl)) h.allowed
  · rw [State.remove, State.shared_goto_same (by simp [hplace, Place.guards])]
    exact h.locks
  · rw [State.remove, State.units_goto_same (by simp [hplace, Place.unit])]
    exact h.counts
  · rw [State.remove, State.held_goto]
    exact ⟨_, home, hbooks.remove (by simp [State.held, hplace, Place.held])⟩

theorem inv_purge (h : Inv s) : Inv s.purge := by
  obtain ⟨owner, home, hbooks⟩ := h.books
  exact h.keep rfl rfl h.locks h.counts ⟨_, home, hbooks.purge⟩ h.vacant h.allowed

/-- What an owner stands for in the books of the counter. -/
def Owner.unitKey : Owner T → Option (T × Option HandleCategory)
  | .gone | .free => none
  | .thread t category => some (t, some category)
  | .call t => some (t, none)

omit [DecidableEq T] in
theorem Owner.eq_of_unitKey {o o' : Owner T} {key : T × Option HandleCategory}
    (h : o.unitKey = some key) (h' : o'.unitKey = some key) : o = o' := by
  cases o <;> cases o' <;> cases h <;> cases h' <;> rfl

omit [DecidableEq T] in
/-- Two handles do not have one unit. -/
theorem Books.eq_of_unitKey {handles frees : HandleSlot → List ℕ}
    {lentTo : T → HandleCategory → Option ℕ} {held : T → Option (HandleType × ℕ)} {generated : ℕ}
    {owner : ℕ → Owner T} {home : ℕ → HandleSlot}
    (b : Books handles frees lentTo held generated owner home) {handle handle' : ℕ}
    {key : T × Option HandleCategory} (hkey : (owner handle).unitKey = some key)
    (hkey' : (owner handle').unitKey = some key) : handle = handle' := by
  have howner' := Owner.eq_of_unitKey hkey' hkey
  cases howner : owner handle with
  | gone => simp [howner, Owner.unitKey] at hkey
  | free => simp [howner, Owner.unitKey] at hkey
  | thread t category =>
    have hlent := (b.lent t category handle).mpr howner
    rw [(b.lent t category handle').mpr (howner'.trans howner)] at hlent
    exact (Option.some.inj hlent).symm
  | call t =>
    have hheld := (b.inHand t handle).mpr howner
    rw [(b.inHand t handle').mpr (howner'.trans howner)] at hheld
    exact (Option.some.inj hheld).symm

/-- With no handle free, the alive ones are no more than the counter allows: each has a unit of its
own. -/
theorem allowed_of_used (h : Inv s) (hfrees : ∀ slot, s.frees slot = []) :
    s.isNumberOfHandlesAllowed = true := by
  obtain ⟨owner, home, hbooks⟩ := h.books
  set alive := HandleSlot.all.flatMap s.handles with halive
  have hmem : ∀ handle ∈ alive, owner handle ≠ .gone ∧ owner handle ≠ .free := by
    intro handle hhandle
    obtain ⟨slot, -, hslot⟩ := List.mem_flatMap.mp hhandle
    have howner := (hbooks.mem_handles slot handle).mp hslot
    refine ⟨howner.1, fun hfree => ?_⟩
    have := (hbooks.mem_frees slot handle).mpr ⟨hfree, howner.2⟩
    simp [hfrees] at this
  have hnodup : alive.Nodup := by
    refine List.nodup_flatMap.mpr ⟨fun slot _ => hbooks.nodup_handles slot, ?_⟩
    refine List.Pairwise.imp (R := (· ≠ ·)) (fun {slot slot'} hne => ?_) (by decide)
    intro handle hhandle hhandle'
    have h₁ := ((hbooks.mem_handles slot handle).mp hhandle).2
    have h₂ := ((hbooks.mem_handles slot' handle).mp hhandle').2
    exact hne (h₁.symm.trans h₂)
  have hkeys : ∀ handle ∈ alive, ∃ key, (owner handle).unitKey = some key ∧
      0 < (handleUnit ∘ s.units) key := by
    intro handle hhandle
    obtain ⟨hgone, hfree⟩ := hmem handle hhandle
    cases howner : owner handle with
    | gone => exact absurd howner hgone
    | free => exact absurd howner hfree
    | thread t category =>
      have hlent := (hbooks.lent t category handle).mpr howner
      exact ⟨_, rfl, by simp [handleUnit, State.units, hlent]⟩
    | call t =>
      have hheld := (hbooks.inHand t handle).mpr howner
      obtain ⟨held, hheld, -⟩ := Option.map_eq_some_iff.mp hheld
      exact ⟨_, rfl, by simp [handleUnit, State.units, Place.unit_of_held hheld]⟩
  have hlength : (alive.filterMap fun handle => (owner handle).unitKey).length = alive.length := by
    refine List.filterMap_length_eq_length.mpr fun handle hhandle => ?_
    obtain ⟨key, hkey, -⟩ := hkeys handle hhandle
    rw [hkey]
    rfl
  have hle := h.counts.total.length_le (alive.filterMap fun handle => (owner handle).unitKey)
    (hnodup.filterMap fun _ _ _ => hbooks.eq_of_unitKey) (fun key hkey => by
      obtain ⟨handle, hhandle, hkey⟩ := List.mem_filterMap.mp hkey
      obtain ⟨key', hkey', hpos⟩ := hkeys handle hhandle
      rw [hkey] at hkey'
      exact Option.some.inj hkey' ▸ hpos)
  have hcount : s.numberOfAliveHandles = alive.length := by
    rw [State.numberOfAliveHandles, halive, List.length_flatMap]
  have hbound := h.counts.bound
  rw [State.isNumberOfHandlesAllowed, decide_eq_true_eq, hcount]
  omega

theorem inv_file (h : Inv s) (hplace : s.place t = .generating type writeHint) :
    Inv (s.file t type writeHint) := by
  obtain ⟨owner, home, hbooks⟩ := h.books
  have hfiled : Inv ({ s with
      handles := update s.handles type.slotOfHandleType
        (s.generated :: s.handles type.slotOfHandleType)
      generated := s.generated + 1 }.goto t (.ready type writeHint s.generated)) := by
    refine h.keep rfl rfl ?_ ?_ ?_ (h.vacant_goto (Or.inr (by rw [hplace]; rfl))) h.allowed
    · rw [State.shared_goto_same (by simp [hplace, Place.guards])]
      exact h.locks
    · rw [State.units_goto_same (by simp [hplace, Place.unit])]
      exact h.counts
    · rw [State.held_goto]
      exact ⟨_, _, hbooks.file (by simp [State.held, hplace, Place.held])⟩
  unfold State.file
  simp only
  split
  · have hpurged := inv_purge hfiled
    refine hpurged.keep rfl rfl hpurged.locks hpurged.counts hpurged.books hpurged.vacant ?_
    simp only [Bool.and_eq_true]
    exact ⟨hfiled.allowed, allowed_of_used hpurged fun _ => rfl⟩
  · exact hfiled

theorem inv_lend (h : Inv s) (hplace : s.place t = .ready type writeHint handle)
    (hstep : s.lend t type writeHint handle = some s') : Inv s' := by
  obtain ⟨owner, home, hbooks⟩ := h.books
  obtain ⟨hrunning, hs⟩ := Option.ite_none_right_eq_some.mp hstep
  cases hs
  have hnone := h.vacant t type (by rw [hplace]; rfl)
  have hheld : s.held t = some (type, handle) := by simp [State.held, hplace, Place.held]
  have hlent : s.lentTo t type.categoryOfHandleType = none := by simp [State.lentTo, hnone]
  have hnobody : ∀ u category, s.lentTo u category ≠ some handle := by
    intro u category hu
    have hcall := (hbooks.inHand t handle).mp (by rw [hheld]; rfl)
    rw [(hbooks.lent u category handle).mp hu] at hcall
    cases hcall
  have hunits := State.units_setWriteHint hnobody writeHint
  have hself := h.recyclable t type.categoryOfHandleType
  rw [hnone] at hself
  refine ⟨?_, ?_, ?_, h.recyclable_refer ?_ ?_, h.positive_refer ?_,
    h.vacant_refer (t := t) (by simp [State.goto, Place.asked]) ?_, h.allowed⟩
  · have hshared : s.shared t (some type.categoryOfHandleType) = 0 := by
      simp [State.shared, hlent]
    have hguards : s.shared t none = 1 := by simp [State.shared, hplace, Place.guards]
    have hlocks := h.locks.lockShared hrunning (some type.categoryOfHandleType)
    rw [hshared] at hlocks
    rw [State.shared_goto_same (by
      simp [State.addRecyclable, State.refer, State.setWriteHint, hplace, Place.guards])]
    change Locks (s.concurrency.lockShared t)
      (State.shared ((s.setWriteHint handle writeHint).refer _ _ _)) s.draining
    rw [State.shared_refer]
    exact hlocks
  · have hkey : s.units (t, none) = some writeHint := by simp [State.units, hplace, Place.unit]
    have hkey' : s.units (t, some type.categoryOfHandleType) = none := by
      simp [State.units, hlent]
    have hcounts := h.counts.move (by simp) hkey hkey'
    rw [State.units_goto]
    change Counts s.counter
      (update (State.units ((s.setWriteHint handle writeHint).refer _ _ _)) _ _)
    rw [State.units_refer, hunits, Function.update_comm (by simp)]
    simpa [State.setWriteHint, Place.unit] using hcounts
  · rw [State.held_goto]
    refine ⟨update owner handle (.thread t type.categoryOfHandleType), home, ?_⟩
    change Books s.handles s.frees (State.lentTo ((s.setWriteHint handle writeHint).refer _ _ _))
      (update s.held t none) s.generated _ home
    rw [State.lentTo_refer]
    exact hbooks.lend hheld hlent
  · simpa [State.refer, State.setWriteHint, references] using hself
  · intro c hc
    simp [State.refer, State.setWriteHint, Ne.symm hc]
  · rintro _ ⟨⟩
    exact Nat.succ_pos _
  · intro u hu
    simp [State.goto, State.addRecyclable, State.refer, State.setWriteHint, hu]

/-- A value is recycled while the thread has others of the category. -/
theorem inv_flowBack_again (h : Inv s) {reference : ℕ} (hmem : type ∈ s.recyclable t)
    (hreferenced : s.threadedHandles t type.categoryOfHandleType = some ⟨handle, reference⟩)
    (hagain : reference - 1 ≠ 0) (hplace : s.place t = .idle) :
    Inv ({ s with recyclable := update s.recyclable t ((s.recyclable t).erase type) }.refer t
      type.categoryOfHandleType (some ⟨handle, reference - 1⟩)) := by
  have hself := h.recyclable t type.categoryOfHandleType
  rw [hreferenced] at hself
  refine inv_recount h hreferenced hplace (Nat.pos_of_ne_zero hagain) ?_ fun c hc => ?_
  · simp only [references] at hself
    simp [List.countP_erase, hmem, hself]
  · simp [List.countP_erase, Ne.symm hc]

/-- The last value is recycled and the handle goes back to the slot it is filed under. -/
theorem inv_flowBack_last (h : Inv s) (hmem : type ∈ s.recyclable t)
    (hreferenced : s.threadedHandles t type.categoryOfHandleType = some ⟨handle, 1⟩)
    (hslot : handle ∈ s.handles type.slotOfHandleType) (hplace : s.place t = .idle) :
    Inv (({
        ({ s with recyclable := update s.recyclable t ((s.recyclable t).erase type) }.refer t
          type.categoryOfHandleType none) with
        frees := update s.frees type.slotOfHandleType
          (s.frees type.slotOfHandleType ++ [handle]) }.setWriteHint handle false).goto t
            (.returned (s.writeHint handle))) := by
  obtain ⟨owner, home, hbooks⟩ := h.books
  have hlent : s.lentTo t type.categoryOfHandleType = some handle := by
    simp [State.lentTo, hreferenced]
  have hself := h.recyclable t type.categoryOfHandleType
  rw [hreferenced] at hself
  refine ⟨?_, ?_, ⟨update owner handle .free, home, ?_⟩, h.recyclable_refer ?_ ?_,
    h.positive_refer (by simp), h.vacant_refer (t := t) (by simp [State.goto, Place.asked]) ?_,
    h.allowed⟩
  · have hkey : s.shared t (some type.categoryOfHandleType) = 1 := by simp [State.shared, hlent]
    have hkey' : s.shared t none = 0 := by simp [State.shared, hplace, Place.guards]
    have hlocks := h.locks.move (by simp) hkey hkey'
    rw [State.shared_goto]
    change Locks s.concurrency (update (State.shared (s.refer _ _ _)) _
      (update (State.shared (s.refer _ _ _) _) _ _)) s.draining
    rw [State.shared_refer, Function.update_self, Function.update_idem]
    exact hlocks
  · have hkey : s.units (t, some type.categoryOfHandleType) = some (s.writeHint handle) := by
      simp [State.units, hlent]
    have hkey' : s.units (t, none) = none := by simp [State.units, hplace, Place.unit]
    have hcounts := h.counts.move (by simp) hkey hkey'
    have hnobody : ∀ u c, (s.refer t type.categoryOfHandleType none).lentTo u c ≠ some handle := by
      intro u c hu
      rw [State.lentTo_refer] at hu
      have hthread := (hbooks.lent t _ handle).mp hlent
      by_cases hut : u = t
      · subst hut
        by_cases hc : c = type.categoryOfHandleType
        · subst hc
          simp at hu
        · have hc' := (hbooks.lent u c handle).mp (by simpa [hc] using hu)
          rw [hthread] at hc'
          cases hc'
          exact hc rfl
      · have hu' := (hbooks.lent u c handle).mp (by simpa [hut] using hu)
        rw [hthread] at hu'
        cases hu'
        exact hut rfl
    rw [State.units_goto]
    change Counts s.counter
      (update (State.units ((s.refer _ _ none).setWriteHint handle false)) _ _)
    rw [State.units_setWriteHint hnobody, State.units_refer]
    exact hcounts
  · change Books s.handles _ (State.lentTo (s.refer _ _ none)) _ s.generated _ home
    rw [State.lentTo_refer, State.held_goto_same (by
      simp [State.held, State.setWriteHint, State.refer, hplace, Place.held])]
    exact hbooks.giveBack hlent hslot
  · simp only [references] at hself
    simp [List.countP_erase, hmem, hself, references]
  · intro c hc
    simp [List.countP_erase, Ne.symm hc]
  · intro u hu
    simp [State.goto, State.refer, State.setWriteHint, hu]

theorem inv_flowBack (h : Inv s) (hplace : s.place t = .idle) (hok : Orderly s (.flowBack t type))
    (hstep : s.flowBack t type = some s') : Inv s' := by
  unfold State.flowBack at hstep
  split at hstep
  next hmem =>
    simp only at hstep
    split at hstep
    next => cases hstep
    next handle reference hreferenced =>
      have hpos := h.positive t _ _ hreferenced
      split at hstep
      next hlast =>
        obtain rfl : reference = 1 := by
          simp only at hpos
          omega
        cases hstep
        exact inv_flowBack_last h hmem hreferenced (hok _ hreferenced rfl) hplace
      next hagain =>
        cases hstep
        exact inv_flowBack_again h hmem hreferenced hagain hplace
  next => cases hstep

/-- While nobody has a share in the lock, all handles are free. -/
theorem books_clear (h : Inv s) (hnobody : ∀ u key, s.shared u key = 0) :
    ∃ owner home, Books (fun _ => []) (fun _ => []) s.lentTo s.held s.generated owner home := by
  obtain ⟨owner, home, hbooks⟩ := h.books
  refine ⟨_, home, hbooks.clear (fun u category => ?_) fun u => ?_⟩
  · simpa [State.shared] using hnobody u (some category)
  · have hguards : (s.place u).guards = 0 := hnobody u none
    unfold State.held
    cases hplace : s.place u <;> first | rfl | simp [hplace, Place.guards] at hguards

theorem inv_drain (h : Inv s) (hplace : s.place t = .idle) {onDrained : Bool}
    (hok : Orderly s (.drain t onDrained)) (hstep : s.drain t onDrained = some s') : Inv s' := by
  unfold State.drain at hstep
  split at hstep
  next =>
    cases hstep
    exact h
  next hlevel =>
    simp only at hstep
    split at hstep
    next hrunning =>
      have hreading : s.concurrency.threadedReaders t = 0 := by
        by_cases hlocking : s.concurrency.locking = some t
        · refine (h.locks.readers t).eq_zero_iff.mpr fun key => ?_
          cases key with
          | none => simp [State.shared, hplace, Place.guards]
          | some category => simp [State.shared, State.lentTo, hok hlocking category]
        · by_contra hne
          exact hlevel ⟨hlocking, Nat.pos_of_ne_zero hne⟩
      obtain ⟨hnobody, hlocks⟩ := h.locks.drain hreading hrunning
      have hbooks := books_clear h hnobody
      split at hstep
      · cases hstep
        exact h.keep rfl rfl (h.locks.acquire hreading hrunning) h.counts hbooks h.vacant h.allowed
      · cases hstep
        exact h.keep rfl rfl hlocks h.counts hbooks h.vacant h.allowed
    next => cases hstep

theorem inv_drained (h : Inv s) (hplace : s.place t = .idle) (hok : Orderly s (.drained t))
    (hstep : s.drained t = some s') : Inv s' := by
  obtain ⟨hdraining, hs⟩ := Option.ite_none_right_eq_some.mp hstep
  have hreading : s.concurrency.threadedReaders t = 0 := by
    refine (h.locks.readers t).eq_zero_iff.mpr fun key => ?_
    cases key with
    | none => simp [State.shared, hplace, Place.guards]
    | some category => simp [State.shared, State.lentTo, hok category]
  obtain ⟨hnobody, hlocks⟩ := h.locks.unlock hdraining hreading
  have hbooks := books_clear h hnobody
  cases hs
  exact h.keep rfl rfl hlocks h.counts hbooks h.vacant h.allowed

theorem inv_resume (h : Inv s) {succeed : Bool} (hstep : s.resume t succeed = some s') :
    Inv s' := by
  unfold State.resume at hstep
  split at hstep
  next => cases hstep
  next type writeHint hplace => exact inv_enter h hplace hstep
  next type writeHint hplace =>
    cases hstep
    exact inv_take h hplace
  next type writeHint hplace =>
    cases hstep
    split_ifs
    · exact inv_file h hplace
    · exact inv_uncount h (by rw [hplace]; rfl) rfl (by rw [hplace]; rfl)
        (by simp [State.held, hplace, Place.held]) rfl
  next type writeHint handle hplace =>
    cases hstep
    split_ifs
    · exact h.goto (by rw [hplace]; rfl) (by rw [hplace]; rfl)
        (by simp [State.held, hplace, Place.held]) (Or.inr (by rw [hplace]; rfl))
    · exact inv_remove h hplace
  next writeHint hplace =>
    cases hstep
    exact inv_uncount h (by rw [hplace]; rfl) rfl (by rw [hplace]; rfl)
      (by simp [State.held, hplace, Place.held]) rfl
  next type writeHint handle hplace => exact inv_lend h hplace hstep
  next hplace =>
    cases hstep
    exact inv_unlockShared h (by rw [hplace]; rfl) rfl (by rw [hplace]; rfl)
      (by simp [State.held, hplace, Place.held]) rfl
  next writeHint hplace =>
    cases hstep
    exact inv_unlockShared h (by rw [hplace]; rfl) rfl (by rw [hplace]; rfl)
      (by simp [State.held, hplace, Place.held]) rfl
  next writeHint hplace =>
    cases hstep
    exact inv_uncount h (by rw [hplace]; rfl) rfl (by rw [hplace]; rfl)
      (by simp [State.held, hplace, Place.held]) rfl

theorem step_inv (s : State T) (a : Action T) (s' : State T) (h : Inv s) (hok : Orderly s a)
    (hstep : step s a = some s') : Inv s' := by
  cases a with
  | flowOut t type writeHint =>
    obtain ⟨hplace, hstep⟩ := Option.ite_none_right_eq_some.mp hstep
    exact inv_flowOut h hplace hstep
  | flowBack t type =>
    obtain ⟨hplace, hstep⟩ := Option.ite_none_right_eq_some.mp hstep
    exact inv_flowBack h hplace hok hstep
  | purge t =>
    obtain ⟨-, hstep⟩ := Option.ite_none_right_eq_some.mp hstep
    cases hstep
    exact inv_purge h
  | drain t onDrained =>
    obtain ⟨hplace, hstep⟩ := Option.ite_none_right_eq_some.mp hstep
    exact inv_drain h hplace hok hstep
  | drained t =>
    obtain ⟨hplace, hstep⟩ := Option.ite_none_right_eq_some.mp hstep
    exact inv_drained h hplace hok hstep
  | resume t succeed => exact inv_resume h hstep

end Steps

omit [DecidableEq T] in
theorem Books.init (T : Type) :
    Books (fun _ => []) (fun _ => []) (fun (_ : T) _ => none) (fun _ => none) 0 (fun _ => .gone)
      fun _ => .normal :=
  ⟨by simp, by simp, by simp, by simp, by simp, by simp, by simp, by simp⟩

theorem Inv.init : Inv ({} : State T) where
  locks := ⟨SharedLock.Inv.init, fun _ => rfl, fun _ => by
    have hshared : State.shared ({} : State T) = fun _ _ => 0 := by
      funext t category
      cases category <;> rfl
    rw [hshared]
    exact Tally.zero, fun _ h => absurd h (Nat.lt_irrefl 0), fun _ h => by cases h⟩
  counts := by
    have hunits : State.units ({} : State T) = fun _ => none := by
      funext ⟨t, category⟩
      cases category <;> rfl
    rw [hunits]
    exact ⟨Tally.zero, Tally.zero, Nat.zero_le _⟩
  books := ⟨_, _, Books.init T⟩
  recyclable := fun _ _ => rfl
  positive := fun _ _ _ h => by cases h
  vacant := fun _ _ h => by cases h
  allowed := rfl

/-- **The books of the pool are right**: a handle is lent to at most one thread and category, and is
not free at the same time; free handles are filed under their slot; the counter counts the handles
that are lent and the calls in progress, which is nothing once everything is given back; and
whenever free handles were closed because too many were alive, the rest was allowed. -/
structure Accounted (s : State T) : Prop where
  lentOnce : ∀ t t' category category' handle, s.lentTo t category = some handle →
    s.lentTo t' category' = some handle → t = t' ∧ category = category'
  notFree : ∀ t category handle slot, s.lentTo t category = some handle → handle ∉ s.frees slot
  filed : ∀ slot, ∀ handle ∈ s.frees slot, handle ∈ s.handles slot
  total : Tally s.counter.totalCount (handleUnit ∘ s.units)
  writer : Tally s.counter.writerCount (writerUnit ∘ s.units)
  returned : (∀ t, s.place t = .idle) → (∀ t, s.recyclable t = []) →
    s.counter.totalCount = 0 ∧ s.counter.writerCount = 0
  allowed : s.allowed = true

theorem Inv.accounted {s : State T} (h : Inv s) : Accounted s := by
  obtain ⟨owner, home, hbooks⟩ := h.books
  refine ⟨?_, ?_, ?_, h.counts.total, h.counts.writer, fun hidle hback => ?_, h.allowed⟩
  · intro t t' category category' handle hlent hlent'
    have howner := (hbooks.lent t category handle).mp hlent
    rw [(hbooks.lent t' category' handle).mp hlent'] at howner
    cases howner
    exact ⟨rfl, rfl⟩
  · intro t category handle slot hlent hfree
    have howner := (hbooks.lent t category handle).mp hlent
    rw [((hbooks.mem_frees slot handle).mp hfree).1] at howner
    cases howner
  · intro slot handle hfree
    obtain ⟨howner, hhome⟩ := (hbooks.mem_frees slot handle).mp hfree
    exact (hbooks.mem_handles slot handle).mpr ⟨by simp [howner], hhome⟩
  · have hunits : s.units = fun _ => none := by
      funext ⟨t, category⟩
      cases category with
      | none => simp [State.units, hidle, Place.unit]
      | some category =>
        have hcount := h.recyclable t category
        cases hthreaded : s.threadedHandles t category with
        | none => simp [State.units, State.lentTo, hthreaded]
        | some referenced =>
          have hpos := h.positive t category referenced hthreaded
          simp only [hback, hthreaded, references, List.countP_nil] at hcount
          omega
    have htotal := h.counts.total
    have hwriter := h.counts.writer
    rw [hunits] at htotal hwriter
    exact ⟨htotal.eq_zero_iff.mpr fun _ => rfl, hwriter.eq_zero_iff.mpr fun _ => rfl⟩

/-- **The books of the pool are right in every orderly run.** -/
theorem accounted_of_exec {actions : List (Action T)} {s : State T}
    (horderly : Run.Meets step Orderly {} actions) (h : Run.exec step {} actions = some s) :
    Accounted s :=
  (Run.inv_exec step_inv Inv.init horderly h).accounted

/-- A call of `flowOut` that succeeds, to its end. -/
def flowingOut (t : ℕ) (type : HandleType) : List (Action ℕ) :=
  .flowOut t type false :: List.replicate 5 (.resume t true)

/-- A drained block asks for a handle to assemble with, whose value is also given to a caller that
asks for a normal handle and recycles it after the block. -/
def keptHandle : List (Action ℕ) :=
  [.drain 0 true] ++ flowingOut 0 .assemble ++
    [.flowOut 0 .normal false, .flowBack 0 .assemble, .drained 0, .flowBack 0 .normal]

/-- The handle is then free for the next caller, but the pool does not know it, and the lock is
still held. -/
theorem not_accounted_keptHandle :
    ∃ s, Run.exec step {} keptHandle = some s ∧ ¬ Accounted s ∧ s.frees .normal = [0] ∧
      s.handles .normal = [] ∧ s.concurrency.locking = some 0 := by
  have hview : (Run.exec step ({} : State ℕ) keptHandle).map (fun s =>
      (s.frees .normal, s.handles .normal, s.concurrency.locking)) = some ([0], [], some 0) := by
    decide +kernel
  obtain ⟨s, hs, hview⟩ := Option.map_eq_some_iff.mp hview
  simp only [Prod.mk.injEq] at hview
  obtain ⟨hfrees, hhandles, hlocking⟩ := hview
  refine ⟨s, hs, fun haccounted => ?_, hfrees, hhandles, hlocking⟩
  have hfiled := haccounted.filed .normal 0 (by rw [hfrees]; decide)
  rw [hhandles] at hfiled
  cases hfiled

/-- Two threads, a handle that is used again, one that fails to be, and a drained block. -/
def inTurn : List (Action ℕ) :=
  flowingOut 0 .normal ++ flowingOut 1 .backup ++
    [.flowBack 0 .normal, .resume 0 true, .resume 0 true, .flowOut 2 .normal true, .resume 2 true,
      .resume 2 true, .resume 2 false, .resume 2 true, .resume 2 true, .purge 2,
      .flowBack 1 .backup, .resume 1 true, .resume 1 true, .drain 0 true] ++
    flowingOut 0 .assemble ++
    [.flowOut 0 .normal false, .flowBack 0 .normal, .flowBack 0 .assemble, .resume 0 true,
      .resume 0 true, .drained 0]

theorem accounted_inTurn : ∃ s, Run.exec step {} inTurn = some s ∧ Accounted s := by
  obtain ⟨s, hs⟩ : ∃ s, Run.exec step ({} : State ℕ) inTurn = some s :=
    Option.isSome_iff_exists.mp (by decide +kernel)
  exact ⟨s, hs, accounted_of_exec (by decide +kernel) hs⟩

end HandlePool

end Wcdb
