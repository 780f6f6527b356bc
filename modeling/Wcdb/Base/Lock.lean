import Wcdb.Lib.Run
import Wcdb.Lib.Tally

/-!
# `SharedLock`: a re-entrant readers-writer lock

Each critical section, from the acquisition of the mutex to a wait or to its release, is one step;
a thread that waits on a condition variable takes the next one when it runs again. It may run
again without a wake-up. `notify` on Apple platforms wakes the front of the queue of writers,
elsewhere all that wait with it (`targeted`).

`Inv` is kept by every step, whatever calls the threads make, paired or not (`step_inv`). It gives
mutual exclusion and that no wake-up is lost (`safe_of_exec`).
-/

namespace Wcdb

namespace SharedLock

open Function (update)

/-- Where a thread is: not waiting, or in the wait of one of the two condition variables. -/
inductive Place where
  | running
  | conditionalReaders
  | conditionalWriters
  deriving DecidableEq, Repr

/-- The fields of `SharedLock`, and the threads that wait. -/
structure State (T : Type) where
  readers : ℕ := 0
  writers : ℕ := 0
  pendingReaders : ℕ := 0
  pendingWriters : List T := []
  locking : Option T := none
  threadedReaders : T → ℕ := fun _ => 0
  place : T → Place := fun _ => .running
  /-- The wake-ups that were issued and not consumed yet. -/
  woken : T → Bool := fun _ => false

variable {T : Type} [DecidableEq T]

namespace State

/-- The thread starts to wait, or waits again, on a condition variable. -/
def wait (s : State T) (t : T) (place : Place) : State T :=
  { s with place := update s.place t place, woken := update s.woken t false }

/-- `m_conditionalReaders.notify_all`. -/
def notifyReaders (s : State T) : State T :=
  { s with woken := fun t => s.woken t || s.place t = .conditionalReaders }

/-- `m_conditionalWriters.notify` of the front, or `notify_all`. -/
def notifyWriters (targeted : Bool) (s : State T) : State T :=
  { s with woken := fun t => s.woken t ||
      (s.place t = .conditionalWriters && (!targeted || s.pendingWriters.head? = some t)) }

/-- The end of `lockShared`. -/
def acquireShared (s : State T) (t : T) : State T :=
  { s with
    readers := s.readers + 1
    threadedReaders := update s.threadedReaders t (s.threadedReaders t + 1) }

/-- The end of `lock`. -/
def acquire (s : State T) (t : T) : State T :=
  { s with writers := s.writers + 1, locking := some t }

/-- The condition under which `lockShared` waits. -/
def mustWait (s : State T) (t : T) : Prop :=
  if 0 < s.writers then s.locking ≠ some t
  else s.pendingWriters ≠ [] ∧ s.threadedReaders t = 0

instance (s : State T) (t : T) : Decidable (s.mustWait t) := by
  unfold mustWait
  infer_instance

def lockShared (s : State T) (t : T) : State T :=
  if s.mustWait t then
    { s with pendingReaders := s.pendingReaders + 1 }.wait t .conditionalReaders
  else s.acquireShared t

/-- The condition of the loop in `lockShared`, once the thread runs again. -/
def resumeShared (s : State T) (t : T) : State T :=
  if 0 < s.writers ∨ s.pendingWriters ≠ [] then s.wait t .conditionalReaders
  else ({ s with pendingReaders := s.pendingReaders - 1 }.wait t .running).acquireShared t

def unlockShared (targeted : Bool) (s : State T) (t : T) : State T :=
  if s.threadedReaders t = 0 then s
  else
    let s := { s with
      readers := s.readers - 1
      threadedReaders := update s.threadedReaders t (s.threadedReaders t - 1) }
    if s.readers = 0 ∧ s.writers = 0 ∧ s.pendingWriters ≠ [] then s.notifyWriters targeted else s

/-- The loop in `lock`, also once the thread runs again. -/
def tryLock (s : State T) (t : T) : State T :=
  if 0 < s.readers ∨ 0 < s.writers ∨ s.pendingWriters.head? ≠ some t then
    s.wait t .conditionalWriters
  else ({ s with pendingWriters := s.pendingWriters.tail }.wait t .running).acquire t

/-- An upgrade is refused. -/
def lock (s : State T) (t : T) : State T :=
  if s.threadedReaders t ≠ 0 then s
  else if s.locking = some t then s.acquire t
  else { s with pendingWriters := s.pendingWriters ++ [t] }.tryLock t

/-- A downgrade and an unpaired call are refused. -/
def unlock (targeted : Bool) (s : State T) (t : T) : State T :=
  if s.threadedReaders t ≠ 0 then s
  else if s.locking ≠ some t then s
  else
    let s := { s with writers := s.writers - 1 }
    if s.writers = 0 then
      let s := { s with locking := none }
      if s.pendingWriters ≠ [] then s.notifyWriters targeted
      else if 0 < s.pendingReaders then s.notifyReaders
      else s
    else s

end State

/-- What a thread does next. -/
inductive Action (T : Type) where
  | lock (t : T)
  | unlock (t : T)
  | lockShared (t : T)
  | unlockShared (t : T)
  | resume (t : T)
  deriving DecidableEq, Repr

/-- A thread that waits makes no call. -/
def step (targeted : Bool) (s : State T) : Action T → Option (State T)
  | .lock t => if s.place t = .running then some (s.lock t) else none
  | .unlock t => if s.place t = .running then some (s.unlock targeted t) else none
  | .lockShared t => if s.place t = .running then some (s.lockShared t) else none
  | .unlockShared t => if s.place t = .running then some (s.unlockShared targeted t) else none
  | .resume t =>
      match s.place t with
      | .running => none
      | .conditionalReaders => some (s.resumeShared t)
      | .conditionalWriters => some (s.tryLock t)

/-! ### The invariant -/

/-- One for a thread that waits to read. -/
def waitsToRead (place : Place) : ℕ := if place = .conditionalReaders then 1 else 0

structure Inv (s : State T) : Prop where
  readers : Tally s.readers s.threadedReaders
  pendingReaders : Tally s.pendingReaders (waitsToRead ∘ s.place)
  distinct : s.pendingWriters.Nodup
  pendingWriters : ∀ t, t ∈ s.pendingWriters ↔ s.place t = .conditionalWriters
  locking : 0 < s.writers ↔ s.locking ≠ none
  exclusive : ∀ t, s.locking = some t → ∀ u, 0 < s.threadedReaders u → u = t
  /-- When readers may enter, all that wait were woken. -/
  wakesReaders : s.writers = 0 → s.pendingWriters = [] →
    ∀ t, s.place t = .conditionalReaders → s.woken t = true
  /-- When a writer may enter, the front of the queue was woken. -/
  wakesWriter : s.writers = 0 → s.readers = 0 →
    ∀ t, s.pendingWriters.head? = some t → s.woken t = true

theorem Inv.init : Inv ({} : State T) where
  readers := Tally.zero
  pendingReaders := Tally.zero
  distinct := List.nodup_nil
  pendingWriters t := by simp
  locking := by simp
  exclusive t h := by simp at h
  wakesReaders _ _ t h := by simp at h
  wakesWriter _ _ t h := by simp at h

section Steps

variable {s : State T} {t : T} {targeted : Bool}

/-- A thread that does not wait to read leaves the counter as it is, wherever it goes but there. -/
theorem pendingReaders_update {place : Place} (h : Tally s.pendingReaders (waitsToRead ∘ s.place))
    (hbefore : s.place t ≠ .conditionalReaders) (hafter : place ≠ .conditionalReaders) :
    Tally s.pendingReaders (waitsToRead ∘ update s.place t place) := by
  have hzero : waitsToRead place = (waitsToRead ∘ s.place) t := by
    simp [waitsToRead, hbefore, hafter]
  rwa [Function.comp_update, hzero, Function.update_eq_self]

/-- A thread that waits to read has been counted. -/
theorem pendingReaders_pos (h : Inv s) {u : T} (hu : s.place u = .conditionalReaders) :
    0 < s.pendingReaders :=
  h.pendingReaders.pos_iff.mpr ⟨u, by simp [waitsToRead, hu]⟩

theorem inv_acquireShared (h : Inv s) (hlocking : ∀ u, s.locking = some u → t = u) :
    Inv (s.acquireShared t) where
  readers := h.readers.add t
  pendingReaders := h.pendingReaders
  distinct := h.distinct
  pendingWriters := h.pendingWriters
  locking := h.locking
  exclusive u hu v hv := by
    by_cases hvt : v = t
    · exact hvt.trans (hlocking u hu)
    · exact h.exclusive u hu v (by simpa [State.acquireShared, hvt] using hv)
  wakesReaders := h.wakesReaders
  wakesWriter _ hreaders := by simp [State.acquireShared] at hreaders

theorem inv_lockShared (h : Inv s) (ht : s.place t = .running) : Inv (s.lockShared t) := by
  unfold State.lockShared
  split
  next hwait =>
    have hqueue : s.writers = 0 → s.pendingWriters ≠ [] := by
      intro hwriters
      simp only [State.mustWait, hwriters, Nat.lt_irrefl, if_false] at hwait
      exact hwait.1
    refine ⟨h.readers, ?_, h.distinct, fun u => ?_, h.locking, h.exclusive, ?_, ?_⟩
    · have hshare : (waitsToRead ∘ s.place) t = 0 := by simp [waitsToRead, ht]
      have hadd := h.pendingReaders.add t
      rw [hshare] at hadd
      simpa [State.wait, Function.comp_update, waitsToRead] using hadd
    · by_cases hu : u = t
      · subst hu
        simp [State.wait, h.pendingWriters, ht]
      · simp [State.wait, hu, h.pendingWriters]
    · intro hwriters hnone
      exact absurd hnone (hqueue hwriters)
    · intro hwriters hreaders u hu
      have hne : u ≠ t := by
        rintro rfl
        have := (h.pendingWriters u).mp (List.mem_of_mem_head? hu)
        rw [ht] at this
        cases this
      simpa [State.wait, hne] using h.wakesWriter hwriters hreaders u hu
  next hfree =>
    refine inv_acquireShared h fun u hu => ?_
    have hwriters : 0 < s.writers := h.locking.mpr (by simp [hu])
    simp only [State.mustWait, if_pos hwriters, hu, not_not, Option.some.injEq] at hfree
    exact hfree.symm

theorem inv_resumeShared (h : Inv s) (ht : s.place t = .conditionalReaders) :
    Inv (s.resumeShared t) := by
  have hplace : update s.place t .conditionalReaders = s.place := by
    rw [← ht, Function.update_eq_self]
  have hhead : ∀ u, s.pendingWriters.head? = some u → u ≠ t := by
    rintro u hu rfl
    have := (h.pendingWriters u).mp (List.mem_of_mem_head? hu)
    rw [ht] at this
    cases this
  unfold State.resumeShared
  split
  next hwait =>
    refine ⟨h.readers, ?_, h.distinct, ?_, h.locking, h.exclusive, ?_, ?_⟩
    · simpa [State.wait, hplace] using h.pendingReaders
    · simpa [State.wait, hplace] using h.pendingWriters
    · intro hwriters hnone
      simp [State.wait] at hwriters hnone
      simp [hwriters, hnone] at hwait
    · intro hwriters hreaders u hu
      simpa [State.wait, hhead u hu] using h.wakesWriter hwriters hreaders u hu
  next hfree =>
    obtain ⟨hwriters, hqueue⟩ := not_or.mp hfree
    have hzero : s.writers = 0 := Nat.eq_zero_of_not_pos hwriters
    have hlocking : s.locking = none := by
      by_contra hne
      exact hwriters (h.locking.mpr hne)
    refine inv_acquireShared ⟨h.readers, ?_, h.distinct, fun u => ?_, h.locking, h.exclusive,
      ?_, ?_⟩ fun u hu => ?_
    · have hshare : (waitsToRead ∘ s.place) t = 1 := by simp [waitsToRead, ht]
      have hremove := h.pendingReaders.remove (t := t) (by rw [hshare]; decide)
      rw [hshare] at hremove
      simpa [State.wait, Function.comp_update, waitsToRead] using hremove
    · by_cases hu : u = t
      · subst hu
        simp [State.wait, h.pendingWriters, ht]
      · simp [State.wait, hu, h.pendingWriters]
    · intro _ hnone u hu
      by_cases hut : u = t
      · subst hut
        simp [State.wait] at hu
      · simp only [State.wait, Function.update_of_ne hut] at hu ⊢
        exact h.wakesReaders hzero hnone u hu
    · intro _ hreaders u hu
      simpa [State.wait, hhead u hu] using h.wakesWriter hzero hreaders u hu
    · simp [State.wait, hlocking] at hu

/-- The state in which `t` looks at the condition of the loop in `lock`: it is in the queue, whether
it has waited already or not. -/
structure Trying (s : State T) (t : T) : Prop where
  readers : Tally s.readers s.threadedReaders
  pendingReaders : Tally s.pendingReaders (waitsToRead ∘ s.place)
  distinct : s.pendingWriters.Nodup
  pendingWriters : ∀ u, u ∈ s.pendingWriters ↔ s.place u = .conditionalWriters ∨ u = t
  locking : 0 < s.writers ↔ s.locking ≠ none
  exclusive : ∀ t, s.locking = some t → ∀ u, 0 < s.threadedReaders u → u = t
  wakesWriter : s.writers = 0 → s.readers = 0 →
    ∀ u, s.pendingWriters.head? = some u → u ≠ t → s.woken u = true
  place : s.place t ≠ .conditionalReaders

theorem inv_tryLock (h : Trying s t) : Inv (s.tryLock t) := by
  have hmem : t ∈ s.pendingWriters := (h.pendingWriters t).mpr (Or.inr rfl)
  unfold State.tryLock
  split
  next hwait =>
    refine ⟨h.readers, pendingReaders_update h.pendingReaders h.place (by decide), h.distinct,
      fun u => ?_, h.locking, h.exclusive, ?_, ?_⟩
    · by_cases hu : u = t
      · subst hu
        simpa [State.wait] using hmem
      · simp [State.wait, hu, h.pendingWriters]
    · intro _ hnone
      exact absurd hnone (List.ne_nil_of_mem hmem)
    · intro hwriters hreaders u hu
      have hne : u ≠ t := by
        rintro rfl
        simp only [State.wait] at hwriters hreaders hu
        simp [hwriters, hreaders, hu] at hwait
      simpa [State.wait, hne] using h.wakesWriter hwriters hreaders u hu hne
  next hfree =>
    simp only [not_or, not_not, Nat.not_lt, Nat.le_zero_eq] at hfree
    obtain ⟨hreaders, hwriters, hhead⟩ := hfree
    obtain ⟨rest, hqueue⟩ := List.head?_eq_some_iff.mp hhead
    have hdistinct := h.distinct
    rw [hqueue, List.nodup_cons] at hdistinct
    refine ⟨h.readers, pendingReaders_update h.pendingReaders h.place (by decide), ?_,
      fun u => ?_, by simp [State.acquire], ?_, ?_, ?_⟩
    · simpa [State.acquire, State.wait, hqueue] using hdistinct.2
    · have hu := h.pendingWriters u
      rw [hqueue, List.mem_cons] at hu
      by_cases hut : u = t
      · subst hut
        simp [State.acquire, State.wait, hqueue, hdistinct.1]
      · simpa [State.acquire, State.wait, hqueue, hut] using hu
    · intro _ _ v hv
      have hzero := h.readers.eq_zero_iff.mp hreaders v
      simp only [State.acquire, State.wait, hzero] at hv
      exact absurd hv (Nat.lt_irrefl 0)
    · intro hnone
      simp [State.acquire] at hnone
    · intro hnone
      simp [State.acquire] at hnone

theorem inv_lock (h : Inv s) (ht : s.place t = .running) : Inv (s.lock t) := by
  unfold State.lock
  split_ifs with hreading hlocking
  · exact h
  · refine ⟨h.readers, h.pendingReaders, h.distinct, h.pendingWriters, by simp [State.acquire], ?_,
      ?_, ?_⟩
    · intro u hu
      exact h.exclusive u (by rw [hlocking]; exact hu)
    · intro hnone
      simp [State.acquire] at hnone
    · intro hnone
      simp [State.acquire] at hnone
  · have hnotMem : t ∉ s.pendingWriters := by
      rw [h.pendingWriters, ht]
      decide
    refine inv_tryLock ⟨h.readers, h.pendingReaders, ?_, fun u => ?_, h.locking,
      h.exclusive, ?_, ?_⟩
    · simpa [List.nodup_append] using ⟨h.distinct, fun u hu hut => hnotMem (hut ▸ hu)⟩
    · simp [h.pendingWriters]
    · intro hwriters hreaders u hu hne
      refine h.wakesWriter hwriters hreaders u ?_
      rw [List.head?_append] at hu
      cases hhead : s.pendingWriters.head? with
      | none => simp [hhead, hne.symm] at hu
      | some v => simpa [hhead] using hu
    · simp [ht]

theorem inv_resumeLock (h : Inv s) (ht : s.place t = .conditionalWriters) : Inv (s.tryLock t) :=
  inv_tryLock ⟨h.readers, h.pendingReaders, h.distinct, fun u => by
      rw [h.pendingWriters]
      constructor
      · exact Or.inl
      · rintro (hu | rfl)
        · exact hu
        · exact ht,
    h.locking, h.exclusive, fun hwriters hreaders u hu _ => h.wakesWriter hwriters hreaders u hu,
    by simp [ht]⟩

/-- The front of the queue waits, so both kinds of `notify` wake it. -/
theorem woken_notifyWriters {u : T} (hplace : s.place u = .conditionalWriters)
    (hu : s.pendingWriters.head? = some u) : (s.notifyWriters targeted).woken u = true := by
  simp [State.notifyWriters, hplace, hu]

theorem inv_unlockShared (h : Inv s) : Inv (s.unlockShared targeted t) := by
  unfold State.unlockShared
  split_ifs with hzero
  · exact h
  · have hremove := h.readers.remove (Nat.pos_of_ne_zero hzero)
    have hexclusive : ∀ v, s.locking = some v →
        ∀ u, 0 < update s.threadedReaders t (s.threadedReaders t - 1) u → u = v := by
      intro v hv u hu
      by_cases hut : u = t
      · subst hut
        exact h.exclusive v hv u (Nat.pos_of_ne_zero hzero)
      · exact h.exclusive v hv u (by simpa [hut] using hu)
    have hmem : ∀ u, s.pendingWriters.head? = some u → s.place u = .conditionalWriters :=
      fun u hu => (h.pendingWriters u).mp (List.mem_of_mem_head? hu)
    simp only
    split_ifs with hnotify
    · refine ⟨hremove, h.pendingReaders, h.distinct, h.pendingWriters, h.locking,
        hexclusive, ?_, ?_⟩
      · intro _ hnone
        exact absurd hnone hnotify.2.2
      · intro _ _ u hu
        exact woken_notifyWriters (hmem u hu) hu
    · refine ⟨hremove, h.pendingReaders, h.distinct, h.pendingWriters, h.locking, hexclusive,
        h.wakesReaders, ?_⟩
      intro hwriters hreaders u hu
      refine absurd ⟨hreaders, hwriters, ?_⟩ hnotify
      intro hnone
      simp [hnone] at hu

theorem inv_unlock (h : Inv s) : Inv (s.unlock targeted t) := by
  unfold State.unlock
  split_ifs with hreading hlocking
  · exact h
  · exact h
  · rw [not_not] at hreading hlocking
    have hwriters : 0 < s.writers := h.locking.mpr (by simp [hlocking])
    have hmem : ∀ u, s.pendingWriters.head? = some u → s.place u = .conditionalWriters :=
      fun u hu => (h.pendingWriters u).mp (List.mem_of_mem_head? hu)
    simp only
    split_ifs with hlast hqueue hpending
    · refine ⟨h.readers, h.pendingReaders, h.distinct, h.pendingWriters, ?_, ?_, ?_, ?_⟩
      · simp [State.notifyWriters, hlast]
      · intro u hu
        simp [State.notifyWriters] at hu
      · intro _ hnone
        exact absurd hnone hqueue
      · intro _ _ u hu
        exact woken_notifyWriters (hmem u hu) hu
    · refine ⟨h.readers, h.pendingReaders, h.distinct, h.pendingWriters, ?_, ?_, ?_, ?_⟩
      · simp [State.notifyReaders, hlast]
      · intro u hu
        simp [State.notifyReaders] at hu
      · intro _ _ u hu
        have hu' : s.place u = .conditionalReaders := hu
        simp [State.notifyReaders, hu']
      · intro _ _ u hu
        simp [State.notifyReaders, not_not.mp hqueue] at hu
    · refine ⟨h.readers, h.pendingReaders, h.distinct, h.pendingWriters, ?_, ?_, ?_, ?_⟩
      · simp [hlast]
      · intro u hu
        simp at hu
      · intro _ _ u hu
        exact absurd (pendingReaders_pos h hu) hpending
      · intro _ _ u hu
        simp [not_not.mp hqueue] at hu
    · have hstill : 0 < s.writers - 1 := Nat.pos_of_ne_zero hlast
      refine ⟨h.readers, h.pendingReaders, h.distinct, h.pendingWriters, ?_, h.exclusive, ?_, ?_⟩
      · simp [hstill, hlocking]
      · intro hnone
        exact absurd hnone hlast
      · intro hnone
        exact absurd hnone hlast

/-- **Every step keeps the invariant.** -/
theorem step_inv (s : State T) (a : Action T) (s' : State T) (h : Inv s)
    (hstep : step targeted s a = some s') : Inv s' := by
  cases a with
  | lock t =>
    obtain ⟨ht, hs⟩ := Option.ite_none_right_eq_some.mp hstep
    cases hs
    exact inv_lock h ht
  | unlock t =>
    obtain ⟨-, hs⟩ := Option.ite_none_right_eq_some.mp hstep
    cases hs
    exact inv_unlock h
  | lockShared t =>
    obtain ⟨ht, hs⟩ := Option.ite_none_right_eq_some.mp hstep
    cases hs
    exact inv_lockShared h ht
  | unlockShared t =>
    obtain ⟨-, hs⟩ := Option.ite_none_right_eq_some.mp hstep
    cases hs
    exact inv_unlockShared h
  | resume t =>
    rw [step] at hstep
    split at hstep
    · cases hstep
    next ht =>
      cases hstep
      exact inv_resumeShared h ht
    next ht =>
      cases hstep
      exact inv_resumeLock h ht

end Steps

/-! ### Calls that do not wait -/

section Calls

variable {s : State T} {t : T} {targeted : Bool}

theorem lockShared_eq (h : (s.lockShared t).place t = .running) :
    s.lockShared t = s.acquireShared t := by
  unfold State.lockShared at h ⊢
  split_ifs at h ⊢
  · simp [State.wait] at h
  · rfl

@[simp] theorem unlockShared_place : (s.unlockShared targeted t).place = s.place := by
  unfold State.unlockShared
  split_ifs
  · rfl
  · simp only
    split_ifs <;> rfl

@[simp] theorem unlockShared_locking : (s.unlockShared targeted t).locking = s.locking := by
  unfold State.unlockShared
  split_ifs
  · rfl
  · simp only
    split_ifs <;> rfl

@[simp] theorem unlockShared_writers : (s.unlockShared targeted t).writers = s.writers := by
  unfold State.unlockShared
  split_ifs
  · rfl
  · simp only
    split_ifs <;> rfl

theorem unlockShared_threadedReaders :
    (s.unlockShared targeted t).threadedReaders =
      update s.threadedReaders t (s.threadedReaders t - 1) := by
  unfold State.unlockShared
  split_ifs with hzero
  · rw [hzero, Nat.zero_sub, ← hzero, Function.update_eq_self]
  · simp only
    split_ifs <;> rfl

/-- A lock that is taken at once: the thread has it once more, and nobody else moved. -/
theorem lock_eq (hreading : s.threadedReaders t = 0) (ht : s.place t = .running)
    (h : (s.lock t).place t = .running) :
    (s.locking = some t ∨ s.writers = 0) ∧
      (s.lock t).locking = some t ∧ (s.lock t).writers = s.writers + 1 ∧
      (s.lock t).threadedReaders = s.threadedReaders ∧ (s.lock t).place = s.place := by
  unfold State.lock State.tryLock at h ⊢
  simp only [hreading, ne_eq, not_true_eq_false, if_false] at h ⊢
  split_ifs at h ⊢ with hlocking hwait
  · exact ⟨Or.inl hlocking, rfl, rfl, rfl, rfl⟩
  · simp [State.wait] at h
  · refine ⟨Or.inr ?_, rfl, rfl, rfl, ?_⟩
    · by_contra hne
      exact hwait (Or.inr (Or.inl (Nat.pos_of_ne_zero hne)))
    · simp only [State.acquire, State.wait]
      rw [← ht, Function.update_eq_self]

@[simp] theorem unlock_place : (s.unlock targeted t).place = s.place := by
  unfold State.unlock
  split_ifs
  · rfl
  · rfl
  · simp only
    split_ifs <;> rfl

@[simp] theorem unlock_threadedReaders :
    (s.unlock targeted t).threadedReaders = s.threadedReaders := by
  unfold State.unlock
  split_ifs
  · rfl
  · rfl
  · simp only
    split_ifs <;> rfl

variable (targeted) in
/-- An unlock by the thread that has the lock. -/
theorem unlock_eq (hreading : s.threadedReaders t = 0) (hlocking : s.locking = some t) :
    (s.unlock targeted t).writers = s.writers - 1 ∧
      (s.unlock targeted t).locking = if s.writers - 1 = 0 then none else some t := by
  unfold State.unlock
  simp only [hreading, hlocking, ne_eq, not_true_eq_false, if_false]
  split_ifs with hlast <;>
    simp [State.notifyWriters, State.notifyReaders, hlast]

end Calls

/-! ### Exclusion and wake-ups -/

/-- The condition a waiting thread waits for. -/
def CanProceed (s : State T) (t : T) : Prop :=
  match s.place t with
  | .running => False
  | .conditionalReaders => s.writers = 0 ∧ s.pendingWriters = []
  | .conditionalWriters => s.readers = 0 ∧ s.writers = 0 ∧ s.pendingWriters.head? = some t

/-- **A correct readers-writer lock**: a writer excludes all other threads, and when the lock is
free and a thread waits, a wake-up is pending for one that can proceed. -/
structure Safe (s : State T) : Prop where
  exclusion : 0 < s.writers → ∃ t, s.locking = some t ∧ s.readers = s.threadedReaders t ∧
    ∀ u, 0 < s.threadedReaders u → u = t
  wakeUp : s.writers = 0 → s.readers = 0 → (∃ t, s.place t ≠ .running) →
    ∃ t, s.place t ≠ .running ∧ CanProceed s t ∧ s.woken t = true

theorem Inv.safe {s : State T} (h : Inv s) : Safe s := by
  refine ⟨fun hwriters => ?_, fun hwriters hreaders hwaiting => ?_⟩
  · obtain ⟨t, ht⟩ := Option.ne_none_iff_exists'.mp (h.locking.mp hwriters)
    exact ⟨t, ht, h.readers.eq_of_only (h.exclusive t ht), h.exclusive t ht⟩
  · cases hqueue : s.pendingWriters with
    | nil =>
      obtain ⟨t, ht⟩ := hwaiting
      have hplace : s.place t = .conditionalReaders := by
        cases hplace : s.place t with
        | running => exact absurd hplace ht
        | conditionalReaders => rfl
        | conditionalWriters =>
          have := (h.pendingWriters t).mpr hplace
          simp [hqueue] at this
      exact ⟨t, ht, by simp [CanProceed, hplace, hwriters, hqueue],
        h.wakesReaders hwriters hqueue t hplace⟩
    | cons t rest =>
      have hplace := (h.pendingWriters t).mp (by simp [hqueue])
      exact ⟨t, by simp [hplace], by simp [CanProceed, hplace, hwriters, hreaders, hqueue],
        h.wakesWriter hwriters hreaders t (by simp [hqueue])⟩

/-- **The lock is correct in every reachable state**, for any number of threads and any order of
their calls and wake-ups. -/
theorem safe_of_exec (targeted : Bool) {actions : List (Action T)} {s : State T}
    (h : Run.exec (step targeted) {} actions = some s) : Safe s :=
  (Run.inv_exec_of_step step_inv Inv.init h).safe

/-- Thread 0 reads twice, threads 1 and 2 wait to write and thread 3 to read; thread 0 leaves,
thread 2 runs again in vain, and thread 1 writes, reads and leaves. -/
def contended : List (Action ℕ) :=
  [.lockShared 0, .lock 1, .lockShared 0, .lock 2, .lockShared 3, .unlockShared 0, .unlockShared 0,
    .resume 2, .resume 1, .lock 1, .lockShared 1, .unlockShared 1, .unlock 1, .unlock 1]

theorem safe_contended :
    ∃ s, Run.exec (step true) {} contended = some s ∧ s.woken 2 = true ∧ s.woken 3 = false ∧
      Safe s := by
  cases h : Run.exec (step true) ({} : State ℕ) contended with
  | none => exact absurd h (by decide +kernel)
  | some s =>
    have hwoken : (Run.exec (step true) {} contended).map (fun s => (s.woken 2, s.woken 3)) =
        some (true, false) := by decide +kernel
    rw [h, Option.map_some, Option.some.injEq, Prod.mk.injEq] at hwoken
    exact ⟨s, rfl, hwoken.1, hwoken.2, safe_of_exec true h⟩

end SharedLock

end Wcdb
