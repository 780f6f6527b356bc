import Wcdb.Core.OperationQueue

/-!
# Operations of a path that is not registered

What waits in the queue is registered (`State.Registered`), because a path is unregistered together
with the removal of its operation, and asked for only while it is registered. What the thread has
taken is out of reach of a removal. So after a path is unregistered no operation of the kind waits,
and it is executed once at most, only if the thread had taken it before
(`executed_of_unregistered`).
-/

namespace Wcdb.OperationQueue

open MergeFTSIndex (Operation)

/-- What waits is registered. -/
def State.Registered (s : State) : Prop :=
  ∀ kind path, s.waiting (Kind.operation kind path) ≠ none → s.registered kind path

/-- A path has a record, and is not registered. -/
def State.Unregistered (s : State) (kind : Kind) (path : String) : Prop :=
  ∃ record, s.records path = some record ∧ record.registered kind = false

section Unregistered

variable {s t : State} {h k : History} {event : Event} {kind : Kind} {path : String} {fresh : Bool}
  {operation : Operation String} {parameter : Parameter} {done : Option Bool}
  {asked : Operation String → Parameter → Prop}

theorem Asks.registered (h : Asks asked s t) (hs : s.Registered)
    (hasked : ∀ operation parameter, asked operation parameter →
      ∀ kind path, operation = Kind.operation kind path → t.registered kind path) :
    t.Registered := by
  intro kind path hwaiting
  obtain ⟨parameter, hparameter⟩ := Option.ne_none_iff_exists'.mp hwaiting
  obtain h' | ⟨hbefore, hkept⟩ := h.waiting _ _ hparameter
  · exact hasked _ _ h' kind path rfl
  · exact hkept kind path rfl (hs kind path (by simp [hbefore]))

theorem registered_step (hs : s.Base) (hregistered : s.Registered) (hstep : step s event = some t) :
    t.Registered := by
  by_cases hthread : event.isThread
  · cases event with
    | expire =>
      obtain ⟨-, rfl | ⟨timedQueue, operation, parameter, rfl, -, -, hbase, -, hgone, hothers⟩⟩ :=
        expire_cases hs hstep
      · exact hregistered
      · intro kind path hwaiting
        refine hregistered kind path ?_
        rwa [← hothers]
        rintro rfl
        exact hwaiting hgone
    | deliver =>
      obtain ⟨operation, parameter, -, -, rfl⟩ := deliver_cases hs hstep
      intro kind path hwaiting
      rw [State.registered, records_deliver.1]
      rw [State.waiting, timedQueue_deliver] at hwaiting
      exact hregistered kind path hwaiting
    | operated done fresh =>
      obtain ⟨operation, parameter, -, rfl⟩ := operated_cases hstep
      have hended : (s.ended operation parameter done).Registered :=
        fun kind path hwaiting => hregistered kind path hwaiting
      exact (operated_asks hs).registered hended fun _ _ hagain => hagain.registered
    | _ => cases hthread
  · have hasks := step_asks hs (Bool.eq_false_iff.mpr hthread) hstep
    exact hasks.registered hregistered fun _ _ hasked => hasked.registered

theorem Unregistered.setRecord {path' : String} {record : Record} (h : s.Unregistered kind path)
    (hkept : path' = path → ∀ old, s.records path = some old → old.registered kind = false →
      record.registered kind = false) : (s.setRecord path' record).Unregistered kind path := by
  obtain ⟨old, hold, hfalse⟩ := h
  by_cases hpath : path' = path
  · subst hpath
    exact ⟨record, Function.update_self .., hkept rfl old hold hfalse⟩
  · exact ⟨old, (Function.update_of_ne (Ne.symm hpath) ..).trans hold, hfalse⟩

theorem Unregistered.record {path' : String} (h : s.Unregistered kind path) :
    (s.setRecord path' (s.record path' fresh)).Unregistered kind path := by
  refine Unregistered.setRecord h fun hpath old hold hfalse => ?_
  rw [hpath, State.record, hold]
  exact hfalse

theorem Unregistered.asyncRegistered {kind' : Kind} {path' : String} {delay : ℤ}
    (h : s.Unregistered kind path) :
    (s.asyncRegistered kind' path' delay parameter fresh).Unregistered kind path := by
  rw [State.asyncRegistered]
  split_ifs
  · exact Unregistered.record h
  · exact Unregistered.record h

theorem Unregistered.operated (h : s.Unregistered kind path) :
    (s.operated operation parameter done fresh).Unregistered kind path := by
  have hrepeated (kind' : Kind) (path' : String) (interval : ℤ) (error : Error) :
      (({ s with onTimed := none } : State).doRepeated kind' path' interval 5 error
        parameter.numberOfFailures done fresh).Unregistered kind path := by
    have hended : ({ s with onTimed := none } : State).Unregistered kind path := h
    obtain _ | _ | _ := done
    · rw [State.doRepeated]
      split_ifs
      · exact Unregistered.asyncRegistered hended
      · exact h
    · exact Unregistered.asyncRegistered hended
    · exact h
  cases operation with
  | migrate path' => exact hrepeated ..
  | compress path' => exact hrepeated ..
  | _ => exact h

/-- Only a registration changes that a path is not registered. -/
theorem Unregistered.step (hs : s.Base) (h : s.Unregistered kind path)
    (hne : ∀ fresh, event ≠ .registerAsRequired kind path fresh) (hstep : step s event = some t) :
    t.Unregistered kind path := by
  have hset (kind' : Kind) (path' : String) (fresh value : Bool)
      (hvalue : kind' = kind → path' = path → value = false) :
      (s.setRecord path' ((s.record path' fresh).setRegistered value kind')).Unregistered
        kind path := by
    refine Unregistered.setRecord h fun hpath old hold hfalse => ?_
    rw [Record.registered_setRegistered]
    split_ifs with hkind
    · exact hvalue hkind.symm hpath
    · rw [hpath, State.record, hold]
      exact hfalse
  cases event with
  | registerAsRequired kind' path' fresh =>
    obtain rfl := Option.some.inj hstep
    refine hset kind' path' fresh true fun hkind hpath => ?_
    exact absurd (by rw [hkind, hpath]) (hne fresh)
  | registerAsNoRequired kind' path' fresh =>
    obtain rfl := Option.some.inj hstep
    exact hset kind' path' fresh false fun _ _ => rfl
  | isAutoBackup path' fresh =>
    obtain rfl := Option.some.inj hstep
    exact Unregistered.record h
  | asyncMigrate | asyncCompress | asyncMergeFTSIndex =>
    obtain rfl := Option.some.inj hstep
    exact Unregistered.asyncRegistered h
  | asyncBackup path' incremental =>
    obtain rfl := Option.some.inj hstep
    rw [State.asyncBackup, State.asyncFound]
    split_ifs <;> exact h
  | asyncCheckpoint path' =>
    obtain rfl := Option.some.inj hstep
    rw [State.asyncCheckpoint, State.asyncFound]
    split_ifs <;> exact h
  | asyncPurge parameter =>
    simp only [OperationQueue.step, Option.ite_none_left_eq_some] at hstep
    obtain rfl := Option.some.inj hstep.2
    rw [State.asyncPurge]
    split_ifs <;> exact h
  | expire =>
    obtain ⟨-, rfl | ⟨timedQueue, operation, parameter, rfl, -⟩⟩ :=
      expire_cases hs hstep <;> exact h
  | deliver =>
    obtain ⟨operation, parameter, -, -, rfl⟩ := deliver_cases hs hstep
    rw [State.Unregistered, records_deliver.1]
    exact h
  | operated done fresh =>
    obtain ⟨operation, parameter, -, rfl⟩ := operated_cases hstep
    exact Unregistered.operated h
  | _ =>
    obtain rfl := Option.some.inj hstep
    exact h

/-- Of a path that is not registered nothing waits. -/
theorem waiting_of_unregistered (hregistered : s.Registered) (h : s.Unregistered kind path) :
    s.waiting (kind.operation path) = none := by
  obtain ⟨record, hrecord, hfalse⟩ := h
  by_contra hwaiting
  have htrue := hregistered kind path hwaiting
  rw [State.registered, hrecord, Option.any_some, hfalse] at htrue
  cases htrue

/-- How often an operation has been taken: the executions and what was handed over. -/
def takenTimes (s : State) (h : History) (operation : Operation String) : ℕ :=
  h.executed operation +
    if s.timedQueue.expireds.map Prod.fst = some operation then 1 else 0

/-- Of a path that is not registered nothing is taken. -/
theorem takenTimes_step (hs : s.Base) (hregistered : s.Registered) (h' : s.Unregistered kind path)
    (hstep : step s event = some t) :
    takenTimes t (record s h event) (kind.operation path) ≤
      takenTimes s h (kind.operation path) := by
  by_cases hthread : event.isThread
  · cases event with
    | expire =>
      obtain ⟨hnone, rfl | ⟨timedQueue, operation, parameter, rfl, hexpireds, -, -, hwaiting, -⟩⟩ :=
        expire_cases hs hstep
      · exact le_rfl
      · have hne : operation ≠ kind.operation path := by
          rintro rfl
          have hnone := waiting_of_unregistered hregistered h'
          rw [hwaiting] at hnone
          cases hnone
        refine Nat.add_le_add le_rfl ?_
        rw [if_neg (by simpa [hexpireds] using hne)]
        exact Nat.zero_le _
    | deliver =>
      obtain ⟨operation, parameter, hexpireds, -, rfl⟩ := deliver_cases hs hstep
      rw [takenTimes, takenTimes, record, timedQueue_deliver, hexpireds]
      simp only [Option.map_none, Option.map_some, reduceCtorEq, if_false, Nat.add_zero]
      split_ifs with hexiting heq heq
      · exact Nat.le_add_right _ _
      · exact Nat.le_add_right _ _
      · obtain rfl : operation = kind.operation path := Option.some.inj heq
        exact (Function.update_self ..).le
      · exact (Function.update_of_ne (fun h => heq (congrArg some h.symm)) ..).le
    | operated done fresh =>
      obtain ⟨operation, parameter, honTimed, rfl⟩ := operated_cases hstep
      have hexpireds : (s.operated operation parameter done fresh).timedQueue.expireds =
          s.timedQueue.expireds := (operated_asks hs).expireds
      have hexecuted : (record s h (.operated done fresh)).executed = h.executed := by
        rw [record, honTimed]
        dsimp only
        rw [History.operated]
        split_ifs <;> rfl
      rw [takenTimes, takenTimes, hexpireds, hexecuted]
    | _ => cases hthread
  · have hthread' := Bool.eq_false_iff.mpr hthread
    rw [takenTimes, takenTimes, (step_asks hs hthread' hstep).expireds, (record_of_asks hthread').1]

/-- Until a path is registered again, nothing of it waits and nothing is taken. -/
theorem takenTimes_run {events : List Event} (hs : s.Base) (hregistered : s.Registered)
    (h' : s.Unregistered kind path)
    (hnot : ∀ fresh, Event.registerAsRequired kind path fresh ∉ events)
    (hexec : Run.exec recorded (s, h) events = some (t, k)) :
    t.waiting (kind.operation path) = none ∧
      takenTimes t k (kind.operation path) ≤ takenTimes s h (kind.operation path) := by
  induction events generalizing s h with
  | nil =>
    obtain ⟨rfl, rfl⟩ := Prod.mk.inj (Option.some.inj hexec)
    exact ⟨waiting_of_unregistered hregistered h', le_rfl⟩
  | cons event events ih =>
    obtain ⟨_, hrecorded, hrest⟩ := Option.bind_eq_some_iff.mp hexec
    obtain ⟨u, hstep, rfl⟩ := Option.map_eq_some_iff.mp hrecorded
    have hne : ∀ fresh, event ≠ .registerAsRequired kind path fresh := by
      rintro fresh rfl
      exact hnot fresh List.mem_cons_self
    obtain ⟨hwaiting, hle⟩ := ih (base_step hs hstep) (registered_step hs hregistered hstep)
      (Unregistered.step hs h' hne hstep)
      (fun fresh hmem => hnot fresh (List.mem_cons_of_mem event hmem)) hrest
    exact ⟨hwaiting, hle.trans (takenTimes_step hs hregistered h' hstep)⟩

/-- **An unregistered path.** After `registerAsNoRequired` no operation of the kind waits for the
path, however it is asked for or repeated, until the path is registered again. One that the thread
had taken is still executed, and no other. -/
theorem executed_of_unregistered {before after : List Event}
    (hbefore : Run.exec recorded ({}, {}) before = some (s, h))
    (hafter : Run.exec recorded (s, h) (.registerAsNoRequired kind path fresh :: after) =
      some (t, k))
    (hnot : ∀ fresh, Event.registerAsRequired kind path fresh ∉ after) :
    t.waiting (kind.operation path) = none ∧
      k.executed (kind.operation path) ≤ h.executed (kind.operation path) +
        if s.timedQueue.expireds.map Prod.fst = some (kind.operation path) then 1 else 0 := by
  obtain ⟨hs, hregistered⟩ := inv_run (I := fun s _ => s.Registered) (fun _ _ h => absurd rfl h)
    (fun _ _ _ _ hs hregistered hstep => registered_step hs hregistered hstep) hbefore
  obtain ⟨_, hrecorded, hrest⟩ := Option.bind_eq_some_iff.mp hafter
  obtain ⟨u, hu, rfl⟩ := Option.map_eq_some_iff.mp hrecorded
  have hexpireds := (step_asks hs rfl hu).expireds
  have hunregistered : u.Unregistered kind path := by
    obtain rfl := Option.some.inj hu
    refine ⟨_, Function.update_self .., ?_⟩
    rw [Record.registered_setRegistered, if_pos rfl]
  obtain ⟨hwaiting, hbound⟩ := takenTimes_run (base_step hs hu)
    (registered_step hs hregistered hu) hunregistered hnot hrest
  rw [takenTimes, takenTimes, hexpireds] at hbound
  exact ⟨hwaiting, (Nat.le_add_right _ _).trans hbound⟩

/-- A migration is taken, and then its path is unregistered. -/
def takenBefore : List Event :=
  [.registerAsRequired .migration "a" true, .asyncMigrate "a" false, .tick 3000000000, .expire]

/-- The migration that was taken does not end, and is not repeated. -/
def unregisteredAfter : List Event :=
  [.deliver, .operated (some false) false, .asyncMigrate "a" false, .tick 3000000000, .expire]

theorem executed_of_unregistered_taken : ∃ s h t k,
    Run.exec recorded ({}, {}) takenBefore = some (s, h) ∧
      Run.exec recorded (s, h) (.registerAsNoRequired .migration "a" false :: unregisteredAfter) =
        some (t, k) ∧
      k.executed (.migrate "a") = 1 ∧ t.waiting (.migrate "a") = none ∧
        k.executed (.migrate "a") ≤ h.executed (.migrate "a") +
          if s.timedQueue.expireds.map Prod.fst = some (.migrate "a") then 1 else 0 := by
  have hruns : ∃ r r', Run.exec recorded ({}, {}) takenBefore = some r ∧
      Run.exec recorded r (.registerAsNoRequired .migration "a" false :: unregisteredAfter) =
        some r' ∧ r'.2.executed (.migrate "a") = 1 := ⟨_, _, rfl, rfl, rfl⟩
  obtain ⟨⟨s, h⟩, ⟨t, k⟩, hbefore, hafter, hone⟩ := hruns
  refine ⟨s, h, t, k, hbefore, hafter, hone, ?_⟩
  have hnot : ∀ fresh, Event.registerAsRequired .migration "a" fresh ∉ unregisteredAfter := by
    simp [unregisteredAfter]
  exact executed_of_unregistered hbefore hafter hnot

end Unregistered

end Wcdb.OperationQueue
