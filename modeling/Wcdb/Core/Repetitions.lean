import Wcdb.Core.OperationQueue

/-!
# Failures and repetitions

A migration or compression that failed is repeated with one failure more, until there are five of
them; a request from outside puts an operation without failures in its place. The books of an
operation (`Books`) hold the failures of what waits and of what is taken against the requests, the
failures and the times it was given up.

* `retries_of_exec`: an operation that is given up has failed five times since it was given up
  before, and five failures at most come from one request.
-/

namespace Wcdb.OperationQueue

open MergeFTSIndex (Operation)

/-- How many failures are left. -/
def left (numberOfFailures : Option ℕ) : ℕ := numberOfFailures.elim 0 fun n => 5 - n

/-- **The books of an operation that is repeated**: the failures of what waits and of what is taken,
and how often it was asked for, failed and was given up. -/
structure Books (waiting taken : Option ℕ) (requests failures stops : ℕ) : Prop where
  waits : ∀ n ∈ waiting, n < 5 ∧ 5 * stops + n ≤ failures
  takes : ∀ n ∈ taken, n < 5 ∧ 5 * stops + n ≤ failures
  /-- What was asked for while the thread executes the operation has not failed yet. -/
  fresh : taken ≠ none → ∀ n ∈ waiting, n = 0
  counted : 5 * stops ≤ failures
  budget : failures + left waiting + left taken ≤ 5 * requests

namespace Books

variable {waiting taken : Option ℕ} {requests failures stops n : ℕ}

theorem init : Books none none 0 0 0 where
  waits _ h := by cases h
  takes _ h := by cases h
  fresh h := absurd rfl h
  counted := le_rfl
  budget := le_rfl

/-- What waits is removed. -/
theorem remove (h : Books waiting taken requests failures stops) :
    Books none taken requests failures stops where
  waits _ h' := by cases h'
  takes := h.takes
  fresh _ _ h' := by cases h'
  counted := h.counted
  budget := by
    have hbudget := h.budget
    simp only [left, Option.elim_none, Nat.add_zero] at hbudget ⊢
    omega

theorem grow (h : Books waiting taken requests failures stops) {requests' : ℕ}
    (hle : requests ≤ requests') : Books waiting taken requests' failures stops :=
  { h with budget := h.budget.trans (Nat.mul_le_mul_left 5 hle) }

/-- The operation is asked for from outside. -/
theorem request (h : Books waiting taken requests failures stops) :
    Books (some 0) taken (requests + 1) failures stops where
  waits n h' := by
    obtain rfl := Option.some.inj h'
    exact ⟨Nat.succ_pos 4, h.counted⟩
  takes := h.takes
  fresh _ n h' := (Option.some.inj h').symm
  counted := h.counted
  budget := by
    have hbudget := h.budget
    simp only [left, Option.elim_some] at hbudget ⊢
    omega

/-- The thread takes the operation. -/
theorem take (h : Books (some n) none requests failures stops) :
    Books none (some n) requests failures stops where
  waits _ h' := by cases h'
  takes := h.waits
  fresh _ _ h' := by cases h'
  counted := h.counted
  budget := by
    have hbudget := h.budget
    simp only [left, Option.elim_some, Option.elim_none] at hbudget ⊢
    omega

/-- The thread is done with the operation. -/
theorem done (h : Books waiting taken requests failures stops) :
    Books waiting none requests failures stops where
  waits := h.waits
  takes _ h' := by cases h'
  fresh h' := absurd rfl h'
  counted := h.counted
  budget := by
    have hbudget := h.budget
    simp only [left, Option.elim_none] at hbudget ⊢
    omega

/-- The operation failed. -/
theorem fail (h : Books waiting (some n) requests failures stops) :
    Books waiting none requests (failures + 1) stops where
  waits m hm := ⟨(h.waits m hm).1, (h.waits m hm).2.trans (Nat.le_succ _)⟩
  takes _ h' := by cases h'
  fresh h' := absurd rfl h'
  counted := h.counted.trans (Nat.le_succ _)
  budget := by
    have hlt := (h.takes n rfl).1
    have hbudget := h.budget
    simp only [left, Option.elim_some, Option.elim_none] at hbudget ⊢
    omega

/-- The operation failed once more and is given up. -/
theorem giveUp (h : Books waiting (some n) requests failures stops) (hn : ¬n + 1 < 5) :
    Books waiting none requests (failures + 1) (stops + 1) where
  waits m hm := by
    obtain rfl := h.fresh (by simp) m hm
    have htaken := h.takes n rfl
    omega
  takes _ h' := by cases h'
  fresh h' := absurd rfl h'
  counted := by
    have htaken := h.takes n rfl
    omega
  budget := h.fail.budget

/-- The operation is repeated, as far as it failed. -/
theorem again (h : Books waiting (some n) requests failures stops) :
    Books (some n) none requests failures stops where
  waits := h.takes
  takes _ h' := by cases h'
  fresh h' := absurd rfl h'
  counted := h.counted
  budget := by
    have hbudget := h.budget
    simp only [left, Option.elim_some, Option.elim_none] at hbudget ⊢
    omega

/-- The operation failed once more and is repeated. -/
theorem retry (h : Books waiting (some n) requests failures stops) (hn : n + 1 < 5) :
    Books (some (n + 1)) none requests (failures + 1) stops where
  waits m hm := by
    obtain rfl := Option.some.inj hm
    have htaken := h.takes n rfl
    omega
  takes _ h' := by cases h'
  fresh h' := absurd rfl h'
  counted := h.fail.counted
  budget := by
    have hbudget := h.budget
    simp only [left, Option.elim_some, Option.elim_none] at hbudget ⊢
    omega

/-- What waits is as before, or is removed. -/
theorem keep (h : Books waiting taken requests failures stops) {waiting' : Option ℕ}
    (hkeep : ∀ n, waiting' = some n → waiting = some n) :
    Books waiting' taken requests failures stops := by
  cases hwaiting : waiting' with
  | none => exact h.remove
  | some n => rwa [← hkeep n hwaiting]

end Books

/-- The books of an operation in a state with its record. -/
def State.Books (s : State) (h : History) (operation : Operation String) : Prop :=
  OperationQueue.Books ((s.waiting operation).map Parameter.numberOfFailures)
    ((s.taken operation).map Parameter.numberOfFailures) (h.requests operation)
    (h.failures operation) (s.stops operation)

section Repetitions

variable {s t : State} {h k : History} {event : Event} {operation operation' : Operation String}
  {parameter : Parameter} {done : Option Bool} {fresh : Bool}
  {asked : Operation String → Parameter → Prop}

theorem Asks.stops (h : Asks asked s t) : t.stops operation = s.stops operation := by
  rw [State.stops, State.stops, h.notified]

/-- The failures of what waits were asked for, or are as before. -/
theorem Asks.numberOfFailures (h : Asks asked s t) {n : ℕ}
    (hn : (t.waiting operation).map Parameter.numberOfFailures = some n) :
    (∃ parameter, asked operation parameter ∧ parameter.numberOfFailures = n) ∨
      (s.waiting operation).map Parameter.numberOfFailures = some n := by
  obtain ⟨parameter, hparameter, rfl⟩ := Option.map_eq_some_iff.mp hn
  obtain hasked | ⟨hbefore, -⟩ := h.waiting operation parameter hparameter
  · exact .inl ⟨parameter, hasked, rfl⟩
  · exact .inr (by rw [hbefore, Option.map_some])

/-- An error tells which operation is given up. -/
theorem stoppedError_inj {error : Error} (h : stoppedError operation = some error)
    (h' : stoppedError operation' = some error) : operation = operation' := by
  cases operation <;> cases h <;> cases operation' <;>
    simp_all [stoppedError, migrationStopped, compressionStopped]

theorem stops_ended : (s.ended operation' parameter done).stops operation =
    if operation' = operation ∧ stoppedError operation ≠ none ∧ GivenUp parameter done then
      s.stops operation + 1
    else s.stops operation := by
  rw [State.stops, State.stops, State.ended]
  cases hstopped : stoppedError operation with
  | none => simp
  | some error =>
    dsimp only
    cases hstopped' : stoppedError operation' with
    | none =>
      rw [if_neg ?_]
      rintro ⟨rfl, -, -⟩
      rw [hstopped] at hstopped'
      cases hstopped'
    | some error' =>
      dsimp only
      by_cases hgiven : GivenUp parameter done
      · rw [if_pos hgiven, List.count_append, List.count_singleton]
        by_cases heq : operation' = operation
        · subst heq
          obtain rfl := Option.some.inj (hstopped.symm.trans hstopped')
          simp [hgiven]
        · have hne : error' ≠ error := by
            rintro rfl
            exact heq (stoppedError_inj hstopped' hstopped)
          simp [heq, hne]
      · simp [hgiven]

theorem failures_operated (now : ℤ) :
    (h.operated now operation' done).failures operation =
      if operation' = operation ∧ operation' ≠ .purge ∧ done = none then h.failures operation + 1
      else h.failures operation := by
  rw [History.operated]
  by_cases hpurge : operation' = .purge
  · rw [if_pos hpurge, if_neg fun h => h.2.1 hpurge]
  · rw [if_neg hpurge]
    cases done with
    | some _ => simp
    | none =>
      rw [if_neg (by simp)]
      by_cases heq : operation' = operation
      · rw [if_pos ⟨heq, hpurge, rfl⟩, heq]
        exact Function.update_self ..
      · rw [if_neg fun h => heq h.1]
        exact Function.update_of_ne (Ne.symm heq) ..

theorem requests_operated (now : ℤ) :
    (h.operated now operation' done).requests = h.requests := by
  rw [History.operated]
  split_ifs <;> rfl

theorem books_asked (hs : s.Base) (hbooks : s.Books h operation)
    (hretried : stoppedError operation ≠ none) (hthread : event.isThread = false)
    (hstep : step s event = some t) : t.Books (record s h event) operation := by
  have hasks := step_asks hs hthread hstep
  obtain ⟨-, hfailures, -, -, hrequests⟩ := record_of_asks (s := s) (h := h) hthread
  rw [State.Books, hasks.taken, hasks.stops, hfailures]
  by_cases hasked : ∃ n, (t.waiting operation).map Parameter.numberOfFailures = some n ∧
      ∃ parameter, event.Asked s t operation parameter ∧ parameter.numberOfFailures = n
  · obtain ⟨n, hn, parameter, hasked, rfl⟩ := hasked
    obtain ⟨hzero, hrequest⟩ := hasked.retried hretried
    rw [hn, hzero, hrequest]
    exact hbooks.request
  · refine (hbooks.keep fun n hn => ?_).grow (hrequests operation)
    exact (hasks.numberOfFailures hn).resolve_left fun h => hasked ⟨n, hn, h⟩

theorem books_expire (hs : s.Base) (hbooks : s.Books h operation)
    (hstep : step s .expire = some t) : t.Books (record s h .expire) operation := by
  obtain ⟨hnone, rfl | ⟨timedQueue, operation', parameter, rfl, hexpireds, -, -, hwaiting, hgone,
    hothers⟩⟩ := expire_cases hs hstep
  · exact hbooks
  · have hinHand : ({ s with timedQueue } : State).inHand = some (operation', parameter) := by
      rw [State.inHand] at hnone ⊢
      split at hnone
      · cases hnone
      · rename_i honTimed
        simp only [honTimed, hexpireds]
    rw [State.Books, State.taken_of_none hnone] at hbooks
    rw [State.Books, State.taken_of_inHand hinHand]
    by_cases heq : operation' = operation
    · subst heq
      rw [hgone, if_pos rfl]
      rw [hwaiting] at hbooks
      exact hbooks.take
    · rw [hothers operation (Ne.symm heq), if_neg heq]
      exact hbooks

theorem books_deliver (hs : s.Base) (hbooks : s.Books h operation)
    (hstep : step s .deliver = some t) : t.Books (record s h .deliver) operation := by
  obtain ⟨operation', parameter, hexpireds, honTimed, rfl⟩ := deliver_cases hs hstep
  have hwaiting : (s.deliver operation' parameter).waiting operation = s.waiting operation := by
    rw [State.waiting, timedQueue_deliver]
    rfl
  have hrecord : (record s h .deliver).requests = h.requests ∧
      (record s h .deliver).failures = h.failures := by
    rw [record, hexpireds]
    dsimp only
    split_ifs <;> exact ⟨rfl, rfl⟩
  rw [State.Books, hwaiting, stops_deliver, hrecord.1, hrecord.2]
  by_cases hexiting : s.timedQueue.isExiting
  · have hnone : (s.deliver operation' parameter).inHand = none := by
      rw [State.inHand, onTimed_deliver, if_pos hexiting, honTimed, timedQueue_deliver]
    rw [State.taken_of_none hnone]
    exact hbooks.done
  · have hsame : (s.deliver operation' parameter).inHand = s.inHand := by
      rw [State.inHand, State.inHand, onTimed_deliver, if_neg hexiting, honTimed, hexpireds]
    rw [State.taken, hsame]
    exact hbooks

/-- **The books when an operation ends.** -/
theorem books_operated (hs : s.Base) (hbooks : s.Books h operation)
    (hretried : stoppedError operation ≠ none) (hstep : step s (.operated done fresh) = some t) :
    t.Books (record s h (.operated done fresh)) operation := by
  obtain ⟨operation', parameter, honTimed, rfl⟩ := operated_cases hstep
  have hasks : Asks _ _ (s.operated operation' parameter done fresh) := operated_asks hs
  have hinHand : s.inHand = some (operation', parameter) := by rw [State.inHand, honTimed]
  have hended : (s.ended operation' parameter done).inHand = none := hs.thread (by simp [honTimed])
  have hwaiting {n : ℕ} (hn : ((s.operated operation' parameter done fresh).waiting operation).map
      Parameter.numberOfFailures = some n) : (∃ parameter', Again
        (s.operated operation' parameter done fresh) operation' parameter done operation
          parameter' ∧
        parameter'.numberOfFailures = n) ∨
      (s.waiting operation).map Parameter.numberOfFailures = some n := hasks.numberOfFailures hn
  rw [State.Books, State.taken_of_inHand hinHand] at hbooks
  rw [State.Books, hasks.taken, hasks.stops, State.taken_of_none hended, stops_ended, record,
    honTimed]
  dsimp only
  rw [failures_operated, requests_operated]
  by_cases heq : operation' = operation
  · subst heq
    have hpurge : operation' ≠ .purge := by
      rintro rfl
      exact hretried rfl
    rw [if_pos rfl] at hbooks
    by_cases hagain : ∃ n, ((s.operated operation' parameter done fresh).waiting operation').map
        Parameter.numberOfFailures = some n ∧ ∃ parameter', Again
          (s.operated operation' parameter done fresh) operation' parameter done operation'
            parameter' ∧
          parameter'.numberOfFailures = n
    · obtain ⟨n, hn, parameter', hagain, rfl⟩ := hagain
      rw [hn]
      obtain ⟨rfl, hsame⟩ | ⟨rfl, hlt, hmore⟩ := hagain.failures
      · have hgiven : ¬GivenUp parameter (some false) := fun h => by cases h.1
        rw [if_neg (by simp), if_neg fun h => hgiven h.2.2, hsame]
        exact hbooks.again
      · rw [if_pos ⟨rfl, hpurge, rfl⟩, if_neg fun h => h.2.2.2 hlt, hmore]
        exact hbooks.retry hlt
    · have hkeep : ∀ n, ((s.operated operation' parameter done fresh).waiting operation').map
          Parameter.numberOfFailures = some n →
          (s.waiting operation').map Parameter.numberOfFailures = some n :=
        fun n hn => (hwaiting hn).resolve_left fun h => hagain ⟨n, hn, h⟩
      cases done with
      | some done =>
        have hgiven : ¬GivenUp parameter (some done) := fun h => by cases h.1
        rw [if_neg (by simp), if_neg fun h => hgiven h.2.2]
        exact hbooks.done.keep hkeep
      | none =>
        rw [if_pos ⟨rfl, hpurge, rfl⟩]
        split_ifs with hgiven
        · exact (hbooks.giveUp hgiven.2.2.2).keep hkeep
        · exact hbooks.fail.keep hkeep
  · rw [if_neg heq] at hbooks
    rw [if_neg fun h => heq h.1, if_neg fun h => heq h.1]
    refine hbooks.keep fun n hn => (hwaiting hn).resolve_left ?_
    rintro ⟨parameter', hagain, -⟩
    exact heq hagain.same.symm

theorem books_step (hs : s.Base) (hbooks : s.Books h operation)
    (hretried : stoppedError operation ≠ none) (hstep : step s event = some t) :
    t.Books (record s h event) operation := by
  by_cases hthread : event.isThread
  · cases event with
    | expire => exact books_expire hs hbooks hstep
    | deliver => exact books_deliver hs hbooks hstep
    | operated done fresh => exact books_operated hs hbooks hretried hstep
    | _ => cases hthread
  · exact books_asked hs hbooks hretried (Bool.eq_false_iff.mpr hthread) hstep

/-- **Failures and repetitions.** An operation that is given up has failed five times since it was
given up before, and five failures at most come from one request; what waits or is taken has failed
less than five times. -/
theorem retries_of_exec {events : List Event}
    (hexec : Run.exec recorded ({}, {}) events = some (s, h))
    {error : Error} (hstopped : stoppedError operation = some error) :
    5 * s.notified.count error ≤ h.failures operation ∧
      h.failures operation ≤ 5 * h.requests operation ∧
      (∀ parameter, s.waiting operation = some parameter → parameter.numberOfFailures < 5) ∧
      ∀ parameter, s.inHand = some (operation, parameter) → parameter.numberOfFailures < 5 := by
  have hinit : State.Books {} {} operation := by
    rw [State.Books, State.stops, hstopped]
    exact Books.init
  have hbooks :=
    (inv_run (I := fun s h => s.Books h operation) hinit (fun _ _ _ _ hs hbooks hstep =>
    books_step hs hbooks (by simp [hstopped]) hstep) hexec).2
  have hstops : s.stops operation = s.notified.count error := by rw [State.stops, hstopped]
  refine ⟨hstops ▸ hbooks.counted, ?_, fun parameter hwaiting => ?_, fun parameter hinHand => ?_⟩
  · have hbudget := hbooks.budget
    omega
  · exact (hbooks.waits _ (by rw [hwaiting]; rfl)).1
  · exact (hbooks.takes _ (by rw [State.taken_of_inHand hinHand, if_pos rfl]; rfl)).1

/-- A migration fails five times. -/
def failsAlways : List Event :=
  [.registerAsRequired .migration "a" true, .asyncMigrate "a" false] ++
    (List.replicate 5 [.tick 5000000000, .expire, .deliver, .operated none false]).flatten

theorem retries_of_exec_failsAlways : ∃ s h, Run.exec recorded ({}, {}) failsAlways = some (s, h) ∧
    s.notified = [migrationStopped "a"] ∧ h.failures (.migrate "a") = 5 ∧
    5 * s.notified.count (migrationStopped "a") ≤ h.failures (.migrate "a") ∧
    h.failures (.migrate "a") ≤ 5 * h.requests (.migrate "a") := by
  have hexec : ∃ r, Run.exec recorded ({}, {}) failsAlways = some r ∧
      r.1.notified = [migrationStopped "a"] ∧ r.2.failures (.migrate "a") = 5 := ⟨_, rfl, rfl, rfl⟩
  obtain ⟨⟨s, h⟩, hexec, hnotified, hfailures⟩ := hexec
  have hstopped : stoppedError (.migrate "a") = some (migrationStopped "a") := rfl
  have hretries := retries_of_exec hexec hstopped
  exact ⟨s, h, hexec, hnotified, hfailures, hretries.1, hretries.2.1⟩

end Repetitions

end Wcdb.OperationQueue
