import Wcdb.Core.OperationQueue

/-!
# The pace of purges

A purge is asked for when the last one ended more than thirty seconds ago. It can be asked for while
another one is executed, whose end does not count yet, and then follows it at once. The purge after
that one is too early for neither: of three purges in a row the third begins more than thirty
seconds after the end of the first (`purges_of_exec`).
-/

namespace Wcdb.OperationQueue

open MergeFTSIndex (Operation)

/-- A purge has ended long enough before. -/
def LongAgo (purge : Option Purge) (time : ℤ) : Prop :=
  ∀ p ∈ purge, p.ended + timeIntervalForPurgingAgain < time

/-- **The purges of a run.** A purge that waits was asked for long after the end of the last purge
or, unless a purge is in hand, of the one before. -/
structure Purges (s : State) (h : History) : Prop where
  lastPurge : ∀ p, h.purges[0]? = some p → s.lastPurge = p.ended
  past : ∀ p, h.purges[0]? = some p → p.ended ≤ s.now
  ordered : ∀ p q, h.purges[0]? = some p → h.purges[1]? = some q → q.ended ≤ p.ended
  waiting : s.waiting .purge ≠ none → LongAgo h.purges[1]? s.now ∧
    (s.taken .purge ≠ none → LongAgo h.purges[0]? s.now)
  handed : ∀ parameter, s.timedQueue.expireds = some (.purge, parameter) →
    LongAgo h.purges[1]? s.now
  executed : ∀ parameter, s.onTimed = some (.purge, parameter) → LongAgo h.purges[1]? h.began
  spaced : ∀ i p, h.purges[i]? = some p → LongAgo h.purges[i + 2]? p.began

section Purges

variable {s t : State} {h : History} {event : Event} {done : Option Bool} {fresh : Bool}

theorem LongAgo.mono {purge : Option Purge} {time time' : ℤ} (h : LongAgo purge time)
    (hle : time ≤ time') : LongAgo purge time' := fun p hp => (h p hp).trans_le hle

theorem purges_asked (hs : s.Base) (hpurges : Purges s h) (hthread : event.isThread = false)
    (hstep : step s event = some t) : Purges t (record s h event) := by
  have hasks := step_asks hs hthread hstep
  obtain ⟨-, -, hbegan, hsame, -⟩ := record_of_asks (s := s) (h := h) hthread
  constructor
  all_goals rw [hsame]
  case lastPurge =>
    rw [hasks.lastPurge]
    exact hpurges.lastPurge
  case past => exact fun p hp => (hpurges.past p hp).trans hasks.now
  case ordered => exact hpurges.ordered
  case waiting =>
    intro hwaiting
    rw [hasks.taken]
    obtain ⟨parameter, hparameter⟩ := Option.ne_none_iff_exists'.mp hwaiting
    obtain hasked | ⟨hbefore, -⟩ := hasks.waiting _ _ hparameter
    · have hinterval := hasked.purge rfl
      have hfirst : LongAgo h.purges[0]? t.now := by
        intro p hp
        have hnow := hasks.now
        rw [hpurges.lastPurge p hp] at hinterval
        omega
      refine ⟨fun q hq => ?_, fun _ => hfirst⟩
      obtain ⟨p, hp⟩ : ∃ p, h.purges[0]? = some p := by
        have hlt := (List.getElem?_eq_some_iff.mp hq).1
        exact ⟨_, List.getElem?_eq_getElem (Nat.zero_lt_of_lt hlt)⟩
      have hordered := hpurges.ordered p q hp hq
      have hlong := hfirst p hp
      omega
    · obtain ⟨hsecond, hfirst⟩ := hpurges.waiting (by simp [hbefore])
      exact ⟨hsecond.mono hasks.now, fun h => (hfirst h).mono hasks.now⟩
  case handed =>
    rw [hasks.expireds]
    exact fun parameter hexpireds => (hpurges.handed parameter hexpireds).mono hasks.now
  case executed =>
    rw [hasks.onTimed, hbegan]
    exact hpurges.executed
  case spaced => exact hpurges.spaced

theorem purges_expire (hs : s.Base) (hpurges : Purges s h) (hstep : step s .expire = some t) :
    Purges t (record s h .expire) := by
  obtain ⟨hnone, rfl | ⟨timedQueue, operation, parameter, rfl, hexpireds, hnow, -, hwaiting, hgone,
    hothers⟩⟩ := expire_cases hs hstep
  · exact hpurges
  · have hpast : ({ s with timedQueue } : State).now = s.now := hnow
    have honTimed : s.onTimed = none := by
      rw [State.inHand] at hnone
      split at hnone
      · cases hnone
      · assumption
    have hinHand : ({ s with timedQueue } : State).inHand = some (operation, parameter) := by
      simp only [State.inHand, honTimed, hexpireds]
    change Purges _ h
    constructor
    case lastPurge => exact hpurges.lastPurge
    case past =>
      rw [hpast]
      exact hpurges.past
    case ordered => exact hpurges.ordered
    case waiting =>
      intro hpurge
      have hne : .purge ≠ operation := by
        rintro rfl
        exact hpurge hgone
      rw [hothers _ hne] at hpurge
      rw [hpast, State.taken_of_inHand hinHand, if_neg (Ne.symm hne)]
      exact ⟨(hpurges.waiting hpurge).1, fun h => absurd rfl h⟩
    case handed =>
      rintro parameter' heq
      rw [hpast]
      obtain ⟨rfl, rfl⟩ := Prod.mk.inj (Option.some.inj (hexpireds.symm.trans heq))
      exact (hpurges.waiting (by simp [hwaiting])).1
    case executed => exact hpurges.executed
    case spaced => exact hpurges.spaced

theorem purges_deliver (hs : s.Base) (hpurges : Purges s h) (hstep : step s .deliver = some t) :
    Purges t (record s h .deliver) := by
  obtain ⟨operation, parameter, hexpireds, honTimed, rfl⟩ := deliver_cases hs hstep
  have hnow : (s.deliver operation parameter).now = s.now :=
    by rw [State.now, timedQueue_deliver]; rfl
  have hwaiting : (s.deliver operation parameter).waiting .purge = s.waiting .purge := by
    rw [State.waiting, timedQueue_deliver]
    rfl
  have hinHand : s.inHand = some (operation, parameter) := by
    rw [State.inHand, honTimed, hexpireds]
  have hrecord : (record s h .deliver).purges = h.purges := by
    rw [record, hexpireds]
    dsimp only
    split_ifs <;> rfl
  constructor
  all_goals rw [hrecord]
  case lastPurge =>
    rw [records_deliver.2]
    exact hpurges.lastPurge
  case past =>
    rw [hnow]
    exact hpurges.past
  case ordered => exact hpurges.ordered
  case waiting =>
    rw [hwaiting, hnow]
    intro hpurge
    obtain ⟨hsecond, hfirst⟩ := hpurges.waiting hpurge
    refine ⟨hsecond, fun htaken => hfirst ?_⟩
    rw [State.taken, State.inHand, onTimed_deliver, timedQueue_deliver, honTimed] at htaken
    rw [State.taken_of_inHand hinHand]
    split_ifs at htaken
    · exact absurd rfl htaken
    · exact htaken
  case handed =>
    rw [timedQueue_deliver]
    intro parameter' heq
    cases heq
  case executed =>
    rw [onTimed_deliver, record, hexpireds]
    dsimp only
    intro parameter' heq
    split_ifs at heq ⊢
    · rw [honTimed] at heq
      cases heq
    · obtain ⟨rfl, rfl⟩ := Prod.mk.inj (Option.some.inj heq)
      exact hpurges.handed parameter hexpireds
  case spaced => exact hpurges.spaced

theorem purges_operated (hs : s.Base) (hpurges : Purges s h)
    (hstep : step s (.operated done fresh) = some t) :
    Purges t (record s h (.operated done fresh)) := by
  obtain ⟨operation, parameter, honTimed, rfl⟩ := operated_cases hstep
  have hasks : Asks _ _ (s.operated operation parameter done fresh) := operated_asks hs
  have hinHand : s.inHand = some (operation, parameter) := by rw [State.inHand, honTimed]
  have hnow : s.now ≤ (s.operated operation parameter done fresh).now := hasks.now
  have hended : (s.ended operation parameter done).inHand = none := hs.thread (by simp [honTimed])
  have htaken : (s.operated operation parameter done fresh).taken .purge = none := by
    rw [hasks.taken, State.taken_of_none hended]
  have hexpireds : (s.operated operation parameter done fresh).timedQueue.expireds = none := by
    rw [hasks.expireds]
    exact hs.thread (by simp [honTimed])
  have hidle : (s.operated operation parameter done fresh).onTimed = none := hasks.onTimed
  -- A purge is not asked for again.
  have hwaiting (hpurge : (s.operated operation parameter done fresh).waiting .purge ≠ none) :
      s.waiting .purge ≠ none := by
    obtain ⟨parameter', hparameter⟩ := Option.ne_none_iff_exists'.mp hpurge
    obtain hagain | ⟨hbefore, -⟩ := hasks.waiting _ _ hparameter
    · exact absurd (hagain.same ▸ rfl) hagain.retried
    · have hbefore : s.waiting .purge = some parameter' := hbefore
      simp [hbefore]
  rw [record, honTimed]
  dsimp only
  rw [History.operated]
  by_cases hpurge : operation = .purge
  · subst hpurge
    rw [if_pos rfl]
    constructor
    case lastPurge =>
      rintro p hp
      obtain rfl := Option.some.inj hp
      rw [hasks.lastPurge]
      change (if (.purge : Operation String) = .purge then s.now else s.lastPurge) = s.now
      exact if_pos rfl
    case past =>
      rintro p hp
      obtain rfl := Option.some.inj hp
      exact hnow
    case ordered =>
      rintro p q hp hq
      obtain rfl := Option.some.inj hp
      exact hpurges.past q hq
    case waiting =>
      intro hwaits
      obtain ⟨-, hfirst⟩ := hpurges.waiting (hwaiting hwaits)
      rw [State.taken_of_inHand hinHand, if_pos rfl] at hfirst
      exact ⟨(hfirst (by simp)).mono hnow, fun h => absurd htaken h⟩
    case handed =>
      intro parameter' heq
      rw [hexpireds] at heq
      cases heq
    case executed =>
      intro parameter' heq
      rw [hidle] at heq
      cases heq
    case spaced =>
      intro i p hp
      cases i with
      | zero =>
        obtain rfl := Option.some.inj hp
        exact hpurges.executed parameter honTimed
      | succ i => exact hpurges.spaced i p hp
  · rw [if_neg hpurge]
    have hsame (h' : History) (hsame : h'.purges = h.purges) :
        Purges (s.operated operation parameter done fresh) h' := by
      constructor
      all_goals rw [hsame]
      case lastPurge =>
        rw [hasks.lastPurge, State.ended, if_neg hpurge]
        exact hpurges.lastPurge
      case past => exact fun p hp => (hpurges.past p hp).trans hnow
      case ordered => exact hpurges.ordered
      case waiting =>
        intro hwaits
        exact ⟨(hpurges.waiting (hwaiting hwaits)).1.mono hnow, fun h => absurd htaken h⟩
      case handed =>
        intro parameter' heq
        rw [hexpireds] at heq
        cases heq
      case executed =>
        intro parameter' heq
        rw [hidle] at heq
        cases heq
      case spaced => exact hpurges.spaced
    split_ifs
    · exact hsame h rfl
    · exact hsame _ rfl

theorem purges_step (hs : s.Base) (hpurges : Purges s h) (hstep : step s event = some t) :
    Purges t (record s h event) := by
  by_cases hthread : event.isThread
  · cases event with
    | expire => exact purges_expire hs hpurges hstep
    | deliver => exact purges_deliver hs hpurges hstep
    | operated done fresh => exact purges_operated hs hpurges hstep
    | _ => cases hthread
  · exact purges_asked hs hpurges (Bool.eq_false_iff.mpr hthread) hstep

theorem Purges.init : Purges {} {} where
  lastPurge _ h := by cases h
  past _ h := by cases h
  ordered _ _ h := by cases h
  waiting h := absurd rfl h
  handed _ h := by cases h
  executed _ h := by cases h
  spaced _ _ h := by cases h

/-- **The pace of purges.** Of three purges in a row the third begins more than thirty seconds after
the end of the first. -/
theorem purges_of_exec {events : List Event}
    (hexec : Run.exec recorded ({}, {}) events = some (s, h))
    {i : ℕ} {first third : Purge} (hthird : h.purges[i]? = some third)
    (hfirst : h.purges[i + 2]? = some first) :
    first.ended + timeIntervalForPurgingAgain < third.began := by
  have hpurges := (inv_run (I := Purges) Purges.init
    (fun _ _ _ _ hs hpurges hstep => purges_step hs hpurges hstep) hexec).2
  exact hpurges.spaced i third hthird first hfirst

/-- A purge is asked for while another one is executed, follows it at once, and a third one comes
later. -/
def threePurges : List Event :=
  [.tick 40000000000, .asyncPurge { source := .memoryWarning }, .expire, .deliver,
    .asyncPurge { source := .memoryWarning }, .tick 1, .operated none false, .expire, .deliver,
    .tick 1, .operated none false, .tick 30000000001, .asyncPurge { source := .memoryWarning },
    .expire, .deliver, .operated none false]

theorem purges_of_exec_threePurges : ∃ s h first second third,
    Run.exec recorded ({}, {}) threePurges = some (s, h) ∧ h.purges = [third, second, first] ∧
      second.began = first.ended ∧ first.ended + timeIntervalForPurgingAgain < third.began := by
  have hexec : ∃ r, Run.exec recorded ({}, {}) threePurges = some r ∧
      r.2.purges = [⟨70000000003, 70000000003⟩, ⟨40000000001, 40000000002⟩,
        ⟨40000000000, 40000000001⟩] := ⟨_, rfl, rfl⟩
  obtain ⟨⟨s, h⟩, hexec, hpurges⟩ := hexec
  refine ⟨s, h, _, _, _, hexec, hpurges, rfl, ?_⟩
  exact purges_of_exec hexec (i := 0) (by rw [hpurges]; rfl) (by rw [hpurges]; rfl)

end Purges

end Wcdb.OperationQueue
