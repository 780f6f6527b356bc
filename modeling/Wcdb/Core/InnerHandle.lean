import Mathlib.Data.List.Basic
import Wcdb.Core.Transaction

/-!
# Running callbacks in transactions

`InnerHandle::runTransaction` and `InnerHandle::runPausableTransactionWithOneLoop` wrap a callback
of the client into a transaction. A `Session` is a handle together with the client's view of it:
what each call has reported. The database's content is the list of the statements in effect,
numbered in the order of execution, so that a write can be followed from its report to the
committed database.

A session also notes whether a call has met one of the two **lapses** that its reports do not
survive: a commit after SQLite has discarded writes of an open level on its own, and a rollback
that fails and leaves its level open.
-/

namespace Wcdb

/-- Whether ending the current level takes a statement. -/
def Handle.endsByStatement {σ : Type} (h : Handle σ) : Bool :=
  h.isInTransaction && (h.transactionLevel ≤ 1 || h.transactionError = .allowed)

/-- `rollbackTransaction` runs a statement here that fails with its transaction left open. -/
def Handle.rollbackStaysOpen {σ : Type} (h : Handle σ) : Bool :=
  h.endsByStatement && h.outcomes.headD .done = .failed

/-- The rollback of `commitOrRollbackTransaction` runs a statement here that fails with its
transaction left open. -/
def Handle.commitStaysOpen {σ : Type} (h : Handle σ) : Bool :=
  if h.transactionError = .fatal then h.rollbackStaysOpen
  else h.rollbackStaysOpen && h.outcomes.tail.headD .done = .failed

/-- A handle and what its calls have reported. `executed` counts the statements so far;
`recorded` are the numbers of those that reported success in the innermost open level (outside
any level when there is none) and have not been given up since, `enclosing` those of the levels
around it. `memory` is the memory of the client's callbacks, `busy` the answers of
`checkMainThreadBusyRetry` to come. -/
structure Session (U : Type) where
  handle : Handle (List ℕ)
  memory : U
  executed : ℕ := 0
  recorded : List ℕ := []
  enclosing : List (List ℕ) := []
  lapsed : Bool := false
  busy : List Bool := []

namespace Session

variable {U : Type}

/-- The calls of a session; `none` when a call does not return. -/
abbrev Program (U α : Type) := StateT (Session U) Option α

/-- A write that SQLite has discarded on its own. -/
def discarded (s : Session U) (w : ℕ) : Bool :=
  s.handle.vanished.any (fun v => decide (w ∈ v)) && decide (w ∉ s.handle.database.committed)

/-- SQLite has discarded a write that the client still counts on. -/
def misses (s : Session U) : Bool :=
  (s.recorded :: s.enclosing).any fun level => level.any s.discarded

/-- Calling `commitOrRollbackTransaction` here is a lapse. -/
def commitLapses (s : Session U) : Bool :=
  (s.handle.transactionError ≠ .fatal && s.misses) || s.handle.commitStaysOpen

/-- The innermost level ends and its writes belong to the level around it. -/
def merge (s : Session U) : Session U :=
  match s.enclosing with
  | [] => s
  | level :: enclosing => { s with recorded := level ++ s.recorded, enclosing }

/-- The innermost level ends and its writes are given up. -/
def drop (s : Session U) : Session U :=
  match s.enclosing with
  | [] => s
  | level :: enclosing => { s with recorded := level, enclosing }

/-! ### The calls of the handle -/

def beginTransaction : Program U Bool := fun s =>
  match s.handle.beginTransaction with
  | (true, handle) =>
      some (true, { s with handle, recorded := [], enclosing := s.recorded :: s.enclosing })
  | (false, handle) => some (false, { s with handle })

def commitOrRollbackTransaction : Program U Bool := fun s =>
  let lapsed := s.lapsed || s.commitLapses
  match s.handle.commitOrRollbackTransaction with
  | (true, handle) => some (true, { s.merge with handle, lapsed })
  | (false, handle) => some (false, { s.drop with handle, lapsed })

def rollbackTransaction : Program U Unit := fun s =>
  some ((), { s.drop with
    handle := s.handle.rollbackTransaction
    lapsed := s.lapsed || s.handle.rollbackStaysOpen })

/-- A statement of the client. -/
def execute : Program U Bool := fun s =>
  match s.handle.executeStatement (.write (· ++ [s.executed])) with
  | (.succeed, handle) =>
      some (true, { s with
        handle, executed := s.executed + 1, recorded := s.recorded ++ [s.executed] })
  | (_, handle) => some (false, { s with handle, executed := s.executed + 1 })

def isInTransaction : Program U Bool := fun s => some (s.handle.isInTransaction, s)

def markErrorNotAllowedWithinTransaction : Program U Unit := fun s =>
  some ((), { s with handle := s.handle.markErrorNotAllowedWithinTransaction })

def checkMainThreadBusyRetry : Program U Bool := fun s =>
  some (s.busy.headD false, { s with busy := s.busy.tail })

/-- The client computes on its own memory. -/
def compute {α : Type} (f : U → α × U) : Program U α := fun s =>
  some ((f s.memory).1, { s with memory := (f s.memory).2 })

/-! ### `InnerHandle` -/

def runTransaction (transaction : Program U Bool) : Program U Bool := do
  if ← beginTransaction then
    if ← transaction then
      commitOrRollbackTransaction
    else
      rollbackTransaction
      return false
  else
    return false

/-- The loop of `runPausableTransactionWithOneLoop`; the callback is told whether its iteration
starts a new transaction and returns its success and the value it leaves in `stop`. `fuel` bounds
the number of iterations; running out of it is not to return. -/
def pausableLoop (transaction : Bool → Program U (Bool × Bool)) :
    ℕ → Bool → Program U Bool
  | 0, _ => failure
  | fuel + 1, needBegin => do
      if ← (if needBegin then beginTransaction else pure true) then
        let result ← transaction needBegin
        if result.1 then
          if (← checkMainThreadBusyRetry) || result.2 then
            if ← commitOrRollbackTransaction then
              if result.2 then return true else pausableLoop transaction fuel true
            else
              return false
          else
            pausableLoop transaction fuel false
        else
          rollbackTransaction
          return false
      else
        return false

def runPausableTransactionWithOneLoop (fuel : ℕ) (transaction : Bool → Program U (Bool × Bool)) :
    Program U Bool :=
  pausableLoop transaction fuel true

/-! ### Callbacks and reachable sessions -/

/-- The calls that neither open nor end a level. -/
inductive Plain : {α : Type} → Program U α → Prop where
  | execute : Plain execute
  | isInTransaction : Plain isInTransaction
  | markErrorNotAllowed : Plain markErrorNotAllowedWithinTransaction
  | checkMainThreadBusyRetry : Plain checkMainThreadBusyRetry
  | compute {α : Type} (f : U → α × U) : Plain (compute f)

/-- What a callback may do: plain calls and further transactions, in any order and to any depth,
each decided by what it has seen so far. The levels it opens itself it ends again, as
`runTransaction` does. -/
inductive Callback : {α : Type} → Program U α → Prop where
  | pure {α : Type} (a : α) : Callback (pure a)
  | bind {α β : Type} {p : Program U α} {f : α → Program U β} :
      Callback p → (∀ a, Callback (f a)) → Callback (p >>= f)
  | plain {α : Type} {p : Program U α} : Plain p → Callback p
  | runTransaction {transaction : Program U Bool} :
      Callback transaction → Callback (runTransaction transaction)
  | runPausable (fuel : ℕ) {transaction : Bool → Program U (Bool × Bool)} :
      (∀ isNew, Callback (transaction isNew)) →
      Callback (runPausableTransactionWithOneLoop fuel transaction)

/-- A session on a database just opened. -/
def start (enableLiteMode : Bool) (outcomes : List StatementOutcome) (busy : List Bool)
    (memory : U) :
    Session U :=
  { handle := { database := ⟨[], none⟩, enableLiteMode, outcomes }, memory, busy }

/-- The sessions that a client can reach with calls in any order, also those in the middle of
levels that it has opened. -/
inductive Reachable : Session U → Prop where
  | start (enableLiteMode outcomes busy memory) :
      Reachable (start enableLiteMode outcomes busy memory)
  | plain {α : Type} {p : Program U α} {s s' : Session U} {a : α} :
      Reachable s → Plain p → p s = some (a, s') → Reachable s'
  | beginTransaction {s s' : Session U} {a : Bool} :
      Reachable s → beginTransaction s = some (a, s') → Reachable s'
  | commitOrRollbackTransaction {s s' : Session U} {a : Bool} :
      Reachable s → commitOrRollbackTransaction s = some (a, s') → Reachable s'
  | rollbackTransaction {s s' : Session U} :
      Reachable s → rollbackTransaction s = some ((), s') → Reachable s'

/-- **The writes that a reported success promises**: those on record at the caller's level are in
the committed database, or, when levels of the caller are still open, in the transaction that is
still open. -/
def Kept (s : Session U) : Prop :=
  ∀ w ∈ s.recorded, w ∈ s.handle.database.committed ∨
    s.enclosing ≠ [] ∧ ∃ t, s.handle.database.transaction = some t ∧ w ∈ t.content

instance (s : Session U) : Decidable s.Kept :=
  inferInstanceAs (Decidable (∀ w ∈ s.recorded, _))

end Session

end Wcdb
