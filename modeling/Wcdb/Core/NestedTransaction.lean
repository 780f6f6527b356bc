import Mathlib.Data.List.Basic
import Wcdb.Core.Transaction
import Wcdb.Lib.Run

/-!
# Nested transactions behave ideally

What `beginTransaction`, `commitTransaction` and `rollbackTransaction` are for is stated by
`NestedTransactions`: the content and, for each open level, the content at its begin. An inner
rollback undoes exactly the writes since its own begin, an inner commit keeps them until the outer
end.

The handle implements this with savepoints that are named by level and left on SQLite's stack by
a rollback. `Refines` says what its stack may look like (`Savepoint.Levels`), and
`runs_as_nested` that in normal mode, with errors allowed and no faults, the handle goes along with
the ideal through every sequence of calls in which each end has an open begin.
-/

namespace Wcdb

open Savepoint (Levels)

/-- The calls of a client of the handle. -/
inductive TransactionCall (σ : Type) where
  | beginTransaction
  | commitTransaction
  | rollbackTransaction
  | write (f : σ → σ)

/-- Ideal nested transactions: `saved` has the content at the begin of each open level, innermost
first. -/
structure NestedTransactions (σ : Type) where
  content : σ
  saved : List σ
  deriving DecidableEq, Repr

variable {σ : Type}

/-- An end without an open begin is not a call of a bracketed sequence. -/
def NestedTransactions.step (n : NestedTransactions σ) :
    TransactionCall σ → Option (NestedTransactions σ)
  | .beginTransaction => some { n with saved := n.content :: n.saved }
  | .commitTransaction =>
      match n.saved with
      | [] => none
      | _ :: saved => some { n with saved }
  | .rollbackTransaction =>
      match n.saved with
      | [] => none
      | s :: saved => some ⟨s, saved⟩
  | .write f => some { n with content := f n.content }

namespace Handle

/-- A call on the handle; `none` when it reports a failure. -/
def call (h : Handle σ) : TransactionCall σ → Option (Handle σ)
  | .beginTransaction => if h.beginTransaction.1 then some h.beginTransaction.2 else none
  | .commitTransaction => if h.commitTransaction.1 then some h.commitTransaction.2 else none
  | .rollbackTransaction => some h.rollbackTransaction
  | .write f =>
      match h.executeStatement (.write f) with
      | (.succeed, h) => some h
      | _ => none

/-- A handle that has just been opened on a database. -/
def opened (content : σ) : Handle σ := { database := ⟨content, none⟩ }

/-- The handle stands for the ideal state: outside a transaction its database is the content;
inside, SQLite has the content at the outermost begin as committed, and the live savepoints of the
inner levels have the saved contents. -/
structure Refines (h : Handle σ) (n : NestedTransactions σ) : Prop where
  normal : h.enableLiteMode = false
  allowed : h.transactionError = .allowed
  faultless : h.outcomes = []
  level : h.transactionLevel = n.saved.length
  committed : h.database.committed = n.saved.getLastD n.content
  outside : n.saved = [] → h.database.transaction = none
  inside : n.saved ≠ [] → ∃ stack, h.database.transaction = some ⟨n.content, stack, true⟩ ∧
    Levels getSavepointName n.saved stack

theorem refines_opened (content : σ) : Refines (opened content) ⟨content, []⟩ where
  normal := rfl
  allowed := rfl
  faultless := rfl
  level := rfl
  committed := rfl
  outside := fun _ => rfl
  inside := fun h => absurd rfl h

/-- Without faults a statement does what the database does with it. -/
theorem executeStatement_of_ok {h : Handle σ} {c : Savepoint.Command String σ}
    {d : Savepoint.Database String σ} (hfault : h.outcomes = []) (hd : h.database.exec c = .ok d) :
    h.executeStatement c = (.succeed, { h with database := d }) := by
  obtain ⟨database, level, error, lite, outcomes, vanished⟩ := h
  subst hfault
  simp [executeStatement, hd]

variable {h : Handle σ} {n : NestedTransactions σ} {c s s' : σ} {saved : List σ}

theorem Refines.beginTransaction (hr : Refines h n) :
    ∃ h', h.call .beginTransaction = some h' ∧
      Refines h' { n with saved := n.content :: n.saved } := by
  obtain ⟨c, saved⟩ := n
  cases saved with
  | nil =>
    have htr : h.database.transaction = none := hr.outside rfl
    have hexec : Savepoint.Database.exec h.database .begin =
        .ok { h.database with transaction := some ⟨c, [], true⟩ } := by
      simp [Savepoint.Database.exec, htr, show h.database.committed = c from hr.committed]
    refine ⟨{ h with
      database := { h.database with transaction := some ⟨c, [], true⟩ }
      transactionLevel := 1 }, ?_, hr.normal, hr.allowed, hr.faultless, rfl, hr.committed,
      by simp, fun _ => ⟨[], rfl, Savepoint.levels_nil c⟩⟩
    have hout : h.isInTransaction = false := by simp [isInTransaction, htr]
    have hbegin := executeStatement_of_ok (h := { h with transactionLevel := 0 }) hr.faultless hexec
    simp [call, beginTransaction_outside hout, hbegin]
  | cons s saved =>
    obtain ⟨stack, htr, hlevels⟩ := hr.inside (by simp)
    have hlevel : h.transactionLevel = saved.length + 1 := hr.level
    have hexec : Savepoint.Database.exec h.database
        (.savepoint (getSavepointName (h.transactionLevel + 1))) =
        .ok { h.database with
          transaction := some ⟨c, (getSavepointName (saved.length + 2), c) :: stack, true⟩ } := by
      simp [Savepoint.Database.exec, htr, hlevel]
    refine ⟨{ h with
      database := { h.database with
        transaction := some ⟨c, (getSavepointName (saved.length + 2), c) :: stack, true⟩ }
      transactionLevel := h.transactionLevel + 1 }, ?_, hr.normal, hr.allowed, hr.faultless,
      by simp [hlevel], hr.committed, by simp,
      fun _ => ⟨_, rfl, hlevels.push c⟩⟩
    have hin : h.isInTransaction = true := by simp [isInTransaction, htr]
    have hsave := executeStatement_of_ok hr.faultless hexec
    simp [call, beginTransaction_inside hin (by omega), executeIf, hr.allowed, hsave]

theorem Refines.commitTransaction (hr : Refines h ⟨c, s :: saved⟩) :
    ∃ h', h.call .commitTransaction = some h' ∧ Refines h' ⟨c, saved⟩ := by
  obtain ⟨stack, htr, hlevels⟩ := hr.inside (by simp)
  have hin : h.isInTransaction = true := by simp [isInTransaction, htr]
  cases saved with
  | nil =>
    have hexec : Savepoint.Database.exec h.database .commit = .ok ⟨c, none⟩ := by
      simp [Savepoint.Database.exec, htr]
    refine ⟨{ h with database := ⟨c, none⟩, transactionLevel := 0, transactionError := .allowed },
      ?_, hr.normal, rfl, hr.faultless, rfl, rfl, fun _ => rfl, fun hne => absurd rfl hne⟩
    have hcommit := executeStatement_of_ok hr.faultless hexec
    have hlevel : h.transactionLevel = 1 := hr.level
    simp [call, commitTransaction_outer (Nat.le_of_eq hlevel), executeIf, hin, hcommit]
  | cons s' saved =>
    have hlevel : h.transactionLevel = saved.length + 2 := hr.level
    obtain ⟨rest, hexec, hrest⟩ :=
      h.database.exec_release getSavepointName_injective htr rfl hlevels
    rw [← hlevel] at hexec
    refine ⟨{ h with
      database := { h.database with transaction := some ⟨c, rest, true⟩ }
      transactionLevel := h.transactionLevel - 1 }, ?_, hr.normal, hr.allowed, hr.faultless,
      by simp [hlevel], hr.committed, by simp, fun _ => ⟨rest, rfl, hrest⟩⟩
    have hrelease := executeStatement_of_ok hr.faultless hexec
    simp [call, commitTransaction_inner (h := h) (by omega), executeIf, hin, hr.allowed, hrelease]

theorem Refines.rollbackTransaction (hr : Refines h ⟨c, s :: saved⟩) :
    Refines h.rollbackTransaction ⟨s, saved⟩ := by
  obtain ⟨stack, htr, hlevels⟩ := hr.inside (by simp)
  have hin : h.isInTransaction = true := by simp [isInTransaction, htr]
  cases saved with
  | nil =>
    have hexec : Savepoint.Database.exec h.database .rollback =
        .ok { h.database with transaction := none } := by
      simp [Savepoint.Database.exec, htr]
    have hrollback := executeStatement_of_ok hr.faultless hexec
    have hlevel : h.transactionLevel = 1 := hr.level
    rw [rollbackTransaction_outer hr.normal (Nat.le_of_eq hlevel), hin, executeIf,
      if_pos rfl, hrollback]
    exact ⟨hr.normal, rfl, hr.faultless, rfl, hr.committed, fun _ => rfl,
      fun hne => absurd rfl hne⟩
  | cons s' saved =>
    have hlevel : h.transactionLevel = saved.length + 2 := hr.level
    obtain ⟨rest, hexec, hrest⟩ :=
      h.database.exec_rollbackTo getSavepointName_injective htr hlevels
    rw [← hlevel] at hexec
    have hrollback := executeStatement_of_ok hr.faultless hexec
    rw [rollbackTransaction_inner hr.normal (by omega), hr.allowed, hin, executeIf,
      if_pos (by simp), hrollback]
    exact ⟨hr.normal, hr.allowed, hr.faultless, by simp [hlevel], hr.committed,
      by simp, fun _ => ⟨rest, rfl, hrest⟩⟩

theorem Refines.write (hr : Refines h n) (f : σ → σ) :
    ∃ h', h.call (.write f) = some h' ∧ Refines h' { n with content := f n.content } := by
  obtain ⟨c, saved⟩ := n
  cases saved with
  | nil =>
    have htr : h.database.transaction = none := hr.outside rfl
    have hexec : Savepoint.Database.exec h.database (.write f) =
        .ok { h.database with committed := f c } := by
      simp [Savepoint.Database.exec, htr, show h.database.committed = c from hr.committed]
    refine ⟨{ h with database := { h.database with committed := f c } }, ?_, hr.normal,
      hr.allowed, hr.faultless, hr.level, rfl, fun _ => htr, fun hne => absurd rfl hne⟩
    simp [call, executeStatement_of_ok hr.faultless hexec]
  | cons s saved =>
    obtain ⟨stack, htr, hlevels⟩ := hr.inside (by simp)
    have hexec : Savepoint.Database.exec h.database (.write f) =
        .ok { h.database with transaction := some ⟨f c, stack, true⟩ } := by
      simp [Savepoint.Database.exec, htr]
    refine ⟨{ h with database := { h.database with transaction := some ⟨f c, stack, true⟩ } }, ?_,
      hr.normal, hr.allowed, hr.faultless, hr.level, hr.committed, by simp,
      fun _ => ⟨stack, rfl, hlevels⟩⟩
    simp [call, executeStatement_of_ok hr.faultless hexec]

/-- Every step of the ideal is one of the handle. -/
theorem Refines.step {a : TransactionCall σ} {n' : NestedTransactions σ} (hr : Refines h n)
    (hstep : n.step a = some n') : ∃ h', h.call a = some h' ∧ Refines h' n' := by
  obtain ⟨c, saved⟩ := n
  cases a with
  | beginTransaction =>
    cases hstep
    exact hr.beginTransaction
  | commitTransaction =>
    cases saved with
    | nil => cases hstep
    | cons s saved =>
      cases hstep
      exact hr.commitTransaction
  | rollbackTransaction =>
    cases saved with
    | nil => cases hstep
    | cons s saved =>
      cases hstep
      exact ⟨_, rfl, hr.rollbackTransaction⟩
  | write f =>
    cases hstep
    exact hr.write f

theorem Refines.content_eq (hr : Refines h n) : h.database.content = n.content := by
  obtain ⟨c, saved⟩ := n
  cases saved with
  | nil =>
    simp [Savepoint.Database.content, hr.outside rfl,
      show h.database.committed = c from hr.committed]
  | cons s saved =>
    obtain ⟨stack, htr, -⟩ := hr.inside (by simp)
    simp [Savepoint.Database.content, htr]

/-- **Nested transactions are ideal.** For every sequence of calls in which each end has an open
begin, to any depth and with any number of inner rollbacks followed by further levels: every call
succeeds, the content is that of the ideal nested transactions, the level counter is the nesting
depth, and what is committed is the content at the outermost open begin, or the content itself
when every level has been ended. -/
theorem runs_as_nested {content : σ} {calls : List (TransactionCall σ)}
    {n : NestedTransactions σ}
    (hcalls : Run.exec NestedTransactions.step ⟨content, []⟩ calls = some n) :
    ∃ h, Run.exec call (opened content) calls = some h ∧ h.database.content = n.content ∧
      h.transactionLevel = n.saved.length ∧
      h.database.committed = n.saved.getLastD n.content := by
  have hstep : ∀ (n : NestedTransactions σ) (h : Handle σ) a n', Refines h n → n.step a = some n' →
      ∃ h', h.call a = some h' ∧ Refines h' n' := fun _ _ _ _ hr hs => hr.step hs
  obtain ⟨h, hexec, hr⟩ := Run.simulates hstep (refines_opened content) hcalls
  exact ⟨h, hexec, hr.content_eq, hr.level, hr.committed⟩

/-- Two inner rollbacks at the same level leave two stale savepoints of the name of the third inner
level, whose rollback still finds its own. -/
def staleNames : List (TransactionCall (List ℕ)) :=
  [.beginTransaction, .write (· ++ [1]), .beginTransaction, .write (· ++ [2]),
    .rollbackTransaction, .beginTransaction, .rollbackTransaction, .write (· ++ [3]),
    .beginTransaction, .write (· ++ [4]), .rollbackTransaction, .commitTransaction]

theorem runs_staleNames :
    ∃ h, Run.exec call (opened []) staleNames = some h ∧ h.database.content = [1, 3] ∧
      h.transactionLevel = 0 ∧ h.database.committed = [1, 3] :=
  @runs_as_nested (List ℕ) [] staleNames ⟨[1, 3], []⟩ rfl

end Handle

end Wcdb
