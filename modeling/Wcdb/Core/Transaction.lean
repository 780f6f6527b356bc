import Mathlib.Data.List.Basic
import Wcdb.Lib.Savepoint

/-!
# Transactions of a handle

`AbstractHandle` offers nested transactions over one SQLite connection: the outermost level is a
`BEGIN IMMEDIATE` transaction, every inner level a savepoint named after its level. The handle
keeps a level counter of its own (`m_transactionLevel`) beside SQLite's state, and a three-valued
`m_transactionError` that decides whether inner levels are real savepoints (`Allowed`) and whether
the outermost level may still be committed (`Fatal`).

SQLite is `Savepoint.Database` with faults: each statement takes one `StatementOutcome` of the
handle's list, and besides failing it may take the whole transaction with it. Statements other
than those on transactions are writes of the content.
-/

namespace Wcdb

open Savepoint (Database Command Refusal)

/-- What befalls a statement: nothing, an error, or an error after which SQLite has rolled the
whole transaction back on its own (an interrupt, a full disk, an I/O error). -/
inductive StatementOutcome where
  | done
  | failed
  | rolledBack
  deriving DecidableEq, Repr

/-- `AbstractHandle::TransactionError`. -/
inductive TransactionError where
  | allowed
  | notAllowed
  | fatal
  deriving DecidableEq, Repr

/-- What a statement reports. -/
inductive Report where
  | succeed
  | refused (r : Refusal)
  | error
  deriving DecidableEq, Repr

/-- The part of `AbstractHandle` that its transactions use. `transactionLevel` is an `int` of the
source that counts open levels. `outcomes` are the outcomes of the statements to come, `done` once
the list has run out; `vanished` lists what SQLite has rolled back on its own. -/
structure Handle (σ : Type) where
  database : Database String σ
  transactionLevel : ℕ := 0
  transactionError : TransactionError := .allowed
  enableLiteMode : Bool := false
  outcomes : List StatementOutcome := []
  vanished : List σ := []
  deriving DecidableEq, Repr

namespace Handle

variable {σ : Type}

def isInTransaction (h : Handle σ) : Bool := h.database.transaction.isSome

/-- The effect of `notifyError` on the transaction: an error where none is allowed is fatal. -/
def notifyError (h : Handle σ) : Handle σ :=
  { h with transactionError := if h.transactionError = .allowed then .allowed else .fatal }

/-- SQLite ends the transaction on its own. -/
def rollBackOnItsOwn (h : Handle σ) : Handle σ :=
  match h.database.transaction with
  | none => h
  | some t =>
      { h with
        database := { h.database with transaction := none }
        vanished := t.content :: h.vanished }

def executeStatement (statement : Command String σ) (h : Handle σ) : Report × Handle σ :=
  let after := { h with outcomes := h.outcomes.tail }
  match h.outcomes.headD .done with
  | .failed => (.error, after.notifyError)
  | .rolledBack => (.error, after.rollBackOnItsOwn.notifyError)
  | .done =>
      match h.database.exec statement with
      | .ok d => (.succeed, { after with database := d })
      | .error r => (.refused r, after.notifyError)

def markErrorNotAllowedWithinTransaction (h : Handle σ) : Handle σ :=
  if h.transactionError = .allowed then { h with transactionError := .notAllowed } else h

def getSavepointName (transactionLevel : ℕ) : String := "wcdb_lv_" ++ toString transactionLevel

/-- A statement that the code runs only under a condition; it counts as succeeded otherwise. -/
def executeIf (condition : Bool) (statement : Command String σ) (h : Handle σ) :
    Report × Handle σ :=
  if condition then h.executeStatement statement else (.succeed, h)

def beginTransaction (h : Handle σ) : Bool × Handle σ :=
  let h :=
    if h.isInTransaction then
      if h.transactionLevel = 0 then { h with transactionLevel := 1 } else h
    else { h with transactionLevel := 0 }
  if 0 < h.transactionLevel then
    match h.executeIf (h.transactionError = .allowed)
        (.savepoint (getSavepointName (h.transactionLevel + 1))) with
    | (.succeed, h) => (true, { h with transactionLevel := h.transactionLevel + 1 })
    | (_, h) => (false, h)
  else
    match h.executeStatement .begin with
    | (.succeed, h) => (true, { h with transactionLevel := 1 })
    | (_, h) => (false, h)

def commitTransaction (h : Handle σ) : Bool × Handle σ :=
  if 1 < h.transactionLevel then
    match h.executeIf (h.transactionError = .allowed && h.isInTransaction)
        (.release (getSavepointName h.transactionLevel)) with
    | (.succeed, h) => (true, { h with transactionLevel := h.transactionLevel - 1 })
    | (_, h) => (false, h)
  else
    -- the transaction may be gone already, which counts as a commit
    match h.executeIf h.isInTransaction .commit with
    | (.succeed, h) => (true, { h with transactionLevel := 0, transactionError := .allowed })
    | (_, h) => (false, h)

def rollbackTransaction (h : Handle σ) : Handle σ :=
  if h.enableLiteMode then h.notifyError.commitTransaction.2
  else if 1 < h.transactionLevel then
    match h.executeIf (h.transactionError = .allowed && h.isInTransaction)
        (.rollbackTo (getSavepointName h.transactionLevel)) with
    | (.succeed, h) => { h with transactionLevel := h.transactionLevel - 1 }
    | (.refused .noSuchSavepoint, h) => { h with transactionLevel := h.transactionLevel - 1 }
    | (_, h) => h
  else
    match h.executeIf h.isInTransaction .rollback with
    | (.succeed, h) => { h with transactionLevel := 0, transactionError := .allowed }
    | (_, h) => h

def commitOrRollbackTransaction (h : Handle σ) : Bool × Handle σ :=
  if h.transactionError = .fatal then (false, h.rollbackTransaction)
  else
    match h.commitTransaction with
    | (true, h) => (true, h)
    | (false, h) => (false, h.rollbackTransaction)

theorem getSavepointName_injective : Function.Injective getSavepointName := by
  intro m n h
  have hrepr : m.repr = n.repr := (String.append_right_inj "wcdb_lv_").mp h
  have hdigits : Nat.toDigits 10 m = Nat.toDigits 10 n := by
    rw [← Nat.toList_repr, ← Nat.toList_repr, hrepr]
  rw [← Nat.ofDigitChars_toDigits (n := m) (by decide : 1 < 10) (by decide), hdigits,
    Nat.ofDigitChars_toDigits (by decide) (by decide)]

/-! ### The branches of the source -/

section Branches

variable {h : Handle σ}

theorem beginTransaction_outside (hin : h.isInTransaction = false) :
    h.beginTransaction =
      match { h with transactionLevel := 0 }.executeStatement .begin with
      | (.succeed, h) => (true, { h with transactionLevel := 1 })
      | (_, h) => (false, h) := by
  simp [beginTransaction, hin]

theorem beginTransaction_inside (hin : h.isInTransaction = true) (hlevel : 0 < h.transactionLevel) :
    h.beginTransaction =
      match h.executeIf (h.transactionError = .allowed)
        (.savepoint (getSavepointName (h.transactionLevel + 1))) with
      | (.succeed, h) => (true, { h with transactionLevel := h.transactionLevel + 1 })
      | (_, h) => (false, h) := by
  simp [beginTransaction, hin, hlevel, Nat.pos_iff_ne_zero.mp hlevel]

theorem commitTransaction_inner (hlevel : 1 < h.transactionLevel) :
    h.commitTransaction =
      match h.executeIf (h.transactionError = .allowed && h.isInTransaction)
        (.release (getSavepointName h.transactionLevel)) with
      | (.succeed, h) => (true, { h with transactionLevel := h.transactionLevel - 1 })
      | (_, h) => (false, h) :=
  if_pos hlevel

theorem commitTransaction_outer (hlevel : h.transactionLevel ≤ 1) :
    h.commitTransaction =
      match h.executeIf h.isInTransaction .commit with
      | (.succeed, h) => (true, { h with transactionLevel := 0, transactionError := .allowed })
      | (_, h) => (false, h) :=
  if_neg (Nat.not_lt.mpr hlevel)

theorem rollbackTransaction_lite (hlite : h.enableLiteMode = true) :
    h.rollbackTransaction = h.notifyError.commitTransaction.2 :=
  if_pos hlite

theorem rollbackTransaction_inner (hlite : h.enableLiteMode = false)
    (hlevel : 1 < h.transactionLevel) :
    h.rollbackTransaction =
      match h.executeIf (h.transactionError = .allowed && h.isInTransaction)
        (.rollbackTo (getSavepointName h.transactionLevel)) with
      | (.succeed, h) => { h with transactionLevel := h.transactionLevel - 1 }
      | (.refused .noSuchSavepoint, h) => { h with transactionLevel := h.transactionLevel - 1 }
      | (_, h) => h := by
  rw [rollbackTransaction, if_neg (by simp [hlite]), if_pos hlevel]

theorem rollbackTransaction_outer (hlite : h.enableLiteMode = false)
    (hlevel : h.transactionLevel ≤ 1) :
    h.rollbackTransaction =
      match h.executeIf h.isInTransaction .rollback with
      | (.succeed, h) => { h with transactionLevel := 0, transactionError := .allowed }
      | (_, h) => h := by
  rw [rollbackTransaction, if_neg (by simp [hlite]), if_neg (Nat.not_lt.mpr hlevel)]

end Branches

end Handle

end Wcdb
