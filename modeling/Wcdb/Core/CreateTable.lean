import Wcdb.Core.ReportedCommit
import Wcdb.Lib.Run

/-!
# Creating and upgrading tables

`BaseBinding::createTable` brings a table to what a binding defines: it creates the table, or adds
the columns that it does not have yet, and creates and drops the indexes, all in one transaction of
the handle. The columns are looked up by their exact names, and SQLite compares without case, so
that a column may be added that is there already; `addColumn` takes this refusal for a success and
undoes what it means for the transaction.

`upgrade` is what a call is to do to a schema, without faults and without a transaction.
`upgraded_of_exec`: whatever calls are made with whatever bindings, and whichever statements fail,
the committed schema is what the calls that reported a success make of it, one after another. So no
table loses a column, and those of every binding that was reported are there (`Grows`, `Defines`).
-/

namespace Wcdb

/-! ### Schemas -/

namespace Ddl

structure Column (N D : Type) where
  name : N
  definition : D
  deriving DecidableEq

structure Table (N D : Type) where
  name : N
  columns : List (Column N D)
  deriving DecidableEq

structure Index (N : Type) where
  name : N
  table : N
  columns : List N
  deriving DecidableEq

structure Schema (N D : Type) where
  tables : List (Table N D)
  indexes : List (Index N)
  deriving DecidableEq

/-- Why SQLite refuses a statement. -/
inductive Refused where
  | duplicateColumnName
  | noSuchTable
  | noSuchColumn
  deriving DecidableEq

-- Names are compared by what `fold` makes of them, which drops the case.
variable {N D F : Type} [DecidableEq F] (fold : N → F)

def Table.has (table : Table N D) (name : N) : Bool :=
  table.columns.any fun column => fold column.name = fold name

namespace Schema

def find (s : Schema N D) (table : N) : Option (Table N D) :=
  s.tables.find? fun t => fold t.name = fold table

/-- `ALTER TABLE .. ADD COLUMN`. -/
def append (table : N) (column : Column N D) (s : Schema N D) : Schema N D :=
  { s with tables := s.tables.map fun t =>
      if fold t.name = fold table then { t with columns := t.columns ++ [column] } else t }

def addColumn (table : N) (column : Column N D) (s : Schema N D) : Except Refused (Schema N D) :=
  match s.find fold table with
  | none => .error .noSuchTable
  | some t =>
    if t.has fold column.name then .error .duplicateColumnName
    else .ok (s.append fold table column)

/-- `CREATE TABLE IF NOT EXISTS`. -/
def create (table : N) (columns : List (Column N D)) (s : Schema N D) :
    Except Refused (Schema N D) :=
  if (s.find fold table).isSome then .ok s
  else if (columns.map fun column => fold column.name).Nodup then
    .ok { s with tables := s.tables ++ [⟨table, columns⟩] }
  else .error .duplicateColumnName

/-- `CREATE INDEX IF NOT EXISTS`. -/
def createIndex (index : Index N) (s : Schema N D) : Except Refused (Schema N D) :=
  if s.indexes.any fun i => fold i.name = fold index.name then .ok s
  else
    match s.find fold index.table with
    | none => .error .noSuchTable
    | some t =>
      if index.columns.all (t.has fold) then .ok { s with indexes := s.indexes ++ [index] }
      else .error .noSuchColumn

/-- `DROP INDEX IF EXISTS`. -/
def dropIndex (name : N) (s : Schema N D) : Except Refused (Schema N D) :=
  .ok { s with indexes := s.indexes.filter fun i => fold i.name ≠ fold name }

end Schema

end Ddl

/-! ### Statements of a handle -/

namespace Handle

variable {σ ε α : Type}

/-- A statement that SQLite may refuse for what the database holds. -/
def define (f : σ → Except ε σ) (h : Handle σ) : Except (Option ε) Unit × Handle σ :=
  match f h.database.content with
  | .ok content =>
    match h.executeStatement (.write fun _ => content) with
    | (.succeed, h) => (.ok (), h)
    | (_, h) => (.error none, h)
  | .error e =>
    match h.outcomes.headD .done with
    | .done => (.error (some e), { h with outcomes := h.outcomes.tail }.notifyError)
    | _ => (.error none, (h.executeStatement (.write id)).2)

/-- A statement that reads the database. -/
def query (f : σ → α) (h : Handle σ) : Option α × Handle σ :=
  match h.executeStatement (.write id) with
  | (.succeed, after) => (some (f h.database.content), after)
  | (_, after) => (none, after)

end Handle

/-! ### Bindings -/

namespace BaseBinding

open Ddl

/-- `Index::Action`. -/
inductive Action where
  | create
  | createForNewlyCreatedTableOnly
  | drop
  deriving DecidableEq

/-- `BaseBinding::Index`; `getIndexName` is the name for a table. -/
structure Index (N : Type) where
  getIndexName : N → N
  columns : List N
  action : Action

end BaseBinding

structure BaseBinding (N D : Type) where
  columnDefs : List (Ddl.Column N D)
  indexes : List (BaseBinding.Index N)
  enableAutoIncrementForExistingTable : Bool := false

namespace BaseBinding

open Ddl

variable {N D F : Type} [DecidableEq N] [DecidableEq F] (fold : N → F)
  (isCompressionColumn : N → Bool) (binding : BaseBinding N D) (table : N)

def createIndexStatements (isTableNewlyCreated : Bool) : List (Ddl.Index N) :=
  (binding.indexes.filter fun index => index.action = .create ∨
    index.action = .createForNewlyCreatedTableOnly ∧ isTableNewlyCreated).map fun index =>
      ⟨index.getIndexName table, table, index.columns⟩

def dropIndexStatements : List N :=
  (binding.indexes.filter fun index => index.action = .drop).map fun index =>
    index.getIndexName table

/-- `AbstractHandle::addColumn`. -/
def addColumn (column : Column N D) (h : Handle (Schema N D)) : Bool × Handle (Schema N D) :=
  match h.define (Schema.addColumn fold table column) with
  | (.ok _, after) => (true, after)
  | (.error (some .duplicateColumnName), after) =>
    (true, if h.transactionError = .fatal then after
      else { after with transactionError := h.transactionError })
  | (.error _, after) => (false, after)

/-- The loop over the column definitions, with the names that are left of those of the table. -/
def addColumns : List (Column N D) → List N → Handle (Schema N D) →
    Bool × List N × Handle (Schema N D)
  | [], columnNames, h => (true, columnNames, h)
  | column :: rest, columnNames, h =>
    if column.name ∈ columnNames then
      addColumns rest (columnNames.filter fun name => name ≠ column.name) h
    else
      match addColumn fold table column h with
      | (true, h) => addColumns rest columnNames h
      | (false, h) => (false, columnNames, h)

/-- Statements that are executed one after another, up to one that fails. -/
def executeAll {S : Type} (f : S → Schema N D → Except Refused (Schema N D)) :
    List S → Handle (Schema N D) → Bool × Handle (Schema N D)
  | [], h => (true, h)
  | statement :: rest, h =>
    match h.define (f statement) with
    | (.ok _, h) => executeAll f rest h
    | (.error _, h) => (false, h)

/-- The part of the callback for a table that exists; the names are those of the notices. -/
def addMissingColumns (h : Handle (Schema N D)) : Bool × List N × Handle (Schema N D) :=
  match h.query fun s => ((s.find fold table).elim [] Table.columns).map Column.name with
  | (none, h) => (false, [], h)
  | (some columnNames, h) =>
    match addColumns fold table binding.columnDefs columnNames h with
    | (false, _, h) => (false, [], h)
    | (true, columnNames, h) =>
      (true, columnNames.filter fun name => !isCompressionColumn name, h)

def executeIndexes (isTableNewlyCreated : Bool) (h : Handle (Schema N D)) :
    Bool × Handle (Schema N D) :=
  match executeAll (Schema.createIndex fold)
      (binding.createIndexStatements table isTableNewlyCreated) h with
  | (false, h) => (false, h)
  | (true, h) => executeAll (Schema.dropIndex fold) (binding.dropIndexStatements table) h

/-- `BaseBinding::configAutoincrementIfNeed`, which writes the text of the table into the master
table, is a parameter. -/
abbrev ConfigAutoincrement (N D : Type) :=
  BaseBinding N D → N → Handle (Schema N D) → Bool × Handle (Schema N D)

variable (configAutoincrementIfNeed : ConfigAutoincrement N D)

/-- The callback of `createTable`. -/
def transaction (h : Handle (Schema N D)) : Bool × List N × Handle (Schema N D) :=
  match h.query fun s => (s.find fold table).isSome with
  | (none, h) => (false, [], h)
  | (some true, h) =>
    match binding.addMissingColumns fold isCompressionColumn table h with
    | (false, skipped, h) => (false, skipped, h)
    | (true, skipped, h) =>
      match if binding.enableAutoIncrementForExistingTable then
          configAutoincrementIfNeed binding table h else (true, h) with
      | (false, h) => (false, skipped, h)
      | (true, h) =>
        let (success, h) := binding.executeIndexes fold table false h
        (success, skipped, h)
  | (some false, h) =>
    match h.define (Schema.create fold table binding.columnDefs) with
    | (.error _, h) => (false, [], h)
    | (.ok _, h) =>
      let (success, h) := binding.executeIndexes fold table true h
      (success, [], h)

/-- `createTable`, in `runTransactionIfNotInTransaction`. -/
def createTable (h : Handle (Schema N D)) : Bool × List N × Handle (Schema N D) :=
  let h := h.markErrorNotAllowedWithinTransaction
  if h.isInTransaction
    then binding.transaction fold isCompressionColumn table configAutoincrementIfNeed h
  else
    match h.beginTransaction with
    | (false, h) => (false, [], h)
    | (true, h) =>
      match binding.transaction fold isCompressionColumn table configAutoincrementIfNeed h with
      | (true, skipped, h) =>
        let (success, h) := h.commitOrRollbackTransaction
        (success, skipped, h)
      | (false, skipped, h) => (false, skipped, h.rollbackTransaction)

/-! ### What a call is for -/

/-- The columns that a table does not have are added in their order. -/
def addMissing : List (Column N D) → Schema N D → Schema N D
  | [], s => s
  | column :: rest, s =>
    addMissing rest
      (if (s.find fold table).any fun t => t.has fold column.name then s
        else s.append fold table column)

/-- Statements without faults, one after another. -/
def applyAll {S : Type} (f : S → Schema N D → Except Refused (Schema N D)) :
    List S → Schema N D → Except Refused (Schema N D)
  | [], s => .ok s
  | statement :: rest, s =>
    match f statement s with
    | .error e => .error e
    | .ok s => applyAll f rest s

def applyIndexes (isTableNewlyCreated : Bool) (s : Schema N D) : Except Refused (Schema N D) :=
  match applyAll (Schema.createIndex fold)
      (binding.createIndexStatements table isTableNewlyCreated) s with
  | .error e => .error e
  | .ok s => applyAll (Schema.dropIndex fold) (binding.dropIndexStatements table) s

/-- What a call makes of a schema. -/
def upgrade (s : Schema N D) : Except Refused (Schema N D) :=
  if (s.find fold table).isSome then
    binding.applyIndexes fold table false (addMissing fold table binding.columnDefs s)
  else
    match s.create fold table binding.columnDefs with
    | .error e => .error e
    | .ok s => binding.applyIndexes fold table true s

end BaseBinding

/-! ### Statements inside a transaction -/

namespace Handle

open Savepoint (Transaction)

section Inside

variable {σ ε α : Type} {h h' h'' : Handle σ} {t : Transaction String σ} {content content' : σ}

/-- Statements have succeeded, and the transaction has another content. -/
structure Works (h h' : Handle σ) (content : σ) : Prop where
  committed : h'.database.committed = h.database.committed
  transaction : h'.database.transaction =
    h.database.transaction.map fun t => { t with content := content }
  level : h'.transactionLevel = h.transactionLevel
  lite : h'.enableLiteMode = h.enableLiteMode
  error : h'.transactionError = h.transactionError

/-- A statement has failed. -/
structure Fails (h h' : Handle σ) : Prop where
  committed : h'.database.committed = h.database.committed
  level : h'.transactionLevel = h.transactionLevel
  lite : h'.enableLiteMode = h.enableLiteMode

theorem Works.refl (ht : h.database.transaction = some t) : h.Works h t.content :=
  ⟨rfl, by rw [ht, Option.map_some], rfl, rfl, rfl⟩

theorem Works.inside (hworks : h.Works h' content) (ht : h.database.transaction = some t) :
    h'.database.transaction = some { t with content := content } := by
  rw [hworks.transaction, ht, Option.map_some]

theorem Works.trans (hworks : h.Works h' content) (hworks' : h'.Works h'' content') :
    h.Works h'' content' where
  committed := hworks'.committed.trans hworks.committed
  transaction := by
    rw [hworks'.transaction, hworks.transaction, Option.map_map]
    rfl
  level := hworks'.level.trans hworks.level
  lite := hworks'.lite.trans hworks.lite
  error := hworks'.error.trans hworks.error

theorem Works.fails (hworks : h.Works h' content) (hfails : h'.Fails h'') : h.Fails h'' :=
  ⟨hfails.committed.trans hworks.committed, hfails.level.trans hworks.level,
    hfails.lite.trans hworks.lite⟩

/-- Whatever statement fails, nothing is committed. -/
theorem fails_of_executeStatement (h : Handle σ) (statement : Savepoint.Command String σ)
    (hne : (h.executeStatement statement).1 ≠ .succeed) :
    h.Fails (h.executeStatement statement).2 := by
  rcases h.executeStatement_cases statement with ⟨d, -, heq⟩ | ⟨r, -, heq⟩ | ⟨-, heq⟩ | ⟨-, heq⟩
  · exact absurd (by rw [heq]) hne
  · rw [heq]
    exact ⟨rfl, rfl, rfl⟩
  · rw [heq]
    exact ⟨rfl, rfl, rfl⟩
  · rw [heq]
    cases htr : h.database.transaction <;>
      exact ⟨by simp [rollBackOnItsOwn, notifyError, htr],
        by simp [rollBackOnItsOwn, notifyError, htr], by simp [rollBackOnItsOwn, notifyError, htr]⟩

/-- A write that succeeds is one of the transaction. -/
theorem works_of_executeStatement (ht : h.database.transaction = some t) (f : σ → σ)
    (hsucceed : (h.executeStatement (.write f)).1 = .succeed) :
    h.Works (h.executeStatement (.write f)).2 (f t.content) := by
  rcases h.executeStatement_cases (.write f) with ⟨d, hd, heq⟩ | ⟨r, -, heq⟩ | ⟨-, heq⟩ | ⟨-, heq⟩
  · simp only [Savepoint.Database.exec, ht, Except.ok.injEq] at hd
    subst hd
    rw [heq]
    exact ⟨rfl, by simp [ht], rfl, rfl, rfl⟩
  · rw [heq] at hsucceed
    cases hsucceed
  · rw [heq] at hsucceed
    cases hsucceed
  · rw [heq] at hsucceed
    cases hsucceed

theorem content_of_transaction (ht : h.database.transaction = some t) :
    h.database.content = t.content := by
  rw [Savepoint.Database.content, ht]

/-- What a definition can do in a transaction. -/
theorem define_cases (ht : h.database.transaction = some t) (f : σ → Except ε σ) :
    (∃ content h', h.define f = (.ok (), h') ∧ f t.content = .ok content ∧ h.Works h' content) ∨
    (∃ e h', h.define f = (.error (some e), h') ∧ f t.content = .error e ∧
      h' = { h with outcomes := h.outcomes.tail }.notifyError) ∨
    ∃ h', h.define f = (.error none, h') ∧ h.Fails h' := by
  rw [define, content_of_transaction ht]
  cases hf : f t.content with
  | ok content =>
    have hworks := works_of_executeStatement ht (fun _ => content)
    have hfails := h.fails_of_executeStatement (.write fun _ => content)
    dsimp only
    generalize h.executeStatement (.write fun _ => content) = r at hworks hfails ⊢
    obtain ⟨report, h'⟩ := r
    cases report with
    | succeed => exact .inl ⟨content, h', rfl, rfl, hworks rfl⟩
    | refused | error => exact .inr (.inr ⟨h', rfl, hfails (by rintro ⟨⟩)⟩)
  | error e =>
    have hfails := h.fails_of_executeStatement (.write id)
    dsimp only
    cases houtcome : h.outcomes.headD .done with
    | done => exact .inr (.inl ⟨e, _, rfl, rfl, rfl⟩)
    | failed | rolledBack => exact .inr (.inr ⟨_, rfl, hfails (by
        simp only [executeStatement, houtcome, ne_eq, reduceCtorEq, not_false_eq_true])⟩)

/-- What a query can do in a transaction. -/
theorem query_cases (ht : h.database.transaction = some t) (f : σ → α) :
    (∃ h', h.query f = (some (f t.content), h') ∧ h.Works h' t.content) ∨
      ∃ h', h.query f = (none, h') ∧ h.Fails h' := by
  rw [query, content_of_transaction ht]
  have hworks := works_of_executeStatement ht id
  have hfails := h.fails_of_executeStatement (.write id)
  generalize h.executeStatement (.write id) = r at hworks hfails
  obtain ⟨report, h'⟩ := r
  cases report with
  | succeed => exact .inl ⟨h', rfl, hworks rfl⟩
  | refused | error => exact .inr ⟨h', rfl, hfails (by rintro ⟨⟩)⟩

/-- Committed content and mode are as before. -/
def SameBase (h h' : Handle σ) : Prop :=
  h'.database.committed = h.database.committed ∧ h'.enableLiteMode = h.enableLiteMode

theorem Fails.sameBase (hfails : h.Fails h') : h.SameBase h' := ⟨hfails.committed, hfails.lite⟩

theorem SameBase.trans (hsame : h.SameBase h') (hsame' : h'.SameBase h'') : h.SameBase h'' :=
  ⟨hsame'.1.trans hsame.1, hsame'.2.trans hsame.2⟩

/-- A statement that commits nothing, whatever becomes of it. -/
theorem sameBase_executeIf (condition : Bool) {statement : Savepoint.Command String σ}
    (hkeep : ∀ d, h.database.exec statement = .ok d → d.committed = h.database.committed) :
    h.SameBase (h.executeIf condition statement).2 := by
  cases condition with
  | false => exact ⟨rfl, rfl⟩
  | true =>
    change h.SameBase (h.executeStatement statement).2
    have hfails := h.fails_of_executeStatement statement
    rcases h.executeStatement_cases statement with ⟨d, hd, heq⟩ | ⟨r, -, heq⟩ | ⟨-, heq⟩ | ⟨-, heq⟩
    · rw [heq]
      exact ⟨hkeep d hd, rfl⟩
    all_goals
      rw [heq] at hfails ⊢
      exact (hfails (by rintro ⟨⟩)).sameBase

theorem committed_exec_rollback {d : Savepoint.Database String σ}
    (hexec : h.database.exec .rollback = .ok d) : d.committed = h.database.committed := by
  simp only [Savepoint.Database.exec] at hexec
  split at hexec
  · cases hexec
  · obtain rfl := Except.ok.inj hexec
    rfl

theorem committed_exec_rollbackTo (name : String) {d : Savepoint.Database String σ}
    (hexec : h.database.exec (.rollbackTo name) = .ok d) :
    d.committed = h.database.committed := by
  simp only [Savepoint.Database.exec] at hexec
  split at hexec
  · cases hexec
  · split at hexec
    · cases hexec
    · obtain rfl := Except.ok.inj hexec
      rfl

/-- A rollback commits nothing, even if it fails. -/
theorem sameBase_rollbackTransaction (hlite : h.enableLiteMode = false) :
    h.SameBase h.rollbackTransaction := by
  by_cases hlevel : 1 < h.transactionLevel
  · rw [rollbackTransaction_inner hlite hlevel]
    have hsame := h.sameBase_executeIf (h.transactionError = .allowed && h.isInTransaction)
      fun d hd => committed_exec_rollbackTo (getSavepointName h.transactionLevel) hd
    split <;> rename_i heq <;> rw [heq] at hsame <;> exact hsame
  · rw [rollbackTransaction_outer hlite (Nat.not_lt.mp hlevel)]
    have hsame := h.sameBase_executeIf h.isInTransaction fun d hd => committed_exec_rollback hd
    split <;> rename_i heq <;> rw [heq] at hsame <;> exact hsame

theorem beginTransaction_cases (hout : h.isInTransaction = false) :
    (∃ h', h.beginTransaction = (true, h') ∧ h.SameBase h' ∧ h'.transactionLevel = 1 ∧
      h'.database.transaction = some ⟨h.database.committed, [], true⟩) ∨
      ∃ h', h.beginTransaction = (false, h') ∧ h.SameBase h' := by
  have hnone : h.database.transaction = none := by
    rw [isInTransaction, Option.isSome_eq_false_iff, Option.isNone_iff_eq_none] at hout
    exact hout
  rw [beginTransaction_outside hout]
  have hfails := ({ h with transactionLevel := 0 } : Handle σ).fails_of_executeStatement .begin
  rcases ({ h with transactionLevel := 0 } : Handle σ).executeStatement_cases .begin with
    ⟨d, hd, heq⟩ | ⟨r, -, heq⟩ | ⟨-, heq⟩ | ⟨-, heq⟩
  · simp only [Savepoint.Database.exec, hnone, Except.ok.injEq] at hd
    subst hd
    rw [heq]
    exact .inl ⟨_, rfl, ⟨rfl, rfl⟩, rfl, rfl⟩
  all_goals
    rw [heq] at hfails ⊢
    have hfails := hfails (by rintro ⟨⟩)
    exact .inr ⟨_, rfl, hfails.committed, hfails.lite⟩

/-- The end of an outermost transaction commits its content, or nothing. -/
theorem commitOrRollback_cases (hlite : h.enableLiteMode = false) (hlevel : h.transactionLevel ≤ 1)
    (ht : h.database.transaction = some t) :
    (h.commitOrRollbackTransaction.1 = true ∧
      h.commitOrRollbackTransaction.2.database.committed = t.content ∧
      h.commitOrRollbackTransaction.2.enableLiteMode = false) ∨
      h.commitOrRollbackTransaction.1 = false ∧
        h.SameBase h.commitOrRollbackTransaction.2 := by
  rw [commitOrRollbackTransaction]
  split_ifs with hfatal
  · exact .inr ⟨rfl, sameBase_rollbackTransaction hlite⟩
  · have hin : h.isInTransaction = true := by rw [isInTransaction, ht, Option.isSome_some]
    rw [commitTransaction_outer hlevel, hin]
    have hfails := h.fails_of_executeStatement .commit
    rcases h.executeStatement_cases .commit with ⟨d, hd, heq⟩ | ⟨r, -, heq⟩ | ⟨-, heq⟩ | ⟨-, heq⟩
    · simp only [Savepoint.Database.exec, ht, Except.ok.injEq] at hd
      subst hd
      simp only [executeIf, if_true, heq]
      exact .inl ⟨trivial, trivial, hlite⟩
    all_goals
      rw [heq] at hfails
      have hfails := hfails (by rintro ⟨⟩)
      simp only [executeIf, if_true, heq]
      exact .inr ⟨trivial, hfails.sameBase.trans
        (sameBase_rollbackTransaction (hfails.lite.trans hlite))⟩

end Inside

end Handle

/-! ### Adding columns -/

namespace Ddl.Schema

variable {N D F : Type} [DecidableEq F] {fold : N → F} {s : Schema N D} {table other name : N}
  {column : Column N D} {t : Table N D}

theorem fold_of_find (h : s.find fold table = some t) : fold t.name = fold table := by
  have hfound := List.find?_some h
  simpa using hfound

/-- The table in which a column is added has it, and the other tables are as before. -/
theorem find_append : (s.append fold table column).find fold other =
    (s.find fold other).map fun t =>
      if fold t.name = fold table then { t with columns := t.columns ++ [column] } else t := by
  rw [find, find, append]
  induction s.tables with
  | nil => rfl
  | cons t rest ih =>
    rw [List.map_cons, List.find?_cons, List.find?_cons, ih]
    split_ifs with htable <;> cases decide (fold t.name = fold other) <;> simp [htable]

theorem find_append_self (h : s.find fold table = some t) :
    (s.append fold table column).find fold table =
      some { t with columns := t.columns ++ [column] } := by
  rw [find_append, h, Option.map_some, if_pos (fold_of_find h)]

theorem has_append {columns : List (Column N D)} (h : t.has fold name = true) :
    ({ t with columns := t.columns ++ columns } : Table N D).has fold name = true := by
  obtain ⟨c, hc, hname⟩ := List.any_eq_true.mp h
  exact List.any_eq_true.mpr ⟨c, List.mem_append_left _ hc, hname⟩

theorem has_self {columns : List (Column N D)} (hmem : column ∈ columns) :
    ({ t with columns := columns } : Table N D).has fold column.name = true :=
  List.any_eq_true.mpr ⟨column, hmem, decide_eq_true rfl⟩

end Ddl.Schema

namespace BaseBinding

open Ddl Handle

section Callback

variable {N D F : Type} [DecidableEq N] [DecidableEq F] {fold : N → F}
  {isCompressionColumn : N → Bool} {binding : BaseBinding N D} {table : N}
  {h h' : Handle (Schema N D)} {t : Savepoint.Transaction String (Schema N D)}

omit [DecidableEq N] in
/-- A column that is there already counts as added. -/
theorem addColumn_cases (ht : h.database.transaction = some t) {found : Table N D}
    (hfind : t.content.find fold table = some found) (column : Column N D) :
    (∃ h', addColumn fold table column h = (true, h') ∧
      h.Works h' (if found.has fold column.name then t.content
        else t.content.append fold table column)) ∨
      ∃ h', addColumn fold table column h = (false, h') ∧ h.Fails h' := by
  have hdefine : Schema.addColumn fold table column t.content =
      if found.has fold column.name then .error .duplicateColumnName
      else .ok (t.content.append fold table column) := by
    rw [Schema.addColumn, hfind]
  rw [addColumn]
  rcases define_cases ht (Schema.addColumn fold table column) with
    ⟨content, h', heq, hcontent, hworks⟩ | ⟨e, h', heq, hrefused, rfl⟩ | ⟨h', heq, hfails⟩
  · rw [hdefine] at hcontent
    split_ifs at hcontent with hhas
    obtain rfl := Except.ok.inj hcontent
    refine .inl ⟨h', by rw [heq], ?_⟩
    rwa [if_neg hhas]
  · rw [hdefine] at hrefused
    split_ifs at hrefused with hhas
    obtain rfl := Except.error.inj hrefused
    refine .inl ⟨_, by rw [heq], ?_⟩
    rw [if_pos hhas]
    -- the error is taken back
    split_ifs with hfatal
    · exact ⟨rfl, by simp [notifyError, ht], rfl, rfl, by simp [notifyError, hfatal]⟩
    · exact ⟨rfl, by simp [notifyError, ht], rfl, rfl, rfl⟩
  · exact .inr ⟨h', by rw [heq], hfails⟩

/-- The names that are left are still those of columns. -/
def Named (fold : N → F) (table : N) (columnNames : List N) (s : Schema N D) : Prop :=
  ∃ found, s.find fold table = some found ∧ ∀ name ∈ columnNames, found.has fold name = true

theorem addColumns_cases (columns : List (Column N D)) {columnNames : List N}
    (ht : h.database.transaction = some t) (hnamed : Named fold table columnNames t.content) :
    (∃ names h', addColumns fold table columns columnNames h = (true, names, h') ∧
      h.Works h' (addMissing fold table columns t.content)) ∨
      ∃ names h', addColumns fold table columns columnNames h = (false, names, h') ∧
        h.Fails h' := by
  induction columns generalizing columnNames h t with
  | nil => exact .inl ⟨_, _, rfl, .refl ht⟩
  | cons column rest ih =>
    obtain ⟨found, hfind, hnames⟩ := hnamed
    rw [addColumns, addMissing, hfind, Option.any_some]
    split_ifs with hmem hhas hhas
    · refine ih ht ⟨found, hfind, fun name hname => ?_⟩
      exact hnames name (List.mem_filter.mp hname).1
    · exact absurd (hnames column.name hmem) hhas
    all_goals
      have hadd := addColumn_cases ht hfind column
      rcases hadd with ⟨h', heq, hworks⟩ | ⟨h', heq, hfails⟩
    · rw [if_pos hhas] at hworks
      have hnamed : Named fold table columnNames t.content := ⟨found, hfind, hnames⟩
      have hih := ih (hworks.inside ht) hnamed
      rw [heq]
      rcases hih with ⟨names, h'', heq', hworks'⟩ | ⟨names, h'', heq', hfails'⟩
      · exact .inl ⟨names, h'', heq', hworks.trans hworks'⟩
      · exact .inr ⟨names, h'', heq', hworks.fails hfails'⟩
    · rw [heq]
      exact .inr ⟨_, _, rfl, hfails⟩
    · rw [if_neg hhas] at hworks
      have hnamed : Named fold table columnNames (t.content.append fold table column) :=
        ⟨_, Schema.find_append_self hfind, fun name hname => Schema.has_append (hnames name hname)⟩
      have hih := ih (hworks.inside ht) hnamed
      rw [heq]
      rcases hih with ⟨names, h'', heq', hworks'⟩ | ⟨names, h'', heq', hfails'⟩
      · exact .inl ⟨names, h'', heq', hworks.trans hworks'⟩
      · exact .inr ⟨names, h'', heq', hworks.fails hfails'⟩
    · rw [heq]
      exact .inr ⟨_, _, rfl, hfails⟩

omit [DecidableEq N] [DecidableEq F] in
theorem executeAll_cases {S : Type} (f : S → Schema N D → Except Refused (Schema N D))
    (statements : List S) (ht : h.database.transaction = some t) :
    (∃ content h', executeAll f statements h = (true, h') ∧
      applyAll f statements t.content = .ok content ∧ h.Works h' content) ∨
      ∃ h', executeAll f statements h = (false, h') ∧ h.Fails h' := by
  induction statements generalizing h t with
  | nil => exact .inl ⟨_, _, rfl, rfl, .refl ht⟩
  | cons statement rest ih =>
    rw [executeAll, applyAll]
    rcases define_cases ht (f statement) with
      ⟨content, h', heq, hcontent, hworks⟩ | ⟨e, h', heq, -, rfl⟩ | ⟨h', heq, hfails⟩
    · rw [heq, hcontent]
      rcases ih (hworks.inside ht) with
        ⟨content', h'', heq', hcontent', hworks'⟩ | ⟨h'', heq', hfails'⟩
      · exact .inl ⟨content', h'', heq', hcontent', hworks.trans hworks'⟩
      · exact .inr ⟨h'', heq', hworks.fails hfails'⟩
    · rw [heq]
      exact .inr ⟨_, rfl, rfl, rfl, rfl⟩
    · rw [heq]
      exact .inr ⟨_, rfl, hfails⟩

variable (fold binding table) in
omit [DecidableEq N] in
theorem executeIndexes_cases (isTableNewlyCreated : Bool)
    (ht : h.database.transaction = some t) :
    (∃ content h', binding.executeIndexes fold table isTableNewlyCreated h = (true, h') ∧
      binding.applyIndexes fold table isTableNewlyCreated t.content = .ok content ∧
        h.Works h' content) ∨
      ∃ h', binding.executeIndexes fold table isTableNewlyCreated h = (false, h') ∧
        h.Fails h' := by
  rw [executeIndexes, applyIndexes]
  rcases executeAll_cases (Schema.createIndex fold)
      (binding.createIndexStatements table isTableNewlyCreated) ht with
    ⟨content, h', heq, hcontent, hworks⟩ | ⟨h', heq, hfails⟩
  · rw [heq, hcontent]
    rcases executeAll_cases (Schema.dropIndex fold) (binding.dropIndexStatements table)
        (hworks.inside ht) with
      ⟨content', h'', heq', hcontent', hworks'⟩ | ⟨h'', heq', hfails'⟩
    · exact .inl ⟨content', h'', heq', hcontent', hworks.trans hworks'⟩
    · exact .inr ⟨h'', heq', hworks.fails hfails'⟩
  · rw [heq]
    exact .inr ⟨h', rfl, hfails⟩

variable (isCompressionColumn binding) in
theorem addMissingColumns_cases (ht : h.database.transaction = some t) {found : Table N D}
    (hfind : t.content.find fold table = some found) :
    (∃ skipped h', binding.addMissingColumns fold isCompressionColumn table h =
        (true, skipped, h') ∧
      h.Works h' (addMissing fold table binding.columnDefs t.content)) ∨
      ∃ skipped h', binding.addMissingColumns fold isCompressionColumn table h =
        (false, skipped, h') ∧ h.Fails h' := by
  rw [addMissingColumns]
  rcases query_cases ht fun s => ((s.find fold table).elim [] Table.columns).map Column.name with
    ⟨h', heq, hworks⟩ | ⟨h', heq, hfails⟩
  · rw [heq, hfind]
    have hnamed : Named fold table (found.columns.map Column.name) t.content := by
      refine ⟨found, hfind, fun name hname => ?_⟩
      obtain ⟨column, hcolumn, rfl⟩ := List.mem_map.mp hname
      exact Schema.has_self hcolumn
    have hadd := addColumns_cases binding.columnDefs (hworks.inside ht) hnamed
    dsimp only [Option.elim_some]
    rcases hadd with ⟨names, h'', heq', hworks'⟩ | ⟨names, h'', heq', hfails'⟩
    · rw [heq']
      exact .inl ⟨_, h'', rfl, hworks.trans hworks'⟩
    · rw [heq']
      exact .inr ⟨_, h'', rfl, hworks.fails hfails'⟩
  · rw [heq]
    exact .inr ⟨_, h', rfl, hfails⟩

variable {configAutoincrementIfNeed : ConfigAutoincrement N D}
  (hoff : binding.enableAutoIncrementForExistingTable = false)

variable (fold isCompressionColumn binding table configAutoincrementIfNeed)
include hoff

/-- **The callback does what the call is for**, or a statement has failed. -/
theorem transaction_cases (ht : h.database.transaction = some t) :
    (∃ content skipped h',
      binding.transaction fold isCompressionColumn table configAutoincrementIfNeed h =
        (true, skipped, h') ∧ binding.upgrade fold table t.content = .ok content ∧
      h.Works h' content) ∨
      ∃ skipped h',
        binding.transaction fold isCompressionColumn table configAutoincrementIfNeed h =
          (false, skipped, h') ∧ h.Fails h' := by
  rw [transaction, upgrade]
  rcases query_cases ht fun s => (s.find fold table).isSome with
    ⟨h₁, heq, hworks⟩ | ⟨h', heq, hfails⟩
  · have ht₁ : h₁.database.transaction = some t := hworks.inside ht
    rw [heq]
    cases hfind : t.content.find fold table with
    | some found =>
      rw [Option.isSome_some, if_pos rfl]
      rcases addMissingColumns_cases isCompressionColumn binding ht₁ hfind with
        ⟨skipped, h₂, heq₂, hworks₂⟩ | ⟨skipped, h₂, heq₂, hfails₂⟩
      · simp only [heq₂, hoff, Bool.false_eq_true, if_false]
        rcases executeIndexes_cases fold binding table false (hworks₂.inside ht₁) with
          ⟨content, h₃, heq₃, hcontent, hworks₃⟩ | ⟨h₃, heq₃, hfails₃⟩
        · simp only [heq₃]
          exact .inl ⟨content, skipped, h₃, rfl, hcontent, (hworks.trans hworks₂).trans hworks₃⟩
        · simp only [heq₃]
          exact .inr ⟨skipped, h₃, rfl, (hworks.trans hworks₂).fails hfails₃⟩
      · simp only [heq₂]
        exact .inr ⟨skipped, h₂, rfl, hworks.fails hfails₂⟩
    | none =>
      rw [Option.isSome_none, if_neg Bool.false_ne_true]
      rcases define_cases ht₁ (Schema.create fold table binding.columnDefs) with
        ⟨content, h₂, heq₂, hcontent, hworks₂⟩ | ⟨e, h₂, heq₂, -, rfl⟩ | ⟨h₂, heq₂, hfails₂⟩
      · simp only [heq₂, hcontent]
        rcases executeIndexes_cases fold binding table true (hworks₂.inside ht₁) with
          ⟨content', h₃, heq₃, hcontent', hworks₃⟩ | ⟨h₃, heq₃, hfails₃⟩
        · simp only [heq₃]
          exact .inl ⟨content', [], h₃, rfl, hcontent', (hworks.trans hworks₂).trans hworks₃⟩
        · simp only [heq₃]
          exact .inr ⟨[], h₃, rfl, (hworks.trans hworks₂).fails hfails₃⟩
      · simp only [heq₂]
        exact .inr ⟨[], _, rfl, hworks.fails ⟨rfl, rfl, rfl⟩⟩
      · simp only [heq₂]
        exact .inr ⟨[], h₂, rfl, hworks.fails hfails₂⟩
  · rw [heq]
    exact .inr ⟨[], h', rfl, hfails⟩

theorem sameBase_transaction_inside (ht : h.database.transaction = some t) :
    h.SameBase
      (binding.transaction fold isCompressionColumn table configAutoincrementIfNeed h).2.2 := by
  rcases transaction_cases fold isCompressionColumn binding table configAutoincrementIfNeed hoff
    ht with
    ⟨content, skipped, h', heq, -, hworks⟩ | ⟨skipped, h', heq, hfails⟩
  · rw [heq]
    exact ⟨hworks.committed, hworks.lite⟩
  · rw [heq]
    exact hfails.sameBase

omit [DecidableEq N] hoff in
theorem markErrorNotAllowed_spec : h.SameBase h.markErrorNotAllowedWithinTransaction ∧
    h.markErrorNotAllowedWithinTransaction.database = h.database := by
  rw [markErrorNotAllowedWithinTransaction]
  split_ifs <;> exact ⟨⟨rfl, rfl⟩, rfl⟩

/-- A call inside a transaction commits nothing. -/
theorem sameBase_createTable (hin : h.isInTransaction = true) :
    h.SameBase
      (binding.createTable fold isCompressionColumn table configAutoincrementIfNeed h).2.2 := by
  obtain ⟨hbase, hdatabase⟩ := markErrorNotAllowed_spec (h := h)
  rw [createTable]
  generalize h.markErrorNotAllowedWithinTransaction = h₀ at hbase hdatabase
  have hin₀ : h₀.isInTransaction = true := by rw [isInTransaction, hdatabase]; exact hin
  obtain ⟨t, ht⟩ := Option.isSome_iff_exists.mp hin₀
  simp only [hin₀, if_true]
  exact hbase.trans (sameBase_transaction_inside fold isCompressionColumn binding table
    configAutoincrementIfNeed hoff ht)

/-- **A call outside a transaction** does all that it is for, or commits nothing. -/
theorem createTable_cases (hlite : h.enableLiteMode = false) (hout : h.isInTransaction = false) :
    (∃ skipped h',
      binding.createTable fold isCompressionColumn table configAutoincrementIfNeed h =
        (true, skipped, h') ∧
      binding.upgrade fold table h.database.committed = .ok h'.database.committed ∧
      h'.enableLiteMode = false) ∨
      ∃ skipped h',
        binding.createTable fold isCompressionColumn table configAutoincrementIfNeed h =
          (false, skipped, h') ∧ h.SameBase h' := by
  obtain ⟨hbase, hdatabase⟩ := markErrorNotAllowed_spec (h := h)
  rw [createTable]
  generalize h.markErrorNotAllowedWithinTransaction = h₀ at hbase hdatabase
  have hout₀ : h₀.isInTransaction = false := by rw [isInTransaction, hdatabase]; exact hout
  rw [← hbase.1]
  simp only [hout₀, Bool.false_eq_true, if_false]
  rcases beginTransaction_cases hout₀ with ⟨h₁, heq, hsame, hlevel, ht⟩ | ⟨h₁, heq, hsame⟩
  · have hlite₁ : h₁.enableLiteMode = false := (hsame.2.trans hbase.2).trans hlite
    simp only [heq]
    rcases transaction_cases fold isCompressionColumn binding table configAutoincrementIfNeed hoff
      ht with
      ⟨content, skipped, h₂, heq₂, hcontent, hworks⟩ | ⟨skipped, h₂, heq₂, hfails⟩
    · have hlite₂ := hworks.lite.trans hlite₁
      have hlevel₂ : h₂.transactionLevel ≤ 1 := Nat.le_of_eq (hworks.level.trans hlevel)
      have hend := commitOrRollback_cases hlite₂ hlevel₂ (hworks.inside ht)
      simp only [heq₂]
      generalize h₂.commitOrRollbackTransaction = r at hend
      obtain ⟨success, h₃⟩ := r
      obtain ⟨rfl, hcommitted, hlite₃⟩ | ⟨rfl, hsame₃⟩ := hend
      · refine .inl ⟨skipped, h₃, rfl, ?_, hlite₃⟩
        rw [show h₃.database.committed = content from hcommitted]
        exact hcontent
      · refine .inr ⟨skipped, h₃, rfl, ((hbase.trans hsame).trans ?_).trans hsame₃⟩
        exact ⟨hworks.committed, hworks.lite⟩
    · simp only [heq₂]
      refine .inr ⟨skipped, _, rfl, ((hbase.trans hsame).trans hfails.sameBase).trans ?_⟩
      exact sameBase_rollbackTransaction (hfails.lite.trans hlite₁)
  · simp only [heq]
    exact .inr ⟨[], h₁, rfl, hbase.trans hsame⟩

end Callback

/-! ### Runs of calls -/

/-- A table keeps its name and its columns, and may get more of them. -/
def Grows {N D F : Type} [DecidableEq F] (fold : N → F) (s s' : Schema N D) : Prop :=
  ∀ table t, s.find fold table = some t → ∃ t', s'.find fold table = some t' ∧ t'.name = t.name ∧
    t.columns <+: t'.columns

/-- `createTable` of a binding. -/
structure Call (N D : Type) where
  binding : BaseBinding N D
  table : N

/-- The table is there with all the columns of the binding. -/
def Call.Defines {N D F : Type} [DecidableEq F] (fold : N → F) (c : Call N D) (s : Schema N D) :
    Prop :=
  ∃ t, s.find fold c.table = some t ∧
    ∀ column ∈ c.binding.columnDefs, t.has fold column.name = true

section Runs

variable {N D F : Type} [DecidableEq F] {fold : N → F} {s s' s'' : Schema N D} {table : N}
  {binding : BaseBinding N D}

theorem Grows.refl : Grows fold s s := fun _ t h => ⟨t, h, rfl, List.prefix_refl _⟩

theorem Grows.trans (h : Grows fold s s') (h' : Grows fold s' s'') : Grows fold s s'' := by
  intro table t ht
  obtain ⟨t', ht', hname, hprefix⟩ := h table t ht
  obtain ⟨t'', ht'', hname', hprefix'⟩ := h' table t' ht'
  exact ⟨t'', ht'', hname'.trans hname, hprefix.trans hprefix'⟩

theorem Grows.of_tables (h : s'.tables = s.tables) : Grows fold s s' := by
  intro table t ht
  refine ⟨t, ?_, rfl, List.prefix_refl _⟩
  rw [Schema.find, h]
  exact ht

theorem grows_append (table : N) (column : Column N D) :
    Grows fold s (s.append fold table column) := by
  intro other t ht
  rw [Schema.find_append, ht, Option.map_some]
  refine ⟨_, rfl, ?_⟩
  split_ifs
  · exact ⟨rfl, List.prefix_append _ _⟩
  · exact ⟨rfl, List.prefix_refl _⟩

theorem grows_addMissing (columns : List (Column N D)) :
    Grows fold s (addMissing fold table columns s) := by
  induction columns generalizing s with
  | nil => exact .refl
  | cons column rest ih =>
    rw [addMissing]
    split_ifs
    · exact ih
    · exact (grows_append table column).trans ih

theorem find_create {columns : List (Column N D)} (h : s.create fold table columns = .ok s') :
    Grows fold s s' ∧ (s.find fold table = none → s'.find fold table = some ⟨table, columns⟩) := by
  rw [Schema.create] at h
  split_ifs at h with hexists
  · obtain rfl := Except.ok.inj h
    exact ⟨.refl, fun hnone => by rw [hnone] at hexists; cases hexists⟩
  · obtain rfl := Except.ok.inj h
    refine ⟨fun other t ht => ⟨t, ?_, rfl, List.prefix_refl _⟩, fun hnone => ?_⟩
    · rw [Schema.find] at ht ⊢
      rw [List.find?_append, ht, Option.some_or]
    · rw [Schema.find] at hnone ⊢
      rw [List.find?_append, hnone, Option.none_or]
      exact List.find?_cons_of_pos (decide_eq_true rfl)

theorem tables_applyAll {S : Type} {f : S → Schema N D → Except Refused (Schema N D)}
    (hf : ∀ statement s s', f statement s = .ok s' → s'.tables = s.tables) {statements : List S}
    (h : applyAll f statements s = .ok s') : s'.tables = s.tables := by
  induction statements generalizing s with
  | nil => rw [Except.ok.inj h]
  | cons statement rest ih =>
    rw [applyAll] at h
    cases hs : f statement s with
    | error e =>
      rw [hs] at h
      cases h
    | ok s₁ =>
      rw [hs] at h
      exact (ih h).trans (hf statement s s₁ hs)

theorem tables_createIndex {index : Ddl.Index N} (h : s.createIndex fold index = .ok s') :
    s'.tables = s.tables := by
  rw [Schema.createIndex] at h
  split_ifs at h
  · rw [Except.ok.inj h]
  · cases hfind : s.find fold index.table with
    | none =>
      rw [hfind] at h
      cases h
    | some t =>
      rw [hfind] at h
      dsimp only at h
      split_ifs at h
      rw [← Except.ok.inj h]

theorem tables_applyIndexes {isTableNewlyCreated : Bool}
    (h : binding.applyIndexes fold table isTableNewlyCreated s = .ok s') :
    s'.tables = s.tables := by
  rw [applyIndexes] at h
  cases hs : applyAll (Schema.createIndex fold)
      (binding.createIndexStatements table isTableNewlyCreated) s with
  | error e =>
    rw [hs] at h
    cases h
  | ok s₁ =>
    rw [hs] at h
    have hcreate := tables_applyAll (fun _ _ _ h => tables_createIndex h) hs
    refine (tables_applyAll (fun _ s s' h => ?_) h).trans hcreate
    rw [← Except.ok.inj h]

theorem defines_addMissing {t : Table N D} (hfind : s.find fold table = some t)
    (columns : List (Column N D)) :
    ∃ t', (addMissing fold table columns s).find fold table = some t' ∧
      ∀ column ∈ columns, t'.has fold column.name = true := by
  induction columns generalizing s t with
  | nil => exact ⟨t, hfind, fun _ h => absurd h List.not_mem_nil⟩
  | cons column rest ih =>
    -- the column is there, and the rest of the loop keeps it
    have hstep : ∃ t₁, (if (s.find fold table).any fun t => t.has fold column.name then s
        else s.append fold table column).find fold table = some t₁ ∧
        t₁.has fold column.name = true := by
      rw [hfind, Option.any_some]
      split_ifs with hhas
      · exact ⟨t, hfind, hhas⟩
      · refine ⟨_, Schema.find_append_self hfind, ?_⟩
        exact Schema.has_self (List.mem_append_right _ (List.mem_singleton_self column))
    obtain ⟨t₁, hfind₁, hhas₁⟩ := hstep
    obtain ⟨t', hfind', hrest⟩ := ih hfind₁
    rw [addMissing]
    refine ⟨t', hfind', fun c hc => ?_⟩
    obtain rfl | hc := List.mem_cons.mp hc
    · obtain ⟨t₂, hfind₂, -, columns', hcolumns⟩ := grows_addMissing rest table t₁ hfind₁
      obtain rfl := Option.some.inj (hfind₂.symm.trans hfind')
      obtain ⟨c', hc', hname⟩ := List.any_eq_true.mp hhas₁
      refine List.any_eq_true.mpr ⟨c', ?_, hname⟩
      rw [← hcolumns]
      exact List.mem_append_left _ hc'
    · exact hrest c hc

theorem upgrade_spec (h : binding.upgrade fold table s = .ok s') :
    Grows fold s s' ∧ Call.Defines fold ⟨binding, table⟩ s' := by
  rw [upgrade] at h
  cases hfind : s.find fold table with
  | some t =>
    rw [hfind, Option.isSome_some, if_pos rfl] at h
    have htables := tables_applyIndexes h
    obtain ⟨t', hfind', hhas⟩ := defines_addMissing hfind binding.columnDefs
    refine ⟨(grows_addMissing binding.columnDefs).trans (.of_tables htables), t', ?_, hhas⟩
    rw [Schema.find, htables]
    exact hfind'
  | none =>
    rw [hfind, Option.isSome_none, if_neg Bool.false_ne_true] at h
    cases hcreate : s.create fold table binding.columnDefs with
    | error e =>
      rw [hcreate] at h
      cases h
    | ok s₁ =>
      rw [hcreate] at h
      obtain ⟨hgrows, hcreated⟩ := find_create hcreate
      have htables := tables_applyIndexes h
      refine ⟨hgrows.trans (.of_tables htables), ⟨table, binding.columnDefs⟩, ?_, fun c hc => ?_⟩
      · rw [Schema.find, htables]
        exact hcreated hfind
      · exact Schema.has_self (t := ⟨table, []⟩) hc

theorem Call.Defines.mono {c : Call N D} (h : c.Defines fold s) (hgrows : Grows fold s s') :
    c.Defines fold s' := by
  obtain ⟨t, hfind, hhas⟩ := h
  obtain ⟨t', hfind', -, columns', hcolumns⟩ := hgrows c.table t hfind
  refine ⟨t', hfind', fun column hcolumn => ?_⟩
  obtain ⟨c', hc', hname⟩ := List.any_eq_true.mp (hhas column hcolumn)
  refine List.any_eq_true.mpr ⟨c', ?_, hname⟩
  rw [← hcolumns]
  exact List.mem_append_left _ hc'

variable (fold) in
/-- What calls make of a schema, one after another. -/
def upgradeAll (calls : List (Call N D)) (s : Schema N D) : Except Refused (Schema N D) :=
  applyAll (fun c s => c.binding.upgrade fold c.table s) calls s

theorem upgradeAll_append {calls : List (Call N D)} {c : Call N D}
    (h : upgradeAll fold calls s = .ok s') (h' : c.binding.upgrade fold c.table s' = .ok s'') :
    upgradeAll fold (calls ++ [c]) s = .ok s'' := by
  induction calls generalizing s with
  | nil =>
    obtain rfl := Except.ok.inj h
    rw [upgradeAll, List.nil_append, applyAll, h']
    rfl
  | cons first rest ih =>
    rw [upgradeAll, applyAll] at h
    rw [upgradeAll, List.cons_append, applyAll]
    cases hfirst : first.binding.upgrade fold first.table s with
    | error e =>
      rw [hfirst] at h
      cases h
    | ok s₁ =>
      rw [hfirst] at h
      exact ih h

theorem upgradeAll_spec {calls : List (Call N D)} (h : upgradeAll fold calls s = .ok s') :
    Grows fold s s' ∧ ∀ c ∈ calls, c.Defines fold s' := by
  induction calls generalizing s with
  | nil =>
    obtain rfl := Except.ok.inj h
    exact ⟨.refl, fun _ h => absurd h List.not_mem_nil⟩
  | cons first rest ih =>
    rw [upgradeAll, applyAll] at h
    cases hfirst : first.binding.upgrade fold first.table s with
    | error e =>
      rw [hfirst] at h
      cases h
    | ok s₁ =>
      rw [hfirst] at h
      obtain ⟨hgrows, hdefines⟩ := upgrade_spec hfirst
      obtain ⟨hgrows', hdefines'⟩ := ih h
      refine ⟨hgrows.trans hgrows', fun c hc => ?_⟩
      obtain rfl | hc := List.mem_cons.mp hc
      · exact hdefines.mono hgrows'
      · exact hdefines' c hc

end Runs

section Exec

variable {N D F : Type} [DecidableEq N] [DecidableEq F]

/-- A call on a handle. The calls that report a success outside a transaction are kept. -/
def call (fold : N → F) (isCompressionColumn : N → Bool)
    (configAutoincrementIfNeed : ConfigAutoincrement N D)
    (s : Handle (Schema N D) × List (Call N D)) (c : Call N D) :
    Option (Handle (Schema N D) × List (Call N D)) :=
  let r := c.binding.createTable fold isCompressionColumn c.table configAutoincrementIfNeed s.1
  some (r.2.2, if r.1 ∧ ¬s.1.isInTransaction then s.2 ++ [c] else s.2)

/-- **Upgraded step by step.** In every run of `createTable` calls on a handle, with any bindings
that do not ask for `AUTOINCREMENT` in tables that exist and any statements failing, the committed
schema is what the calls that reported a success make of it, one after another: the others have left
no trace. No table loses a column, and the columns of every reported binding are there. -/
theorem upgraded_of_exec {fold : N → F} {isCompressionColumn : N → Bool}
    {configAutoincrementIfNeed : ConfigAutoincrement N D}
    {start h : Handle (Schema N D)} {calls reported : List (Call N D)}
    (hlite : start.enableLiteMode = false)
    (hoff : ∀ c ∈ calls, c.binding.enableAutoIncrementForExistingTable = false)
    (hexec : Run.exec (call fold isCompressionColumn configAutoincrementIfNeed) (start, []) calls =
      some (h, reported)) :
    upgradeAll fold reported start.database.committed = .ok h.database.committed ∧
      Grows fold start.database.committed h.database.committed ∧
      ∀ c ∈ reported, c.Defines fold h.database.committed := by
  suffices hinv : h.enableLiteMode = false ∧
      upgradeAll fold reported start.database.committed = .ok h.database.committed from
    ⟨hinv.2, upgradeAll_spec hinv.2⟩
  refine Run.inv_exec (I := fun s => s.1.enableLiteMode = false ∧
    upgradeAll fold s.2 start.database.committed = .ok s.1.database.committed) ?_
    ⟨hlite, rfl⟩ (.of_forall hoff) hexec
  rintro ⟨h, reported⟩ c ⟨h', reported'⟩ ⟨hlite, hupgraded⟩ hoff hstep
  obtain ⟨rfl, rfl⟩ := Prod.mk.inj (Option.some.inj hstep)
  by_cases hin : h.isInTransaction = true
  · have hsame := sameBase_createTable fold isCompressionColumn c.binding c.table
      configAutoincrementIfNeed hoff hin
    dsimp only
    rw [if_neg fun hboth => hboth.2 hin, hsame.1]
    exact ⟨hsame.2.trans hlite, hupgraded⟩
  · rcases createTable_cases fold isCompressionColumn c.binding c.table configAutoincrementIfNeed
        hoff hlite (Bool.eq_false_iff.mpr hin) with
      ⟨skipped, h', heq, hupgrade, hlite'⟩ | ⟨skipped, h', heq, hsame⟩
    · dsimp only
      rw [heq, if_pos ⟨rfl, hin⟩]
      exact ⟨hlite', upgradeAll_append hupgraded hupgrade⟩
    · dsimp only
      rw [heq, if_neg fun hboth => Bool.false_ne_true hboth.1]
      exact ⟨hsame.2.trans hlite, by rw [hsame.1]; exact hupgraded⟩

/-- Two versions of a binding for table `(0, false)`; names are numbers in one of two cases. The
second has the first column in the other case, another column, and an index. -/
def twoVersions : List (Call (ℕ × Bool) ℕ) :=
  let first : BaseBinding (ℕ × Bool) ℕ := ⟨[⟨(1, false), 7⟩], [], false⟩
  let second : BaseBinding (ℕ × Bool) ℕ :=
    ⟨[⟨(1, true), 7⟩, ⟨(2, false), 8⟩],
      [⟨fun table => (table.1 + 9, false), [(2, false)], .create⟩], false⟩
  [⟨first, (0, false)⟩, ⟨second, (0, true)⟩, ⟨second, (0, true)⟩]

/-- The index of the second call fails, so that it is made again. -/
theorem upgraded_of_exec_twoVersions : ∃ start h : Handle (Schema (ℕ × Bool) ℕ), ∃ reported,
    Run.exec (call Prod.fst (fun _ => false) fun _ _ h => (false, h)) (start, []) twoVersions =
      some (h, reported) ∧
      reported.length = 2 ∧
      h.database.committed = ⟨[⟨(0, false), [⟨(1, false), 7⟩, ⟨(2, false), 8⟩]⟩],
        [⟨(9, false), (0, true), [(2, false)]⟩]⟩ ∧
      upgradeAll Prod.fst reported start.database.committed = .ok h.database.committed := by
  let start : Handle (Schema (ℕ × Bool) ℕ) :=
    { database := ⟨⟨[], []⟩, none⟩
      outcomes := [.done, .done, .done, .done, .done, .done, .done, .done, .done, .failed] }
  have hrun : (Run.exec (call Prod.fst (fun _ => false) fun _ _ h => (false, h)) (start,
    []) twoVersions).any (fun r =>
      r.2.length = 2 ∧ r.1.database.committed = ⟨[⟨(0, false), [⟨(1, false), 7⟩, ⟨(2, false), 8⟩]⟩],
        [⟨(9, false), (0, true), [(2, false)]⟩]⟩) = true := by decide +kernel
  obtain ⟨⟨h, reported⟩, hexec, hchecked⟩ := (Option.any_eq_true _ _).mp hrun
  obtain ⟨hlength, hcommitted⟩ := of_decide_eq_true hchecked
  exact ⟨start, h, reported, hexec, hlength, hcommitted, (upgraded_of_exec rfl (by decide) hexec).1⟩

end Exec

end BaseBinding

end Wcdb
