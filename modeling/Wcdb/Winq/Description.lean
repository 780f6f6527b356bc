import Wcdb.Lib.SqlNames

/-!
# How statements are printed

`describle` of the identifiers that the statements for copying tables are made of. What is prepared
is the text that is printed. Names go into the text as they are: whoever builds a statement has to
quote them.
-/

namespace Wcdb.Syntax

open SqlText

/-- `operator<<` of a list. -/
def list {α : Type} (describle : α → Text) (l : List α) : Text := joined (l.map describle)

/-- The name of a schema before a name in it. -/
def qualifier (schema : Text) : Text := if schema = [] then [] else schema ++ text "."

structure Column where
  schema : Text := []
  table : Text := []
  wildcard : Bool := false
  name : Text
  deriving DecidableEq, Repr

def Column.describle (c : Column) : Text :=
  (if c.table = [] then [] else qualifier c.schema ++ c.table ++ text ".") ++
    if c.wildcard then text "*" else c.name

/-- `Column::rowid`. -/
def Column.rowid : Column := { name := text "rowid" }

/-- A parameter with a question sign. -/
structure BindParameter where
  n : ℕ := 0
  deriving DecidableEq, Repr

def BindParameter.describle (p : BindParameter) : Text :=
  text "?" ++ if p.n > 0 then decimal p.n else []

/-- `BindParameter::bindParameters`. -/
def BindParameter.bindParameters (count : ℕ) : List BindParameter :=
  (List.range count).map fun i => ⟨i + 1⟩

inductive Expression where
  | integer (value : ℕ)
  | bindParameter (p : BindParameter)
  | column (c : Column)
  | function (name : Text) (argument : Expression)
  | greaterOrEqual (left right : Expression)
  deriving Repr

namespace Expression

/-- `streamAutoParenthesesExpression`. -/
def autoParentheses (e : Expression) (description : Text) : Text :=
  match e with
  | .greaterOrEqual _ _ => text "(" ++ description ++ text ")"
  | _ => description

def describle : Expression → Text
  | .integer value => decimal value
  | .bindParameter p => p.describle
  | .column c => c.describle
  | .function name argument => name ++ text "(" ++ argument.describle ++ text ")"
  | .greaterOrEqual left right =>
    left.autoParentheses left.describle ++ text " >= " ++ right.autoParentheses right.describle

end Expression

/-- `TableOrSubquery` with `Switch::Table`. -/
structure TableOrSubquery where
  schema : Text := []
  tableOrFunction : Text
  deriving DecidableEq, Repr

def TableOrSubquery.describle (t : TableOrSubquery) : Text :=
  qualifier t.schema ++ t.tableOrFunction

inductive Order where
  | asc
  | desc
  deriving DecidableEq, Repr

def Order.description : Order → Text
  | asc => text "ASC"
  | desc => text "DESC"

structure OrderingTerm where
  expression : Expression
  order : Option Order := none
  deriving Repr

def OrderingTerm.describle (o : OrderingTerm) : Text :=
  o.expression.describle ++ (o.order.elim [] fun order => text " " ++ order.description)

/-- A `SelectSTMT` of one core. -/
structure SelectSTMT where
  resultColumns : List Expression
  tableOrSubqueries : List TableOrSubquery := []
  condition : Option Expression := none
  orderingTerms : List OrderingTerm := []
  limit : Option Expression := none
  deriving Repr

def SelectSTMT.describle (s : SelectSTMT) : Text :=
  text "SELECT " ++ list Expression.describle s.resultColumns ++
    (if s.tableOrSubqueries = [] then []
      else text " FROM " ++ list TableOrSubquery.describle s.tableOrSubqueries) ++
    (s.condition.elim [] fun e => text " WHERE " ++ e.describle) ++
    (match s.orderingTerms with
      | [] => []
      | terms => text " ORDER BY " ++ list OrderingTerm.describle terms) ++
    s.limit.elim [] fun e => text " LIMIT " ++ e.describle

inductive ConflictAction where
  | replace
  | rollback
  | abort
  | fail
  | ignore
  deriving DecidableEq, Repr

def ConflictAction.description : ConflictAction → Text
  | replace => text "OR REPLACE"
  | rollback => text "OR ROLLBACK"
  | abort => text "OR ABORT"
  | fail => text "OR FAIL"
  | ignore => text "OR IGNORE"

/-- `InsertSTMT::Switch`, without `Default`. -/
inductive InsertRows where
  | values (expressionsValues : List (List Expression))
  | select (statement : SelectSTMT)
  deriving Repr

structure InsertSTMT where
  conflictAction : Option ConflictAction := none
  schema : Text := []
  table : Text
  columns : List Column := []
  rows : InsertRows
  deriving Repr

def InsertRows.describle : InsertRows → Text
  | .values expressionsValues =>
    text "VALUES" ++
      list (fun row => text "(" ++ list Expression.describle row ++ text ")") expressionsValues
  | .select statement => statement.describle

def InsertSTMT.describle (s : InsertSTMT) : Text :=
  text "INSERT " ++ (s.conflictAction.elim [] fun action => action.description ++ text " ") ++
    text "INTO " ++ qualifier s.schema ++ s.table ++
    (if s.columns = [] then [] else text "(" ++ list Column.describle s.columns ++ text ")") ++
    text " " ++ s.rows.describle

end Wcdb.Syntax
