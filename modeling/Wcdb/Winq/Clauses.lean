import Wcdb.Lib.PrintedTokens

/-!
# Printing clauses

`describle` of the clauses that `WINQ` prints with blanks that depend on which of their parts are
there. What a clause streams is a list of pieces, in order; its text is their concatenation.
-/

namespace Wcdb.Clauses

open SqlText (Text text isDigit)
open SqlLexer

/-- A component, as its own `describle` prints it. The tokens of it are whole. -/
structure Part where
  text : Text
  clean : clean text = true

/-- The pieces that `describle` streams, and what it returns. -/
abbrev Description := List Text × Bool

def space : Text := [32]

/-- `operator<<` of a list of identifiers. -/
def listed (parts : List Part) : List Text := separated (parts.map fun p => [p.text])

/-! ### Frames and windows -/

namespace FrameSpec

inductive Switch where
  | range | rows

def Switch.description : Switch → Text
  | .range => text "RANGE"
  | .rows => text "ROWS"

/-- An event carries `expression1`. -/
inductive FirstEvent where
  | unboundedPreceding
  | preceding (expression : Part)
  | currentRow
  | following (expression : Part)

/-- An event carries `expression2`. -/
inductive SecondEvent where
  | unboundedFollowing
  | preceding (expression : Part)
  | currentRow
  | following (expression : Part)

def FirstEvent.pieces : FirstEvent → List Text
  | .unboundedPreceding => [text "UNBOUNDED PRECEDING"]
  | .preceding expression => [expression.text, space, text "PRECEDING"]
  | .currentRow => [text "CURRENT ROW"]
  | .following expression => [expression.text, space, text "FOLLOWING"]

def SecondEvent.pieces : SecondEvent → List Text
  | .unboundedFollowing => [text "UNBOUNDED FOLLOWING"]
  | .preceding expression => [expression.text, space, text "PRECEDING"]
  | .currentRow => [text "CURRENT ROW"]
  | .following expression => [expression.text, space, text "FOLLOWING"]

end FrameSpec

/-- An event that was never set is `none`. -/
structure FrameSpec where
  switcher : FrameSpec.Switch
  between : Bool
  firstEvent : Option FrameSpec.FirstEvent
  secondEvent : Option FrameSpec.SecondEvent

def FrameSpec.describle (s : FrameSpec) : Description :=
  ([s.switcher.description, space] ++ (if s.between then [text "BETWEEN "] else []) ++
    s.firstEvent.elim [] FirstEvent.pieces ++
    (if s.between then text " AND " :: s.secondEvent.elim [] SecondEvent.pieces else []), true)

/-- An optional part is `none` also when it is not valid. -/
structure WindowDef where
  expressions : List Part
  orderingTerms : List Part
  frameSpec : Option FrameSpec

def WindowDef.describle (w : WindowDef) : Description :=
  let extraSpace := if w.expressions = [] then [] else [space]
  ([text "("] ++
    (if w.expressions = [] then [] else text "PARTITION BY " :: listed w.expressions) ++
    (if w.orderingTerms = [] then []
      else extraSpace ++ text "ORDER BY " :: listed w.orderingTerms) ++
    w.frameSpec.elim [] (fun frame => extraSpace ++ frame.describle.1) ++ [text ")"], true)

/-! ### Joins -/

inductive JoinOperator where
  | with | join | leftOuterJoin | leftJoin | innerJoin | crossJoin | naturalJoin
  | naturalLeftOuterJoin | naturalLeftJoin | naturalInnerJoin | naturalCrossJoin
  deriving DecidableEq

def JoinOperator.description : JoinOperator → Text
  | .with => text ","
  | .join => text "JOIN"
  | .leftOuterJoin => text "LEFT OUTER JOIN"
  | .leftJoin => text "LEFT JOIN"
  | .innerJoin => text "INNER JOIN"
  | .crossJoin => text "CROSS JOIN"
  | .naturalJoin => text "NATURAL JOIN"
  | .naturalLeftOuterJoin => text "NATURAL LEFT OUTER JOIN"
  | .naturalLeftJoin => text "NATURAL LEFT JOIN"
  | .naturalInnerJoin => text "NATURAL INNER JOIN"
  | .naturalCrossJoin => text "NATURAL CROSS JOIN"

structure JoinClause where
  joinOperators : List JoinOperator
  tableOrSubqueries : List Part
  joinConstraints : List (Option Part)

/-- One turn of the loop of `JoinClause::describle`. -/
def JoinClause.joined (j : JoinOperator × Part × Option Part) : List Text :=
  (if j.1 = .with then [] else [space]) ++ [j.1.description, space, j.2.1.text] ++
    j.2.2.elim [] fun constraint => [space, constraint.text]

def JoinClause.describle (j : JoinClause) : Description :=
  match j.tableOrSubqueries with
  -- a clause that is not valid
  | [] => ([], true)
  | first :: rest =>
    if rest = [] then ([first.text], true)
    -- `WCTSyntaxRemedialAssert`
    else if rest.length ≠ j.joinOperators.length then ([first.text], false)
    else
      (first.text :: (j.joinOperators.zip (rest.zip j.joinConstraints)).flatMap joined, true)

/-! ### Selects -/

inductive SelectCore.Switch where
  | select | values

structure SelectCore where
  switcher : SelectCore.Switch
  distinct : Bool
  resultColumns : List Part
  tableOrSubqueries : List Part
  joinClause : Option JoinClause
  condition : Option Part
  groups : List Part
  having : Option Part
  windows : List Part
  windowDefs : List WindowDef
  valuesList : List (List Part)

/-- `word`, which has a blank before and after it, and a component after it if this is there. -/
def optional (word : Text) (part : Option Part) : List Text :=
  part.elim [] fun p => [word, p.text]

/-- The rows after `VALUES`. -/
def rows (valuesList : List (List Part)) : List Text :=
  separated (valuesList.map fun values => bracketed (listed values))

namespace SelectCore

variable (s : SelectCore)

def source : List Text :=
  match s.tableOrSubqueries, s.joinClause with
  | [], none => []
  | [], some joinClause => text " FROM " :: joinClause.describle.1
  | _ :: _, _ => text " FROM " :: listed s.tableOrSubqueries

def grouped : List Text :=
  if s.groups = [] then []
  else text " GROUP BY " :: listed s.groups ++ optional (text " HAVING ") s.having

/-- One turn of the loop over the windows. -/
def windowed (w : Part × WindowDef) : List Text := [w.1.text, text " AS "] ++ w.2.describle.1

def describle : Description :=
  match s.switcher with
  | .select =>
    let pieces := [text "SELECT "] ++ (if s.distinct then [text "DISTINCT "] else []) ++
      listed s.resultColumns ++ s.source ++ optional (text " WHERE ") s.condition ++ s.grouped
    if s.windows = [] then (pieces, true)
    -- `WCTSyntaxRemedialAssert`
    else if s.windows.length ≠ s.windowDefs.length then (pieces, false)
    else
      (pieces ++ text " WINDOW " :: separated ((s.windows.zip s.windowDefs).map windowed), true)
  | .values => (text "VALUES" :: rows s.valuesList, true)

end SelectCore

/-! ### Upserts -/

inductive UpsertClause.Switch where
  | nothing | update

structure UpsertClause where
  indexedColumns : List Part
  condition : Option Part
  switcher : UpsertClause.Switch
  columnsList : List (List Part)
  expressions : List Part
  updateCondition : Option Part

/-- One turn of the loop over the columns that are set. -/
def assigned (a : List Part × Part) : List Text :=
  (if a.1.length > 1 then bracketed (listed a.1) else listed a.1) ++ [text " = ", a.2.text]

def UpsertClause.describle (u : UpsertClause) : Description :=
  let pieces := [text "ON CONFLICT"] ++
    (if u.indexedColumns = [] then []
      else bracketed (listed u.indexedColumns) ++ optional (text " WHERE ") u.condition) ++
    [text " DO "]
  match u.switcher with
  | .nothing => (pieces ++ [text "NOTHING"], true)
  | .update =>
    -- `WCTSyntaxRemedialAssert`
    if u.columnsList.length ≠ u.expressions.length then (pieces, false)
    else
      (pieces ++ [text "UPDATE SET "] ++
        separated ((u.columnsList.zip u.expressions).map assigned) ++
        optional (text " WHERE ") u.updateCondition, true)

/-! ### Statements -/

inductive ConflictAction where
  | replace | rollback | abort | fail | ignore

def ConflictAction.description : ConflictAction → Text
  | .replace => text "OR REPLACE"
  | .rollback => text "OR ROLLBACK"
  | .abort => text "OR ABORT"
  | .fail => text "OR FAIL"
  | .ignore => text "OR IGNORE"

/-- The common table expressions before a statement. -/
def withClause (recursive : Bool) (commonTableExpressions : List Part) : List Text :=
  if commonTableExpressions = [] then []
  else [text "WITH "] ++ (if recursive then [text "RECURSIVE "] else []) ++
    listed commonTableExpressions ++ [space]

def onConflict (conflictAction : Option ConflictAction) : List Text :=
  conflictAction.elim [] fun action => [action.description, space]

/-- What an `INSERT` inserts. -/
inductive InsertSTMT.Rows where
  | values (expressionsValues : List (List Part))
  | select (statement : Part)
  | default

structure InsertSTMT where
  recursive : Bool
  commonTableExpressions : List Part
  conflictAction : Option ConflictAction
  schema : Part
  table : Part
  aliasName : Part
  columns : List Part
  rows : InsertSTMT.Rows
  upsertClause : Option UpsertClause

namespace InsertSTMT

def Rows.pieces : Rows → List Text
  | .values expressionsValues => text "VALUES" :: Clauses.rows expressionsValues
  | .select statement => [statement.text]
  | .default => [text "DEFAULT VALUES"]

variable (s : InsertSTMT)

def describle (skipSchema : Bool) : Description :=
  (withClause s.recursive s.commonTableExpressions ++ [text "INSERT "] ++
    onConflict s.conflictAction ++ [text "INTO "] ++
    (if skipSchema = false ∧ s.schema.text ≠ [] then [s.schema.text, text "."] else []) ++
    [s.table.text] ++ (if s.aliasName.text = [] then [] else [text " AS ", s.aliasName.text]) ++
    (if s.columns = [] then [] else bracketed (listed s.columns)) ++ [space] ++ s.rows.pieces ++
    s.upsertClause.elim [] (fun upsert => space :: upsert.describle.1), true)

end InsertSTMT

inductive LimitParameter where
  | notSet
  | offset (limitParameter : Part)
  | end (limitParameter : Part)

def LimitParameter.pieces : LimitParameter → List Text
  | .notSet => []
  | .offset limitParameter => [text " OFFSET ", limitParameter.text]
  | .end limitParameter => [text ", ", limitParameter.text]

structure UpdateSTMT where
  recursive : Bool
  commonTableExpressions : List Part
  conflictAction : Option ConflictAction
  /-- What the table prints with its schema, and without. -/
  table : Bool → Part
  columnsList : List (List Part)
  expressions : List Part
  condition : Option Part
  orderingTerms : List Part
  limit : Option Part
  limitParameter : LimitParameter

def UpdateSTMT.describle (s : UpdateSTMT) (skipSchema : Bool) : Description :=
  let pieces := withClause s.recursive s.commonTableExpressions ++ [text "UPDATE "] ++
    onConflict s.conflictAction ++ [(s.table skipSchema).text] ++ [text " SET "]
  if s.columnsList = [] then (pieces, true)
  -- `WCTSyntaxRemedialAssert`
  else if s.columnsList.length ≠ s.expressions.length then (pieces, false)
  else
    (pieces ++ separated ((s.columnsList.zip s.expressions).map assigned) ++
      optional (text " WHERE ") s.condition ++
      (if s.orderingTerms = [] then [] else text " ORDER BY " :: listed s.orderingTerms) ++
      s.limit.elim [] (fun limit => [text " LIMIT ", limit.text] ++ s.limitParameter.pieces), true)

/-! ### Literals -/

/-- A literal, floating point numbers apart. -/
inductive LiteralValue where
  | string (stringValue : Text)
  | null
  | integer (integerValue : ℤ)
  | unsignedInteger (unsignedIntegerValue : ℕ)
  | bool (boolValue : Bool)
  | currentTime
  | currentDate
  | currentTimestamp

/-- A number as a stream prints it. -/
def digits (n : ℕ) : Text := if n = 0 then [48] else SqlText.decimal n

namespace LiteralValue

def describle : LiteralValue → Text
  | .string stringValue =>
    text "'" ++ stringValue.flatMap (fun c => if c ≠ 39 then [c] else text "''") ++ text "'"
  | .null => text "NULL"
  | .integer integerValue =>
    (if integerValue < 0 then text "-" else []) ++ digits integerValue.natAbs
  | .unsignedInteger unsignedIntegerValue => digits unsignedIntegerValue
  | .bool boolValue => if boolValue then text "TRUE" else text "FALSE"
  | .currentTime => text "CURRENT_TIME"
  | .currentDate => text "CURRENT_DATE"
  | .currentTimestamp => text "CURRENT_TIMESTAMP"

/-- What the parser should be given: one token, and the sign of a negative number. -/
def tokens (v : LiteralValue) : List Token :=
  match v with
  | .string _ => [⟨.string, v.describle⟩]
  | .integer integerValue =>
    (if integerValue < 0 then [⟨.operator, text "-"⟩] else []) ++
      [⟨.integer, digits integerValue.natAbs⟩]
  | .unsignedInteger _ => [⟨.integer, v.describle⟩]
  | _ => [⟨.word, v.describle⟩]

end LiteralValue

end Wcdb.Clauses
