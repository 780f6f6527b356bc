import Wcdb.Core.Compression
import Mathlib.Logic.Function.Basic

/-!
# Statements that write to a compressing table

`CompressingStatementDecorator` rewrites an `INSERT` or `UPDATE` when it is prepared and
compresses values when they are bound. There are three ways, decided by `prepare`:

* **direct**: every compressing column and every match column is a parameter. A parameter for
  the type column is added, and binding the content binds the type as well. A column of various
  dictionaries needs both its content and its match value; whichever comes first is kept in
  `bindedValue` of the `BindInfo`, and the other one completes the cell.
* **selectMatch**: an `UPDATE` that does not set the match columns. Content is kept until the
  step, which selects the rows with their match values and completes the cells row by row.
* **twoStep**: everything else. Values are bound as they are, and each row written is read again
  and compressed by `stepSelectAndUpdateUncompressRow`.

A run of a prepared statement is a list of rounds; `Statement.round` is one of them: `reset()` or
`clearBindings()`, the bindings in the order in which they are made, and the step. Which rows an
`UPDATE` selects, and the values in them that are not bound, are part of the round.
-/

namespace Wcdb

/-! ### The statement as it is written -/

/-- An expression without parts: a parameter `?n`, or anything else. -/
inductive Operand where
  | bindParameter (n : ℕ)
  | other
  deriving DecidableEq, Repr

/-- An expression of a `VALUES` list or on the right of a `SET`: an item or a row of items. -/
inductive Expression where
  | item (i : Operand)
  | expressions (is : List Operand)
  deriving DecidableEq, Repr

/-- The parameters of an item. -/
def Operand.parameters : Operand → List ℕ
  | .bindParameter n => [n]
  | .other => []

/-- The parameters of an expression. -/
def Expression.parameters : Expression → List ℕ
  | .item i => i.parameters
  | .expressions is => is.flatMap Operand.parameters

/-- What the decorator reads of an `INSERT` or an `UPDATE`. An `INSERT` has one column at each
position; `values` says that it inserts plain values, without an upsert clause. `otherParameters`
are the parameters outside the expressions. -/
structure WriteSTMT where
  isInsert : Bool
  values : Bool := true
  columnsList : List (List String)
  expressions : List Expression
  otherParameters : List ℕ := []
  deriving DecidableEq, Repr

/-- All parameters, each once. -/
def WriteSTMT.parameters (stmt : WriteSTMT) : List ℕ :=
  (stmt.expressions.flatMap Expression.parameters ++ stmt.otherParameters).dedup

/-- `maxBindIndex`. -/
def WriteSTMT.maxBindIndex (stmt : WriteSTMT) : ℕ := stmt.parameters.foldl max 0

/-! ### Preparing -/

/-- `SelectedMatchValueBindIndex`. -/
def selectedMatchValueBindIndex : ℕ := 2 ^ 31 - 1

/-- `SQLITE_MAX_VARIABLE_NUMBER`. -/
def maxVariableNumber : ℕ := 999

/-- The static part of `BindInfo`; zero is no index. -/
structure BindInfo where
  columnInfo : CompressionColumnInfo
  columnParaIndex : Option (ℕ × ℕ)
  matchColumnParaIndex : Option (ℕ × ℕ)
  columnBindIndex : ℕ := 0
  typeBindIndex : ℕ := 0
  matchColumnBindIndex : ℕ := 0
  deriving DecidableEq, Repr

/-- The names with their positions. -/
def positions (columnsList : List (List String)) : List (String × ℕ × ℕ) :=
  columnsList.zipIdx.flatMap fun (columns, i) => columns.zipIdx.map fun (name, j) => (name, i, j)

/-- Where a compressing column and its match column are set; a later position wins. -/
def findColumn (columnsList : List (List String)) (columnInfo : CompressionColumnInfo) : BindInfo :=
  let found := positions columnsList
  { columnInfo
    columnParaIndex := ((found.filter fun p => p.1 = columnInfo.column).getLast?).map Prod.snd
    matchColumnParaIndex := ((found.filter fun p =>
      p.1 ≠ columnInfo.column ∧ p.1 = columnInfo.matchColumn).getLast?).map Prod.snd }

/-- `m_bindInfoList`: the compressing columns the statement sets. -/
def bindInfoList (stmt : WriteSTMT) (columnInfos : List CompressionColumnInfo) : List BindInfo :=
  (columnInfos.map (findColumn stmt.columnsList)).filter fun info => info.columnParaIndex.isSome

def getBindParameter (exps : List Expression) (index : ℕ × ℕ) : Option ℕ :=
  match exps[index.1]? with
  | none => none
  | some e =>
      let item :=
        if 0 < index.2 then
          match e with
          | .expressions is => is[index.2]?
          | .item _ => none
        else
          match e with
          | .item i => some i
          | .expressions _ => some .other
      match item with
      | some (.bindParameter n) => some n
      | _ => none

/-- The body of the loop of `checkBindParametersExist`. -/
def checkBindInfo (exps : List Expression) (info : BindInfo) : Bool × BindInfo :=
  match info.columnParaIndex.bind (getBindParameter exps) with
  | none => (false, info)
  | some n =>
      let info := { info with columnBindIndex := n }
      match info.matchColumnParaIndex with
      | none => (decide (info.columnInfo.compressionType ≠ .variousDict), info)
      | some index =>
          match getBindParameter exps index with
          | none => (false, info)
          | some m => (true, { info with matchColumnBindIndex := m })

/-- The way a statement is compressed. -/
inductive Mode where
  | direct
  | selectMatch
  | twoStep
  deriving DecidableEq, Repr

/-- A compressing column of a written row, and the parameter of its content. -/
structure Target where
  columnInfo : CompressionColumnInfo
  bindIndex : Option ℕ
  deriving DecidableEq, Repr

/-- A prepared statement. -/
structure Statement where
  mode : Mode
  isInsert : Bool
  parameters : List ℕ
  maxBindIndex : ℕ
  infos : List BindInfo
  /-- The columns that `twoStep` compresses. -/
  targets : List Target
  deriving DecidableEq, Repr

/-- The type columns get the parameters after all others. -/
def addTypeParameters (maxBindIndex : ℕ) (infos : List BindInfo) : List BindInfo :=
  infos.zipIdx.map fun (info, i) => { info with typeBindIndex := maxBindIndex + 1 + i }

/-- `selectMatchType` in `processUpdate`. -/
def selectMatchType (infos : List BindInfo) : Bool :=
  infos.all fun info => info.columnBindIndex ≠ 0 ∧
    (info.columnInfo.compressionType = .variousDict → info.matchColumnParaIndex = none)

/-- A column of various dictionaries without match parameter takes the selected match value. -/
def selectMatchValue (info : BindInfo) : BindInfo :=
  if info.matchColumnBindIndex = 0 ∧ info.columnInfo.compressionType = .variousDict then
    { info with matchColumnBindIndex := selectedMatchValueBindIndex }
  else info

def BindInfo.target (info : BindInfo) : Target where
  columnInfo := info.columnInfo
  bindIndex := if info.columnBindIndex = 0 then none else some info.columnBindIndex

/-- `getBindParameterCount()`: the parameters of the types are added, and the one of the rowid of an
`UPDATE` that selects its rows. -/
def Statement.bindParameterCount (stmt : Statement) : ℕ :=
  stmt.maxBindIndex + stmt.infos.length + if stmt.mode = .direct ∨ stmt.isInsert then 0 else 1

/-- `processInsert` and `processUpdate`. -/
def processWrite (stmt : WriteSTMT) (columnInfos : List CompressionColumnInfo) : Statement :=
  let checked := (bindInfoList stmt columnInfos).map (checkBindInfo stmt.expressions)
  let infos := checked.map Prod.snd
  let maxBindIndex := stmt.maxBindIndex
  let parameters := stmt.parameters
  let directCompress := stmt.values ∧ stmt.columnsList ≠ [] ∧ stmt.expressions ≠ [] ∧
    checked.all Prod.fst
  if directCompress then
    ⟨.direct, stmt.isInsert, parameters, maxBindIndex, addTypeParameters maxBindIndex infos, []⟩
  else if stmt.isInsert then
    -- every compressing column of the table, set or not, unless none is set
    let targets := if infos = [] ∧ stmt.columnsList ≠ [] then [] else
      columnInfos.map fun columnInfo =>
        ((infos.find? fun info => info.columnInfo.column = columnInfo.column).map
          BindInfo.target).getD ⟨columnInfo, none⟩
    ⟨.twoStep, true, parameters, maxBindIndex, [], targets⟩
  else if selectMatchType infos then
    ⟨.selectMatch, false, parameters, maxBindIndex,
      addTypeParameters maxBindIndex (infos.map selectMatchValue), []⟩
  else ⟨.twoStep, false, parameters, maxBindIndex, [], infos.map BindInfo.target⟩

/-- SQLite refuses the parameter 0 and too many parameters. -/
def prepare (stmt : WriteSTMT) (columnInfos : List CompressionColumnInfo) : Option Statement :=
  let processed := processWrite stmt columnInfos
  if 0 ∈ stmt.parameters ∨ maxVariableNumber < processed.bindParameterCount then none
  else some processed

namespace Statement

/-- The order in which `m_bindInfoMap` is filled; `emplace` keeps what is there. -/
def bindInfoMap (stmt : Statement) : List (ℕ × ℕ) :=
  stmt.infos.zipIdx.flatMap fun (info, i) =>
    (info.columnBindIndex, i) ::
      ((if 0 < info.matchColumnBindIndex then [(info.matchColumnBindIndex, i)] else []) ++
        [(info.typeBindIndex, i)])

/-- `m_bindInfoMap[index]`, with the position of the `BindInfo`. -/
def infoAt (stmt : Statement) (index : ℕ) : Option (ℕ × BindInfo) :=
  (stmt.bindInfoMap.lookup index).bind fun i => stmt.infos[i]?.map fun info => (i, info)

end Statement

/-! ### Binding -/

/-- The state of a prepared statement: the parameters bound in SQLite, `bindedValue` of each
`BindInfo`, `m_compressFail`, and whether it was stepped since it was prepared or reset. -/
structure BindState where
  params : ℕ → Value
  bindedValue : ℕ → Value
  compressFail : Bool
  stepped : Bool

namespace BindState

/-- After `prepare`. -/
def fresh : BindState := ⟨fun _ => .null, fun _ => .null, false, false⟩

/-- `Super::bind…` of a statement that is ready. -/
def bind (s : BindState) (index : ℕ) (v : Value) : BindState :=
  { s with params := Function.update s.params index v }

def keep (s : BindState) (i : ℕ) (v : Value) : BindState :=
  { s with bindedValue := Function.update s.bindedValue i v }

def fail (s : BindState) : BindState := { s with compressFail := true }

/-- Bind the two parameters of a cell, or fail. -/
def bindCell (s : BindState) (info : BindInfo) : Option (Value × Value) → BindState
  | none => s.fail
  | some (content, type) => (s.bind info.columnBindIndex content).bind info.typeBindIndex type

end BindState

variable (z : Zstd)

/-- Whether a value is text. -/
def Value.isText : Value → Bool
  | .text _ => true
  | _ => false

def bindValueInInfo (can : Bool) (s : BindState) (i : ℕ) (info : BindInfo) (matchValue : ℤ) :
    BindState :=
  let v := s.bindedValue i
  s.bindCell info
    (encodeCell z can .zstdDict (info.columnInfo.getMatchDictId matchValue) v.isText v.blobValue)

/-- The type and dictionary of a column whose content is compressed on its own. -/
def ownDictionary (info : CompressionColumnInfo) : CompressedType × ℕ :=
  if info.compressionType = .dict then (.zstdDict, info.commonDictID) else (.zstdNormal, 0)

variable (stmt : Statement)

/-- A plain binding, if the statement has the parameter. -/
def bindPlain (s : BindState) (index : ℕ) (v : Value) : BindState :=
  if index ≤ stmt.bindParameterCount then s.bind index v else s

/-- `bindInteger`. -/
def bindInteger (can : Bool) (s : BindState) (index : ℕ) (n : ℤ) : BindState :=
  let s := bindPlain stmt s index (.integer n)
  match stmt.infoAt index with
  | none => s
  | some (i, info) =>
      if index = info.matchColumnBindIndex then
        if s.bindedValue i ≠ .null then bindValueInInfo z can s i info n
        else s.keep i (.integer n)
      else s.bind info.typeBindIndex (.integer CompressedType.none.toInt)

/-- `bindDouble` and `bindNull`, which differ in the value and in the message of the error. -/
def bindOther (s : BindState) (index : ℕ) (v : Value) : BindState :=
  let s := bindPlain stmt s index v
  match stmt.infoAt index with
  | none => s
  | some (_, info) =>
      if index = info.matchColumnBindIndex then s.fail
      else s.bind info.typeBindIndex (.integer CompressedType.none.toInt)

/-- `bindText` and `bindBLOB`, which differ in the type of the value. -/
def bindData (can : Bool) (s : BindState) (index : ℕ) (isText : Bool) (data : List UInt8) :
    BindState :=
  match stmt.infoAt index with
  | none => bindPlain stmt s index (dataValue isText data)
  | some (i, info) =>
      if index = info.matchColumnBindIndex then s.fail
      else if 0 < info.matchColumnBindIndex then
        if s.bindedValue i ≠ .null then
          s.bindCell info (encodeCell z can .zstdDict
            (info.columnInfo.getMatchDictId (s.bindedValue i).intValue) isText data)
        else s.keep i (dataValue isText data)
      else
        let (compressedType, dictId) := ownDictionary info.columnInfo
        s.bindCell info (encodeCell z can compressedType dictId isText data)

/-- Bind a value of any type. -/
def bindValue (can : Bool) (s : BindState) : ℕ × Value → BindState
  | (index, .integer n) => bindInteger z stmt can s index n
  | (index, .text data) => bindData z stmt can s index true data
  | (index, .blob data) => bindData z stmt can s index false data
  | (index, v) => bindOther stmt s index v

/-! ### Stepping -/

/-- One pass of the loop over the columns in `stepSelectAndUpdateUncompressRowStatement`. `row`
is the selected row; a column past its end reads as null. -/
def compressColumns (row : List Value) :
    List CompressionColumnInfo → ℕ → ℕ → Option (List (Value × Value))
  | [], _, _ => some []
  | column :: columns, columnIndex, preOffset =>
      let selectIndex := 2 * columnIndex + preOffset
      let value := row.getD selectIndex .null
      let type := row.getD (selectIndex + 1) .null
      if value.isData ∧ type = .null then
        let various := column.compressionType = .variousDict
        let matchValue := (row.getD (selectIndex + 2) .null).intValue
        let (compressedType, dictId) :=
          if various then (.zstdDict, column.getMatchDictId matchValue) else ownDictionary column
        match encodeCell z true compressedType dictId value.isText value.blobValue with
        | none => none
        | some cell =>
            (compressColumns row columns (columnIndex + 1)
              (if various then preOffset + 1 else preOffset)).map (cell :: ·)
      else
        (compressColumns row columns (columnIndex + 1) preOffset).map
          ((value, .integer type.intValue) :: ·)

/-- What `getSelectUncompressRowStatement` selects of a column: content, type and match value. -/
def selectColumn (entry : CompressionColumnInfo × Value × Value) : List Value :=
  entry.2.1 :: .null ::
    if entry.1.compressionType = .variousDict then [entry.2.2] else []

/-- What `getSelectUncompressRowStatement` selects of a row that was just written. -/
def selectUncompressRow (columns : List CompressionColumnInfo) (contents matchValues : List Value) :
    List Value :=
  (columns.zip (contents.zip matchValues)).flatMap selectColumn

/-- A written row: the cells of the compressing columns, and the parameters from which the other
columns were set. -/
structure WrittenRow where
  cells : List (Value × Value)
  params : ℕ → Value

/-- A round: which of `clearBindings()` and `reset()` begins it, `canCompressNewData()`, the
bindings, and for each row that the step writes the content of every compressing column that is
not bound and its match value. -/
structure Round where
  clear : Bool
  can : Bool
  binds : List (ℕ × Value)
  rows : List (List (Value × Value))

/-- `reset()` or `clearBindings()`. -/
def Round.begin (r : Round) (s : BindState) : BindState :=
  if r.clear then { s with params := fun _ => .null, compressFail := false }
  else { s with compressFail := false, stepped := false }

/-- The bindings of a round, in order, of a statement that is ready. -/
def Round.bindAll (r : Round) (s : BindState) : BindState :=
  r.binds.foldl (bindValue z stmt r.can) (r.begin s)

/-- The bindings of a round. SQLite refuses each of them for a statement that was stepped and not
reset, which the decorator does not hear of. -/
def Round.bound (r : Round) (s : BindState) : BindState :=
  if (r.begin s).stepped then { r.bindAll z stmt s with params := (r.begin s).params }
  else r.bindAll z stmt s

/-- The cells as they are bound. -/
def boundCells (s : BindState) : List (Value × Value) :=
  stmt.infos.map fun info => (s.params info.columnBindIndex, s.params info.typeBindIndex)

/-- The loop over the bind infos in `stepUpdate`, for one selected row. -/
def bindSelected (can : Bool) (matchValues : ℕ → Value) :
    List (BindInfo × ℕ) → BindState → BindState
  | [], s => s
  | (info, i) :: infos, s =>
      if info.matchColumnBindIndex = selectedMatchValueBindIndex ∧ s.bindedValue i ≠ .null then
        bindSelected can matchValues infos
          (bindValueInInfo z can s i info (matchValues i).intValue)
      else bindSelected can matchValues infos s

/-- The rows of an `UPDATE` that selects the match values. -/
def stepSelected (can : Bool) :
    List (List (Value × Value)) → BindState → List WrittenRow × BindState
  | [], s => ([], s)
  | row :: rows, s =>
      let s := bindSelected z can (fun i => (row.getD i (.null, .null)).2) stmt.infos.zipIdx s
      let (written, s') := stepSelected can rows s
      (⟨boundCells stmt s, s.params⟩ :: written, s')

/-- The content of each target before it is compressed. -/
def rawContents (s : BindState) (row : List (Value × Value)) : List Value :=
  stmt.targets.zipIdx.map fun (target, i) =>
    match target.bindIndex with
    | some index => s.params index
    | none => (row.getD i (.null, .null)).1

/-- A row written as it is and compressed in a second step. -/
def stepTwo (s : BindState) (row : List (Value × Value)) : Option WrittenRow :=
  let columns := stmt.targets.map Target.columnInfo
  let matchValues := stmt.targets.zipIdx.map fun (_, i) => (row.getD i (.null, .null)).2
  (compressColumns z (selectUncompressRow columns (rawContents stmt s row) matchValues)
    columns 0 0).map fun cells => ⟨cells, s.params⟩

/-- The statement is stepped: an `UPDATE` that selects its rows once for each of them. -/
def Round.stepped (r : Round) (s : BindState) : BindState :=
  { s with stepped := s.stepped || stmt.mode = .direct || stmt.isInsert || !r.rows.isEmpty }

/-- `step()`: the rows written, or `none` when it returns `false`. -/
def stepRows (r : Round) (s : BindState) : Option (List WrittenRow) × BindState :=
  if s.compressFail then (none, s)
  else
    match stmt.mode with
    | .direct => (some [⟨boundCells stmt s, s.params⟩], r.stepped stmt s)
    | .selectMatch =>
        let (rows, s) := stepSelected z stmt r.can r.rows s
        (some rows, r.stepped stmt s)
    | .twoStep => (r.rows.mapM (stepTwo z stmt s), r.stepped stmt s)

/-- One round. -/
def round (s : BindState) (r : Round) : Option (List WrittenRow) × BindState :=
  stepRows z stmt r (r.bound z stmt s)

end Wcdb
