import Wcdb.Base.StringView
import Mathlib.Data.List.Chain

/-!
# The column of an error message

When a statement cannot be prepared because a column is missing, `HandleStatement::prepare` takes
the column, the table and the schema out of the message of SQLite (`tryExtractColumnInfo`) and lets
the binding of the column add it.

`extracts_iff` says for which messages this gives the names that the message was made from. The
prefix of the first format has 16 characters, and the loop that reads it backwards ends at position
16, but begins two characters before the end of the message: for an unqualified column of one
character that is position 15, and the name comes out with the space before it. A table without a
schema is taken for one of the main schema, and a schema that is given must be spelled as in the
statement.
-/

namespace Wcdb.ColumnInfo

open UnsafeStringView

/-! ### The message -/

@[irreducible]
def noSuchColumn : Text := "no such column: ".toList

@[irreducible]
def tableWord : Text := "table ".toList

@[irreducible]
def hasNoColumnNamed : Text := " has no column named ".toList

@[irreducible]
def mainSchema : Text := "main".toList

@[irreducible]
def tempSchema : Text := "temp".toList

/-- `MigrationInfo::getUnionedViewPrefix`. -/
@[irreducible]
def unionedViewPrefix : Text := "wcdb_union_".toList

/-- `MigrationDatabaseInfo::getSchemaPrefix`. -/
@[irreducible]
def schemaPrefix : Text := "wcdb_migration_".toList

@[irreducible]
def compressionColumnTypePrefix : Text := "WCDB_CT_".toList

def isMain (schema : Text) : Bool := schema = [] || schema = mainSchema

/-- `columnInfo[3]`. A name that is missing is empty. -/
structure Names where
  schema : Text := []
  table : Text := []
  column : Text := []
  deriving DecidableEq, Repr

/-- `columnInfo[index] = …`. -/
def Names.set (names : Names) (index : ℕ) (text : Text) : Names :=
  match index with
  | 0 => { names with schema := text }
  | 1 => { names with table := text }
  | _ => { names with column := text }

/-- The characters from a position up to another one. -/
def slice (text : Text) (first last : ℕ) : Text := (text.drop first).take (last - first)

/-- The loop over the message from position `i` down, and what follows it. The length of a message
is an `int`. -/
def splitLoop (msg : Text) : ℕ → ℕ → ℕ → Names → Option Names
  | 0, preLocation, index, columnInfo => some (columnInfo.set index (slice msg 0 preLocation))
  | i + 1, preLocation, index, columnInfo =>
    if i + 1 < 17 then some (columnInfo.set index (slice msg (i + 1) preLocation))
    else if msg[i + 1]? = some ' ' then none
    else if msg[i + 1]? = some '.' then
      -- a third point would belong to `columnInfo[-1]`
      if index = 0 then none
      else splitLoop msg i (i + 1) (index - 1)
        (columnInfo.set index (slice msg (i + 2) preLocation))
    else splitLoop msg i preLocation index columnInfo

/-- The other format. `prepare` has made sure that the words are there. -/
def splitInsert (msg : Text) : Option Names := do
  let firstLoc ← find msg hasNoColumnNamed 0
  let tablePart := slice msg 6 firstLoc
  let column := msg.drop (firstLoc + 21)
  match find tablePart ['.'] 0 with
  | none => some { table := tablePart, column }
  | some secondLoc =>
    some { schema := tablePart.take secondLoc, table := tablePart.drop (secondLoc + 1), column }

def isInsert (msg : Text) : Bool := !hasPrefix msg noSuchColumn

def split (msg : Text) : Option Names :=
  if isInsert msg then splitInsert msg else splitLoop msg (msg.length - 2) msg.length 2 {}

/-- The schemas of the migration stand for the main one. -/
def Names.reconcile (names : Names) : Names :=
  if names.schema = [] then names
  else if hasPrefix names.table unionedViewPrefix && names.schema = tempSchema then
    { names with table := names.table.drop unionedViewPrefix.length, schema := [] }
  else if hasPrefix names.schema schemaPrefix then { names with schema := [] }
  else names

/-! ### The statement -/

/-- `Syntax::Column`, with the address of its table binding. -/
structure Column where
  name : Text
  table : Text := []
  schema : Text := []
  binding : Option ℕ := none
  deriving DecidableEq, Repr

/-- What `iterate` comes upon: a column, the table of a QualifiedTableName, a TableOrSubquery or an
InsertSTMT, or anything else. -/
inductive Visit where
  | column (column : Column)
  | table (name schema : Text)
  | other
  deriving DecidableEq, Repr

/-- What stays the same during the iteration. -/
structure Query where
  columnName : Text
  isInsert : Bool
  tableSpecified : Bool
  schemaSpecified : Bool

/-- What the iteration changes. It stops when the statement is found to be invalid. -/
structure State where
  tableName : Text
  schemaName : Text
  findTable : Bool
  binding : Option ℕ := none
  invalidStatement : Bool := false

section Extract

-- `checkSourceTable` is that of the migrating handle, if there is one
variable (checkSourceTable : Option (Text → Text → Bool)) (q : Query)

def Query.isCompressingColumn : Bool := hasPrefix q.columnName compressionColumnTypePrefix

/-- Whether a column of the statement is the one of the message. -/
def isColumn (tableName schemaName : Text) (column : Column) : Bool :=
  !q.isCompressingColumn && column.name = q.columnName &&
    (q.isInsert ||
      (!((q.tableSpecified && column.table ≠ tableName) ||
          (!q.tableSpecified && column.table ≠ [])) &&
        !((q.schemaSpecified && column.schema ≠ schemaName) ||
          (!q.schemaSpecified && q.tableSpecified && !isMain column.schema))))

def visitColumn (column : Column) (s : State) : State :=
  if !isColumn q s.tableName s.schemaName column then s
  else if column.binding.isSome && s.binding.isSome && column.binding ≠ s.binding then
    { s with invalidStatement := true }
  else { s with binding := column.binding }

def currentTable (name schema : Text) : Text :=
  if hasPrefix name unionedViewPrefix && schema = tempSchema then name.drop unionedViewPrefix.length
  else name

def currentSchema (name schema : Text) : Text :=
  if hasPrefix name unionedViewPrefix && schema = tempSchema then mainSchema
  else if hasPrefix schema schemaPrefix then mainSchema
  else schema

/-- Whether one of two tables is the source of the other. -/
def areRelated (a b : Text) : Bool :=
  match checkSourceTable with
  | none => false
  | some check => check a b || check b a

def visitTable (name schema : Text) (s : State) : State :=
  let curTableName := currentTable name schema
  let curSchema := currentSchema name schema
  if !q.tableSpecified then
    if (s.tableName ≠ [] && s.tableName ≠ curTableName &&
          !areRelated checkSourceTable s.tableName curTableName) ||
        (s.schemaName ≠ [] && curSchema ≠ s.schemaName) then
      { s with invalidStatement := true }
    else
      { s with
        tableName := curTableName
        schemaName := if !isMain curSchema then curSchema else s.schemaName }
  else if !s.findTable && curTableName = s.tableName &&
      ((s.schemaName = [] && isMain curSchema) ||
        (s.schemaName ≠ [] && curSchema = s.schemaName)) then
    { s with findTable := true }
  else s

def visit : Visit → State → State
  | .column column, s => visitColumn q column s
  | .table name schema, s => visitTable checkSourceTable q name schema s
  | .other, s => s

def iterate : List Visit → State → State
  | [], s => s
  | v :: visits, s =>
    let s := visit checkSourceTable q v s
    if s.invalidStatement then s else iterate visits s

/-- The names and the binding that are handed out when the result is true. -/
structure Extracted where
  columnName : Text
  tableName : Text
  schemaName : Text
  binding : Option ℕ
  deriving DecidableEq, Repr

def extract (visits : List Visit) (isInsert : Bool) (columnInfo : Names) : Option Extracted :=
  if columnInfo.column = [] then none
  else
    let names := columnInfo.reconcile
    let q : Query := ⟨names.column, isInsert, columnInfo.table ≠ [], names.schema ≠ []⟩
    let s := iterate checkSourceTable q visits
      { tableName := names.table, schemaName := names.schema, findTable := !q.tableSpecified }
    if (s.binding.isSome || q.isCompressingColumn) && s.findTable && !s.invalidStatement then
      some ⟨names.column, s.tableName, s.schemaName, s.binding⟩
    else none

def tryExtractColumnInfo (visits : List Visit) (msg : Text) : Option Extracted :=
  (split msg).bind (extract checkSourceTable visits (isInsert msg))

end Extract

/-! ### Messages and their names -/

/-- A message by its format and what it names. -/
inductive Message where
  | column (column : Text)
  | tableColumn (table column : Text)
  | schemaColumn (schema table column : Text)
  | insertTable (table column : Text)
  | insertSchema (schema table column : Text)
  deriving DecidableEq, Repr

namespace Message

def text : Message → Text
  | .column name => noSuchColumn ++ name
  | .tableColumn table name => noSuchColumn ++ (table ++ '.' :: name)
  | .schemaColumn schema table name => noSuchColumn ++ (schema ++ '.' :: (table ++ '.' :: name))
  | .insertTable table name => tableWord ++ (table ++ (hasNoColumnNamed ++ name))
  | .insertSchema schema table name =>
    tableWord ++ ((schema ++ '.' :: table) ++ (hasNoColumnNamed ++ name))

def names : Message → Names
  | .column name => ⟨[], [], name⟩
  | .tableColumn table name | .insertTable table name => ⟨[], table, name⟩
  | .schemaColumn schema table name | .insertSchema schema table name => ⟨schema, table, name⟩

def isInsert : Message → Bool
  | .insertTable _ _ | .insertSchema _ _ _ => true
  | .column _ | .tableColumn _ _ | .schemaColumn _ _ _ => false

end Message

structure IsName (name : Text) : Prop where
  ne_nil : name ≠ []
  no_point : '.' ∉ name
  no_space : ' ' ∉ name

/-- The parts of the message are names. -/
def Message.Wellformed : Message → Prop
  | .column name => IsName name
  | .tableColumn table name | .insertTable table name => IsName table ∧ IsName name
  | .schemaColumn schema table name | .insertSchema schema table name =>
    IsName schema ∧ IsName table ∧ IsName name

/-! ### Splitting the message -/

theorem length_noSuchColumn : noSuchColumn.length = 16 := by decide +kernel

theorem length_tableWord : tableWord.length = 6 := by decide +kernel

theorem length_hasNoColumnNamed : hasNoColumnNamed.length = 21 := by decide +kernel

section Split

variable {msg before word after : Text} {i d preLocation index : ℕ} {columnInfo : Names}

theorem slice_append (before word after : Text) :
    slice (before ++ (word ++ after)) before.length (before.length + word.length) = word := by
  rw [slice, List.drop_left, Nat.add_sub_cancel_left, List.take_left]

/-- A character that the loop passes over. -/
def Plain (msg : Text) (j : ℕ) : Prop := ∃ c, msg[j]? = some c ∧ c ≠ ' ' ∧ c ≠ '.'

theorem IsName.plain (h : IsName word) {j : ℕ} (hj : before.length ≤ j)
    (hj' : j < before.length + word.length) : Plain (before ++ (word ++ after)) j := by
  obtain ⟨k, rfl⟩ := Nat.exists_eq_add_of_le hj
  have hk : k < word.length := by omega
  refine ⟨word[k], ?_, ?_, ?_⟩
  · rw [List.getElem?_append_right hj, Nat.add_sub_cancel_left, List.getElem?_append_left hk,
      List.getElem?_eq_getElem hk]
  · exact fun heq => h.no_space (heq ▸ List.getElem_mem hk)
  · exact fun heq => h.no_point (heq ▸ List.getElem_mem hk)

/-- Without a point above position 16, the rest of the message is one piece. -/
theorem splitLoop_plain (hi : 16 ≤ i) (h : ∀ j, 17 ≤ j → j ≤ i → Plain msg j) :
    splitLoop msg i preLocation index columnInfo =
      some (columnInfo.set index (slice msg 16 preLocation)) := by
  induction i with
  | zero => exact absurd hi (by decide)
  | succ i ih =>
    rw [splitLoop]
    by_cases hend : i + 1 < 17
    · obtain rfl : i = 15 := by omega
      rw [if_pos hend]
    · obtain ⟨c, hc, hspace, hpoint⟩ := h (i + 1) (by omega) le_rfl
      rw [if_neg hend, hc, if_neg (by simpa using hspace), if_neg (by simpa using hpoint)]
      exact ih (by omega) fun j hj hj' => h j hj (by omega)

/-- The last point before a position ends a piece. -/
theorem splitLoop_point (hd : 17 ≤ d + 1) (hdi : d + 1 ≤ i) (hpoint : msg[d + 1]? = some '.')
    (h : ∀ j, d + 1 < j → j ≤ i → Plain msg j) (hindex : index ≠ 0) :
    splitLoop msg i preLocation index columnInfo =
      splitLoop msg d (d + 1) (index - 1)
        (columnInfo.set index (slice msg (d + 2) preLocation)) := by
  induction i with
  | zero => exact absurd hdi (Nat.not_succ_le_zero d)
  | succ i ih =>
    rw [splitLoop, if_neg (by omega)]
    by_cases heq : d = i
    · subst heq
      rw [hpoint, if_neg (by decide), if_pos rfl, if_neg hindex]
    · obtain ⟨c, hc, hspace, hpoint'⟩ := h (i + 1) (by omega) le_rfl
      rw [hc, if_neg (by simpa using hspace), if_neg (by simpa using hpoint')]
      exact ih (by omega) fun j hj hj' => h j hj (by omega)

theorem isInsert_text (m : Message) : isInsert m.text = m.isInsert := by
  have hcolumn : ∀ rest : Text, isInsert (noSuchColumn ++ rest) = false := by
    intro rest
    simp [isInsert, hasPrefix]
  have htable : ∀ rest : Text, isInsert (tableWord ++ rest) = true := by
    intro rest
    rw [isInsert, hasPrefix, noSuchColumn, tableWord]
    rfl
  cases m with
  | column column => exact hcolumn _
  | tableColumn table column => exact hcolumn _
  | schemaColumn schema table column => exact hcolumn _
  | insertTable table column => exact htable _
  | insertSchema schema table column => exact htable _

/-- The loop reads a name that follows a point. -/
theorem splitLoop_piece (h : IsName word) (hbefore : 17 ≤ before.length) (hi : before.length ≤ i)
    (hi' : i ≤ before.length + word.length) (hindex : index ≠ 0) :
    splitLoop (before ++ '.' :: (word ++ after)) i (before.length + 1 + word.length) index
        columnInfo =
      splitLoop (before ++ '.' :: (word ++ after)) (before.length - 1) before.length (index - 1)
        (columnInfo.set index word) := by
  obtain ⟨d, hd⟩ : ∃ d, before.length = d + 1 := Nat.exists_eq_add_of_le' (by omega)
  have htext : before ++ '.' :: (word ++ after) = (before ++ ['.']) ++ (word ++ after) := by simp
  have hlength : (before ++ ['.']).length = d + 2 := by
    rw [List.length_append, hd, List.length_singleton]
  have hslice := slice_append (before ++ ['.']) word after
  have hpoint : (before ++ '.' :: (word ++ after))[d + 1]? = some '.' := by
    rw [← hd, List.getElem?_append_right le_rfl, Nat.sub_self]
    rfl
  have hplain : ∀ j, d + 1 < j → j ≤ i → Plain (before ++ '.' :: (word ++ after)) j := by
    intro j hj hj'
    rw [htext]
    exact h.plain (by omega) (by omega)
  rw [hlength, ← htext] at hslice
  rw [hd, splitLoop_point (by omega) (by omega) hpoint hplain hindex, hslice,
    Nat.add_sub_cancel]

/-- The loop ends with the name right behind the prefix. -/
theorem splitLoop_first (h : IsName word) (hi : 16 ≤ i) (hi' : i < 16 + word.length) :
    splitLoop (noSuchColumn ++ (word ++ after)) i (16 + word.length) index columnInfo =
      some (columnInfo.set index word) := by
  have hslice := slice_append noSuchColumn word after
  rw [length_noSuchColumn] at hslice
  rw [splitLoop_plain hi, hslice]
  intro j hj hj'
  exact h.plain (by rw [length_noSuchColumn]; omega) (by rw [length_noSuchColumn]; omega)

theorem split_eq_splitLoop {m : Message} (h : m.isInsert = false) :
    split m.text = splitLoop m.text (m.text.length - 2) m.text.length 2 {} := by
  rw [split, isInsert_text, h, if_neg Bool.false_ne_true]

theorem split_column {column : Text} (h : IsName column) (hlength : column.length ≠ 1) :
    split (Message.column column).text = some ⟨[], [], column⟩ := by
  have hpos := List.length_pos_of_ne_nil h.ne_nil
  have htext : (Message.column column).text = noSuchColumn ++ (column ++ []) := by
    rw [List.append_nil, Message.text]
  have hlen : (Message.column column).text.length = 16 + column.length := by
    rw [Message.text, List.length_append, length_noSuchColumn]
  rw [split_eq_splitLoop rfl, hlen, htext, splitLoop_first h (by omega) (by omega)]
  rfl

/-- The loop does not even begin. -/
theorem split_column_of_length {column : Text} (h : column.length = 1) :
    split (Message.column column).text = some { column := ' ' :: column } := by
  obtain ⟨c, rfl⟩ := List.length_eq_one_iff.mp h
  rw [split_eq_splitLoop rfl, Message.text, List.length_append, length_noSuchColumn, noSuchColumn]
  rfl

theorem split_tableColumn {table column : Text} (ht : IsName table) (hc : IsName column) :
    split (Message.tableColumn table column).text = some ⟨[], table, column⟩ := by
  have hpos := List.length_pos_of_ne_nil hc.ne_nil
  have hpos' := List.length_pos_of_ne_nil ht.ne_nil
  have hbefore : (noSuchColumn ++ table).length = 16 + table.length := by
    rw [List.length_append, length_noSuchColumn]
  have htext : (Message.tableColumn table column).text =
      (noSuchColumn ++ table) ++ '.' :: (column ++ []) := by simp [Message.text]
  have hlen : (Message.tableColumn table column).text.length =
      (noSuchColumn ++ table).length + 1 + column.length := by
    rw [htext, List.append_nil, List.length_append, List.length_cons]
    omega
  rw [split_eq_splitLoop rfl, hlen, htext,
    splitLoop_piece hc (by omega) (by omega) (by omega) (by decide), hbefore, List.append_assoc,
    splitLoop_first ht (by omega) (by omega)]
  rfl

theorem split_schemaColumn {schema table column : Text} (hs : IsName schema) (ht : IsName table)
    (hc : IsName column) :
    split (Message.schemaColumn schema table column).text = some ⟨schema, table, column⟩ := by
  have hpos := List.length_pos_of_ne_nil hc.ne_nil
  have hpos' := List.length_pos_of_ne_nil ht.ne_nil
  have hpos'' := List.length_pos_of_ne_nil hs.ne_nil
  have hbefore : (noSuchColumn ++ schema).length = 16 + schema.length := by
    rw [List.length_append, length_noSuchColumn]
  have hbefore' : (noSuchColumn ++ schema ++ '.' :: table).length =
      (noSuchColumn ++ schema).length + 1 + table.length := by
    rw [List.length_append, List.length_cons]
    omega
  have htext : (Message.schemaColumn schema table column).text =
      (noSuchColumn ++ schema ++ '.' :: table) ++ '.' :: (column ++ []) := by simp [Message.text]
  have htext' : (noSuchColumn ++ schema ++ '.' :: table) ++ '.' :: (column ++ []) =
      (noSuchColumn ++ schema) ++ '.' :: (table ++ '.' :: column) := by simp
  have hlen : (Message.schemaColumn schema table column).text.length =
      (noSuchColumn ++ schema ++ '.' :: table).length + 1 + column.length := by
    rw [htext, List.append_nil, List.length_append, List.length_cons]
    omega
  rw [split_eq_splitLoop rfl, hlen, htext,
    splitLoop_piece hc (by omega) (by omega) (by omega) (by decide), htext', hbefore',
    splitLoop_piece ht (by omega) (by omega) (by omega) (by decide), hbefore, List.append_assoc,
    splitLoop_first hs (by omega) (by omega)]
  rfl

theorem hasNoColumnNamed_eq :
    hasNoColumnNamed = ' ' :: ("has".toList ++ ' ' :: "no column named ".toList) := by
  decide +kernel

theorem tableWord_eq : tableWord = "table".toList ++ [' '] := by decide +kernel

/-- The words do not begin within the name of the table, nor with the space before it. -/
theorem find_hasNoColumnNamed {name column : Text} (h : ' ' ∉ name) :
    find (tableWord ++ (name ++ (hasNoColumnNamed ++ column))) hasNoColumnNamed 0 =
      some (6 + name.length) := by
  have htext : tableWord ++ (name ++ (hasNoColumnNamed ++ column)) =
      (tableWord ++ name) ++ (hasNoColumnNamed ++ column) := (List.append_assoc _ _ _).symm
  have hfirst : ∀ k < (tableWord ++ name).length,
      ¬hasNoColumnNamed <+: ((tableWord ++ name) ++ (hasNoColumnNamed ++ column)).drop k := by
    intro k hk hstarts
    have hhead : (tableWord ++ name)[k]? = some ' ' := by
      obtain ⟨rest, hrest⟩ := hstarts
      have hget := congrArg (·[0]?) hrest
      rw [hasNoColumnNamed_eq] at hget
      simp only [List.cons_append, List.getElem?_cons_zero, List.getElem?_drop,
        Nat.add_zero] at hget
      rw [← List.getElem?_append_left hk, hget]
    rw [List.length_append, length_tableWord] at hk
    rcases Nat.lt_trichotomy k 5 with hlt | rfl | hgt
    · have hword : ∀ k < 5, tableWord[k]? ≠ some ' ' := by decide +kernel
      rw [List.getElem?_append_left (by rw [length_tableWord]; omega)] at hhead
      exact hword k hlt hhead
    · -- the name would be `has`, and `has` would begin like `no`
      have hdrop : ((tableWord ++ name) ++ (hasNoColumnNamed ++ column)).drop 5 =
          ' ' :: (name ++ ' ' :: ("has no column named ".toList ++ column)) := by
        rw [List.append_assoc, tableWord_eq, List.append_assoc, hasNoColumnNamed]
        rfl
      obtain ⟨rest, hrest⟩ := hstarts
      rw [hdrop, hasNoColumnNamed_eq, List.cons_append, List.append_assoc,
        List.cons_append] at hrest
      have hwords := (append_cons_inj (by decide +kernel) h).mp (List.tail_eq_of_cons_eq hrest)
      exact absurd (List.head_eq_of_cons_eq hwords.2) (by decide)
    · rw [List.getElem?_append_right (by rw [length_tableWord]; omega)] at hhead
      exact h (List.mem_of_getElem? hhead)
  rw [htext, find, if_neg, List.drop_zero, strstr_append (List.prefix_append _ _) hfirst,
    List.length_append, length_tableWord]
  · simp
  · simp only [List.length_append, length_tableWord, length_hasNoColumnNamed]
    omega

theorem splitInsert_text {name column : Text} (h : ' ' ∉ name) :
    splitInsert (tableWord ++ (name ++ (hasNoColumnNamed ++ column))) =
      match find name ['.'] 0 with
      | none => some ⟨[], name, column⟩
      | some secondLoc => some ⟨name.take secondLoc, name.drop (secondLoc + 1), column⟩ := by
  have hslice := slice_append tableWord name (hasNoColumnNamed ++ column)
  have hdrop : (tableWord ++ (name ++ (hasNoColumnNamed ++ column))).drop (6 + name.length + 21) =
      column := by
    rw [← List.append_assoc, ← List.append_assoc]
    refine List.drop_left' ?_
    rw [List.length_append, List.length_append, length_tableWord, length_hasNoColumnNamed]
  rw [length_tableWord] at hslice
  rw [splitInsert, find_hasNoColumnNamed h]
  simp only [Option.bind_eq_bind, Option.bind_some, hslice, hdrop]

theorem split_insertTable {table column : Text} (ht : IsName table) :
    split (Message.insertTable table column).text = some ⟨[], table, column⟩ := by
  rw [split, isInsert_text, Message.isInsert, if_pos rfl, Message.text,
    splitInsert_text ht.no_space, find_of_not_mem (by simpa using ht.no_point)]

theorem split_insertSchema {schema table column : Text} (hs : IsName schema) (ht : IsName table) :
    split (Message.insertSchema schema table column).text = some ⟨schema, table, column⟩ := by
  have hspace : ' ' ∉ schema ++ '.' :: table := by
    simp only [List.mem_append, List.mem_cons, not_or]
    exact ⟨hs.no_space, by decide, ht.no_space⟩
  have hfind : find ([] ++ (schema ++ '.' :: table)) ['.'] 0 = some (0 + schema.length) :=
    find_append hs.no_point
  rw [List.nil_append, Nat.zero_add] at hfind
  rw [split, isInsert_text, Message.isInsert, if_pos rfl, Message.text, splitInsert_text hspace,
    hfind]
  simp

/-- The names come out of a message as they went in, unless it is about an unqualified column of
one character. -/
theorem split_text {m : Message} (h : m.Wellformed)
    (hlength : ∀ name, m = .column name → name.length ≠ 1) : split m.text = some m.names := by
  cases m with
  | column name => exact split_column h (hlength name rfl)
  | tableColumn table name => exact split_tableColumn h.1 h.2
  | schemaColumn schema table name => exact split_schemaColumn h.1 h.2.1 h.2.2
  | insertTable table name => exact split_insertTable h.1
  | insertSchema schema table name => exact split_insertSchema h.1 h.2.1

end Split

/-! ### The bindings of a column -/

/-- Two occurrences of a column that follow each other do not have different bindings. -/
def Agree (a b : Option ℕ) : Prop := a = none ∨ b = none ∨ a = b

/-- What is left of the bindings: the one of the last occurrence. -/
def bindAll : List (Option ℕ) → Option ℕ → Option (Option ℕ)
  | [], binding => some binding
  | newBinding :: rest, binding =>
    if newBinding.isSome && binding.isSome && newBinding ≠ binding then none
    else bindAll rest newBinding

def Bound (bindings : List (Option ℕ)) : Prop :=
  bindings.IsChain Agree ∧ ∃ b, bindings.getLast? = some (some b)

section Bindings

variable {bindings : List (Option ℕ)} {a b : Option ℕ}

theorem agree_iff : Agree a b ↔ ¬(b.isSome && a.isSome && b ≠ a) = true := by
  rw [Agree]
  cases a with
  | none => simp
  | some a =>
    cases b with
    | none => simp
    | some b => simp [eq_comm (a := a)]

theorem bindAll_eq_some_iff :
    (∃ b, bindAll bindings a = some (some b)) ↔ Bound (a :: bindings) := by
  induction bindings generalizing a with
  | nil => simp [bindAll, Bound]
  | cons c bindings ih =>
    rw [bindAll, Bound, List.isChain_cons_cons, List.getLast?_cons_cons, and_assoc, agree_iff]
    split_ifs with h
    · exact iff_of_false (fun ⟨_, hb⟩ => nomatch hb) fun hb => hb.1 h
    · rw [ih, Bound]
      exact (and_iff_right h).symm

theorem bound_cons_none : Bound (none :: bindings) ↔ Bound bindings := by
  rw [Bound, Bound]
  cases bindings with
  | nil => simp
  | cons c bindings =>
    rw [List.isChain_cons_cons, List.getLast?_cons_cons]
    exact and_congr_left' (and_iff_right (.inl rfl))

end Bindings

/-! ### The iteration -/

/-- The bindings of the columns that are meant. -/
def bindingsOf (isMeant : Column → Bool) (visits : List Visit) : List (Option ℕ) :=
  visits.filterMap fun
    | .column column => if isMeant column then some column.binding else none
    | .table _ _ | .other => none

section Iterate

variable {checkSourceTable : Option (Text → Text → Bool)} {q : Query} {visits : List Visit}
  {isMeant : Column → Bool} {s : State}

/-- What is known before a table has been visited, and what is known afterwards. -/
structure Follows (checkSourceTable : Option (Text → Text → Bool)) (q : Query)
    (visits : List Visit) (isMeant : Column → Bool) (before after : Text → Text → Bool → Prop) :
    Prop where
  column : ∀ tableName schemaName findTable, before tableName schemaName findTable →
    ∀ column, isColumn q tableName schemaName column = isMeant column
  table : ∀ name schema, .table name schema ∈ visits → ∀ s : State,
    before s.tableName s.schemaName s.findTable → s.invalidStatement = false →
    (visitTable checkSourceTable q name schema s).invalidStatement = false ∧
      (visitTable checkSourceTable q name schema s).binding = s.binding ∧
      after (visitTable checkSourceTable q name schema s).tableName
        (visitTable checkSourceTable q name schema s).schemaName
        (visitTable checkSourceTable q name schema s).findTable
  weaken : ∀ tableName schemaName findTable, after tableName schemaName findTable →
    before tableName schemaName findTable

variable {before after : Text → Text → Bool → Prop}

theorem Follows.tail {v : Visit}
    (h : Follows checkSourceTable q (v :: visits) isMeant before after) :
    Follows checkSourceTable q visits isMeant before after :=
  ⟨h.column, fun name schema hmem => h.table name schema (List.mem_cons_of_mem _ hmem), h.weaken⟩

theorem iterate_spec (h : Follows checkSourceTable q visits isMeant before after)
    (hs : before s.tableName s.schemaName s.findTable) (hvalid : s.invalidStatement = false) :
    match bindAll (bindingsOf isMeant visits) s.binding with
    | none => (iterate checkSourceTable q visits s).invalidStatement = true
    | some binding =>
      (iterate checkSourceTable q visits s).invalidStatement = false ∧
      (iterate checkSourceTable q visits s).binding = binding ∧
      ((after s.tableName s.schemaName s.findTable ∨
          ∃ name schema, .table name schema ∈ visits) →
        after (iterate checkSourceTable q visits s).tableName
          (iterate checkSourceTable q visits s).schemaName
          (iterate checkSourceTable q visits s).findTable) := by
  induction visits generalizing s with
  | nil => exact ⟨hvalid, rfl, fun hor => hor.resolve_right fun ⟨_, _, hmem⟩ => nomatch hmem⟩
  | cons v visits ih =>
    cases v with
    | other =>
      rw [iterate, visit, if_neg (by simp [hvalid])]
      have hrest := ih h.tail hs hvalid
      simpa [bindingsOf] using hrest
    | table name schema =>
      obtain ⟨hvalid', hbinding, hafter⟩ := h.table name schema List.mem_cons_self s hs hvalid
      rw [iterate, visit, if_neg (by simp [hvalid'])]
      have hrest := ih h.tail (h.weaken _ _ _ hafter) hvalid'
      rw [hbinding] at hrest
      have hbindings : bindingsOf isMeant (.table name schema :: visits) =
          bindingsOf isMeant visits := rfl
      rw [hbindings]
      cases hbind : bindAll (bindingsOf isMeant visits) s.binding with
      | none =>
        rw [hbind] at hrest
        exact hrest
      | some binding =>
        rw [hbind] at hrest
        exact ⟨hrest.1, hrest.2.1, fun _ => hrest.2.2 (.inl hafter)⟩
    | column column =>
      rw [iterate, visit, visitColumn, h.column _ _ _ hs]
      cases hmeant : isMeant column with
      | false =>
        have hbindings : bindingsOf isMeant (.column column :: visits) =
            bindingsOf isMeant visits := by simp [bindingsOf, hmeant]
        rw [Bool.not_false, if_pos rfl, hbindings, if_neg (by simp [hvalid])]
        have hrest := ih h.tail hs hvalid
        simpa using hrest
      | true =>
        have hbindings : bindingsOf isMeant (.column column :: visits) =
            column.binding :: bindingsOf isMeant visits := by simp [bindingsOf, hmeant]
        rw [Bool.not_true, if_neg Bool.false_ne_true, hbindings, bindAll]
        by_cases hdiffer : (column.binding.isSome && s.binding.isSome &&
            column.binding ≠ s.binding) = true
        · rw [if_pos hdiffer, if_pos hdiffer]
          rfl
        · rw [if_neg hdiffer, if_neg hdiffer, if_neg (by simp [hvalid])]
          have hrest := ih (s := { s with binding := column.binding }) h.tail hs hvalid
          simpa using hrest

end Iterate

/-! ### Which messages give their names back -/

/-- The schema as it is handed out. -/
def schemaOf (schema : Text) : Text := if isMain schema then [] else schema

namespace Message

def columnName (m : Message) : Text := m.names.column

/-- The message names the table, and the schema if it names one. -/
def IsAbout (table schema : Text) : Message → Prop
  | .column _ => True
  | .tableColumn t _ | .insertTable t _ => t = table
  | .schemaColumn s t _ | .insertSchema s t _ =>
    t = table ∧ (s = schema ∨ isMain s = true ∧ isMain schema = true)

/-- The column is written as the message says. An INSERT names its columns only. -/
def isColumn : Message → Column → Bool
  | .column name, c => c.name = name && c.table = []
  | .tableColumn table name, c => c.name = name && c.table = table && isMain c.schema
  | .schemaColumn schema table name, c => c.name = name && c.table = table && c.schema = schema
  | .insertTable _ name, c | .insertSchema _ _ name, c => c.name = name

/-- What has to be added to the message for its names to be understood, given the schema of the
table. -/
def Understood (schema : Text) : Message → Prop
  | .column name => name.length ≠ 1 ∧ hasPrefix schema schemaPrefix = false
  | .tableColumn _ _ | .insertTable _ _ => isMain schema = true
  | .schemaColumn _ _ _ | .insertSchema _ _ _ =>
    isMain schema = false ∧ hasPrefix schema schemaPrefix = false

end Message

/-- The message is one about a column of a statement over one table, which is in the main schema or
an attached one, and the statement has the column with a binding. -/
structure Reported (m : Message) (visits : List Visit) (table schema : Text) : Prop where
  wellformed : m.Wellformed
  isName : IsName table
  isAbout : m.IsAbout table schema
  notTemp : schema ≠ tempSchema
  visited : .table table schema ∈ visits
  unique : ∀ name s, .table name s ∈ visits → name = table ∧ s = schema
  bound : ∃ c, .column c ∈ visits ∧ m.isColumn c = true ∧ c.binding.isSome

/-- The names of the message come out, completed by those of the statement. -/
def Extracts (checkSourceTable : Option (Text → Text → Bool)) (m : Message) (visits : List Visit)
    (table schema : Text) : Prop :=
  ∃ binding, tryExtractColumnInfo checkSourceTable visits m.text =
    some ⟨m.columnName, table, schemaOf schema, binding⟩

section Main

variable {checkSourceTable : Option (Text → Text → Bool)} {m : Message} {visits : List Visit}
  {table schema : Text}

theorem not_hasPrefix_of_isMain (h : isMain schema = true) :
    hasPrefix schema schemaPrefix = false := by
  rw [isMain, Bool.or_eq_true, decide_eq_true_eq, decide_eq_true_eq] at h
  rcases h with rfl | rfl
  · decide +kernel
  · decide +kernel

theorem ne_tempSchema_of_isMain (h : isMain schema = true) : schema ≠ tempSchema := by
  rw [isMain, Bool.or_eq_true, decide_eq_true_eq, decide_eq_true_eq] at h
  rcases h with rfl | rfl
  · decide +kernel
  · decide +kernel

theorem isMain_mainSchema : isMain mainSchema = true := by decide +kernel

theorem currentTable_of_ne (h : schema ≠ tempSchema) : currentTable table schema = table := by
  simp [currentTable, h]

theorem currentSchema_of_ne (h : schema ≠ tempSchema) : currentSchema table schema =
    if hasPrefix schema schemaPrefix then mainSchema else schema := by
  simp [currentSchema, h]

/-- The columns that are meant; a column of the compression is not looked for. -/
def Message.isMeant (m : Message) (c : Column) : Bool :=
  !hasPrefix m.columnName compressionColumnTypePrefix && m.isColumn c

/-- The binding that is handed out. -/
theorem binding_iff (m : Message) (visits : List Visit) :
    (∃ b, bindAll (bindingsOf m.isMeant visits) none = some b ∧
      (b.isSome || hasPrefix m.columnName compressionColumnTypePrefix) = true) ↔
      hasPrefix m.columnName compressionColumnTypePrefix = true ∨
        Bound (bindingsOf m.isColumn visits) := by
  cases hcompress : hasPrefix m.columnName compressionColumnTypePrefix with
  | true =>
    have hnil : bindingsOf m.isMeant visits = [] := by
      refine List.filterMap_eq_nil_iff.mpr fun v _ => ?_
      cases v <;> simp [Message.isMeant, hcompress]
    rw [hnil]
    exact iff_of_true ⟨none, rfl, rfl⟩ (.inl rfl)
  | false =>
    have hmeant : m.isMeant = m.isColumn := by
      funext c
      rw [Message.isMeant, hcompress, Bool.not_false, Bool.true_and]
    rw [hmeant, ← bound_cons_none, ← bindAll_eq_some_iff]
    simp only [Bool.or_false, Bool.false_eq_true, false_or]
    constructor
    · rintro ⟨b, hb, hsome⟩
      obtain ⟨b, rfl⟩ := Option.isSome_iff_exists.mp hsome
      exact ⟨b, hb⟩
    · rintro ⟨b, hb⟩
      exact ⟨some b, hb, rfl⟩

theorem reconcile_column (names : Names) : names.reconcile.column = names.column := by
  rw [Names.reconcile]
  split_ifs <;> rfl

/-- What is handed out, when it is known what the iteration does to the names. -/
theorem extract_eq {columnInfo : Names} {isInsert findTable : Bool} {isMeant : Column → Bool}
    {before : Text → Text → Bool →
      Prop} {tableName schemaName : Text} (hne : columnInfo.column ≠ [])
    (hfollows : Follows checkSourceTable
      ⟨columnInfo.column, isInsert, columnInfo.table ≠ [], columnInfo.reconcile.schema ≠ []⟩
      visits isMeant before
      fun t s f => t = tableName ∧ s = schemaName ∧ f = findTable)
    (hbefore : before columnInfo.reconcile.table columnInfo.reconcile.schema
      !decide (columnInfo.table ≠ []))
    (hvisited : ∃ name schema, .table name schema ∈ visits) :
    extract checkSourceTable visits isInsert columnInfo =
      (bindAll (bindingsOf isMeant visits) none).bind fun binding =>
        if (binding.isSome || hasPrefix columnInfo.column compressionColumnTypePrefix) &&
          findTable then
          some ⟨columnInfo.column, tableName, schemaName, binding⟩
        else none := by
  have hspec := iterate_spec (s := {
    tableName := columnInfo.reconcile.table
    schemaName := columnInfo.reconcile.schema
    findTable := !decide (columnInfo.table ≠ []) }) hfollows hbefore rfl
  rw [extract, if_neg hne]
  simp only [reconcile_column]
  cases hbind : bindAll (bindingsOf isMeant visits) none with
  | none =>
    rw [hbind] at hspec
    simp only [hspec, Bool.not_true, Bool.and_false, Bool.false_eq_true, if_false, Option.bind_none]
  | some binding =>
    rw [hbind] at hspec
    obtain ⟨hvalid, hbinding, hnames⟩ := hspec
    obtain ⟨htable, hschema, hfind⟩ := hnames (.inr hvisited)
    simp only [hvalid, hbinding, htable, hschema, hfind, Query.isCompressingColumn, Bool.not_false,
      Bool.and_true, Option.bind_some]

/-- A message that names a table leaves the names as they are, and asks for the table. -/
theorem follows_specified {q : Query} (hq : q.tableSpecified = true) (schemaName : Text)
    (hvisits : ∀ name s, .table name s ∈ visits → name = table ∧ s = schema)
    (htemp : schema ≠ tempSchema) :
    Follows checkSourceTable q visits (isColumn q table schemaName)
      (fun t s f => t = table ∧ s = schemaName ∧ (f = true →
        ((schemaName = [] && isMain (currentSchema table schema)) ||
          (schemaName ≠ [] && currentSchema table schema = schemaName)) = true))
      fun t s f => t = table ∧ s = schemaName ∧
        f = ((schemaName = [] && isMain (currentSchema table schema)) ||
          (schemaName ≠ [] && currentSchema table schema = schemaName)) where
  column := by
    rintro _ _ f ⟨rfl, rfl, -⟩ column
    rfl
  table := by
    rintro name s hmem st ⟨ht, hs, hf⟩ hvalid
    obtain ⟨rfl, rfl⟩ := hvisits name s hmem
    rw [visitTable, hq, currentTable_of_ne htemp, ht, hs]
    cases hfound : (schemaName = [] && isMain (currentSchema name s)) ||
      (schemaName ≠ [] && currentSchema name s = schemaName) with
    | false =>
      have hnot : st.findTable = false := by
        rw [hfound] at hf
        exact Bool.eq_false_iff.mpr fun h => Bool.false_ne_true (hf h)
      simp [hvalid, ht, hs, hnot]
    | true =>
      cases hfind : st.findTable with
      | false => simp [hvalid]
      | true => simp [hvalid, ht, hs, hfind]
  weaken := by
    rintro _ _ f ⟨rfl, rfl, rfl⟩
    exact ⟨rfl, rfl, id⟩

/-- A message that names no table gets the table and the schema of the statement. -/
theorem follows_unspecified {q : Query} (hq : q.tableSpecified = false)
    (hq' : q.schemaSpecified = false)
    (hvisits : ∀ name s, .table name s ∈ visits → name = table ∧ s = schema)
    (htemp : schema ≠ tempSchema) :
    Follows checkSourceTable q visits (isColumn q [] [])
      (fun t s f => f = true ∧ (t = [] ∧ s = [] ∨
        t = table ∧ s = schemaOf (currentSchema table schema)))
      fun t s f => t = table ∧ s = schemaOf (currentSchema table schema) ∧ f = true where
  column := by
    intro t s f _ column
    simp [isColumn, hq, hq']
  table := by
    rintro name s hmem st ⟨hf, hnames⟩ hvalid
    obtain ⟨rfl, rfl⟩ := hvisits name s hmem
    rw [visitTable, hq, currentTable_of_ne htemp]
    rcases hnames with ⟨ht, hs⟩ | ⟨ht, hs⟩
    · cases hmain : isMain (currentSchema name s) <;>
        simp [ht, hs, hf, hvalid, hmain, schemaOf]
    · cases hmain : isMain (currentSchema name s) <;>
        simp [ht, hs, hf, hvalid, hmain, schemaOf]
  weaken := by
    rintro t s f ⟨ht, hs, hf⟩
    exact ⟨hf, .inr ⟨ht, hs⟩⟩

theorem handed_iff (m : Message) (visits : List Visit) (table schema : Text) (findTable : Bool)
    (tableName schemaName : Text) :
    (∃ binding, ((bindAll (bindingsOf m.isMeant visits) none).bind fun binding =>
        if (binding.isSome || hasPrefix m.columnName compressionColumnTypePrefix) && findTable then
          some (Extracted.mk m.columnName tableName schemaName binding)
        else none) = some ⟨m.columnName, table, schemaOf schema, binding⟩) ↔
      (findTable = true ∧ tableName = table ∧ schemaName = schemaOf schema) ∧
        (hasPrefix m.columnName compressionColumnTypePrefix = true ∨
          Bound (bindingsOf m.isColumn visits)) := by
  rw [← binding_iff]
  constructor
  · rintro ⟨binding, hbinding⟩
    obtain ⟨b, hbind, hhanded⟩ := Option.bind_eq_some_iff.mp hbinding
    split_ifs at hhanded with hcond
    obtain ⟨-, rfl, rfl, -⟩ := Extracted.mk.inj (Option.some.inj hhanded)
    obtain ⟨hsome, hfind⟩ := (Bool.and_eq_true _ _).mp hcond
    exact ⟨⟨hfind, rfl, rfl⟩, b, hbind, hsome⟩
  · rintro ⟨⟨hfind, rfl, rfl⟩, b, hbind, hsome⟩
    refine ⟨b, ?_⟩
    rw [hbind, Option.bind_some, hsome, hfind]
    rfl

/-- The schema of a table in a message: none, or the one of the statement. -/
theorem currentSchema_of_isMain (h : isMain schema = true) :
    currentSchema table schema = schema := by
  rw [currentSchema_of_ne (ne_tempSchema_of_isMain h), not_hasPrefix_of_isMain h]
  rfl

theorem schemaOf_eq_nil_iff : schemaOf schema = [] ↔ isMain schema = true := by
  rw [schemaOf]
  split_ifs with h
  · exact iff_of_true rfl h
  · refine iff_of_false (fun hnil => h ?_) h
    rw [hnil]
    rfl

theorem isColumn_eq_isMeant {q : Query} (hm : m.Wellformed) (hname : q.columnName = m.columnName)
    (hinsert : q.isInsert = m.isInsert) (htable : q.tableSpecified = decide (m.names.table ≠ []))
    (hschema : q.schemaSpecified = decide (m.names.schema ≠ [])) :
    isColumn q m.names.table m.names.schema = m.isMeant := by
  funext c
  rw [isColumn, Query.isCompressingColumn, hname, hinsert, htable, hschema, Message.isMeant,
    Bool.and_assoc]
  refine congrArg (and _) (Bool.eq_iff_iff.mpr ?_)
  simp only [Bool.and_eq_true, Bool.or_eq_true, Bool.not_eq_true', Bool.or_eq_false_iff,
    Bool.and_eq_false_iff, Bool.not_eq_false', decide_eq_true_eq, decide_eq_false_iff_not, ne_eq,
    Decidable.not_not]
  cases m with
  | column name => simp [Message.isInsert, Message.names, Message.isColumn, Message.columnName]
  | tableColumn table name =>
    simp [Message.isInsert, Message.names, Message.isColumn, Message.columnName, hm.1.ne_nil,
      and_assoc]
  | schemaColumn schema table name =>
    simp [Message.isInsert, Message.names, Message.isColumn, Message.columnName, hm.1.ne_nil,
      hm.2.1.ne_nil, and_assoc]
  | insertTable table name => simp [Message.isInsert, Message.isColumn, Message.columnName,
      Message.names]
  | insertSchema schema table name => simp [Message.isInsert, Message.isColumn,
      Message.columnName, Message.names]

theorem Message.Wellformed.columnName_ne_nil (h : m.Wellformed) : m.columnName ≠ [] := by
  cases m with
  | column name => exact IsName.ne_nil h
  | tableColumn table name => exact h.2.ne_nil
  | schemaColumn schema table name => exact h.2.2.ne_nil
  | insertTable table name => exact h.2.ne_nil
  | insertSchema schema table name => exact h.2.2.ne_nil

theorem extracts_unqualified {name : Text} (h : Reported (.column name) visits table schema)
    (hlength : name.length ≠ 1) : Extracts checkSourceTable (.column name) visits table schema ↔
      schemaOf (currentSchema table schema) = schemaOf schema ∧
        (hasPrefix name compressionColumnTypePrefix = true ∨
          Bound (bindingsOf (Message.column name).isColumn visits)) := by
  have hsplit := split_text h.wellformed fun other heq => Message.column.inj heq ▸ hlength
  have hextract :
    extract checkSourceTable visits false (Message.column name).names = _ := extract_eq
    h.wellformed.columnName_ne_nil (follows_unspecified rfl rfl h.unique h.notTemp)
    ⟨rfl, .inl ⟨rfl, rfl⟩⟩ ⟨table, schema, h.visited⟩
  have hmeant := isColumn_eq_isMeant
    (q := ⟨name, false, ([] : Text) ≠ [], ([] : Text) ≠ []⟩) h.wellformed rfl rfl rfl rfl
  rw [Extracts, tryExtractColumnInfo, hsplit, isInsert_text, Option.bind_some,
    show (Message.column name).isInsert = false from rfl, hextract]
  have hhanded := handed_iff (.column name) visits table schema true table
    (schemaOf (currentSchema table schema))
  rw [← hmeant] at hhanded
  refine hhanded.trans ?_
  rw [and_iff_right rfl, and_iff_right rfl]
  rfl

/-- A message that names the table, with or without a schema. -/
theorem extracts_qualified (h : Reported m visits table schema) (htable : m.names.table = table)
    (hschema : m.names.reconcile = m.names) : Extracts checkSourceTable m visits table schema ↔
      (((m.names.schema = [] && isMain (currentSchema table schema)) ||
          (m.names.schema ≠ [] && currentSchema table schema = m.names.schema)) = true ∧
        m.names.schema = schemaOf schema) ∧
      (hasPrefix m.columnName compressionColumnTypePrefix = true ∨
          Bound (bindingsOf m.isColumn visits)) := by
  have hspecified : decide (m.names.table ≠ []) = true := by
    rw [htable]
    exact decide_eq_true h.isName.ne_nil
  have hsplit := split_text h.wellformed fun name heq => by
    rw [heq] at htable
    exact absurd htable.symm h.isName.ne_nil
  have hextract : extract checkSourceTable visits m.isInsert m.names = _ := extract_eq
    h.wellformed.columnName_ne_nil
    (follows_specified hspecified m.names.schema h.unique h.notTemp)
    ⟨by rw [hschema, htable], by rw [hschema], by simp [hspecified]⟩
    ⟨table, schema, h.visited⟩
  have hmeant := isColumn_eq_isMeant (q := ⟨m.names.column, m.isInsert, m.names.table ≠ [],
    m.names.reconcile.schema ≠ []⟩) h.wellformed rfl rfl rfl (by rw [hschema])
  rw [htable] at hmeant
  rw [Extracts, tryExtractColumnInfo, hsplit, isInsert_text, Option.bind_some, hextract]
  simp only [htable] at hmeant ⊢
  rw [hmeant]
  refine (handed_iff _ _ _ _ _ _ _).trans ?_
  rw [and_iff_right rfl]

theorem schemaOf_currentSchema_iff (h : schema ≠ tempSchema) :
    schemaOf (currentSchema table schema) = schemaOf schema ↔
      hasPrefix schema schemaPrefix = false := by
  rw [currentSchema_of_ne h]
  cases hstarts : hasPrefix schema schemaPrefix with
  | false => exact iff_of_true rfl rfl
  | true =>
    refine iff_of_false (fun heq => ?_) Bool.noConfusion
    rw [if_pos rfl, schemaOf_eq_nil_iff.mpr isMain_mainSchema, eq_comm, schemaOf_eq_nil_iff] at heq
    rw [not_hasPrefix_of_isMain heq] at hstarts
    exact Bool.false_ne_true hstarts

theorem extract_columnName {columnInfo : Names} {isInsert : Bool} {e : Extracted}
    (h : extract checkSourceTable visits isInsert columnInfo = some e) :
    e.columnName = columnInfo.column := by
  rw [extract] at h
  simp only [reconcile_column] at h
  split_ifs at h
  exact (congrArg Extracted.columnName (Option.some.inj h)).symm

/-- The name of an unqualified column of one character comes out wrong. -/
theorem not_extracts_of_length {name : Text} (h : name.length = 1) :
    ¬Extracts checkSourceTable (.column name) visits table schema := by
  rintro ⟨binding, hextract⟩
  rw [tryExtractColumnInfo, split_column_of_length h, Option.bind_some] at hextract
  have hname := congrArg List.length (extract_columnName hextract)
  simp [Message.columnName, Message.names] at hname

theorem extracts_table (h : Reported m visits table schema) (htable : m.names.table = table)
    (hschema : m.names.schema = []) : Extracts checkSourceTable m visits table schema ↔
      isMain schema = true ∧ (hasPrefix m.columnName compressionColumnTypePrefix = true ∨
        Bound (bindingsOf m.isColumn visits)) := by
  have hreconcile : m.names.reconcile = m.names := by rw [Names.reconcile, if_pos hschema]
  rw [extracts_qualified h htable hreconcile, hschema]
  refine and_congr_left' ⟨fun hand => schemaOf_eq_nil_iff.mp hand.2.symm,
    fun hmain => ⟨?_, (schemaOf_eq_nil_iff.mpr hmain).symm⟩⟩
  rw [currentSchema_of_isMain hmain, hmain]
  rfl

theorem extracts_schema (h : Reported m visits table schema) (htable : m.names.table = table)
    (hname : IsName m.names.schema)
    (habout : m.names.schema = schema ∨ isMain m.names.schema = true ∧ isMain schema = true) :
    Extracts checkSourceTable m visits table schema ↔
      (isMain schema = false ∧ hasPrefix schema schemaPrefix = false) ∧
        (hasPrefix m.columnName compressionColumnTypePrefix = true ∨
          Bound (bindingsOf m.isColumn visits)) := by
  have htemp : m.names.schema ≠ tempSchema :=
    habout.elim (fun heq => heq ▸ h.notTemp) fun hmain => ne_tempSchema_of_isMain hmain.1
  have hreconcile : m.names.reconcile = if hasPrefix m.names.schema schemaPrefix then
      { m.names with schema := [] } else m.names := by
    rw [Names.reconcile, if_neg hname.ne_nil, if_neg (by simp [htemp])]
  cases hstarts : hasPrefix m.names.schema schemaPrefix with
  | true =>
    -- the schema is one of the migration, and the empty one comes out
    rw [hstarts, if_pos rfl] at hreconcile
    obtain rfl : m.names.schema = schema := habout.resolve_right fun hmain => by
      rw [not_hasPrefix_of_isMain hmain.1] at hstarts
      exact Bool.false_ne_true hstarts
    refine iff_of_false ?_ fun hand => by simp [hstarts] at hand
    rintro ⟨binding, hextract⟩
    have hspecified : decide (m.names.table ≠ []) = true := by
      rw [htable]
      exact decide_eq_true h.isName.ne_nil
    have hsplit := split_text h.wellformed fun name heq => by
      rw [heq] at htable
      exact absurd htable.symm h.isName.ne_nil
    rw [tryExtractColumnInfo, hsplit, Option.bind_some,
      extract_eq h.wellformed.columnName_ne_nil
        (follows_specified hspecified [] h.unique h.notTemp)
        ⟨by rw [hreconcile]; exact htable, by rw [hreconcile], by simp [hspecified]⟩
        ⟨table, _, h.visited⟩] at hextract
    obtain ⟨b, -, hhanded⟩ := Option.bind_eq_some_iff.mp hextract
    split_ifs at hhanded
    have hnil := (Extracted.mk.inj (Option.some.inj hhanded)).2.2.1
    rw [eq_comm, schemaOf_eq_nil_iff] at hnil
    rw [not_hasPrefix_of_isMain hnil] at hstarts
    exact Bool.false_ne_true hstarts
  | false =>
    rw [hstarts, if_neg Bool.false_ne_true] at hreconcile
    rw [extracts_qualified h htable hreconcile]
    refine and_congr_left' ?_
    cases hmain : isMain schema with
    | true =>
      refine iff_of_false (fun hand => hname.ne_nil ?_) fun hand => Bool.noConfusion hand.1
      rw [hand.2, schemaOf_eq_nil_iff, hmain]
    | false =>
      obtain rfl : m.names.schema = schema := habout.resolve_right fun hor => by
        rw [hor.2] at hmain
        exact Bool.noConfusion hmain
      rw [currentSchema_of_ne h.notTemp, hstarts, schemaOf, hmain]
      exact iff_of_true ⟨by simp [hname.ne_nil], rfl⟩ ⟨rfl, rfl⟩

/-- The names that a message was made from come out of it, completed by those of the statement,
exactly when the message is understood and the occurrences of the column agree on a binding. -/
theorem extracts_iff (checkSourceTable : Option (Text → Text → Bool)) (m : Message)
    (visits : List Visit) (table schema : Text) (h : Reported m visits table schema) :
    Extracts checkSourceTable m visits table schema ↔ m.Understood schema ∧
      (hasPrefix m.columnName compressionColumnTypePrefix = true ∨
        Bound (bindingsOf m.isColumn visits)) := by
  cases m with
  | column name =>
    by_cases hlength : name.length = 1
    · exact iff_of_false (not_extracts_of_length hlength) fun hand => hand.1.1 hlength
    · rw [extracts_unqualified h hlength, schemaOf_currentSchema_iff h.notTemp]
      exact and_congr_left' (and_iff_right hlength).symm
  | tableColumn t name => exact extracts_table h h.isAbout rfl
  | insertTable t name => exact extracts_table h h.isAbout rfl
  | schemaColumn | insertSchema =>
    exact extracts_schema h h.isAbout.1 h.wellformed.1 h.isAbout.2

end Main

section Examples

/-- `SELECT name FROM tbl WHERE c`, with `c` missing. -/
def selectOfMain (column : Text) : List Visit :=
  [.column ⟨"name".toList, [], [], some 1⟩, .table "tbl".toList [],
    .column ⟨column, [], [], some 1⟩]

theorem reported_main {column : Text} (h : IsName column) :
    Reported (.column column) (selectOfMain column) "tbl".toList [] where
  wellformed := h
  isName := ⟨by decide +kernel, by decide +kernel, by decide +kernel⟩
  isAbout := trivial
  notTemp := by decide +kernel
  visited := List.mem_cons_of_mem _ List.mem_cons_self
  unique := by
    intro name s hmem
    simp only [selectOfMain, List.mem_cons, reduceCtorEq, Visit.table.injEq, List.not_mem_nil,
      or_false, false_or] at hmem
    exact hmem
  bound := ⟨⟨column, [], [], some 1⟩,
    List.mem_cons_of_mem _ (List.mem_cons_of_mem _ List.mem_cons_self),
    by simp [Message.isColumn], rfl⟩

/-- The column of `no such column: c` is not found. -/
theorem not_extracts : Reported (.column ['c']) (selectOfMain ['c']) "tbl".toList [] ∧
    ¬Extracts none (.column ['c']) (selectOfMain ['c']) "tbl".toList [] := by
  refine ⟨reported_main ⟨by decide, by decide, by decide⟩, ?_⟩
  rintro ⟨binding, h⟩
  have hnone :
    tryExtractColumnInfo none (selectOfMain ['c']) (Message.column ['c']).text = none := by
    decide +kernel
  exact nomatch hnone.symm.trans h

theorem extracts_cd :
    Extracts none (.column ['c', 'd']) (selectOfMain ['c', 'd']) "tbl".toList [] := by
  refine (extracts_iff none (.column ['c', 'd']) _ _ _
    (reported_main ⟨by decide, by decide, by decide⟩)).mpr ⟨⟨by decide, by decide +kernel⟩, .inr ?_⟩
  have hbindings : bindingsOf (Message.column ['c', 'd']).isColumn (selectOfMain ['c', 'd']) =
      [some 1] := by decide +kernel
  rw [hbindings]
  exact ⟨List.isChain_singleton _, 1, rfl⟩

end Examples

end Wcdb.ColumnInfo
