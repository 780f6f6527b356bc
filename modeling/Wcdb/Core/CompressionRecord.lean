import Mathlib.Algebra.Order.Ring.Int
import Mathlib.Data.Finset.Max
import Mathlib.Data.String.Basic
import Wcdb.Base.StringView
import Wcdb.Core.Compression
import Wcdb.Lib.SortedMap

/-!
# The record of a compressed table

`getCompressionDescription` lists the columns of a table with their dictionaries, separated by
commas; `parseColumns` reads the names back. It cuts the name of a column with a dictionary one
character short, and `subStr` takes a name of no character for the rest of the text. So the names
come back if and only if no column has a dictionary (`recorded_iff`), the column without a name
apart.
-/

namespace Wcdb.CompressHandleOperator

open UnsafeStringView

/-! ### The description -/

/-- `stream << n`. -/
def number (n : ℤ) : Text := n.repr.toList

/-- The columns of a table by name, the last of each name. -/
def orderedInfos (columns : List CompressionColumnInfo) : List (String × CompressionColumnInfo) :=
  SortedMap.ofList (columns.map fun info => (info.column, info))

/-- The dictionaries of a column of various dictionaries, between the braces. -/
def matchDictsDescription (info : CompressionColumnInfo) : Text :=
  (SortedMap.ofList info.matchDicts).flatMap (fun dict =>
    number dict.1 ++ ':' :: number dict.2 ++ [';']) ++
      number (2 ^ 63 - 1) ++ ':' :: number info.commonDictID

/-- What stands behind the name of a column. -/
def dictDescription (info : CompressionColumnInfo) : Text :=
  match info.compressionType with
  | .normal => []
  | .dict => ':' :: number info.commonDictID
  | .variousDict => ':' :: '{' :: matchDictsDescription info ++ ['}']

def columnDescription (e : String × CompressionColumnInfo) : Text :=
  e.1.toList ++ dictDescription e.2

def compressionDescription (columns : List CompressionColumnInfo) : Text :=
  List.intercalate [','] ((orderedInfos columns).map columnDescription)

/-- What `filterComplessingTables` reads of a `CompressionTableInfo`. The text fits the memory. -/
structure TableInfo where
  table : String
  columns : List CompressionColumnInfo
  replaceCompression : Bool := false
  minCompressedRowid : ℤ := 2 ^ 63 - 1
  size_lt : (compressionDescription columns).length < 2 ^ 63

def TableInfo.getCompressionDescription (info : TableInfo) : Text :=
  compressionDescription info.columns

/-! ### Reading it -/

/-- The name at the front of a piece of the record. -/
def columnName (subInput : Text) : Text :=
  match find subInput [':'] 0 with
  | some colonPos => subStr subInput 0 (sizeSub colonPos 1)
  | none => subInput

/-- The loop of `parseColumns`, one round for each comma. -/
def parseLoop (compressRecord : Text) : ℕ → ℕ → List Text
  | 0, _ => []
  | fuel + 1, start =>
    match find compressRecord [','] start with
    | some stop =>
      columnName (subStr compressRecord start (stop - start)) ::
        parseLoop compressRecord fuel (stop + 1)
    | none => [columnName (subStr compressRecord start 0)]

/-- `parseColumns`: the names it inserts into its set. -/
def parseColumns (compressRecord : Text) : List Text :=
  parseLoop compressRecord (compressRecord.length + 1) 0

/-- A row of the table of records. -/
structure Record where
  table : String
  columns : Text
  rowid : ℤ

/-- What the loop of `filterComplessingTables` does with an info: it stays in the set, or it is
erased because all rows are compressed. -/
inductive Verdict where
  | kept (info : TableInfo)
  | erased (info : TableInfo)

def checkTable (records : List Record) (info : TableInfo) : Verdict :=
  match records.find? fun record => record.table = info.table with
  | none => .kept info
  | some record =>
    if (if info.replaceCompression then info.getCompressionDescription = record.columns
        else ∀ column ∈ info.columns, column.column.toList ∈ parseColumns record.columns) then
      if record.rowid ≤ 0 then .erased { info with minCompressedRowid := 0 }
      else .kept { info with minCompressedRowid := record.rowid }
    else .kept info

/-- `filterComplessingTables` on the rows of the table of records, which cannot be read or do not
have three columns. -/
def filterComplessingTables (records : Option (ℕ × List Record)) (infos : List TableInfo) :
    Option (List Verdict) :=
  match records with
  | none => none
  | some (width, records) =>
    if records.length = 0 then some (infos.map .kept)
    else if width = 3 then some (infos.map (checkTable records))
    else none

/-! ### Names -/

/-- The name of a column that has none of the separators in it. -/
def Plain (name : String) : Prop := ∀ c ∈ name.toList, c ∉ [',', ':', '{', '}', ';']

instance (name : String) : Decidable (Plain name) :=
  List.decidableBAll (fun c => c ∉ [',', ':', '{', '}', ';']) name.toList

/-- The info that the description has under its name. -/
def Described (columns : List CompressionColumnInfo) (info : CompressionColumnInfo) : Prop :=
  ∃ before after, columns = before ++ info :: after ∧ ∀ other ∈ after, other.column ≠ info.column

/-- **What the columns are like if their names come back**: at least one; none with a dictionary
that has a name; and if one without a name and without a dictionary, no other. -/
structure Recordable (columns : List CompressionColumnInfo) : Prop where
  ne_nil : columns ≠ []
  normal : ∀ info, Described columns info → info.column ≠ "" → info.compressionType = .normal
  alone : ∀ info, Described columns info → info.column = "" → info.compressionType = .normal →
    ∀ other ∈ columns, other.column = ""

section Lemmas

variable {columns : List CompressionColumnInfo} {info : CompressionColumnInfo}
  {e : String × CompressionColumnInfo} {s text : Text}

/-! ### The pieces between the commas -/

theorem comma_not_mem_number (n : ℤ) : ',' ∉ number n := by
  have hdigits (k : ℕ) : ',' ∉ Nat.toDigits 10 k := fun h =>
    absurd (Nat.isDigit_of_mem_toDigits (by decide) (by decide) h) (by decide)
  rw [number, Int.repr_eq_if]
  split_ifs
  · rw [Nat.toList_repr]
    exact hdigits _
  · rw [String.toList_append, Nat.toList_repr, List.mem_append]
    rintro (h | h)
    · exact absurd h (by decide)
    · exact hdigits _ h

theorem comma_not_mem_dictDescription : ',' ∉ dictDescription info := by
  have hne : ',' ≠ ':' ∧ ',' ≠ '{' ∧ ',' ≠ '}' ∧ ',' ≠ ';' := by decide
  obtain ⟨h₁, h₂, h₃, h₄⟩ := hne
  rw [dictDescription]
  split
  · exact List.not_mem_nil
  · simp [h₁, comma_not_mem_number]
  · simp [matchDictsDescription, h₁, h₂, h₃, h₄, comma_not_mem_number]

/-- What `subStr` returns for the pieces: for one that is empty and not the last, all that
follows. -/
def pieces : List Text → List Text
  | [] => []
  | [s] => [s]
  | s :: t :: rest => (if s = [] then List.intercalate [','] (s :: t :: rest) else s) ::
      pieces (t :: rest)

theorem pieces_of_ne_nil {l : List Text} (h : ∀ s ∈ l, s ≠ []) : pieces l = l := by
  induction l with
  | nil => rfl
  | cons s l ih =>
    have ih := ih fun t ht => h t (List.mem_cons_of_mem _ ht)
    cases l with
    | nil => rfl
    | cons t l => rw [pieces, if_neg (h s List.mem_cons_self), ih]

theorem length_lt_intercalate (s : Text) (rest : List Text) :
    rest.length < (List.intercalate [','] (s :: rest)).length + 1 := by
  induction rest generalizing s with
  | nil => exact Nat.succ_pos _
  | cons t rest ih =>
    have := ih t
    rw [List.intercalate_cons_cons, List.length_append, List.length_append, List.length_cons,
      List.length_singleton]
    omega

theorem parseLoop_eq {before : Text} {rest : List Text} {fuel : ℕ} (hsize : text.length < 2 ^ 63)
    (htext : text = before ++ List.intercalate [','] (s :: rest))
    (hcomma : ∀ t ∈ s :: rest, ',' ∉ t) (hfuel : rest.length < fuel) :
    parseLoop text fuel before.length = (pieces (s :: rest)).map columnName := by
  induction rest generalizing before s fuel with
  | nil =>
    obtain ⟨fuel, rfl⟩ := Nat.exists_eq_succ_of_ne_zero (Nat.pos_iff_ne_zero.mp hfuel)
    rw [List.intercalate_singleton] at htext
    have hdrop : text.drop before.length = s := by rw [htext, List.drop_left]
    have hle : before.length ≤ text.length := by
      rw [htext, List.length_append]
      exact Nat.le_add_right _ _
    rw [parseLoop, find_of_not_mem (by rw [hdrop]; exact hcomma s List.mem_cons_self)]
    simp only [subStr_zero hle (by omega), hdrop, pieces, List.map_cons, List.map_nil]
  | cons t rest ih =>
    obtain ⟨fuel, rfl⟩ := Nat.exists_eq_succ_of_ne_zero (Nat.ne_zero_of_lt hfuel)
    have hsplit : List.intercalate [','] (s :: t :: rest) =
        s ++ ',' :: List.intercalate [','] (t :: rest) := by
      rw [List.intercalate_cons_cons, List.append_assoc, List.singleton_append]
    have hlen : text.length = before.length + (s.length +
        ((List.intercalate [','] (t :: rest)).length + 1)) := by
      rw [htext, hsplit, List.length_append, List.length_append, List.length_cons]
    have hfind : find text [','] before.length = some (before.length + s.length) := by
      rw [htext, hsplit]
      exact find_append (hcomma s List.mem_cons_self)
    have hrest : parseLoop text fuel (before.length + s.length + 1) =
        (pieces (t :: rest)).map columnName := by
      have hnext : parseLoop text fuel (before ++ (s ++ [','])).length = _ := ih
        (by rw [htext, hsplit]; simp) (fun u hu => hcomma u (List.mem_cons_of_mem _ hu))
        (Nat.lt_of_succ_lt_succ hfuel)
      rwa [List.length_append, List.length_append, List.length_singleton, ← Nat.add_assoc] at hnext
    rw [parseLoop, hfind, pieces, List.map_cons]
    dsimp only
    rw [hrest, Nat.add_sub_cancel_left]
    congr 2
    split_ifs with hnil
    · rw [hnil, List.length_nil, subStr_zero (by omega) (by omega), htext, List.drop_left, hnil]
    · rw [subStr_of_le (fun h => hnil (List.length_eq_zero_iff.mp h)) (by omega) (by omega), htext,
        List.drop_left, hsplit, List.take_left]

theorem parseColumns_eq {rest : List Text}
    (hsize : (List.intercalate [','] (s :: rest)).length < 2 ^ 63)
    (hcomma : ∀ t ∈ s :: rest, ',' ∉ t) :
    parseColumns (List.intercalate [','] (s :: rest)) = (pieces (s :: rest)).map columnName :=
  parseLoop_eq hsize (List.nil_append _).symm hcomma (length_lt_intercalate s rest)

/-! ### The name of a piece -/

theorem columnName_of_not_mem (h : ':' ∉ s) : columnName s = s := by
  rw [columnName, find_of_not_mem (by rwa [List.drop_zero])]

/-- The name in front of a colon loses its last character; one of one character keeps the colon and
all that follows. -/
theorem columnName_append {rest : Text} (h : ':' ∉ s)
    (hsize : (s ++ ':' :: rest).length < 2 ^ 63) :
    columnName (s ++ ':' :: rest) =
      if s.length = 0 then [] else if s.length = 1 then s ++ ':' :: rest else s.dropLast := by
  have hfind : find ([] ++ (s ++ ':' :: rest)) [':'] 0 = some (0 + s.length) := find_append h
  have hlen : (s ++ ':' :: rest).length = s.length + (rest.length + 1) := by
    rw [List.length_append, List.length_cons]
  rw [List.nil_append] at hfind
  rw [columnName, hfind, Nat.zero_add]
  dsimp only
  split_ifs with hzero hone
  · rw [hzero, subStr, if_pos]
    rw [sizeSub]
    omega
  · rw [hone]
    exact subStr_zero (Nat.zero_le _) (by omega)
  · have hsub : sizeSub s.length 1 = s.length - 1 := by
      rw [sizeSub]
      omega
    rw [hsub, subStr_of_le (by omega) (by omega) (by omega), List.drop_zero,
      List.take_append_of_le_length (Nat.sub_le _ _), ← List.dropLast_eq_take]

/-- A piece that begins with a comma gives a name with a comma. -/
theorem comma_mem_columnName {rest : Text} (hsize : (',' :: rest).length < 2 ^ 63) :
    ',' ∈ columnName (',' :: rest) := by
  by_cases hcolon : ':' ∈ ',' :: rest
  · obtain ⟨front, back, hsplit, hfront⟩ := List.eq_append_cons_of_mem hcolon
    have hne : front ≠ [] := by
      rintro rfl
      exact absurd (List.cons.inj hsplit).1 (by decide)
    obtain ⟨c, front, rfl⟩ := List.exists_cons_of_ne_nil hne
    obtain ⟨rfl, -⟩ := List.cons.inj hsplit
    rw [hsplit, columnName_append hfront (hsplit ▸ hsize), if_neg (by simp)]
    split_ifs with hone
    · exact List.mem_cons_self
    · cases front with
      | nil => exact absurd rfl hone
      | cons d front => exact List.mem_cons_self
  · rw [columnName_of_not_mem hcolon]
    exact List.mem_cons_self

/-! ### The entries of the description -/

theorem mem_orderedInfos : e ∈ orderedInfos columns ↔ e.1 = e.2.column ∧ Described columns e.2 := by
  rw [orderedInfos, (SortedMap.sorted_ofList _).mem_iff, SortedMap.get?_ofList_eq_some]
  constructor
  · rintro ⟨before, after, heq, hafter⟩
    obtain ⟨before', rest, rfl, rfl, hrest⟩ := List.map_eq_append_iff.mp heq
    obtain ⟨info, after', rfl, hinfo, rfl⟩ := List.map_eq_cons_iff.mp hrest
    obtain ⟨hkey, rfl⟩ := Prod.mk.inj hinfo
    refine ⟨hkey.symm, before', after', rfl, fun other hother => ?_⟩
    rw [hkey]
    exact hafter _ (List.mem_map_of_mem hother)
  · rintro ⟨hkey, before, after, rfl, hafter⟩
    refine ⟨_, _, by rw [List.map_append, List.map_cons, ← hkey], fun e' he' => ?_⟩
    obtain ⟨other, hother, rfl⟩ := List.mem_map.mp he'
    rw [hkey]
    exact hafter other hother

theorem Described.mem (h : Described columns info) : info ∈ columns := by
  obtain ⟨before, after, rfl, -⟩ := h
  exact List.mem_append_right _ List.mem_cons_self

theorem exists_described (h : info ∈ columns) :
    ∃ other, Described columns other ∧ other.column = info.column := by
  induction columns generalizing info with
  | nil => exact nomatch h
  | cons first columns ih =>
    by_cases hlater : ∃ later ∈ columns, later.column = info.column
    · obtain ⟨later, hlater, hcolumn⟩ := hlater
      obtain ⟨other, ⟨before, after, rfl, hafter⟩, hother⟩ := ih hlater
      exact ⟨other, ⟨first :: before, after, rfl, hafter⟩, hother.trans hcolumn⟩
    · rcases List.mem_cons.mp h with rfl | hmem
      · exact ⟨info, ⟨[], columns, rfl, fun other hother heq => hlater ⟨other, hother, heq⟩⟩, rfl⟩
      · exact absurd ⟨info, hmem, rfl⟩ hlater

/-- The names of the entries are those of the columns. -/
theorem exists_entry_iff {name : Text} : (∃ e ∈ orderedInfos columns, e.1.toList = name) ↔
    ∃ info ∈ columns, info.column.toList = name := by
  constructor
  · rintro ⟨e, he, rfl⟩
    obtain ⟨hkey, hdescribed⟩ := mem_orderedInfos.mp he
    exact ⟨e.2, hdescribed.mem, by rw [hkey]⟩
  · rintro ⟨info, hinfo, rfl⟩
    obtain ⟨other, hdescribed, hcolumn⟩ := exists_described hinfo
    exact ⟨(other.column, other), mem_orderedInfos.mpr ⟨rfl, hdescribed⟩, by rw [hcolumn]⟩

theorem sorted_orderedInfos (columns : List CompressionColumnInfo) :
    SortedMap.Sorted (orderedInfos columns) :=
  SortedMap.sorted_ofList _

/-- Only the first entry can have an empty name. -/
theorem ne_empty_of_tail {es : List (String × CompressionColumnInfo)}
    (hentries : orderedInfos columns = e :: es) {e' : String × CompressionColumnInfo}
    (he' : e' ∈ es) : e'.1 ≠ "" := by
  have hsorted := sorted_orderedInfos columns
  rw [hentries] at hsorted
  intro hempty
  have hlt := (List.pairwise_cons.mp hsorted).1 e' he'
  rw [hempty, String.lt_iff_toList_lt, String.toList_empty] at hlt
  exact List.not_lt_nil _ hlt

theorem columnDescription_ne_nil (h : e.1 ≠ "") : columnDescription e ≠ [] := by
  intro hnil
  exact h (String.toList_eq_nil_iff.mp (List.append_eq_nil_iff.mp hnil).1)

theorem columnDescription_eq_nil (h : columnDescription e = []) :
    e.1 = "" ∧ e.2.compressionType = .normal := by
  obtain ⟨hname, hdict⟩ := List.append_eq_nil_iff.mp h
  refine ⟨String.toList_eq_nil_iff.mp hname, ?_⟩
  rw [dictDescription] at hdict
  split at hdict
  · assumption
  · exact nomatch hdict
  · exact nomatch hdict

/-- What is cut from the description of a column. -/
def cutName (e : String × CompressionColumnInfo) : Text :=
  if e.2.compressionType = .normal ∨ e.1.toList.length = 0 then e.1.toList
  else if e.1.toList.length = 1 then columnDescription e
  else e.1.toList.dropLast

theorem columnName_columnDescription (hcolon : ':' ∉ e.1.toList)
    (hsize : (columnDescription e).length < 2 ^ 63) :
    columnName (columnDescription e) = cutName e := by
  rw [cutName]
  by_cases hnormal : e.2.compressionType = .normal
  · rw [if_pos (.inl hnormal)]
    rw [columnDescription, dictDescription, hnormal] at hsize ⊢
    rw [List.append_nil, columnName_of_not_mem hcolon]
  · obtain ⟨rest, hrest⟩ : ∃ rest, columnDescription e = e.1.toList ++ ':' :: rest := by
      rw [columnDescription, dictDescription]
      split
      · contradiction
      · exact ⟨_, rfl⟩
      · exact ⟨_, rfl⟩
    rw [hrest] at hsize ⊢
    rw [columnName_append hcolon hsize]
    simp only [hnormal, false_or]
    split_ifs with hzero
    · exact (List.length_eq_zero_iff.mp hzero).symm
    all_goals rfl

theorem length_le_intercalate {l : List Text} (h : s ∈ l) :
    s.length ≤ (List.intercalate [','] l).length := by
  induction l with
  | nil => exact nomatch h
  | cons t l ih =>
    cases l with
    | nil =>
      rw [List.mem_singleton.mp h, List.intercalate_singleton]
    | cons u l =>
      rw [List.intercalate_cons_cons, List.length_append, List.length_append]
      rcases List.mem_cons.mp h with rfl | h
      · omega
      · have := ih h
        omega

theorem plain_of_mem (hplain : ∀ info ∈ columns, Plain info.column)
    (he : e ∈ orderedInfos columns) : Plain e.1 := by
  obtain ⟨hkey, hdescribed⟩ := mem_orderedInfos.mp he
  rw [hkey]
  exact hplain _ hdescribed.mem

theorem Plain.colon {name : String} (h : Plain name) : ':' ∉ name.toList := fun hmem =>
  absurd (by decide) (h ':' hmem)

theorem Plain.comma {name : String} (h : Plain name) : ',' ∉ name.toList := fun hmem =>
  absurd (by decide) (h ',' hmem)

/-- The pieces of a description: the first is all of it if it is empty and not alone. -/
theorem parseColumns_description {es : List (String × CompressionColumnInfo)}
    (hentries : orderedInfos columns = e :: es) (hplain : ∀ info ∈ columns, Plain info.column)
    (hsize : (compressionDescription columns).length < 2 ^ 63) :
    parseColumns (compressionDescription columns) =
      (if columnDescription e = [] ∧ es ≠ [] then columnName (compressionDescription columns)
        else cutName e) :: es.map cutName := by
  have hmem : ∀ e' ∈ e :: es, e' ∈ orderedInfos columns := fun e' he' => hentries ▸ he'
  have hcut : ∀ e' ∈ e :: es, columnName (columnDescription e') = cutName e' := fun e' he' => by
    refine columnName_columnDescription (plain_of_mem hplain (hmem e' he')).colon
      (Nat.lt_of_le_of_lt ?_ hsize)
    exact length_le_intercalate (List.mem_map_of_mem (hmem e' he'))
  have hcomma : ∀ t ∈ columnDescription e :: es.map columnDescription, ',' ∉ t := by
    intro t ht
    rw [← List.map_cons (f := columnDescription)] at ht
    obtain ⟨e', he', rfl⟩ := List.mem_map.mp ht
    rw [columnDescription, List.mem_append]
    rintro (h | h)
    · exact (plain_of_mem hplain (hmem e' he')).comma h
    · exact comma_not_mem_dictDescription h
  have hdescription : compressionDescription columns =
      List.intercalate [','] (columnDescription e :: es.map columnDescription) := by
    rw [compressionDescription, hentries, List.map_cons]
  have htail : (es.map columnDescription).map columnName = es.map cutName := by
    rw [List.map_map]
    exact List.map_congr_left fun e' he' => hcut e' (List.mem_cons_of_mem _ he')
  rw [hdescription] at hsize ⊢
  rw [parseColumns_eq hsize hcomma]
  cases es with
  | nil =>
    rw [if_neg fun h => h.2 rfl, ← hcut e List.mem_cons_self]
    rfl
  | cons e' es =>
    have hne : ∀ t ∈ columnDescription e' :: es.map columnDescription, t ≠ [] := by
      intro t ht
      rw [← List.map_cons (f := columnDescription)] at ht
      obtain ⟨e'', he'', rfl⟩ := List.mem_map.mp ht
      exact columnDescription_ne_nil (ne_empty_of_tail hentries he'')
    rw [List.map_cons, List.map_cons] at htail
    rw [List.map_cons, pieces, pieces_of_ne_nil hne, List.map_cons, List.map_cons, htail]
    congr 1
    split_ifs with hnil hboth
    · rfl
    · exact absurd ⟨hnil, List.cons_ne_nil _ _⟩ hboth
    · exact absurd (‹_ ∧ _›).1 hnil
    · exact hcut e List.mem_cons_self

/-- The first name that is not read back: the description begins with a comma. -/
theorem comma_mem_columnName_description {es : List (String × CompressionColumnInfo)}
    (hentries : orderedInfos columns = e :: es) (hnil : columnDescription e = []) (hes : es ≠ [])
    (hsize : (compressionDescription columns).length < 2 ^ 63) :
    ',' ∈ columnName (compressionDescription columns) := by
  obtain ⟨e', es, rfl⟩ := List.exists_cons_of_ne_nil hes
  rw [compressionDescription, hentries, List.map_cons, List.map_cons, hnil,
    List.intercalate_cons_cons, List.nil_append, List.singleton_append] at hsize ⊢
  exact comma_mem_columnName hsize

/-- No other entry is cut to the name of a column with a dictionary and the longest such name. -/
theorem cutName_ne {e' : String × CompressionColumnInfo}
    (hplain : ∀ info ∈ columns, Plain info.column)
    (he : e ∈ orderedInfos columns) (hname : e.1 ≠ "") (hdict : e.2.compressionType ≠ .normal)
    (hmax : ∀ e' ∈ orderedInfos columns, e'.1 ≠ "" → e'.2.compressionType ≠ .normal →
      e'.1.toList.length ≤ e.1.toList.length) (he' : e' ∈ orderedInfos columns) :
    cutName e' ≠ e.1.toList := by
  have hpos : e.1.toList.length ≠ 0 := fun h =>
    hname (String.toList_eq_nil_iff.mp (List.length_eq_zero_iff.mp h))
  rw [cutName]
  split_ifs with hkeep hone
  · intro heq
    rcases hkeep with hnormal | hzero
    · have := (sorted_orderedInfos _).eq_of_key he' he (String.toList_injective heq)
      exact hdict (this ▸ hnormal)
    · exact hpos (heq ▸ hzero)
  · intro heq
    have hcolon : ':' ∈ columnDescription e' := by
      rw [columnDescription, dictDescription]
      split
      · exact absurd (.inl ‹_›) hkeep
      all_goals simp
    exact (plain_of_mem hplain he).colon (heq ▸ hcolon)
  · intro heq
    obtain ⟨hdict', hzero⟩ := not_or.mp hkeep
    have hlen := congrArg List.length heq
    have hle := hmax e' he' (fun h => hzero (by rw [h]; rfl)) hdict'
    rw [List.length_dropLast] at hlen
    omega

theorem normal_of_parsed (hplain : ∀ info ∈ columns, Plain info.column)
    (hsize : (compressionDescription columns).length < 2 ^ 63)
    (hparsed : ∀ info ∈ columns,
      info.column.toList ∈ parseColumns (compressionDescription columns)) :
    ∀ info, Described columns info → info.column ≠ "" → info.compressionType = .normal := by
  intro info hinfo hname
  by_contra hdict
  -- among the entries with a dictionary, one with the longest name
  have hne : ((orderedInfos columns).filter fun e =>
      e.1 ≠ "" ∧ e.2.compressionType ≠ .normal).toFinset.Nonempty :=
    ⟨(info.column, info), List.mem_toFinset.mpr (List.mem_filter.mpr
      ⟨mem_orderedInfos.mpr ⟨rfl, hinfo⟩, decide_eq_true ⟨hname, hdict⟩⟩)⟩
  obtain ⟨e, he, hmax⟩ := Finset.exists_max_image _ (fun e => e.1.toList.length) hne
  obtain ⟨he, hedict⟩ := List.mem_filter.mp (List.mem_toFinset.mp he)
  obtain ⟨hename, hedict⟩ := of_decide_eq_true hedict
  have hcut : ∀ e' ∈ orderedInfos columns, cutName e' ≠ e.1.toList := fun e' he' =>
    cutName_ne hplain he hename hedict (fun e'' he'' hname'' hdict'' =>
      hmax e'' (List.mem_toFinset.mpr (List.mem_filter.mpr
        ⟨he'', decide_eq_true ⟨hname'', hdict''⟩⟩))) he'
  obtain ⟨hkey, hdescribed⟩ := mem_orderedInfos.mp he
  have hmem := hparsed e.2 hdescribed.mem
  rw [← hkey] at hmem
  cases hentries : orderedInfos columns with
  | nil => exact absurd (hentries ▸ he) List.not_mem_nil
  | cons first es =>
    rw [hentries] at hcut
    rw [parseColumns_description hentries hplain hsize, List.mem_cons] at hmem
    rcases hmem with hfirst | hrest
    · split_ifs at hfirst with hwhole
      · have hcomma := comma_mem_columnName_description hentries hwhole.1 hwhole.2 hsize
        exact (plain_of_mem hplain he).comma (hfirst ▸ hcomma)
      · exact hcut first List.mem_cons_self hfirst.symm
    · obtain ⟨e', he', heq⟩ := List.mem_map.mp hrest
      exact hcut e' (List.mem_cons_of_mem _ he') heq

theorem Recordable.parsed (h : Recordable columns) (hplain : ∀ info ∈ columns, Plain info.column)
    (hsize : (compressionDescription columns).length < 2 ^ 63) :
    parseColumns (compressionDescription columns) =
      (orderedInfos columns).map fun e => e.1.toList := by
  have hcut : ∀ e ∈ orderedInfos columns, cutName e = e.1.toList := fun e he => by
    obtain ⟨hkey, hdescribed⟩ := mem_orderedInfos.mp he
    refine if_pos ?_
    by_cases hname : e.1 = ""
    · exact .inr (by rw [hname]; rfl)
    · exact .inl (h.normal e.2 hdescribed (hkey ▸ hname))
  cases hentries : orderedInfos columns with
  | nil =>
    obtain ⟨info, columns, rfl⟩ := List.exists_cons_of_ne_nil h.ne_nil
    obtain ⟨other, hdescribed, -⟩ :=
      exists_described (List.mem_cons_self (a := info) (l := columns))
    exact absurd (hentries ▸ mem_orderedInfos.mpr ⟨rfl, hdescribed⟩ :
      (other.column, other) ∈ []) List.not_mem_nil
  | cons e es =>
    rw [hentries] at hcut
    rw [parseColumns_description hentries hplain hsize, List.map_cons, if_neg,
      hcut e List.mem_cons_self]
    · exact congrArg _ (List.map_congr_left fun e' he' => hcut e' (List.mem_cons_of_mem _ he'))
    · rintro ⟨hnil, hes⟩
      obtain ⟨e', es, rfl⟩ := List.exists_cons_of_ne_nil hes
      obtain ⟨hname, hnormal⟩ := columnDescription_eq_nil hnil
      obtain ⟨hkey, hdescribed⟩ := mem_orderedInfos.mp
        (hentries ▸ List.mem_cons_self : e ∈ orderedInfos columns)
      obtain ⟨hkey', hdescribed'⟩ := mem_orderedInfos.mp
        (hentries ▸ List.mem_cons_of_mem _ List.mem_cons_self : e' ∈ orderedInfos columns)
      have hempty := h.alone e.2 hdescribed (hkey ▸ hname) hnormal e'.2 hdescribed'.mem
      exact ne_empty_of_tail hentries List.mem_cons_self (hkey'.trans hempty)

theorem alone_of_parsed (hplain : ∀ info ∈ columns, Plain info.column)
    (hsize : (compressionDescription columns).length < 2 ^ 63)
    (hparsed : ∀ name ∈ parseColumns (compressionDescription columns),
      ∃ info ∈ columns, info.column.toList = name) :
    ∀ info, Described columns info → info.column = "" → info.compressionType = .normal →
      ∀ other ∈ columns, other.column = "" := by
  intro info hinfo hname hnormal other hother
  by_contra hne
  obtain ⟨last, hlast, hcolumn⟩ := exists_described hother
  have hmem : (info.column, info) ∈ orderedInfos columns := mem_orderedInfos.mpr ⟨rfl, hinfo⟩
  have hmem' : (last.column, last) ∈ orderedInfos columns := mem_orderedInfos.mpr ⟨rfl, hlast⟩
  cases hentries : orderedInfos columns with
  | nil => exact absurd (hentries ▸ hmem) List.not_mem_nil
  | cons e es =>
    -- the column without a name is the first, and the other one is behind it
    rw [hentries] at hmem hmem'
    have hfirst : e = (info.column, info) := by
      rcases List.mem_cons.mp hmem with heq | htail
      · exact heq.symm
      · exact absurd hname (ne_empty_of_tail hentries htail)
    have hes : es ≠ [] := by
      rintro rfl
      rw [hfirst] at hmem'
      have heq := congrArg Prod.fst (List.mem_singleton.mp hmem')
      exact hne (hcolumn.symm.trans (heq.trans hname))
    have hnil : columnDescription e = [] := by
      rw [hfirst, columnDescription, dictDescription, hnormal, hname]
      rfl
    obtain ⟨wrong, hwrong, heq⟩ := hparsed (columnName (compressionDescription columns)) (by
      rw [parseColumns_description hentries hplain hsize, if_pos ⟨hnil, hes⟩]
      exact List.mem_cons_self)
    have hcomma := comma_mem_columnName_description hentries hnil hes hsize
    exact (hplain wrong hwrong).comma (heq ▸ hcomma)

end Lemmas

/-- The names of the columns come back, and the table is recognised as compressed. -/
structure Recorded (info : TableInfo) : Prop where
  names : ∀ name, name ∈ parseColumns info.getCompressionDescription ↔
    ∃ column ∈ info.columns, column.column.toList = name
  recognised : ∀ records record infos, info ∈ infos →
    (records.find? fun record => record.table = info.table) = some record →
    record.columns = info.getCompressionDescription → record.rowid ≤ 0 →
    ∃ verdicts, filterComplessingTables (some (3, records)) infos = some verdicts ∧
      .erased { info with minCompressedRowid := 0 } ∈ verdicts

theorem recognised_of_names {info : TableInfo}
    (h : ∀ column ∈ info.columns,
      column.column.toList ∈ parseColumns info.getCompressionDescription)
    {records : List Record} {record : Record} {infos : List TableInfo} (hinfo : info ∈ infos)
    (hrecord : (records.find? fun record => record.table = info.table) = some record)
    (hcolumns : record.columns = info.getCompressionDescription) (hrowid : record.rowid ≤ 0) :
    ∃ verdicts, filterComplessingTables (some (3, records)) infos = some verdicts ∧
      .erased { info with minCompressedRowid := 0 } ∈ verdicts := by
  obtain ⟨first, records, rfl⟩ := List.exists_cons_of_ne_nil (l := records) (by
    rintro rfl
    exact nomatch hrecord)
  have hfilter : filterComplessingTables (some (3, first :: records)) infos =
      some (infos.map (checkTable (first :: records))) := by
    rw [filterComplessingTables, List.length_cons, if_neg (Nat.succ_ne_zero _), if_pos rfl]
  refine ⟨_, hfilter, List.mem_map.mpr ⟨info, hinfo, ?_⟩⟩
  simp only [checkTable, hrecord, if_pos hrowid, hcolumns]
  rw [if_pos]
  split_ifs
  exact h

/-- **When the names of the columns come back from the record.** -/
theorem recorded_iff (info : TableInfo) (hplain : ∀ column ∈ info.columns, Plain column.column) :
    Recorded info ↔ Recordable info.columns := by
  constructor
  · intro h
    refine ⟨?_, normal_of_parsed hplain info.size_lt fun column hcolumn =>
      (h.names _).mpr ⟨column, hcolumn, rfl⟩, alone_of_parsed hplain info.size_lt fun name hname =>
        (h.names name).mp hname⟩
    intro hnil
    have hparsed : [] ∈ parseColumns info.getCompressionDescription := by
      rw [TableInfo.getCompressionDescription, hnil]
      decide
    obtain ⟨column, hcolumn, -⟩ := (h.names []).mp hparsed
    exact absurd (hnil ▸ hcolumn) List.not_mem_nil
  · intro h
    have hnames : ∀ name, name ∈ parseColumns info.getCompressionDescription ↔
        ∃ column ∈ info.columns, column.column.toList = name := fun name => by
      rw [TableInfo.getCompressionDescription, h.parsed hplain info.size_lt, ← exists_entry_iff,
        List.mem_map]
    exact ⟨hnames, fun _ _ _ hinfo hrecord hcolumns hrowid => recognised_of_names
      (fun column hcolumn => (hnames _).mpr ⟨column, hcolumn, rfl⟩) hinfo hrecord hcolumns hrowid⟩

/-- Two columns without dictionaries. -/
def plainTable : TableInfo where
  table := "message"
  columns := [{ column := "title", compressionType := .normal },
    { column := "content", compressionType := .normal }]
  size_lt := by decide +kernel

theorem recorded_plainTable : Recorded plainTable := by
  refine (recorded_iff plainTable (by decide)).mpr ⟨List.cons_ne_nil _ _, ?_, ?_⟩
  · intro info hinfo _
    have hmem := hinfo.mem
    simp only [plainTable, List.mem_cons, List.not_mem_nil, or_false] at hmem
    rcases hmem with rfl | rfl <;> rfl
  · intro info hinfo hempty
    have hmem := hinfo.mem
    simp only [plainTable, List.mem_cons, List.not_mem_nil, or_false] at hmem
    rcases hmem with rfl | rfl <;> exact absurd hempty (by decide)

/-- One column, with the dictionary 1. -/
def dictTable : TableInfo where
  table := "message"
  columns := [{ column := "content", compressionType := .dict, commonDictID := 1 }]
  size_lt := by decide +kernel

/-- The name that comes back is `conten`, and the table is compressed again. -/
theorem not_recorded_dictTable :
    parseColumns dictTable.getCompressionDescription = ["conten".toList] ∧ ¬Recorded dictTable := by
  have hparsed : parseColumns dictTable.getCompressionDescription = ["conten".toList] := by
    decide +kernel
  refine ⟨hparsed, fun h => ?_⟩
  have hmem := (h.names "content".toList).mpr ⟨_, List.mem_cons_self, rfl⟩
  rw [hparsed] at hmem
  exact absurd hmem (by decide)

end Wcdb.CompressHandleOperator
