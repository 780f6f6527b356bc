import Wcdb.Core.CompressingStatement

/-!
# The columns of a row that was just written

`stepSelectAndUpdateUncompressRowStatement` selects the compressing columns of a row, two values
for each column and a third one, the match value, for a column of various dictionaries. The loop
over the columns finds its place in the row with a running offset, which moves past a match value
only when the column before it was **compressed**.

`InStep` says that the offset is right for every column, and `compressColumns_spec` what the loop
then does to each of them.
-/

namespace Wcdb

/-- A compressing column of a row: its content, its type and its match value. -/
structure RowEntry where
  info : CompressionColumnInfo
  content : Value
  type : Value
  matchValue : Value
  deriving DecidableEq, Repr

namespace RowEntry

/-- What `getSelectUncompressRowStatement` selects of the column. -/
def selected (e : RowEntry) : List Value :=
  e.content :: e.type :: if e.info.compressionType = .variousDict then [e.matchValue] else []

/-- Text or a blob without a type: the column is to be compressed. -/
def Pending (e : RowEntry) : Prop := e.content.isData = true ∧ e.type = .null

instance (e : RowEntry) : Decidable e.Pending := inferInstanceAs (Decidable (_ ∧ _))

end RowEntry

/-- The dictionary with which the second step compresses a column. -/
def secondDictionary (column : CompressionColumnInfo) (matchValue : Value) : CompressedType × ℕ :=
  if column.compressionType = .variousDict then
    (.zstdDict, column.getMatchDictId matchValue.intValue)
  else ownDictionary column

variable (z : Zstd)

/-- What the second step writes for a column that it finds in its place. -/
def compressEntry (e : RowEntry) : Option (Value × Value) :=
  if e.Pending then
    encodeCell z true (secondDictionary e.info e.matchValue).1
      (secondDictionary e.info e.matchValue).2 e.content.isText e.content.blobValue
  else some (e.content, .integer e.type.intValue)

/-- `stepSelectAndUpdateUncompressRowStatement`: the cells of the row after it, or `none` when it
returns `false` and the row is left. -/
def stepSelectAndUpdateUncompressRow (entries : List RowEntry) : Option (List (Value × Value)) :=
  compressColumns z (entries.flatMap RowEntry.selected) (entries.map RowEntry.info) 0 0

/-- No column of various dictionaries that is left as it is comes before another column. -/
def RowEntry.InStep : List RowEntry → Prop
  | [] => True
  | e :: entries =>
      (e.info.compressionType = .variousDict → ¬e.Pending → entries = []) ∧ InStep entries

variable {z}

/-- The results of a loop that does not fail, one for each element. -/
theorem getElem?_of_mapM {α β : Type} {f : α → Option β} {as : List α} {bs : List β}
    (h : as.mapM f = some bs) {i : ℕ} {a : α} (ha : as[i]? = some a) :
    ∃ b, bs[i]? = some b ∧ f a = some b := by
  induction as generalizing bs i with
  | nil => cases ha
  | cons a' as ih =>
    rw [List.mapM_cons] at h
    obtain ⟨b, hb, h⟩ := Option.bind_eq_some_iff.mp h
    obtain ⟨bs', hbs', h⟩ := Option.bind_eq_some_iff.mp h
    cases h
    cases i with
    | zero =>
      cases ha
      exact ⟨b, rfl, hb⟩
    | succ i => exact ih hbs' ha

/-- **The loop over the columns, in step.** `before` are the selected values of the columns that
are done. -/
theorem compressColumns_spec {entries : List RowEntry} (before : List Value)
    {columnIndex preOffset : ℕ} (hbefore : before.length = 2 * columnIndex + preOffset)
    (hstep : RowEntry.InStep entries) :
    compressColumns z (before ++ entries.flatMap RowEntry.selected) (entries.map RowEntry.info)
      columnIndex preOffset = entries.mapM (compressEntry z) := by
  induction entries generalizing before columnIndex preOffset with
  | nil => rfl
  | cons e entries ih =>
    obtain ⟨hlast, hstep⟩ := hstep
    rw [List.flatMap_cons, List.map_cons, List.mapM_cons]
    generalize hrow : before ++ (e.selected ++ entries.flatMap RowEntry.selected) = row
    have hrow' : row = (before ++ e.selected) ++ entries.flatMap RowEntry.selected := by
      rw [← hrow, List.append_assoc]
    -- the values of the column, by their distance from its first one
    have hget : ∀ k, row.getD (2 * columnIndex + preOffset + k) .null =
        (e.selected ++ entries.flatMap RowEntry.selected).getD k .null := by
      intro k
      rw [← hrow, ← hbefore, List.getD_eq_getElem?_getD, List.getElem?_append_right (by omega),
        Nat.add_sub_cancel_left, List.getD_eq_getElem?_getD]
    have hcontent : row.getD (2 * columnIndex + preOffset) .null = e.content := hget 0
    have htype : row.getD (2 * columnIndex + preOffset + 1) .null = e.type := hget 1
    have hdict : (if e.info.compressionType = .variousDict then
        (CompressedType.zstdDict, e.info.getMatchDictId
          (row.getD (2 * columnIndex + preOffset + 2) .null).intValue)
        else ownDictionary e.info) = secondDictionary e.info e.matchValue := by
      rw [secondDictionary]
      split_ifs with hvarious
      · rw [hget 2]
        simp [RowEntry.selected, hvarious]
      · rfl
    have hlength : (before ++ e.selected).length = 2 * (columnIndex + 1) +
        (if e.info.compressionType = .variousDict then preOffset + 1 else preOffset) := by
      rw [List.length_append, hbefore, RowEntry.selected]
      split_ifs <;> simp <;> omega
    simp only [compressColumns, hcontent, htype, hdict]
    by_cases hpending : e.Pending
    · have hrest := ih (before ++ e.selected) hlength hstep
      rw [← hrow'] at hrest
      rw [if_pos (show e.content.isData = true ∧ e.type = .null from hpending), hrest,
        compressEntry,
        if_pos hpending]
      cases encodeCell z true (secondDictionary e.info e.matchValue).1
          (secondDictionary e.info e.matchValue).2 e.content.isText e.content.blobValue with
      | none => rfl
      | some cell => cases entries.mapM (compressEntry z) <;> rfl
    · rw [if_neg (show ¬(e.content.isData = true ∧ e.type = .null) from hpending), compressEntry,
        if_neg hpending]
      by_cases hvarious : e.info.compressionType = .variousDict
      · rw [hlast hvarious hpending]
        rfl
      · have hrest := ih (before ++ e.selected) (by rw [hlength, if_neg hvarious]) hstep
        rw [← hrow'] at hrest
        rw [hrest]
        cases entries.mapM (compressEntry z) <;> rfl

/-- **The second step, in step.** -/
theorem stepSelectAndUpdateUncompressRow_eq {entries : List RowEntry}
    (hstep : RowEntry.InStep entries) :
    stepSelectAndUpdateUncompressRow z entries = entries.mapM (compressEntry z) :=
  compressColumns_spec [] rfl hstep

end Wcdb
