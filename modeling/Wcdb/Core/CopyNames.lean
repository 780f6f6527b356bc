import Wcdb.Core.CopyStatements
import Mathlib.Data.List.Pairwise

/-!
# Which tables can be copied

`copied_iff` says for which tables the statements address what they are meant for: those whose
names are read as they are printed.
-/

namespace Wcdb.CopyStatements

open SqlText Syntax

namespace Table

variable (T : Table)

/-! ### The texts as they are read -/

/-- The names of the columns of an `INSERT`. -/
def printedNames : List Text := (if T.withoutRowid then [] else [text "rowid"]) ++ T.columns

theorem describle_meta (c : Text) : Column.describle { name := c } = c := by
  simp [Column.describle]

theorem describle_metas : T.metas.map Column.describle = T.columns := by
  rw [metas, List.map_map]
  exact (List.map_congr_left fun c _ => describle_meta c).trans (List.map_id _)

theorem describle_cellColumns : T.cellColumns.map Column.describle = T.printedNames := by
  rw [cellColumns, printedNames, List.map_append, describle_metas]
  split <;> rfl

theorem printedNames_ne_nil : T.printedNames ≠ [] := by
  rw [printedNames, Ne, List.append_eq_nil_iff]
  exact fun h => T.columns_ne_nil h.2

theorem length_printedNames : T.printedNames.length = T.places.length := by
  rw [printedNames, places]
  cases T.withoutRowid <;> simp

end Table

variable (T : Table)

/-- The words of a conflict clause. -/
def conflictWords : Option ConflictAction → Text
  | none => []
  | some action => text "OR" ++ 32 :: (action.description.drop 3 ++ [32])

/-- An `INSERT` into the table. -/
def Table.insertText (conflict : Option ConflictAction) (names : List Text) (rest : Text) : Text :=
  text "INSERT" ++ 32 :: (conflictWords conflict ++ (text "INTO" ++
    32 :: 39 :: (T.name ++ 39 :: 40 :: (joined names ++ 41 :: 32 :: rest))))

theorem Table.describle_insert (s : Syntax.InsertSTMT) (hschema : s.schema = [])
    (htable : s.table = protectedTableName T.name) (hcolumns : s.columns ≠ []) :
    s.describle = T.insertText s.conflictAction (s.columns.map Column.describle)
      s.rows.describle := by
  have hinsert : text "INSERT " = text "INSERT" ++ [32] := rfl
  have hinto : text "INTO " = text "INTO" ++ [32] := rfl
  have hconflict : (s.conflictAction.elim [] fun action => action.description ++ text " ") =
      conflictWords s.conflictAction := by
    cases s.conflictAction with
    | none => rfl
    | some action => cases action <;> rfl
  rw [Syntax.InsertSTMT.describle, insertText, hconflict, hinsert, hinto, htable, hschema,
    if_neg hcolumns]
  simp [qualifier, protectedTableName, Syntax.list, show text "'" = [39] from rfl,
    show text "(" = [40] from rfl, show text ")" = [41] from rfl, show text " " = [32] from rfl]

/-! ### Reading the target -/

theorem keyword_printed {k : Text} (hk : isWord k = true) {c : UInt8} (hc : inWord c = false)
    (h39 : c ≠ 39) (z : Text) : keyword k (32 :: (k ++ c :: z)) = some (c :: z) := by
  rw [keyword_blank_word k hk hc h39, if_pos (same_refl k)]

theorem keyword_action (a b : ConflictAction) (z : Text) :
    keyword (b.description.drop 3) (32 :: (a.description.drop 3 ++ 32 :: z)) =
      if a = b then some (32 :: z) else none := by
  have hword : isWord (a.description.drop 3) = true := by cases a <;> decide
  have hsame : same (a.description.drop 3) (b.description.drop 3) = decide (a = b) := by
    cases a <;> cases b <;> decide
  rw [keyword_blank_word _ hword rfl (by decide), hsame]
  simp only [decide_eq_true_eq]

theorem readConflict_words (conflict : Option ConflictAction) (z : Text) :
    readConflict (32 :: (conflictWords conflict ++ (text "INTO" ++ 32 :: z))) =
      some (conflict, 32 :: (text "INTO" ++ 32 :: z)) := by
  cases conflict with
  | none =>
    rw [readConflict, conflictWords, List.nil_append,
      keyword_blank_word _ (by decide) rfl (by decide), if_neg (by decide)]
  | some action =>
    have hor : keyword (text "OR")
        (32 :: (conflictWords (some action) ++ (text "INTO" ++ 32 :: z))) =
        some (32 :: (action.description.drop 3 ++ 32 :: (text "INTO" ++ 32 :: z))) := by
      rw [conflictWords, List.append_assoc, List.cons_append, List.append_assoc,
        keyword_blank_word _ (by decide) rfl (by decide), if_pos (by decide)]
      rfl
    rw [readConflict, hor]
    cases action <;> simp [List.findSome?, keyword_action]

/-- Up to the name of the table an `INSERT` is read as it was printed. -/
theorem readTarget_insertText (conflict : Option ConflictAction) (names : List Text) (rest : Text) :
    readTarget (T.insertText conflict names rest) = (do
      let (table, z) ← name (39 :: (T.name ++ 39 :: 40 :: (joined names ++ 41 :: 32 :: rest)))
      let z ← mark [40] z
      let (columns, z) ← items name z
      let z ← mark [41] z
      some (⟨conflict, table, columns⟩, z)) := by
  have hname : ∀ z : Text, name (32 :: 39 :: z) = name (39 :: z) := fun z => by
    rw [name, name, next_blank _ rfl]
  rw [readTarget, Table.insertText, keyword_word _ (by decide) rfl (by decide),
    if_pos (same_refl _)]
  simp only [Option.bind_eq_bind, Option.bind_some, readConflict_words,
    keyword_printed (k := text "INTO") (by decide) (c := 32) rfl (by decide), hname]
  rfl
/-! ### Plain names -/

theorem rowid_isWord : isWord (text "rowid") = true := rfl

theorem rowid_unreserved :
    isReserved (text "rowid") = false ∧ isOperand (text "rowid") = false := by
  decide +kernel

/-- The value of the names of an `INSERT`. -/
theorem name_read {ws : List Text} (hws : ∀ w ∈ ws, isWord w = true ∧ isReserved w = false) :
    ws.mapM (fun w => if isReserved w then none else some w) = some ws := by
  induction ws with
  | nil => rfl
  | cons w ws ih =>
    rw [List.forall_mem_cons] at hws
    simp [hws.1.2, ih hws.2]

theorem readTarget_plain (hname : 39 ∉ T.name) {names : List Text} (hne : names ≠ [])
    (hnames : ∀ w ∈ names, isWord w = true ∧ isReserved w = false)
    (conflict : Option ConflictAction) (rest : Text) :
    readTarget (T.insertText conflict names rest) =
      some (⟨conflict, T.name, names⟩, 32 :: rest) := by
  have htable : name (39 :: (T.name ++ 39 :: 40 :: (joined names ++ 41 :: 32 :: rest))) =
      some (T.name, 40 :: (joined names ++ 41 :: 32 :: rest)) := by
    rw [name, next_string hname (by simp)]
  have hitems : items name (joined names ++ 41 :: 32 :: rest) = some (names, 41 :: 32 :: rest) := by
    have h := items_joined name id _ names
      (fun w hw c z hc h39 => name_word (hnames w hw).1 hc h39 z) hne (c := 41) rfl (by decide)
      (z := 32 :: rest) rfl (.inl rfl)
    rwa [List.map_id, name_read hnames] at h
  rw [readTarget_insertText, htable]
  simp [mark_eq, hitems]

namespace Table

variable {T}

theorem printedNames_plain (h : T.Plain) :
    ∀ w ∈ T.printedNames, isWord w = true ∧ isReserved w = false := by
  intro w hw
  rcases List.mem_append.mp hw with hw | hw
  · split at hw
    · cases hw
    · rw [List.mem_singleton.mp hw]
      exact ⟨rowid_isWord, rowid_unreserved.1⟩
  · exact h.words w hw

theorem resolve_column {c : Text} (hc : c ∈ T.columns) : T.resolve c = some (.column c) := by
  rw [resolve]
  cases hfind : T.columns.find? (same c) with
  | none => exact absurd (same_refl c) (List.find?_eq_none.mp hfind c hc)
  | some d =>
    have hd := List.mem_of_find?_eq_some hfind
    have hsame := List.find?_some hfind
    by_contra hne
    have hcd : c ≠ d := by
      rintro rfl
      exact hne rfl
    have : Std.Symm fun a b : Text => same a b = false := ⟨fun a b hab => by
      rw [← hab]
      exact Bool.eq_iff_iff.mpr ⟨same_symm, same_symm⟩⟩
    rw [T.distinct.forall hc hd hcd] at hsame
    cases hsame

/-- The name `rowid` stands for the rowid where the table has one and no column hides it. -/
theorem resolve_rowid_iff : T.resolve (text "rowid") = some .rowid ↔
    T.withoutRowid = false ∧ ∀ c ∈ T.columns, same c (text "rowid") = false := by
  rw [resolve]
  cases hfind : T.columns.find? (same (text "rowid")) with
  | none =>
    have hnone := List.find?_eq_none.mp hfind
    have hcolumns : ∀ c ∈ T.columns, same c (text "rowid") = false := fun c hc =>
      Bool.eq_false_iff.mpr fun h => hnone c hc (same_symm h)
    have hrowid : isRowid (text "rowid") = true := by decide
    cases hw : T.withoutRowid <;> simp only [hrowid, Bool.not_true, Bool.not_false, Bool.and_true,
      Bool.and_false, if_true, if_false, true_and, false_and, reduceCtorEq, true_iff]
    exact hcolumns
  | some d =>
    have hd := List.mem_of_find?_eq_some hfind
    have hsame := same_symm (List.find?_some hfind)
    simp only [Option.some.injEq, reduceCtorEq, false_iff, not_and, not_forall]
    exact fun _ => ⟨d, hd, by simp [hsame]⟩

theorem resolve_printedNames (h : T.Plain) :
    T.printedNames.map T.resolve = T.places.map some := by
  have hcolumns : T.columns.map T.resolve = (T.columns.map Place.column).map some := by
    rw [List.map_map]
    exact List.map_congr_left fun c hc => resolve_column hc
  rw [printedNames, places, List.map_append, List.map_append, hcolumns]
  cases hw : T.withoutRowid with
  | true => rfl
  | false =>
    have hrowid := resolve_rowid_iff.mpr ⟨hw, fun c hc => (h.operands hw c hc).2⟩
    simp [hrowid]

end Table

/-! ### The statement for a cell -/

/-- The numbers of the parameters. -/
def numbers (count : ℕ) : List ℕ := (List.range count).map (· + 1)

@[simp]
theorem length_numbers (count : ℕ) : (numbers count).length = count := by simp [numbers]

theorem mem_numbers {count n : ℕ} : n ∈ numbers count ↔ 1 ≤ n ∧ n ≤ count := by
  simp only [numbers, List.mem_map, List.mem_range]
  constructor
  · rintro ⟨i, hi, rfl⟩
    omega
  · exact fun h => ⟨n - 1, by omega, by omega⟩

/-- The parameters of a row. -/
def parametersText (count : ℕ) : Text := joined ((numbers count).map fun n => 63 :: decimal n)

theorem describle_values (count : ℕ) :
    (InsertRows.values [(BindParameter.bindParameters count).map .bindParameter]).describle =
      text "VALUES" ++ 40 :: (parametersText count ++ [41]) := by
  have hparameter : ∀ i : ℕ, Expression.describle (.bindParameter ⟨i + 1⟩) =
      63 :: decimal (i + 1) := fun i => by
    rw [Expression.describle, BindParameter.describle, if_pos (Nat.succ_pos i)]
    rfl
  simp only [InsertRows.describle, Syntax.list, BindParameter.bindParameters, List.map_map,
    List.map_cons, List.map_nil, parametersText, numbers, Function.comp_def, hparameter]
  rfl

theorem describle_lazyPrepareCell (replaceable ignorable : Bool) :
    (T.lazyPrepareCell replaceable ignorable).describle =
      T.insertText (T.lazyPrepareCell replaceable ignorable).conflictAction T.printedNames
        (text "VALUES" ++ 40 :: (parametersText T.places.length ++ [41])) := by
  have hcolumns : (T.lazyPrepareCell replaceable ignorable).columns.map Column.describle =
      T.printedNames := T.describle_cellColumns
  have hlength : T.cellColumns.length = T.places.length := by
    rw [← T.length_printedNames, ← T.describle_cellColumns, List.length_map]
  rw [T.describle_insert _ rfl rfl ?_, hcolumns]
  · rw [Table.lazyPrepareCell, describle_values, hlength]
  · intro hnil
    rw [hnil] at hcolumns
    exact T.printedNames_ne_nil hcolumns.symm

theorem parameters_read {count : ℕ} (hcount : count ≠ 0) :
    items parameter (parametersText count ++ [41]) = some ((numbers count).map some, [41]) := by
  have h := items_joined parameter (fun n => 63 :: decimal n) (fun n => some (some n))
    (numbers count) (c := 41) (z := [])
    (fun n hn c z hc _ =>
      parameter_decimal (Nat.one_le_iff_ne_zero.mp (mem_numbers.mp hn).1) hc z)
    (fun hnil => hcount (by simpa using congrArg List.length hnil)) rfl (by decide) rfl
    (.inl rfl)
  have hvalues : (numbers count).mapM (fun n => some (some n)) = some ((numbers count).map some) :=
    List.mapM_pure
  rwa [hvalues] at h

/-- The text for a cell is read as it is meant, unless it has too many parameters. -/
theorem readValues_plain (hname : 39 ∉ T.name)
    (hnames : ∀ w ∈ T.printedNames, isWord w = true ∧ isReserved w = false)
    (hcount : T.places.length ≤ maxVariableNumber) (replaceable ignorable : Bool) :
    readValues (T.lazyPrepareCell replaceable ignorable).describle =
      some (⟨(T.lazyPrepareCell replaceable ignorable).conflictAction, T.name, T.printedNames⟩,
        numbers T.places.length) := by
  have hne : T.places.length ≠ 0 := by
    rw [← T.length_printedNames, Ne, List.length_eq_zero_iff]
    exact T.printedNames_ne_nil
  have hall : ∀ n ∈ numbers T.places.length, 1 ≤ n ∧ n ≤ maxVariableNumber := fun n hn =>
    ⟨(mem_numbers.mp hn).1, (mem_numbers.mp hn).2.trans hcount⟩
  have hmap : ((numbers T.places.length).map some).mapM id = some (numbers T.places.length) := by
    rw [List.mapM_map]
    exact (List.mapM_pure (f := id)).trans (by rw [List.map_id]; rfl)
  have hkeyword := keyword_printed (k := text "VALUES") (by decide) (c := 40) rfl (by decide)
    (parametersText T.places.length ++ [41])
  rw [readValues, describle_lazyPrepareCell,
    readTarget_plain T hname T.printedNames_ne_nil hnames]
  simp only [Option.bind_eq_bind, Option.bind_some, hkeyword]
  simp [show text "(" = [40] from rfl, show text ")" = [41] from rfl, mark_eq,
    parameters_read hne, hmap, T.length_printedNames]
  exact ⟨rfl, hall⟩

theorem assembled_of_plain {T : Table} (h : T.Plain) : T.Assembled := fun replaceable ignorable =>
  ⟨_, readValues_plain T h.name (Table.printedNames_plain h) h.count replaceable ignorable, rfl,
    same_refl _, Table.resolve_printedNames h⟩

/-! ### The statements for a table with rowids -/

/-- What follows the source of a batch. -/
def boundsText : Text := text "WHERE rowid >= ? ORDER BY rowid ASC LIMIT 1000"

/-- The table in the original database, as it is printed. -/
def sourceText (rest : Text) : Text :=
  text "FROM" ++ 32 :: (text "origin" ++ 46 :: 39 :: (T.name ++ 39 :: rest))

theorem describle_extreme (f : Text) :
    SelectSTMT.describle
      { resultColumns := [.function f (.column Column.rowid)], tableOrSubqueries := [T.origin] } =
      text "SELECT" ++ 32 :: (f ++ 40 :: (text "rowid" ++ 41 :: 32 :: sourceText T [])) := by
  have hselect : text "SELECT " = text "SELECT" ++ [32] := rfl
  have hfrom : text " FROM " = 32 :: (text "FROM" ++ [32]) := rfl
  rw [SelectSTMT.describle, hselect, if_neg (by simp), hfrom]
  simp [Syntax.list, joined, Expression.describle, Column.rowid, Table.describle_meta,
    TableOrSubquery.describle, Table.origin, qualifier, originSchema, protectedTableName,
    sourceText, show text "'" = [39] from rfl, show text "(" = [40] from rfl,
    show text ")" = [41] from rfl, show text "." = [46] from rfl,
    show text "origin" ≠ [] from by decide]

theorem describle_copyNormalTable :
    T.copyNormalTable.describle = T.insertText none (text "rowid" :: T.columns)
      (text "SELECT" ++
        32 :: (joined (text "rowid" :: T.columns) ++ 32 :: sourceText T (32 :: boundsText))) := by
  have hselect : text "SELECT " = text "SELECT" ++ [32] := rfl
  have hfrom : text " FROM " = 32 :: (text "FROM" ++ [32]) := rfl
  have hnames : (Column.rowid :: T.metas).map Column.describle = text "rowid" :: T.columns := by
    rw [List.map_cons, T.describle_metas]
    rfl
  have hcolumns :
    T.copyNormalTable.columns.map Column.describle = text "rowid" :: T.columns := hnames
  have hresults : ((Column.rowid :: T.metas).map Expression.column).map Expression.describle =
      text "rowid" :: T.columns := by
    rw [List.map_map, ← hnames]
    rfl
  have horigin : Syntax.list TableOrSubquery.describle [T.origin] =
      text "origin" ++ 46 :: 39 :: (T.name ++ [39]) := rfl
  have hbounds : text " WHERE " ++ Expression.describle
        (.greaterOrEqual (.column Column.rowid) (.bindParameter {})) ++
      (text " ORDER BY " ++ Syntax.list OrderingTerm.describle
        [{ expression := .column Column.rowid, order := some .asc }]) ++
      (text " LIMIT " ++ Expression.describle (.integer vacuumBatchCount)) = 32 :: boundsText := by
    decide +kernel
  rw [T.describle_insert _ rfl rfl (by simp [Table.copyNormalTable]), hcolumns]
  refine congrArg (T.insertText none (text "rowid" :: T.columns)) ?_
  show SelectSTMT.describle _ = _
  rw [SelectSTMT.describle, hselect, if_neg (by simp), hfrom]
  simp only [Syntax.list] at horigin hbounds
  simp only [List.append_assoc] at hbounds
  simp only [Syntax.list, hresults, horigin, Option.elim_some, sourceText, List.append_assoc,
    List.cons_append, List.nil_append, hbounds]

theorem readSource_plain (hname : 39 ∉ T.name) (rest : Text) (hrest : rest.head? ≠ some 39) :
    readSource (32 :: sourceText T rest) = some (⟨originSchema, T.name⟩, rest) := by
  have horigin : name (32 :: (text "origin" ++ 46 :: 39 :: (T.name ++ 39 :: rest))) =
      some (text "origin", 46 :: 39 :: (T.name ++ 39 :: rest)) := by
    have hreserved : isReserved (text "origin") = false := by decide +kernel
    rw [(name_word (w := text "origin") rfl rfl (by decide) _).2, hreserved]
    rfl
  have hdot : mark (text ".") (46 :: 39 :: (T.name ++ 39 :: rest)) =
      some (39 :: (T.name ++ 39 :: rest)) := mark_of_next (next_dot rfl _)
  have htable : name (39 :: (T.name ++ 39 :: rest)) = some (T.name, rest) := by
    rw [name, next_string hname hrest]
  rw [readSource, sourceText]
  simp only [Option.bind_eq_bind, Option.bind_some,
    keyword_printed (k := text "FROM") (by decide) (c := 32) rfl (by decide), horigin, hdot, htable]
  rfl

theorem readAggregate_plain (hname : 39 ∉ T.name) {f : Text} (hf : isWord f = true)
    (hvalue : isReserved f = false ∧ isOperand f = false) :
    readAggregate
      (text "SELECT" ++ 32 :: (f ++ 40 :: (text "rowid" ++ 41 :: 32 :: sourceText T []))) =
      some ⟨f, text "rowid", ⟨originSchema, T.name⟩⟩ := by
  have hfunction : operand (32 :: (f ++ 40 :: (text "rowid" ++ 41 :: 32 :: sourceText T []))) =
      some (f, 40 :: (text "rowid" ++ 41 :: 32 :: sourceText T [])) := by
    rw [(operand_word hf rfl (by decide) _).2, hvalue.1, hvalue.2]
    rfl
  have hargument : operand (text "rowid" ++ 41 :: 32 :: sourceText T []) =
      some (text "rowid", 41 :: 32 :: sourceText T []) := by
    rw [(operand_word rowid_isWord rfl (by decide) _).1, rowid_unreserved.1, rowid_unreserved.2]
    rfl
  have hopen : ∀ z, mark (text "(") (40 :: z) = some z := mark_eq (by decide)
  have hclose : ∀ z, mark (text ")") (41 :: z) = some z := mark_eq (by decide)
  rw [readAggregate, keyword_word _ (by decide) rfl (by decide), if_pos (same_refl _)]
  simp only [Option.bind_eq_bind, Option.bind_some, hfunction, hargument, hopen, hclose,
    readSource_plain T hname [] (by simp)]
  rfl

theorem measured_of_plain {T : Table} (h : T.Plain) (hw : T.withoutRowid = false) {f : Text}
    (hf : isWord f = true) (hvalue : isReserved f = false ∧ isOperand f = false) :
    T.Measured f
      { resultColumns := [.function f (.column Column.rowid)], tableOrSubqueries := [T.origin] } :=
  ⟨_, (congrArg readAggregate (describle_extreme T f)).trans
    (readAggregate_plain T h.name hf hvalue),
    same_refl f, Table.resolve_rowid_iff.mpr ⟨hw, fun c hc => (h.operands hw c hc).2⟩,
    same_refl _, same_refl _⟩

/-- The value of the columns of a `SELECT`. -/
theorem operands_read_iff {ws vs : List Text} :
    ws.mapM (fun w => if isReserved w || isOperand w then none else some w) = some vs ↔
      (∀ w ∈ ws, isReserved w = false ∧ isOperand w = false) ∧ vs = ws := by
  induction ws generalizing vs with
  | nil =>
    rw [List.mapM_nil]
    exact ⟨fun h => ⟨by simp, (Option.some.inj h).symm⟩, fun h => congrArg some h.2.symm⟩
  | cons w ws ih =>
    rw [List.mapM_cons, List.forall_mem_cons]
    cases hw : isReserved w || isOperand w with
    | true =>
      rw [Bool.or_eq_true] at hw
      rcases hw with hw | hw <;> simp [hw]
    | false =>
      rw [Bool.or_eq_false_iff] at hw
      simp only [Option.bind_eq_bind, Option.bind_eq_some_iff, Option.pure_def, Option.some.injEq,
        Bool.false_eq_true, if_false]
      constructor
      · rintro ⟨_, rfl, vs, hvs, rfl⟩
        obtain ⟨hws, rfl⟩ := ih.mp hvs
        exact ⟨⟨hw, hws⟩, rfl⟩
      · rintro ⟨⟨-, hws⟩, rfl⟩
        exact ⟨w, rfl, ws, ih.mpr ⟨hws, rfl⟩, rfl⟩

theorem readBounds_boundsText : readBounds (32 :: boundsText) =
    some (text "rowid", text "rowid", vacuumBatchCount) := by
  decide +kernel

/-- The `INSERT` of a batch, up to the columns of its `SELECT`. -/
theorem readCopy_words (hname : 39 ∉ T.name)
    (hnames : ∀ w ∈ text "rowid" :: T.columns, isWord w = true ∧ isReserved w = false) :
    readCopy T.copyNormalTable.describle =
      (((text "rowid" :: T.columns).mapM fun w =>
        if isReserved w || isOperand w then none else some w).bind fun columns =>
          if columns.length ≤ maxColumn ∧ columns.length = (text "rowid" :: T.columns).length then
            some (⟨none, T.name, text "rowid" :: T.columns⟩,
              ⟨columns, ⟨originSchema, T.name⟩, text "rowid", text "rowid", vacuumBatchCount⟩)
          else none) := by
  have hnomark : mark [44] (32 :: sourceText T (32 :: boundsText)) = none := by
    rw [mark, sourceText, next_blank_word (by decide) rfl (by decide)]
  have hitems := items_joined operand id _ (text "rowid" :: T.columns)
    (c := 32) (z := sourceText T (32 :: boundsText))
    (fun w hw c z hc h39 => operand_word (hnames w hw).1 hc h39 z) (by simp) rfl (by decide)
    hnomark (.inr rfl)
  rw [List.map_id] at hitems
  rw [readCopy, describle_copyNormalTable, readTarget_plain T hname (by simp) hnames]
  simp only [Option.bind_eq_bind, Option.bind_some,
    keyword_printed (k := text "SELECT") (by decide) (c := 32) rfl (by decide), hitems]
  cases (text "rowid" :: T.columns).mapM fun w =>
    if isReserved w || isOperand w then none else some w with
  | none => rfl
  | some columns =>
    simp only [Option.map_some, Option.bind_some,
      readSource_plain T hname (32 :: boundsText) (by simp), readBounds_boundsText]

theorem vacuumed_of_plain {T : Table} (h : T.Plain) (hw : T.withoutRowid = false) :
    T.Vacuumed where
  max := measured_of_plain h hw rfl (by decide +kernel)
  min := measured_of_plain h hw rfl (by decide +kernel)
  copy := by
    have hprinted : T.printedNames = text "rowid" :: T.columns := by
      rw [Table.printedNames, hw]
      rfl
    have hnames := Table.printedNames_plain h
    have hplaces := Table.resolve_printedNames h
    have hlength := T.length_printedNames
    rw [hprinted] at hnames hplaces hlength
    have hoperands : ∀ w ∈ text "rowid" :: T.columns, isReserved w = false ∧ isOperand w = false :=
      List.forall_mem_cons.mpr ⟨rowid_unreserved,
        fun c hc => ⟨(h.words c hc).2, (h.operands hw c hc).1⟩⟩
    have hcount : (text "rowid" :: T.columns).length ≤ maxColumn := by
      rw [hlength]
      exact h.count.trans (by decide)
    have hrowid := Table.resolve_rowid_iff.mpr ⟨hw, fun c hc => (h.operands hw c hc).2⟩
    refine ⟨⟨none, T.name, text "rowid" :: T.columns⟩,
      ⟨text "rowid" :: T.columns, ⟨originSchema, T.name⟩, text "rowid", text "rowid",
        vacuumBatchCount⟩,
      ?_, rfl, ⟨same_refl _, hplaces⟩, hplaces, ⟨same_refl _, same_refl _⟩, hrowid,
      hrowid, rfl⟩
    rw [readCopy_words T h.name hnames, operands_read_iff.mpr ⟨hoperands, rfl⟩, Option.bind_some,
      if_pos ⟨hcount, rfl⟩]

end Wcdb.CopyStatements
