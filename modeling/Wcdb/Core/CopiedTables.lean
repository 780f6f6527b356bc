import Wcdb.Core.CopyNames
import Mathlib.Data.List.Forall2

/-!
# The tables that are copied

`copied_iff`: the statements that copy a table address it just if its names are read as they are
printed. The text for a cell is enough to see this of most names. If the name of the table has a
quote in it, or if a column is read as something else than its name, reading is beyond the text
that was to be read, and the only closing parenthesis there is the last byte of the statement.
-/

namespace Wcdb.CopyStatements

open SqlText Syntax

variable {T : Table}

/-! ### The name of the table -/

/-- What is printed before the columns of the table. -/
def lead (T : Table) : Text := if T.withoutRowid then [] else text "rowid, "

theorem joined_printedNames (T : Table) : joined T.printedNames = lead T ++ joined T.columns := by
  rw [Table.printedNames, lead]
  cases hw : T.withoutRowid with
  | true => rfl
  | false =>
    obtain ⟨c, cs, hcs⟩ := List.exists_cons_of_ne_nil T.columns_ne_nil
    rw [hcs]
    rfl

theorem lower_eq_quote {b : UInt8} (h : lower b = 39) : b = 39 := by
  rw [lower] at h
  split_ifs at h with hb
  · have hle := UInt8.le_iff_toNat_le.mp hb.1
    have hge := UInt8.le_iff_toNat_le.mp hb.2
    have hadd := congrArg UInt8.toNat h
    rw [UInt8.toNat_add] at hadd
    simp at hle hge hadd
    omega
  · exact h

theorem quote_mem_of_same {a b : Text} (h : same a b = true) (hb : 39 ∈ b) : 39 ∈ a := by
  have hmem : (39 : UInt8) ∈ b.map lower := List.mem_map.mpr ⟨39, hb, rfl⟩
  rw [← same_iff.mp h] at hmem
  obtain ⟨c, hc, h39⟩ := List.mem_map.mp hmem
  exact lower_eq_quote h39 ▸ hc

/-- The name of the table leads to the columns that were printed, or, when it has a quote in it,
beyond them. -/
theorem table_upto {table z z' N : Text}
    (hname : name (39 :: (T.name ++ 39 :: 40 :: (lead T ++ N))) = some (table, z))
    (hsame : same table T.name = true) (hopen : mark [40] z = some z') :
    (39 ∉ T.name ∧ z' = lead T ++ N) ∨ Beyond N z' := by
  by_cases hquote : 39 ∈ T.name
  · rw [name, next_quote] at hname
    obtain ⟨⟨v, rest⟩, hread⟩ : ∃ r, unquote 39 (T.name ++ 39 :: 40 :: (lead T ++ N)) = some r := by
      cases hr : unquote 39 (T.name ++ 39 :: 40 :: (lead T ++ N)) with
      | none => simp [hr] at hname
      | some r => exact ⟨r, rfl⟩
    rw [hread] at hname
    cases hname
    obtain ⟨x, hx, hlength⟩ := unquote_spelled hread
    dsimp only at hsame
    -- the quotes in the name make the token longer than what was printed
    have hcount := List.count_pos_iff.mpr (quote_mem_of_same hsame hquote)
    have hsuffix : rest <:+ lead T ++ N := by
      have hall : lead T ++ N <:+ T.name ++ 39 :: 40 :: (lead T ++ N) :=
        ⟨T.name ++ [39, 40], by simp⟩
      refine List.suffix_of_suffix_length_le ⟨x, hx.symm⟩ hall ?_
      have hlen := congrArg List.length hx
      simp only [List.length_append, List.length_cons, hlength, same_length hsame] at hlen ⊢
      omega
    have hlead : 40 ∉ lead T := by
      rw [lead]
      split <;> decide
    exact .inr (beyond_of_mark hlead hsuffix hopen)
  · refine .inl ⟨hquote, ?_⟩
    rw [name, next_string hquote (by simp)] at hname
    cases hname
    rw [mark_eq (by decide)] at hopen
    exact (Option.some.inj hopen).symm

/-! ### The columns -/

theorem resolve_eq_column {n c : Text} (h : T.resolve n = some (.column c)) :
    n.length = c.length := by
  rw [Table.resolve] at h
  cases hfind : T.columns.find? (same n) with
  | none =>
    rw [hfind] at h
    dsimp only at h
    split_ifs at h
    cases h
  | some d =>
    rw [hfind] at h
    cases h
    exact same_length (List.find?_some hfind)

theorem lengths_of_resolve {vs : List Text}
    (h : vs.map T.resolve = (T.columns.map Place.column).map some) :
    List.Forall₂ (fun v w : Text => v.length = w.length) vs T.columns := by
  rw [← List.forall₂_eq_eq_eq, List.map_map, List.forall₂_map_left_iff,
    List.forall₂_map_right_iff] at h
  exact h.imp fun v c hv => resolve_eq_column hv

/-- After the name `rowid` of a table with rowids, the other names are those of the columns. -/
theorem columns_upto {vs : List Text} {z rest M : Text}
    (hz : (39 ∉ T.name ∧ z = lead T ++ (joined T.columns ++ M)) ∨
      Beyond (joined T.columns ++ M) z)
    (hread : items name z = some (vs, rest)) (hplaces : vs.map T.resolve = T.places.map some) :
    ∃ n z' vs', itemsWithin name n z' = some (vs', rest) ∧
      List.Forall₂ (fun v w : Text => v.length = w.length) vs' T.columns ∧
      ((39 ∉ T.name ∧ At (joined T.columns ++ M) z' ∧
          (T.withoutRowid = false → T.resolve (text "rowid") = some .rowid)) ∨
        Beyond (joined T.columns ++ M) z') := by
  cases hw : T.withoutRowid with
  | true =>
    rw [Table.places, hw, if_pos rfl, List.nil_append] at hplaces
    rw [lead, hw, if_pos rfl, List.nil_append] at hz
    refine ⟨_, z, vs, hread, lengths_of_resolve hplaces, hz.imp_left fun h => ?_⟩
    exact ⟨h.1, .inl h.2, Bool.noConfusion⟩
  | false =>
    rw [Table.places, hw, if_neg (by decide), List.singleton_append, List.map_cons] at hplaces
    rw [lead, hw, if_neg (by decide)] at hz
    obtain ⟨v, vs, rfl, hv, hplaces⟩ := List.map_eq_cons_iff.mp hplaces
    have hlengths := lengths_of_resolve hplaces
    obtain ⟨v', vs', rfl⟩ : ∃ v' vs', vs = v' :: vs' := by
      refine List.exists_cons_of_ne_nil ?_
      rintro rfl
      exact T.columns_ne_nil (List.forall₂_nil_left_iff.mp hlengths)
    rw [items] at hread
    cases hn : z.length with
    | zero =>
      rw [hn] at hread
      cases hread
    | succ n =>
      rw [hn] at hread
      simp only [itemsWithin, Option.bind_eq_bind, Option.bind_eq_some_iff] at hread
      obtain ⟨⟨a, z'⟩, ha, hread⟩ := hread
      cases hmark : mark [44] z' with
      | none =>
        simp [hmark] at hread
      | some z'' =>
        simp only [hmark, Option.bind_eq_some_iff, Option.some.injEq, Prod.mk.injEq,
          List.cons.injEq] at hread
        obtain ⟨⟨as, z₃⟩, has, ⟨rfl, rfl⟩, rfl⟩ := hread
        refine ⟨n, z'', _, has, hlengths, hz.imp ?_ fun h => ?_⟩
        · rintro ⟨hquote, rfl⟩
          have hrowid : name (text "rowid, " ++ (joined T.columns ++ M)) =
              some (text "rowid", 44 :: 32 :: (joined T.columns ++ M)) := by
            have h := (name_word (c := 44) rowid_isWord rfl (by decide)
              (32 :: (joined T.columns ++ M))).1
            rwa [rowid_unreserved.1] at h
          rw [hrowid] at ha
          cases ha
          rw [mark_eq (by decide)] at hmark
          cases hmark
          exact ⟨hquote, .inr rfl, fun _ => hv⟩
        · exact (h.suffix (name_suffix ha)).suffix (mark_suffix hmark)

/-! ### The statement for a cell -/

theorem readValues_eq_some {z : Text} {target : Target} {values : List ℕ}
    (h : readValues z = some (target, values)) :
    (∃ rest, readTarget z = some (target, rest) ∧ keyword (text "VALUES") rest ≠ none) ∧
      ∀ n ∈ values, 1 ≤ n ∧ n ≤ maxVariableNumber := by
  simp only [readValues, Option.bind_eq_bind, Option.bind_eq_some_iff] at h
  obtain ⟨⟨target', z₁⟩, htarget, z₂, hvalues, z₃, -, ⟨parameters, z₄⟩, -, z₅, -, values', -, h⟩ :=
    h
  split_ifs at h with hend
  cases h
  exact ⟨⟨z₁, htarget, by simp [hvalues]⟩, hend.2.1⟩

/-- The only closing parenthesis after the list of columns is the last byte. -/
theorem no_parenthesis (count : ℕ) :
    41 ∉ 32 :: (text "VALUES" ++ 40 :: parametersText count) := by
  have hjoined : ∀ ws : List Text, (∀ w ∈ ws, 41 ∉ w) → 41 ∉ joined ws := by
    intro ws
    fun_induction joined ws with
    | case1 => simp
    | case2 w => simp
    | case3 w v ws ih =>
      intro h
      rw [List.forall_mem_cons] at h
      have hrest := ih h.2
      simp [h.1, hrest]
  have hparameters : 41 ∉ parametersText count := by
    refine hjoined _ fun w hw => ?_
    obtain ⟨n, -, rfl⟩ := List.mem_map.mp hw
    intro hmem
    rcases List.mem_cons.mp hmem with h | h
    · cases h
    · cases isDigit_of_mem_decimal h
  simpa [show text "VALUES" = [86, 65, 76, 85, 69, 83] from rfl] using hparameters

/-- From the statement for a cell: no quote is in the name of the table, the columns are words, and
the name of the rowid is not hidden. -/
theorem words_of_assembled (h : T.Assembled) :
    39 ∉ T.name ∧ (∀ c ∈ T.columns, isWord c = true ∧ isReserved c = false) ∧
      (T.withoutRowid = false → T.resolve (text "rowid") = some .rowid) := by
  obtain ⟨target, hread, -, haddress⟩ := h false false
  obtain ⟨⟨rest, htarget, hvalues⟩, -⟩ := readValues_eq_some hread
  rw [describle_lazyPrepareCell, readTarget_insertText, joined_printedNames,
    List.append_assoc] at htarget
  simp only [Option.bind_eq_bind, Option.bind_eq_some_iff] at htarget
  obtain ⟨⟨table, z₁⟩, hname, z₂, hopen, ⟨columns, z₃⟩, hitems, z₄, hclose, h⟩ := htarget
  cases h
  obtain ⟨n, z, vs, hwithin, hlengths, hz⟩ :=
    columns_upto (table_upto hname haddress.table hopen) hitems haddress.columns
  rcases names_upto rfl (hz.imp_left fun h => h.2.1) hwithin hlengths with
    ⟨hat, hwords, -⟩ | hbeyond
  · rcases hz with ⟨hquote, -, hrowid⟩ | hz
    · exact ⟨hquote, hwords, hrowid⟩
    · exact absurd hat hz.not_at
  · have hsplit : 32 :: (text "VALUES" ++ 40 :: (parametersText T.places.length ++ [41])) =
        32 :: (text "VALUES" ++ 40 :: parametersText T.places.length) ++ [41] := by simp
    rw [hsplit] at hbeyond
    have hend := (beyond_of_mark (no_parenthesis _) hbeyond.1 hclose).2
    have hnil : rest = [] := List.eq_nil_of_length_eq_zero (by simpa using hend)
    rw [hnil] at hvalues
    exact absurd rfl hvalues

theorem count_of_assembled (h : T.Assembled) : T.places.length ≤ maxVariableNumber := by
  obtain ⟨target, hread, -, -⟩ := h false false
  have hpos : 0 < T.places.length := by
    rw [← T.length_printedNames, List.length_pos_iff]
    exact T.printedNames_ne_nil
  exact ((readValues_eq_some hread).2 _ (mem_numbers.mpr ⟨hpos, le_rfl⟩)).2

/-- A table is copied by statements that address it just if its names are plain. -/
theorem copied_iff (T : Table) : T.Copied ↔ T.Plain := by
  refine ⟨fun h => ?_, fun h => ⟨assembled_of_plain h, vacuumed_of_plain h⟩⟩
  obtain ⟨hname, hwords, hrowid⟩ := words_of_assembled h.1
  refine ⟨hname, hwords, fun hw c hc => ?_, count_of_assembled h.1⟩
  obtain ⟨target, batch, hcopy, -⟩ := (h.2 hw).copy
  have hnames : ∀ w ∈ text "rowid" :: T.columns, isWord w = true ∧ isReserved w = false :=
    List.forall_mem_cons.mpr ⟨⟨rowid_isWord, rowid_unreserved.1⟩, hwords⟩
  rw [readCopy_words T hname hnames, Option.bind_eq_some_iff] at hcopy
  obtain ⟨columns, hcolumns, -⟩ := hcopy
  have hoperands := (operands_read_iff.mp hcolumns).1
  exact ⟨(hoperands c (List.mem_cons_of_mem _ hc)).2,
    (Table.resolve_rowid_iff.mp (hrowid hw)).2 c hc⟩

/-- A table with a column that is called like a keyword. -/
def keywordColumn : Table where
  name := text "t"
  columns := [text "id", text "order"]
  name_nul := by decide
  columns_nul := by decide
  columns_ne_nil := by decide
  distinct := by decide

/-- A table with a column that hides the rowid. -/
def rowidColumn : Table where
  name := text "t"
  columns := [text "rowid", text "v"]
  name_nul := by decide
  columns_nul := by decide
  columns_ne_nil := by decide
  distinct := by decide

/-- The text for a cell of the first table is no statement. That of the second one gives the rowid
to the column `rowid`. -/
theorem not_all_copied : ¬keywordColumn.Copied ∧ ¬rowidColumn.Copied := by
  constructor
  · rintro ⟨h, -⟩
    obtain ⟨target, hread, -⟩ := h false false
    have hnone : readValues (keywordColumn.lazyPrepareCell false false).describle = none := by
      decide +kernel
    rw [hnone] at hread
    cases hread
  · rintro ⟨h, -⟩
    obtain ⟨target, hread, -, haddress⟩ := h false false
    have hsome : readValues (rowidColumn.lazyPrepareCell false false).describle =
        some (⟨none, text "t", [text "rowid", text "rowid", text "v"]⟩, [1, 2, 3]) := by
      decide +kernel
    rw [hsome] at hread
    cases hread
    have hplaces := haddress.columns
    revert hplaces
    decide +kernel

end Wcdb.CopyStatements
