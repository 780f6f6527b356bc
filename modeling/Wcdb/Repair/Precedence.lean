import Wcdb.Repair.PageWriter
import Wcdb.Repair.RetrieverRun

/-!
# Which version of a row a repair keeps

A row of the current database may be read several times: from a verified page of the main file, and
from the b-tree, there from the main file or from the log. The restored database is to hold the
**newest** of these versions, whatever rows the deposited databases have. It does in every repair
whose calls are all *harmless*: none of them displaces a row of the current database by a row of
another one, none leaves out a version for one that is older.

A call that is not harmless is an `INSERT OR REPLACE` for a page that lies in the log of a deposited
database.
-/

namespace Wcdb.Repair

open Sql

variable {ρ κ : Type}

/-- Rows of the books that were there stay. -/
def Contents.Spares (entries : List (Name × ℤ)) (c c' : Contents ρ) : Prop :=
  ∀ entry ∈ entries, ∀ a ∈ (c.rows entry.1).rows, a.1 = entry.2 → a ∈ (c'.rows entry.1).rows

/-- No version of a row that was read is newer. -/
def NoneNewer (readings : List (Reading ρ)) (table : Name) (version : Version) (rowid : ℤ) : Prop :=
  ∀ other ∈ readings, other.table = table → other.row.1 = rowid → other.version.rank ≤ version.rank

/-- A row is a newest version that was read. -/
def Newest (readings : List (Reading ρ)) (table : Name) (row : ℤ × ρ) : Prop :=
  ∃ reading ∈ readings, reading.table = table ∧ reading.row = row ∧
    NoneNewer readings table reading.version row.1

namespace Ledger

/-- For every row assembled from the current database, a newest version is there. -/
def Precedence (l : Ledger ρ κ) : Prop :=
  ∀ entry ∈ l.assembled, ∃ row ∈ (l.assembler.db.contents.rows entry.1).rows,
    row.1 = entry.2 ∧ Newest l.readings entry.1 row

section Harmless

variable [DecidableEq κ] (m : Meaning ρ κ) (l : Ledger ρ κ) (version : Option Version) (cell : Cell)

/-- The table and the rowid of a cell. -/
def entryOf : Name × ℤ := (fold l.assembler.table, cell.rowid)

/-- The cell is inserted. By an `INSERT OR REPLACE` it displaces no row of the books, unless that
row is the same, or a version of the same row of the current database. No newer version was read.
The triggers change no row of the books. -/
def InsertsHarmlessly (schema : TableSchema ρ κ) (contents : Contents ρ) : Prop :=
  (l.assembler.mode = .replace →
    ∀ a ∈ (l.assembler.db.contents.rows (fold l.assembler.table)).rows,
      (fold l.assembler.table, a.1) ∈ l.assembled →
      schema.constraints.clash (rowOf m cell) a = true →
      a = rowOf m cell ∨ version.isSome = true ∧ a.1 = cell.rowid) ∧
  (∀ v ∈ version, NoneNewer l.readings (fold l.assembler.table) v cell.rowid) ∧
  contents.Spares (if version.isSome then l.entryOf cell :: l.assembled else l.assembled)
    (l.fired m cell contents)

/-- The cell is ignored, or refused. Its row is there already, or a version of the row that is as
new was assembled. -/
def LeftOutHarmlessly (v : Version) : Prop :=
  l.entryOf cell ∈ l.assembled ∧ (∃ other ∈ l.readings, other.table = fold l.assembler.table ∧
      other.row.1 = cell.rowid ∧ v.rank ≤ other.version.rank) ∨
    rowOf m cell ∈ (l.assembler.db.contents.rows (fold l.assembler.table)).rows ∧
      NoneNewer l.readings (fold l.assembler.table) v cell.rowid

/-- A call that leaves the newest versions in place. -/
def Harmless (act : Act) : Prop :=
  match act.call with
  | .assembleCell version cell =>
    match l.rowidTable, if act.fault = none then l.stores m cell else none with
    | none, _ =>
      ∀ contents ∈ l.fires m cell, contents.Spares l.assembled (l.fired m cell contents)
    | some schema, some (contents, .inserted) =>
      l.InsertsHarmlessly m version cell schema contents
    | some _, some _ => ∀ v ∈ version, l.LeftOutHarmlessly m cell v
    | some _, none => ∀ v ∈ version, l.entryOf cell ∈ l.assembled → l.LeftOutHarmlessly m cell v
  | _ => True

variable [DecidableEq ρ]

instance (entries : List (Name × ℤ)) (c c' : Contents ρ) : Decidable (c.Spares entries c') :=
  inferInstanceAs (Decidable (∀ entry ∈ entries, ∀ a ∈ (c.rows entry.1).rows, _))

instance (readings : List (Reading ρ)) (table : Name) (version : Version) (rowid : ℤ) :
    Decidable (NoneNewer readings table version rowid) :=
  inferInstanceAs (Decidable (∀ other ∈ readings, _))

instance (schema : TableSchema ρ κ) (contents : Contents ρ) :
    Decidable (l.InsertsHarmlessly m version cell schema contents) :=
  @instDecidableAnd _ _ inferInstance (@instDecidableAnd _ _ inferInstance inferInstance)

instance (v : Version) : Decidable (l.LeftOutHarmlessly m cell v) :=
  inferInstanceAs (Decidable (_ ∧ _ ∨ _ ∧ _))

instance (act : Act) : Decidable (l.Harmless m act) := by
  unfold Harmless
  split
  · split <;> infer_instance
  · infer_instance

end Harmless

/-- The invariant of a repair: rows are assembled into tables that are there. -/
structure PrecedenceInv (l : Ledger ρ κ) : Prop where
  precedence : l.Precedence
  known : ∀ entry ∈ l.assembled, (l.assembler.db.schema entry.1).isSome

end Ledger

/-! ### One more reading -/

section Reading

variable {readings : List (Reading ρ)} {new : Reading ρ} {table : Name} {row : ℤ × ρ}

theorem noneNewer_cons {version : Version} {rowid : ℤ} :
    NoneNewer (new :: readings) table version rowid ↔
      (new.table = table → new.row.1 = rowid → new.version.rank ≤ version.rank) ∧
        NoneNewer readings table version rowid :=
  List.forall_mem_cons

/-- A reading of another row. -/
theorem Newest.cons_other (h : Newest readings table row)
    (hother : ¬(new.table = table ∧ new.row.1 = row.1)) : Newest (new :: readings) table row := by
  obtain ⟨reading, hmem, htable, hrow, hnewer⟩ := h
  refine ⟨reading, List.mem_cons_of_mem _ hmem, htable, hrow, noneNewer_cons.mpr ⟨?_, hnewer⟩⟩
  exact fun htable hrowid => absurd ⟨htable, hrowid⟩ hother

/-- A reading that is not newer than one before it. -/
theorem Newest.cons_older (h : Newest readings table row) {other : Reading ρ}
    (hmem : other ∈ readings) (htable : other.table = table) (hrowid : other.row.1 = row.1)
    (hle : new.version.rank ≤ other.version.rank) : Newest (new :: readings) table row := by
  obtain ⟨reading, hreading, hsame, hrow, hnewer⟩ := h
  refine ⟨reading, List.mem_cons_of_mem _ hreading, hsame, hrow, noneNewer_cons.mpr ⟨?_, hnewer⟩⟩
  exact fun _ _ => hle.trans (hnewer other hmem htable hrowid)

/-- A reading that none before it is newer than. -/
theorem newest_cons_self (h : NoneNewer readings new.table new.version new.row.1) :
    Newest (new :: readings) new.table new.row :=
  ⟨new, List.mem_cons_self, rfl, rfl, noneNewer_cons.mpr ⟨fun _ _ => le_refl _, h⟩⟩

end Reading

namespace Ledger

variable {l l' : Ledger ρ κ} {m : Meaning ρ κ} {cell : Cell}

/-! ### The invariant -/

theorem precedence_start : PrecedenceInv (Ledger.start : Ledger ρ κ) :=
  ⟨fun _ h => absurd h List.not_mem_nil, fun _ h => absurd h List.not_mem_nil⟩

/-- The books stay as they are, and no row of theirs is lost. -/
theorem PrecedenceInv.frame (h : l.PrecedenceInv) (hreadings : l'.readings = l.readings)
    (hassembled : l'.assembled = l.assembled)
    (hschema : ∀ table, (l.assembler.db.schema table).isSome →
      (l'.assembler.db.schema table).isSome)
    (hspares : l.assembler.db.contents.Spares l.assembled l'.assembler.db.contents) :
    l'.PrecedenceInv := by
  refine ⟨fun entry hentry => ?_, fun entry hentry => ?_⟩
  · rw [hassembled] at hentry
    obtain ⟨row, hrow, hrowid, hnewest⟩ := h.precedence entry hentry
    exact ⟨row, hspares entry hentry row hrow hrowid, hrowid, hreadings ▸ hnewest⟩
  · exact hschema _ (h.known entry (hassembled ▸ hentry))

theorem spares_of_rows {entries : List (Name × ℤ)} {c c' : Contents ρ}
    (h : ∀ entry ∈ entries, c'.rows entry.1 = c.rows entry.1) : c.Spares entries c' :=
  fun entry hentry _ ha _ => h entry hentry ▸ ha

/-- A cell of the current database that is left out. -/
theorem PrecedenceInv.leftOut (h : l.PrecedenceInv) {v : Version}
    (hleft : l.entryOf cell ∈ l'.assembled → l.LeftOutHarmlessly m cell v)
    (hknown : (l.assembler.db.schema (fold l.assembler.table)).isSome)
    (hreadings : l'.readings = ⟨fold l.assembler.table, v, rowOf m cell⟩ :: l.readings)
    (hassembled : ∀ entry ∈ l'.assembled, entry = l.entryOf cell ∨ entry ∈ l.assembled)
    (hschema : l'.assembler.db.schema = l.assembler.db.schema)
    (hrows : l'.assembler.db.contents.rows = l.assembler.db.contents.rows) : l'.PrecedenceInv := by
  refine ⟨fun entry hentry => ?_, fun entry hentry => ?_⟩
  · rw [hreadings, hrows]
    by_cases hself : entry = l.entryOf cell
    · obtain ⟨hold, other, hother, htable, hrowid', hle⟩ | ⟨hrow, hnewer⟩ := hleft (hself ▸ hentry)
      · obtain ⟨row, hrow, hrowid, hnewest⟩ := h.precedence entry (hself ▸ hold)
        subst hself
        exact ⟨row, hrow, hrowid,
          hnewest.cons_older hother htable (hrowid'.trans hrowid.symm) hle⟩
      · subst hself
        exact ⟨rowOf m cell, hrow, rfl, newest_cons_self hnewer⟩
    · obtain ⟨row, hrow, hrowid, hnewest⟩ :=
        h.precedence entry ((hassembled entry hentry).resolve_left hself)
      refine ⟨row, hrow, hrowid, hnewest.cons_other fun hsame => hself ?_⟩
      exact Prod.ext hsame.1.symm (hrowid.symm.trans hsame.2.symm)
  · rw [hschema]
    obtain rfl | hold := hassembled entry hentry
    · exact hknown
    · exact h.known entry hold

theorem rows_raiseSequence (c : Contents ρ) (schema : TableSchema ρ κ) (rowid : ℤ) :
    (c.raiseSequence schema rowid).rows = c.rows := by
  unfold Contents.raiseSequence
  split_ifs <;> rfl

theorem rows_setRows_self (c : Contents ρ) (table : Name) :
    (c.setRows table (c.rows table)).rows = c.rows := by
  funext other
  simp only [Contents.setRows]
  split_ifs with h
  · rw [h]
  · rfl

theorem readings_read {schema : TableSchema ρ κ} (h : l.rowidTable = some schema) (v : Version) :
    (l.read m (some v) cell).readings =
      ⟨fold l.assembler.table, v, rowOf m cell⟩ :: l.readings := by
  simp only [read, h]

theorem read_none : l.read m none cell = l := by
  unfold read
  split
  · contradiction
  · rfl

theorem known_of_rowidTable {schema : TableSchema ρ κ} (h : l.rowidTable = some schema) :
    (l.assembler.db.schema (fold l.assembler.table)).isSome := by
  rw [(Option.filter_eq_some_iff.mp h).1]
  rfl

variable [DecidableEq κ]

/-- A row that is inserted in another mode than `INSERT OR REPLACE` clashes with none. -/
theorem free_of_inserted {schema : TableSchema ρ κ} {t t' : Table ρ} {row : ℤ × ρ}
    {mode : DuplicateMode} (hmode : mode ≠ .replace)
    (h : schema.constraints.insertRow mode.onConflict t row = some (t', .inserted)) :
    ∀ a ∈ t, schema.constraints.clash row a = false := by
  refine free_iff.mp ?_
  cases mode with
  | replace => exact absurd rfl hmode
  | abort =>
    simp only [DuplicateMode.onConflict, Schema.insertRow] at h
    split_ifs at h with hcheck hfree
    exact hfree
  | ignore =>
    rw [DuplicateMode.onConflict, insertRow_ignore] at h
    split_ifs at h with hinsertable
    · exact (insertable_iff.mp hinsertable).2
    · simp at h

theorem plain_onConflict (mode : DuplicateMode) : (mode.onConflict : OnConflict ρ).Plain := by
  cases mode <;> trivial

/-- A row that is ignored changes no row. -/
theorem rows_of_ignored {contents : Contents ρ} (h : l.stores m cell = some (contents, .ignored)) :
    contents.rows = l.assembler.db.contents.rows := by
  obtain ⟨schema, rows, -, -, hinsert, rfl⟩ := stores_cases h
  obtain ⟨-, rfl⟩ | ⟨houtcome, -⟩ := insertRow_cases (plain_onConflict _) hinsert
  · rw [rows_raiseSequence, rows_setRows_self]
  · cases houtcome

theorem outcome_of_stores {contents : Contents ρ} {outcome : Outcome}
    (h : l.stores m cell = some (contents, outcome)) :
    outcome = .inserted ∨ outcome = .ignored := by
  obtain ⟨schema, rows, -, -, hinsert, -⟩ := stores_cases h
  obtain ⟨houtcome, -⟩ | ⟨houtcome, -⟩ := insertRow_cases (plain_onConflict _) hinsert
  · exact .inr houtcome
  · exact .inl houtcome

/-- The rows after an insertion, before the triggers run: the new one, and of the books all that may
not be displaced. -/
theorem rows_of_inserted {contents : Contents ρ} {schema : TableSchema ρ κ}
    (htable : l.rowidTable = some schema) (h : l.stores m cell = some (contents, .inserted)) :
    rowOf m cell ∈ (contents.rows (fold l.assembler.table)).rows ∧
      ∀ name a, a ∈ (l.assembler.db.contents.rows name).rows →
        (name = fold l.assembler.table → l.assembler.mode = .replace →
          schema.constraints.clash (rowOf m cell) a = false) → a ∈ (contents.rows name).rows := by
  obtain ⟨schema', rows, -, htable', hinsert, rfl⟩ := stores_cases h
  obtain rfl : schema = schema' := Option.some.inj (htable.symm.trans htable')
  obtain ⟨houtcome, -⟩ | ⟨-, rfl⟩ := insertRow_cases (plain_onConflict _) hinsert
  · cases houtcome
  · simp only [rows_raiseSequence, Contents.setRows]
    refine ⟨?_, fun name a ha hclash => ?_⟩
    · rw [if_pos trivial]
      exact Table.mem_put.mpr (.inl rfl)
    · split_ifs with hname
      · subst hname
        have hfree : schema.constraints.clash (rowOf m cell) a = false := by
          by_cases hmode : l.assembler.mode = .replace
          · exact hclash rfl hmode
          · exact free_of_inserted hmode hinsert a ha
        refine Table.mem_put.mpr (.inr ⟨Table.mem_filter.mpr ⟨ha, by simp [hfree]⟩, fun hkey => ?_⟩)
        rw [clash_of_key hkey.symm] at hfree
        cases hfree
      · exact ha

/-- A cell that is inserted. -/
theorem PrecedenceInv.inserted (h : l.PrecedenceInv) {version : Option Version} {act : Act}
    {contents : Contents ρ} {schema : TableSchema ρ κ} (htable : l.rowidTable = some schema)
    (hstored : Stored m version cell act contents .inserted l l')
    (hok : l.InsertsHarmlessly m version cell schema contents) : l'.PrecedenceInv := by
  obtain ⟨hdisplaced, hnewer, hspares⟩ := hok
  obtain ⟨hself, hkept⟩ := rows_of_inserted htable hstored.stores
  -- a row of the books stays, unless the cell is a version of the same row
  have hstays : ∀ entry ∈ l.assembled, entry ≠ l.entryOf cell ∨ version = none →
      ∀ a ∈ (l.assembler.db.contents.rows entry.1).rows, a.1 = entry.2 →
        a ∈ (contents.rows entry.1).rows := by
    intro entry hentry hother a ha hrowid
    by_cases hsame : entry.1 = fold l.assembler.table ∧ a = rowOf m cell
    · rw [hsame.1, hsame.2]
      exact hself
    · refine hkept _ a ha fun hname hmode => ?_
      by_contra hclash
      have hrecorded : (fold l.assembler.table, a.1) ∈ l.assembled := by rwa [hrowid, ← hname]
      obtain heq | ⟨hsome, heq⟩ := hdisplaced hmode a (hname ▸ ha) hrecorded (by simpa using hclash)
      · exact hsame ⟨hname, heq⟩
      · refine hother.elim (fun hne => hne (Prod.ext hname (hrowid.symm.trans heq))) fun hnone => ?_
        simp [hnone] at hsome
  have hcontents : l'.assembler.db.contents = l.fired m cell contents := hstored.contents
  have hassembled : l'.assembled =
      if version.isSome then l.entryOf cell :: l.assembled else l.assembled := hstored.assembled
  rw [← hassembled, ← hcontents] at hspares
  cases version with
  | none =>
    refine ⟨fun entry hentry => ?_, fun entry hentry => ?_⟩
    · have hold : entry ∈ l.assembled := by simpa [hassembled] using hentry
      obtain ⟨row, hrow, hrowid, hnewest⟩ := h.precedence entry hold
      refine ⟨row, hspares entry hentry row (hstays entry hold (.inr rfl) row hrow hrowid) hrowid,
        hrowid, ?_⟩
      rwa [hstored.readings, read_none]
    · rw [hstored.schema]
      exact h.known entry (by simpa [hassembled] using hentry)
  | some v =>
    have hcases : ∀ entry ∈ l'.assembled, entry = l.entryOf cell ∨ entry ∈ l.assembled := by
      intro entry hentry
      simpa [hassembled] using hentry
    refine ⟨fun entry hentry => ?_, fun entry hentry => ?_⟩
    · rw [hstored.readings, readings_read htable]
      by_cases hnew : entry = l.entryOf cell
      · have hthere := hspares entry hentry (rowOf m cell) (by rw [hnew]; exact hself)
          (by rw [hnew]; rfl)
        subst hnew
        exact ⟨rowOf m cell, hthere, rfl, newest_cons_self (hnewer v rfl)⟩
      · have hold := (hcases entry hentry).resolve_left hnew
        obtain ⟨row, hrow, hrowid, hnewest⟩ := h.precedence entry hold
        refine ⟨row,
          hspares entry hentry row (hstays entry hold (.inl hnew) row hrow hrowid) hrowid,
          hrowid, hnewest.cons_other fun hsame => hnew ?_⟩
        exact Prod.ext hsame.1.symm (hrowid.symm.trans hsame.2.symm)
    · rw [hstored.schema]
      obtain rfl | hold := hcases entry hentry
      · exact known_of_rowidTable htable
      · exact h.known entry hold

/-- A step of the run. -/
theorem PrecedenceInv.perform (h : l.PrecedenceInv) {act : Act} (hok : l.Harmless m act) :
    (l.perform m act).2.PrecedenceInv := by
  obtain hquiet | ⟨other, value, rfl, hvalue, hl'⟩ | ⟨version, cell, hcall, hcell⟩ :=
    perform_cases m l act
  · refine h.frame hquiet.readings hquiet.assembled (fun table hsome => ?_)
      (spares_of_rows fun entry hentry => hquiet.rows _ (h.known entry hentry))
    obtain ⟨schema, hschema⟩ := Option.isSome_iff_exists.mp hsome
    obtain ⟨schema', hschema', -⟩ := hquiet.schema table schema hschema
    exact Option.isSome_iff_exists.mpr ⟨schema', hschema'⟩
  · rw [hl']
    exact h.frame rfl rfl (fun _ hsome => hsome) (spares_of_rows fun _ _ => rfl)
  · simp only [Harmless, hcall] at hok
    obtain hrefused | huntracked | ⟨contents, outcome, hstored⟩ := hcell
    · have hnothing : (if act.fault = none then l.stores m cell else none) = none := by
        split_ifs with hfault
        · exact hrefused.reason.resolve_left fun hne => hne hfault
        · rfl
      have hrows : l.assembler.db.contents.Spares l.assembled
          (l.perform m act).2.assembler.db.contents := by
        rw [hrefused.db]
        exact spares_of_rows fun _ _ => rfl
      cases htable : l.rowidTable with
      | none =>
        refine h.frame ?_ hrefused.assembled (fun _ hsome => ?_) hrows
        · rw [hrefused.readings]
          simp only [read, htable]
        · rwa [hrefused.db]
      | some schema =>
        simp only [htable, hnothing] at hok
        cases version with
        | none =>
          refine h.frame ?_ hrefused.assembled (fun _ hsome => ?_) hrows
          · rw [hrefused.readings, read_none]
          · rwa [hrefused.db]
        | some v =>
          have hleft : l.entryOf cell ∈ (l.perform m act).2.assembled →
              l.LeftOutHarmlessly m cell v := by
            rw [hrefused.assembled]
            exact hok v rfl
          refine h.leftOut hleft (known_of_rowidTable htable)
            (hrefused.readings.trans (readings_read htable v)) (fun entry hentry => ?_) ?_ ?_
          · exact .inr (hrefused.assembled ▸ hentry)
          · rw [hrefused.db]
          · rw [hrefused.db]
    · simp only [huntracked.rowidTable] at hok
      refine h.frame huntracked.readings huntracked.assembled (fun _ hsome => ?_) ?_
      · rwa [huntracked.schema]
      · rw [huntracked.contents]
        exact hok _ huntracked.fires
    · obtain ⟨schema, -, -, htable, -⟩ := stores_cases hstored.stores
      simp only [htable, hstored.fault, if_true, hstored.stores] at hok
      obtain rfl | rfl := outcome_of_stores hstored.stores
      · exact h.inserted htable hstored hok
      · have hcontents : (l.perform m act).2.assembler.db.contents.rows =
            l.assembler.db.contents.rows := by
          rw [hstored.contents, if_neg (by decide)]
          exact rows_of_ignored hstored.stores
        cases version with
        | none =>
          refine h.frame ?_ hstored.assembled (fun _ hsome => ?_)
            (spares_of_rows fun entry _ => by rw [hcontents])
          · rw [hstored.readings, read_none]
          · rwa [hstored.schema]
        | some v =>
          refine h.leftOut (fun _ => hok v rfl) (known_of_rowidTable htable)
            (hstored.readings.trans (readings_read htable v)) (fun entry hentry => ?_)
            hstored.schema hcontents
          rw [hstored.assembled] at hentry
          exact List.mem_cons.mp hentry

end Ledger

namespace FactoryRetriever

variable [DecidableEq κ] {m : Meaning ρ κ} {filter : Name → Bool}

/-- A table with one column, whose rows are their texts. -/
def textMeaning : Meaning Name Unit where
  parse := fun sql =>
    if sql = ascii "CREATE TABLE t(a)" then
      .table { name := ascii "t", constraints := ⟨fun _ => true, []⟩ }
    else .other
  decode := fun cell => cell.textValue 0

/-- A database with the row 1 of the table, on a page that may come from the log. -/
def textDatabase (text : String) (inWal : Bool) : Source where
  fullCrawler := .opened <| .ofPages [
    leafPage 100 [
      (1, [.inl (ascii "table"), .inl (ascii "t"), .inl (ascii "t"), .inr 2,
        .inl (ascii "CREATE TABLE t(a)")])],
    leafPage 0 [(1, [.inl (ascii text)])]] (by simp)
  containPageInWal := fun n => inWal && n = 2

end FactoryRetriever

end Wcdb.Repair
