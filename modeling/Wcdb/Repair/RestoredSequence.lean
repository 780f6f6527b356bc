import Wcdb.Repair.PageWriter
import Wcdb.Repair.RetrieverRun

/-!
# The counters of AUTOINCREMENT tables after a repair

`assembleSequence` stores the value it is given, and the sources are of different age. The counter
of a table is at least every value that was assembled for it, and at least every rowid that was
inserted, in every repair in which **no call lowers it**. A deposited database that is older than
the current one does.
-/

namespace Wcdb.Repair

open Sql

variable {ρ κ : Type}

namespace Contents

/-- The counter of a name stays, or is raised. -/
def Raised (name : Name) (c c' : Contents ρ) : Prop :=
  ∀ counter ∈ c.sequence name, ∃ counter' ∈ c'.sequence name, counter ≤ counter'

instance (name : Name) (c c' : Contents ρ) : Decidable (Raised name c c') :=
  inferInstanceAs (Decidable (∀ counter ∈ c.sequence name, ∃ counter' ∈ c'.sequence name, _))

variable {name : Name} {c c' c'' : Contents ρ}

theorem Raised.refl : Raised name c c := fun counter h => ⟨counter, h, le_refl _⟩

theorem Raised.trans (h : Raised name c c') (h' : Raised name c' c'') : Raised name c c'' := by
  intro counter hcounter
  obtain ⟨counter', hcounter', hle⟩ := h counter hcounter
  obtain ⟨counter'', hcounter'', hle'⟩ := h' counter' hcounter'
  exact ⟨counter'', hcounter'', hle.trans hle'⟩

theorem raised_setSequence {other : Name} {value : ℤ}
    (h : name = other → ∀ counter, c.sequence name = some counter → counter ≤ value) :
    Raised name c (c.setSequence other value) := by
  intro counter hcounter
  by_cases hname : name = other
  · exact ⟨value, by simp [setSequence, hname], h hname counter hcounter⟩
  · exact ⟨counter, by simpa [setSequence, hname] using hcounter, le_refl _⟩

theorem raised_raiseSequence (schema : TableSchema ρ κ) (rowid : ℤ) :
    Raised name c (c.raiseSequence schema rowid) := by
  unfold raiseSequence
  split_ifs
  · refine raised_setSequence fun hname counter hcounter => ?_
    rw [← hname, hcounter]
    exact le_max_left _ _
  · exact Raised.refl

theorem raiseSequence_ge (schema : TableSchema ρ κ) (h : schema.autoincrement = true) (rowid : ℤ) :
    ∃ counter, (c.raiseSequence schema rowid).sequence schema.name = some counter ∧
      rowid ≤ counter := by
  refine ⟨max ((c.sequence schema.name).getD 0) rowid, ?_, le_max_right _ _⟩
  simp only [raiseSequence, h, if_true, setSequence]

end Contents

namespace Ledger

section

variable [DecidableEq κ] (m : Meaning ρ κ)

/-- A call that does not lower the counter of a name: a sequence that is assembled for it is not
below the counter, and no trigger that an INSERT sets off lowers it. -/
def Raises (name : Name) (l : Ledger ρ κ) (act : Act) : Prop :=
  match act.call with
  | .assembleSequence other value =>
    act.fault = none → value ≠ 0 → name = other →
      ∀ counter ∈ l.assembler.db.contents.sequence name, counter ≤ value
  | .assembleCell _ cell => act.fault = none →
    ∀ contents ∈ l.fires m cell, Contents.Raised name contents (l.fired m cell contents)
  | _ => True

instance (name : Name) (l : Ledger ρ κ) (act : Act) : Decidable (Raises m name l act) := by
  obtain ⟨call, fault⟩ := act
  cases call <;> unfold Raises <;> infer_instance

end

/-- The counter of a name is at least what was assembled and inserted. -/
structure Counted (name : Name) (l : Ledger ρ κ) : Prop where
  values : ∀ value, (name, value) ∈ l.sequences →
    ∃ counter, l.assembler.db.contents.sequence name = some counter ∧ value ≤ counter
  rowids : ∀ table rowid schema, (table, rowid) ∈ l.inserted →
    l.assembler.db.schema table = some schema → schema.autoincrement = true → schema.name = name →
    ∃ counter, l.assembler.db.contents.sequence name = some counter ∧ rowid ≤ counter

/-- The invariant of a repair: rows are inserted into tables that are there. -/
structure CountedInv (name : Name) (l : Ledger ρ κ) : Prop where
  counted : l.Counted name
  known : ∀ entry ∈ l.inserted, (l.assembler.db.schema entry.1).isSome

variable {name : Name} {l l' : Ledger ρ κ}

theorem counted_start : CountedInv name (Ledger.start : Ledger ρ κ) :=
  ⟨⟨fun _ h => absurd h List.not_mem_nil, fun _ _ _ h => absurd h List.not_mem_nil⟩,
    fun _ h => absurd h List.not_mem_nil⟩

/-- The books stay as they are while the counter is raised. -/
theorem CountedInv.mono (h : CountedInv name l) (hinserted : l'.inserted = l.inserted)
    (hsequences : l'.sequences = l.sequences)
    (hschema : ∀ table schema, l.assembler.db.schema table = some schema →
      ∃ schema', l'.assembler.db.schema table = some schema' ∧ schema'.name = schema.name ∧
        schema'.autoincrement = schema.autoincrement)
    (hraised : Contents.Raised name l.assembler.db.contents l'.assembler.db.contents) :
    CountedInv name l' := by
  have hstill : ∀ value, (∃ counter, l.assembler.db.contents.sequence name = some counter ∧
      value ≤ counter) → ∃ counter, l'.assembler.db.contents.sequence name = some counter ∧
      value ≤ counter := by
    rintro value ⟨counter, hcounter, hle⟩
    obtain ⟨counter', hcounter', hle'⟩ := hraised counter hcounter
    exact ⟨counter', hcounter', hle.trans hle'⟩
  refine ⟨⟨fun value hvalue => ?_, fun table rowid schema' hentry hnew hauto hname => ?_⟩,
    fun entry hentry => ?_⟩
  · exact hstill value (h.counted.values value (hsequences ▸ hvalue))
  · rw [hinserted] at hentry
    obtain ⟨schema, hold⟩ := Option.isSome_iff_exists.mp (h.known _ hentry)
    obtain ⟨found, hfound, hsame, hsame'⟩ := hschema table schema hold
    obtain rfl : found = schema' := Option.some.inj (hfound.symm.trans hnew)
    exact hstill rowid (h.counted.rowids table rowid schema hentry hold (hsame' ▸ hauto)
      (hsame ▸ hname))
  · rw [hinserted] at hentry
    obtain ⟨schema, hold⟩ := Option.isSome_iff_exists.mp (h.known _ hentry)
    obtain ⟨found, hfound, -⟩ := hschema entry.1 schema hold
    exact Option.isSome_iff_exists.mpr ⟨found, hfound⟩

variable [DecidableEq κ] {m : Meaning ρ κ}

/-- An INSERT raises the counter of its table to the rowid. -/
theorem raised_of_stores {cell : Cell} {contents : Contents ρ} {outcome : Outcome}
    (h : l.stores m cell = some (contents, outcome)) :
    Contents.Raised name l.assembler.db.contents contents ∧
      ∃ schema, l.assembler.db.schema (fold l.assembler.table) = some schema ∧
        (schema.autoincrement = true →
          ∃ counter, contents.sequence schema.name = some counter ∧ cell.rowid ≤ counter) := by
  obtain ⟨schema, rows, hschema, -, -, rfl⟩ := stores_cases h
  have hraised :
    Contents.Raised name (l.assembler.db.contents.setRows (fold l.assembler.table) rows) _ :=
    Contents.raised_raiseSequence schema cell.rowid
  exact ⟨fun counter hcounter => hraised counter hcounter, schema, hschema,
    fun hauto => Contents.raiseSequence_ge schema hauto _⟩

/-- A step of the run. -/
theorem CountedInv.perform (h : CountedInv name l) {act : Act} (hok : Raises m name l act) :
    CountedInv name (l.perform m act).2 := by
  have hsame : ∀ table schema, l.assembler.db.schema table = some schema →
      ∃ schema', l.assembler.db.schema table = some schema' ∧ schema'.name = schema.name ∧
        schema'.autoincrement = schema.autoincrement := fun _ schema hs => ⟨schema, hs, rfl, rfl⟩
  obtain hquiet | ⟨other, value, rfl, hvalue, hl'⟩ | ⟨version, cell, hcall, hcell⟩ :=
    perform_cases m l act
  · refine h.mono hquiet.inserted hquiet.sequences hquiet.schema ?_
    intro counter hcounter
    exact ⟨counter, hquiet.sequence ▸ hcounter, le_refl _⟩
  · rw [hl']
    have hraised : Contents.Raised name l.assembler.db.contents
        (l.assembler.db.contents.setSequence other value) :=
      Contents.raised_setSequence (hok rfl hvalue)
    have hkept : CountedInv name { l with assembler := l.assembler.assembleSequence other value } :=
      h.mono rfl rfl hsame hraised
    refine ⟨⟨fun v hv => ?_, hkept.counted.rowids⟩, hkept.known⟩
    obtain hnew | hold := List.mem_cons.mp hv
    · obtain ⟨rfl, rfl⟩ := Prod.mk.inj hnew
      exact ⟨v, by simp [Assembler.assembleSequence, Contents.setSequence], le_refl _⟩
    · exact hkept.counted.values v hold
  · simp only [Raises, hcall] at hok
    obtain hrefused | huntracked | ⟨contents, outcome, hstored⟩ := hcell
    · refine h.mono hrefused.inserted hrefused.sequences ?_ ?_
      · rwa [hrefused.db]
      · rw [hrefused.db]
        exact Contents.Raised.refl
    · refine h.mono huntracked.inserted huntracked.sequences ?_ ?_
      · rwa [huntracked.schema]
      · rw [huntracked.contents]
        exact hok huntracked.fault _ huntracked.fires
    · obtain ⟨hstore, schema, hschema, hcounter⟩ := raised_of_stores hstored.stores
      have hfired : Contents.Raised name contents (l.perform m act).2.assembler.db.contents := by
        rw [hstored.contents]
        split_ifs with houtcome
        · exact hok hstored.fault _ (hstored.fires houtcome)
        · exact Contents.Raised.refl
      have hkept : CountedInv name { (l.perform m act).2 with inserted := l.inserted } :=
        h.mono rfl hstored.sequences (by rwa [hstored.schema]) (hstore.trans hfired)
      have hnew : ∀ entry ∈ (l.perform m act).2.inserted,
          entry = (fold l.assembler.table, cell.rowid) ∨ entry ∈ l.inserted := by
        intro entry hentry
        rw [hstored.inserted] at hentry
        split_ifs at hentry
        · exact List.mem_cons.mp hentry
        · exact .inr hentry
      refine ⟨⟨hkept.counted.values, fun table rowid schema' hentry hschema' hauto hname => ?_⟩,
        fun entry hentry => ?_⟩
      · obtain heq | hold := hnew _ hentry
        · obtain ⟨rfl, rfl⟩ := Prod.mk.inj heq
          rw [hstored.schema, hschema] at hschema'
          obtain rfl := Option.some.inj hschema'
          obtain ⟨counter, hcounter, hle⟩ := hcounter hauto
          obtain ⟨counter', hcounter', hle'⟩ := hfired counter (hname ▸ hcounter)
          exact ⟨counter', hcounter', hle.trans hle'⟩
        · exact hkept.counted.rowids table rowid schema' hold hschema' hauto hname
      · obtain rfl | hold := hnew _ hentry
        · rw [hstored.schema, hschema]
          rfl
        · exact hkept.known entry hold

end Ledger

namespace FactoryRetriever

variable [DecidableEq κ] {m : Meaning ρ κ} {filter : Name → Bool}

/-- In every repair in which no call lowers the counter of a name, the counter is in the end at
least every value that was assembled for the name and every rowid that was inserted into its
table. -/
theorem counted_of_raises {current : Source} {deposited : List Source}
    {faults : List (Option Severity)} {t : Retrieval ρ κ}
    (h : work m filter current deposited faults = some t) (name : Name)
    (hraises : Run.Meets (Ledger.step m) (Ledger.Raises m name) Ledger.start t.log) :
    t.ledger.Counted name := by
  have hstep : ∀ (l : Ledger ρ κ) act l', l.CountedInv name → Ledger.Raises m name l act →
      Ledger.step m l act = some l' → l'.CountedInv name := by
    intro l act l' hinv hok hl'
    rw [← Option.some.inj hl']
    exact hinv.perform hok
  exact (Run.inv_exec hstep Ledger.counted_start hraises (replays_work h)).counted

/-- A table with AUTOINCREMENT. -/
def sqlOfCounted : Name := ascii "CREATE TABLE t(i INTEGER PRIMARY KEY AUTOINCREMENT)"

def countedMeaning : Meaning Unit Unit where
  parse := fun sql =>
    if sql = sqlOfCounted then
      .table { name := ascii "t", constraints := ⟨fun _ => true, []⟩, autoincrement := true }
    else .other
  decode := fun _ => ()

/-- A database with that table, which has no rows, and its counter. -/
def countedDatabase (seq : UInt8) : Source where
  fullCrawler := .opened <| .ofPages [
    leafPage 100 [
      (1, [.inl (ascii "table"), .inl (ascii "t"), .inl (ascii "t"), .inr 2, .inl sqlOfCounted]),
      (2, [.inl (ascii "table"), .inl (ascii "sqlite_sequence"), .inl (ascii "sqlite_sequence"),
        .inr 3, .inl (ascii "CREATE TABLE sqlite_sequence(name,seq)")])],
    leafPage 0 [],
    leafPage 0 [(1, [.inl (ascii "t"), .inr seq])]] (by simp)

/-- A deposited database with a larger value does no harm. -/
theorem counted_of_newer_deposited :
    ∃ t, work countedMeaning (fun _ => true) (countedDatabase 5) [countedDatabase 10] [] = some t ∧
      (ascii "t", 10) ∈ t.ledger.sequences ∧ t.ledger.Counted (ascii "t") := by
  have hrun : (work countedMeaning (fun _ => true) (countedDatabase 5) [countedDatabase 10] []).any
      (fun t => decide (Run.Meets (Ledger.step countedMeaning)
        (Ledger.Raises countedMeaning (ascii "t")) Ledger.start t.log ∧
          (ascii "t", 10) ∈ t.ledger.sequences)) = true := by decide +kernel
  obtain ⟨t, ht, hmeets⟩ := (Option.any_eq_true _ _).mp hrun
  obtain ⟨hraises, hvalue⟩ := of_decide_eq_true hmeets
  exact ⟨t, ht, hvalue, counted_of_raises ht _ hraises⟩

/-- A deposited database with a smaller value lowers the counter. -/
theorem not_counted_of_older_deposited :
    ∃ t, work countedMeaning (fun _ => true) (countedDatabase 10) [countedDatabase 5] [] = some t ∧
      (t.ledger.assembler.db.schema (ascii "t")).any TableSchema.autoincrement = true ∧
      (ascii "t", 10) ∈ t.ledger.sequences ∧
      t.ledger.assembler.db.contents.sequence (ascii "t") = some 5 ∧
      ¬t.ledger.Counted (ascii "t") := by
  have hrun : (work countedMeaning (fun _ => true) (countedDatabase 10) [countedDatabase 5] []).any
      (fun t => decide
        ((t.ledger.assembler.db.schema (ascii "t")).any TableSchema.autoincrement = true ∧
          (ascii "t", 10) ∈ t.ledger.sequences ∧
          t.ledger.assembler.db.contents.sequence (ascii "t") = some 5)) = true := by decide +kernel
  obtain ⟨t, ht, hresult⟩ := (Option.any_eq_true _ _).mp hrun
  obtain ⟨hauto, hvalue, hcounter⟩ := of_decide_eq_true hresult
  refine ⟨t, ht, hauto, hvalue, hcounter, fun hcounted => ?_⟩
  obtain ⟨counter, hcounter', hle⟩ := hcounted.values 10 hvalue
  rw [hcounter] at hcounter'
  rw [← Option.some.inj hcounter'] at hle
  exact absurd hle (by decide)

end FactoryRetriever

end Wcdb.Repair
