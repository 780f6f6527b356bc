import Wcdb.Repair.Retriever

/-!
# A repair is a run of the assembler

The crawlers, the repairmen and the retriever act on the assembler through `Retrieval.call` only,
which logs every call. So the log of a repair, performed call by call from an empty database,
**replays** it: this is `replays_work`. What a call may do to the ledger, which `perform_cases` says
once, then decides what a repair may do.
-/

namespace Wcdb.Repair

open Sql

variable {ρ κ : Type} [DecidableEq κ] (m : Meaning ρ κ)

/-- The books of a repair that begins. -/
def Ledger.start : Ledger ρ κ := { assembler := { db := Restored.empty } }

/-- The log leads from an empty database to the ledger. -/
def Retrieval.Replays (s : Retrieval ρ κ) : Prop :=
  Run.exec (Ledger.step m) Ledger.start s.log = some s.ledger

namespace Retrieval

variable {m} {s : Retrieval ρ κ}

theorem Replays.call (h : s.Replays m) (c : Call) : (s.call m c).2.Replays m := by
  simp only [Replays, Retrieval.call, Run.exec_append] at h ⊢
  rw [h]
  rfl

theorem Replays.upgrade (h : s.Replays m) (result : Result) : (s.upgrade result).Replays m := by
  cases result with
  | done | constraint => exact h
  | failed severity => exact h

theorem Replays.repairmanCall (h : s.Replays m) (c : Call) : (s.repairmanCall m c).2.Replays m :=
  (h.call c).upgrade _

theorem Replays.criticalCall (h : s.Replays m) (c : Call) : (s.criticalCall m c).2.Replays m := by
  have hcall := h.call c
  unfold Retrieval.criticalCall
  split
  split_ifs
  · simpa [*] using hcall
  · simpa [*, Replays] using hcall

theorem Replays.assembleAssociatedSQLs (h : s.Replays m) (sqls : List Name) :
    (s.assembleAssociatedSQLs m sqls).Replays m := by
  induction sqls generalizing s with
  | nil => exact h
  | cons sql sqls ih => exact ih (h.call _)

theorem Replays.markAsAssembled (h : s.Replays m) : (s.markAsAssembled m).Replays m := by
  unfold Retrieval.markAsAssembled
  split_ifs
  · exact h
  · exact h.criticalCall _

theorem Replays.begin (h : s.Replays m) : s.begin.Replays m := h

end Retrieval

open Retrieval

variable {m} {s : Retrieval ρ κ} {current : Bool} {p : Pager}

namespace Mechanic

theorem keeps_crawler (current : Bool) (checksum : UInt32) (withoutRowId : Bool) :
    (crawler m current checksum withoutRowId).Keeps (Replays m) where
  isSuspended := fun _ h => h
  canCrawlPage := fun _ _ h => h
  willCrawlPage := fun page _ s h => by
    simp only [crawler]
    split_ifs <;> exact h
  onCellCrawled := fun _ cell s h => by
    simp only [crawler]
    split
    · exact h
    · exact h.repairmanCall _
  onCrawlerError := fun _ _ _ h => h

theorem replays_crawlVerified (pages : List Material.Page) (h : s.Replays m) :
    (crawlVerified m current p pages s).Replays m := by
  induction pages generalizing s with
  | nil => exact h
  | cons page pages ih =>
    have hpage := Crawl.keeps_crawled (keeps_crawler current page.hash false) p
      (int32 page.number.toNat) h
    simp only [crawlVerified]
    split_ifs
    · exact hpage
    · exact ih hpage

theorem replays_assembleContent (name : Name) (content : Material.Content) (h : s.Replays m) :
    (assembleContent m current p name content s).Replays m := by
  have htable := h.repairmanCall (.assembleTable name content.sql)
  have hsequence := htable.repairmanCall (.assembleSequence name content.sequence.toInt)
  simp only [assembleContent]
  split_ifs
  · exact htable
  · exact hsequence
  · exact (replays_crawlVerified _ hsequence).assembleAssociatedSQLs _
  · exact (Crawl.keeps_crawled
      (keeps_crawler current 0 true) p _ hsequence).assembleAssociatedSQLs _
  · exact hsequence.assembleAssociatedSQLs _

theorem replays_assembleContents (contents : List (Name × Material.Content)) (h : s.Replays m) :
    (assembleContents m current p contents s).Replays m := by
  induction contents generalizing s with
  | nil => exact h
  | cons element contents ih =>
    simp only [assembleContents]
    split_ifs
    · exact h
    · exact ih (replays_assembleContent _ _ h)

theorem replays_work (opening : Opening) (material : Material) (h : s.Replays m) :
    (work m current opening material s).2.Replays m := by
  cases opening with
  | empty | corrupted | failed => exact h
  | opened p =>
    have hassembling := h.begin.criticalCall .markAsAssembling
    simp only [work]
    split_ifs
    · exact (replays_assembleContents _ hassembling).markAsAssembled
    · exact hassembling

end Mechanic

namespace FullCrawler

variable {filter : Name → Bool} {containPageInWal : ℤ → Bool}

theorem keeps_crawler : (crawler m current containPageInWal).Keeps (Replays m) where
  isSuspended := fun _ h => h
  canCrawlPage := fun _ _ h => h
  willCrawlPage := fun page _ s h => by
    simp only [crawler]
    split_ifs
    · exact h
    · exact h.call _
  onCellCrawled := fun _ cell s h => by
    simp only [crawler]
    split_ifs
    · exact h
    · exact h.repairmanCall _
  onCrawlerError := fun _ _ _ h => h

theorem keeps_sequenceCrawler : (sequenceCrawler (sequenceDelegate m)).Keeps (Replays m) where
  isSuspended := fun _ h => h
  canCrawlPage := fun _ _ h => h
  willCrawlPage := fun _ _ _ h => h
  onCellCrawled := fun _ cell s h => by
    simp only [sequenceCrawler, sequenceDelegate]
    split
    · split_ifs
      · exact h
      · exact h.repairmanCall _
    · exact h
  onCrawlerError := fun _ _ _ h => h

theorem replays_onMasterCellCrawled (master : MasterItem) (h : s.Replays m) :
    (onMasterCellCrawled m filter current p containPageInWal master s).Replays m := by
  have htable := h.repairmanCall (.assembleTable master.name master.sql)
  simp only [onMasterCellCrawled]
  split_ifs
  · exact h
  · exact Crawl.keeps_crawled keeps_sequenceCrawler p _ h
  · exact h
  · exact Crawl.keeps_crawled keeps_crawler p _ htable
  · exact htable
  · exact h
  · exact h

theorem keeps_masterCrawler :
    (masterCrawler (masterDelegate m filter current p containPageInWal)).Keeps (Replays m) where
  isSuspended := fun _ h => h
  canCrawlPage := fun _ _ h => h
  willCrawlPage := fun _ _ _ h => h
  onCellCrawled := fun _ cell s h => by
    simp only [masterCrawler, masterDelegate]
    split
    · exact replays_onMasterCellCrawled _ h
    · exact h
  onCrawlerError := fun _ _ _ h => h

theorem replays_assembleAllAssociatedSQLs (h : s.Replays m) :
    (assembleAllAssociatedSQLs m s).Replays m := by
  unfold assembleAllAssociatedSQLs
  generalize s.associatedSQLs = elements
  induction elements generalizing s with
  | nil => exact h
  | cons element elements ih => exact ih (h.assembleAssociatedSQLs _)

theorem replays_work (opening : Opening) (h : s.Replays m) :
    (work m filter current containPageInWal opening s).2.Replays m := by
  cases opening with
  | empty | corrupted | failed => exact h
  | opened p =>
    have hcount : (countPages p s.begin).Replays m := by
      unfold countPages
      split_ifs <;> exact h
    have hassembling := hcount.criticalCall .markAsAssembling
    have hkeeps : (masterCrawler (masterDelegate m filter current p containPageInWal)).Keeps
      (Replays m) := keeps_masterCrawler
    have hmaster := Crawl.keeps_crawled hkeeps p 1 hassembling
    simp only [work]
    split_ifs
    · exact hmaster.markAsAssembled
    · exact (replays_assembleAllAssociatedSQLs hmaster).markAsAssembled
    · exact hassembling

end FullCrawler

namespace FactoryRetriever

variable {filter : Name → Bool}

theorem replays_restoreAll (source : Source) (useMaterial : Bool) (h : s.Replays m) :
    (restoreAll m filter current source useMaterial s).2.Replays m :=
  FullCrawler.replays_work source.fullCrawler (h.call _)

theorem replays_restore (source : Source) (h : s.Replays m) :
    (restore m filter current source s).2.Replays m := by
  cases hmaterial : source.material with
  | nothing =>
    rw [restore, hmaterial]
    exact replays_restoreAll source false h
  | failed =>
    rw [restore, hmaterial]
    exact h
  | usable material =>
    have hpass : (restoreMaterial m current source material s).2.Replays m :=
      Mechanic.replays_work source.mechanic material (h.call _)
    simp only [restore, hmaterial]
    split_ifs
    · exact replays_restoreAll source true hpass
    · exact hpass

theorem replays_restoreDeposited (deposited : List Source) {t : Retrieval ρ κ} (h : s.Replays m)
    (hrun : restoreDeposited m filter deposited s = some t) : t.Replays m := by
  induction deposited generalizing s with
  | nil => exact Option.some.inj hrun ▸ h
  | cons source deposited ih =>
    simp only [restoreDeposited] at hrun
    split_ifs at hrun
    exact ih (replays_restore source h) hrun

/-- The log of a repair replays it. -/
theorem replays_work {source : Source} {deposited : List Source} {faults : List (Option Severity)}
    {t : Retrieval ρ κ} (h : work m filter source deposited faults = some t) : t.Replays m := by
  simp only [work] at h
  split_ifs at h
  refine replays_restoreDeposited deposited (replays_restore source ?_) h
  rfl

end FactoryRetriever

/-! ### What a call can do -/

namespace Ledger

variable {l l' : Ledger ρ κ}

/-- A call that changes no row and no sequence. New tables and new unique indexes may be there. -/
structure Quiet (l l' : Ledger ρ κ) : Prop where
  readings : l'.readings = l.readings
  assembled : l'.assembled = l.assembled
  inserted : l'.inserted = l.inserted
  sequences : l'.sequences = l.sequences
  sequence : l'.assembler.db.contents.sequence = l.assembler.db.contents.sequence
  schema : ∀ table schema, l.assembler.db.schema table = some schema →
    ∃ schema', l'.assembler.db.schema table = some schema' ∧ schema'.name = schema.name ∧
      schema'.autoincrement = schema.autoincrement
  rows : ∀ table, (l.assembler.db.schema table).isSome →
    l'.assembler.db.contents.rows table = l.assembler.db.contents.rows table

omit [DecidableEq κ] in
theorem quiet_of_db (h : l'.assembler.db = l.assembler.db) (hreadings : l'.readings = l.readings)
    (hassembled : l'.assembled = l.assembled) (hinserted : l'.inserted = l.inserted)
    (hsequences : l'.sequences = l.sequences) : Quiet l l' :=
  ⟨hreadings, hassembled, hinserted, hsequences, by rw [h],
    fun _ schema hschema => ⟨schema, h ▸ hschema, rfl, rfl⟩, fun _ _ => by rw [h]⟩

theorem quiet_execute (definition : Definition ρ κ) (a : Assembler ρ κ)
    (ha : a.db = l.assembler.db.execute definition) : Quiet l { l with assembler := a } := by
  have hsame : a.db = l.assembler.db → Quiet l { l with assembler := a } :=
    fun h => quiet_of_db h rfl rfl rfl rfl
  cases definition with
  | trigger trigger =>
    refine ⟨rfl, rfl, rfl, rfl, ?_, fun table schema hschema => ?_, fun table _ => ?_⟩
    · simp only [ha, Restored.execute]
    · exact ⟨schema, by simpa only [ha, Restored.execute] using hschema, rfl, rfl⟩
    · simp only [ha, Restored.execute]
  | other => exact hsame ha
  | table created =>
    simp only [Restored.execute] at ha
    split at ha
    next hnone =>
      have hother : ∀ table, (l.assembler.db.schema table).isSome → table ≠ fold created.name := by
        rintro table hsome rfl
        simp [hnone] at hsome
      refine ⟨rfl, rfl, rfl, rfl, ?_, fun table schema hschema => ?_, fun table hsome => ?_⟩
      · simp only [ha, Contents.setRows]
      · have hne := hother table (by simp [hschema])
        exact ⟨schema, by simpa [ha, Restored.setSchema, hne] using hschema, rfl, rfl⟩
      · simp only [ha, Contents.setRows, if_neg (hother table hsome)]
    next => exact hsame ha
  | uniqueIndex name index =>
    simp only [Restored.execute] at ha
    split at ha
    next => exact hsame ha
    next found hfound =>
      split_ifs at ha
      · refine ⟨rfl, rfl, rfl, rfl, ?_, fun table schema hschema => ?_, fun table _ => ?_⟩
        · simp only [ha, Restored.setSchema]
        · by_cases htable : table = fold name
          · rw [htable, hfound] at hschema
            cases hschema
            have hnew := (congrFun (congrArg Restored.schema ha) table).trans (if_pos htable)
            exact ⟨_, hnew, rfl, rfl⟩
          · exact ⟨schema, by simpa [ha, Restored.setSchema, htable] using hschema, rfl, rfl⟩
        · simp only [ha, Restored.setSchema]
      · exact hsame ha

/-- What the triggers are run on, when the INSERT for a cell sets them off. -/
def fires (m : Meaning ρ κ) (l : Ledger ρ κ) (cell : Cell) : Option (Contents ρ) := do
  let schema ← l.assembler.db.schema (fold l.assembler.table)
  let (contents, outcome) ←
    l.assembler.db.store l.assembler.mode.onConflict (fold l.assembler.table) schema (rowOf m cell)
  if outcome = .inserted then some contents else none

/-- What the triggers make of it. -/
def fired (m : Meaning ρ κ) (l : Ledger ρ κ) (cell : Cell) (contents : Contents ρ) : Contents ρ :=
  l.assembler.db.fire (fold l.assembler.table) (rowOf m cell) contents

/-- A cell that is not assembled: a call that fails, a row that violates a constraint, or a table
that is not there. -/
structure Refused (m : Meaning ρ κ) (version : Option Version) (cell : Cell) (act : Act)
    (l l' : Ledger ρ κ) : Prop where
  reason : act.fault ≠ none ∨ l.stores m cell = none
  db : l'.assembler.db = l.assembler.db
  readings : l'.readings = (l.read m version cell).readings
  assembled : l'.assembled = l.assembled
  inserted : l'.inserted = l.inserted
  sequences : l'.sequences = l.sequences

/-- A cell of a table without rowids. -/
structure Untracked (m : Meaning ρ κ) (cell : Cell) (act : Act) (l l' : Ledger ρ κ) : Prop where
  fault : act.fault = none
  rowidTable : l.rowidTable = none
  fires : l.fires m cell = some l.assembler.db.contents
  schema : l'.assembler.db.schema = l.assembler.db.schema
  contents : l'.assembler.db.contents = l.fired m cell l.assembler.db.contents
  readings : l'.readings = l.readings
  assembled : l'.assembled = l.assembled
  inserted : l'.inserted = l.inserted
  sequences : l'.sequences = l.sequences

/-- A cell that is assembled. -/
structure Stored (m : Meaning ρ κ) (version : Option Version) (cell : Cell) (act : Act)
    (contents : Contents ρ) (outcome : Outcome) (l l' : Ledger ρ κ) : Prop where
  fault : act.fault = none
  stores : l.stores m cell = some (contents, outcome)
  fires : outcome = .inserted → l.fires m cell = some contents
  schema : l'.assembler.db.schema = l.assembler.db.schema
  contents : l'.assembler.db.contents =
    if outcome = .inserted then l.fired m cell contents else contents
  readings : l'.readings = (l.read m version cell).readings
  assembled : l'.assembled =
    if version.isSome then (fold l.assembler.table, cell.rowid) :: l.assembled else l.assembled
  inserted : l'.inserted =
    if outcome = .inserted then (fold l.assembler.table, cell.rowid) :: l.inserted else l.inserted
  sequences : l'.sequences = l.sequences

section Read

omit [DecidableEq κ]

variable (m) (version : Option Version) (cell : Cell)

@[simp] theorem read_assembler : (l.read m version cell).assembler = l.assembler := by
  unfold read
  split <;> rfl

@[simp] theorem read_assembled : (l.read m version cell).assembled = l.assembled := by
  unfold read
  split <;> rfl

@[simp] theorem read_inserted : (l.read m version cell).inserted = l.inserted := by
  unfold read
  split <;> rfl

@[simp] theorem read_sequences : (l.read m version cell).sequences = l.sequences := by
  unfold read
  split <;> rfl

end Read

theorem stores_read (version : Option Version) (cell : Cell) :
    (l.read m version cell).stores m cell = l.stores m cell := by
  rw [stores, stores, rowidTable, rowidTable, read_assembler]

theorem stores_cases {cell : Cell} {contents : Contents ρ} {outcome : Outcome}
    (h : l.stores m cell = some (contents, outcome)) :
    ∃ schema rows, l.assembler.db.schema (fold l.assembler.table) = some schema ∧
      l.rowidTable = some schema ∧
      schema.constraints.insertRow l.assembler.mode.onConflict
        (l.assembler.db.contents.rows (fold l.assembler.table)) (rowOf m cell) =
          some (rows, outcome) ∧
      contents = (l.assembler.db.contents.setRows
        (fold l.assembler.table) rows).raiseSequence schema
        cell.rowid := by
  obtain ⟨schema, htable, hstore⟩ := Option.bind_eq_some_iff.mp h
  obtain ⟨hschema, hrowid⟩ := Option.filter_eq_some_iff.mp htable
  have hrowid : schema.withoutRowid = false := by simpa using hrowid
  simp only [Restored.store, hrowid, Bool.false_eq_true, if_false] at hstore
  split at hstore
  · cases hstore
  next rows outcome' hinsert =>
    cases hstore
    exact ⟨schema, rows, hschema, htable, hinsert, rfl⟩

/-- The call for a cell. -/
theorem perform_assembleCell (l : Ledger ρ κ) (version : Option Version) (cell : Cell)
    (fault : Option Severity) :
    Refused m version cell ⟨.assembleCell version cell, fault⟩ l
        (l.perform m ⟨.assembleCell version cell, fault⟩).2 ∨
      Untracked m cell ⟨.assembleCell version cell, fault⟩ l
        (l.perform m ⟨.assembleCell version cell, fault⟩).2 ∨
      ∃ contents outcome,
        Stored m version cell ⟨.assembleCell version cell, fault⟩ contents outcome l
        (l.perform m ⟨.assembleCell version cell, fault⟩).2 := by
  cases fault with
  | some severity => exact .inl ⟨.inl (by simp), by simp [perform], rfl, by simp [perform],
      by simp [perform], by simp [perform]⟩
  | none =>
    have hstores := stores_read version cell (l := l) (m := m)
    cases hschema : l.assembler.db.schema (fold l.assembler.table) with
    | none =>
      have hnone : l.stores m cell = none := by simp [stores, rowidTable, hschema]
      refine .inl ⟨.inr hnone, ?_, ?_, ?_, ?_, ?_⟩ <;>
        simp [perform, Assembler.assembleCell, hschema, enter, hstores, hnone]
    | some schema =>
      cases hrowid : schema.withoutRowid with
      | true =>
        have htable : l.rowidTable = none := by simp [rowidTable, hschema, hrowid]
        have hnone : l.stores m cell = none := by simp [stores, htable]
        refine .inr (.inl ⟨rfl, htable, by simp [fires, hschema, Restored.store, hrowid],
          ?_, ?_, ?_, ?_,
          ?_, ?_⟩) <;>
          simp [perform, Assembler.assembleCell, hschema, enter, hnone, Restored.store,
            hrowid, read,
            htable, Restored.settle, fired]
      | false =>
        have htable : l.rowidTable = some schema := by simp [rowidTable, hschema, hrowid]
        have hstore : l.stores m cell = l.assembler.db.store l.assembler.mode.onConflict
            (fold l.assembler.table) schema (rowOf m cell) := by simp [stores, htable]
        cases hdone : l.stores m cell with
        | none =>
          rw [hdone] at hstore
          refine .inl ⟨.inr hdone, ?_, ?_, ?_, ?_, ?_⟩ <;>
            simp [perform, Assembler.assembleCell, hschema, enter, hstores, hdone, ← hstore]
        | some result =>
          obtain ⟨contents, outcome⟩ := result
          rw [hdone] at hstore
          refine .inr (.inr ⟨contents, outcome, rfl, hdone,
            fun h => by simp [fires, hschema, ← hstore, h], ?_, ?_, ?_, ?_, ?_, ?_⟩) <;>
            simp [perform, Assembler.assembleCell, hschema, enter, hstores, hdone, ← hstore,
              Restored.settle, fired]

/-- What a call can do. -/
theorem perform_cases (m : Meaning ρ κ) (l : Ledger ρ κ) (act : Act) :
    Quiet l (l.perform m act).2 ∨
      (∃ name value, act = ⟨.assembleSequence name value, none⟩ ∧ value ≠ 0 ∧
        (l.perform m act).2 = { l with
          assembler := l.assembler.assembleSequence name value
          sequences := (name, value) :: l.sequences }) ∨
      ∃ version cell, act.call = .assembleCell version cell ∧
        (Refused m version cell act l (l.perform m act).2 ∨
          Untracked m cell act l (l.perform m act).2 ∨
          ∃ contents outcome,
            Stored m version cell act contents outcome l (l.perform m act).2) := by
  obtain ⟨call, fault⟩ := act
  cases call with
  | markAsAssembling | markAsAssembled =>
    cases fault <;> exact .inl (quiet_of_db rfl rfl rfl rfl rfl)
  | markDuplicatedAsIgnorable _ | markDuplicatedAsReplaceable _ =>
    exact .inl (quiet_of_db rfl rfl rfl rfl rfl)
  | assembleTable tableName sql =>
    cases fault with
    | none => exact .inl (quiet_execute (m.parse sql) _ rfl)
    | some severity => exact .inl (quiet_of_db rfl rfl rfl rfl rfl)
  | assembleSQL sql =>
    cases fault with
    | none => exact .inl (quiet_execute (m.parse sql) _ rfl)
    | some severity => exact .inl (quiet_of_db rfl rfl rfl rfl rfl)
  | assembleSequence name value =>
    by_cases hvalue : value = 0
    · refine .inl ?_
      simp only [perform, if_pos hvalue]
      exact quiet_of_db rfl rfl rfl rfl rfl
    · cases fault with
      | none => exact .inr (.inl ⟨name, value, rfl, hvalue, by simp only [perform, if_neg hvalue]⟩)
      | some severity =>
        refine .inl ?_
        simp only [perform, if_neg hvalue]
        exact quiet_of_db rfl rfl rfl rfl rfl
  | assembleCell version cell =>
    exact .inr (.inr ⟨version, cell, rfl, perform_assembleCell l version cell fault⟩)

end Ledger

end Wcdb.Repair
