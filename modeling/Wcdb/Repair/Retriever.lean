import Wcdb.Lib.Run
import Wcdb.Repair.Assembler
import Wcdb.Repair.CrawlKeeps
import Wcdb.Repair.Material

/-!
# The retriever

`FactoryRetriever::work` restores the current database, and then the deposited ones, each by
`Mechanic` when it has a usable material, and by `FullCrawler`. All of them write through one
assembler.

* `Call` is a call of the assembler, and `Ledger.perform` what it does. A call may fail at any time,
  as a `Severity` that comes with it says. Next to the assembler, the ledger **keeps the books**:
  the rows read from the current database, and the rows and sequence values that were assembled.
  Nothing in the code depends on these.
* `Retrieval` is the state of a repair. Its calls are logged, so that a repair is a run of the
  assembler: `Replays` says that the log leads from one ledger to another.

The progress and the score are left out, and a page that cannot be read is a corrupted one.
-/

namespace Wcdb.Repair

open Sql

variable {ρ κ : Type}

/-! ### The calls of the assembler -/

/-- Where a row of the current database was read, by its age: on a page of the main file whose hash
is in the material, in the main file as the b-tree leads there, and in the log. -/
inductive Version where
  | verified
  | main
  | wal
  deriving DecidableEq, Repr

def Version.rank : Version → ℕ
  | verified => 0
  | main => 1
  | wal => 2

/-- A call of the assembler. A cell of the current database comes with its version, one of a
deposited database with none. -/
inductive Call where
  | markAsAssembling
  | markAsAssembled
  | markDuplicatedAsIgnorable (ignorable : Bool)
  | markDuplicatedAsReplaceable (replaceable : Bool)
  | assembleTable (tableName sql : Name)
  | assembleSQL (sql : Name)
  | assembleCell (version : Option Version) (cell : Cell)
  | assembleSequence (tableName : Name) (sequence : ℤ)
  deriving DecidableEq, Repr

/-- A call, and the error that SQLite will report, if any. -/
structure Act where
  call : Call
  fault : Option Severity
  deriving DecidableEq, Repr

/-- A row that was read from the current database. -/
structure Reading (ρ : Type) where
  table : Name
  version : Version
  row : ℤ × ρ
  deriving DecidableEq

/-- The assembler with its books. `assembled` has the tables and rowids of the current database that
`assembleCell` reported as done, `inserted` those of all databases that were inserted, and
`sequences` the values other than 0 that `assembleSequence` reported as done. -/
structure Ledger (ρ κ : Type) where
  assembler : Assembler ρ κ
  readings : List (Reading ρ) := []
  assembled : List (Name × ℤ) := []
  inserted : List (Name × ℤ) := []
  sequences : List (Name × ℤ) := []

/-- What the text of a statement means to SQLite, and which row the INSERT makes of a cell. -/
structure Meaning (ρ κ : Type) where
  parse : Name → Definition ρ κ
  decode : Cell → ρ

namespace Ledger

variable [DecidableEq κ] (m : Meaning ρ κ) (l : Ledger ρ κ)

/-- The table at work, when it has rowids. -/
def rowidTable : Option (TableSchema ρ κ) :=
  (l.assembler.db.schema (fold l.assembler.table)).filter fun schema => !schema.withoutRowid

/-- The row that a cell stands for. -/
def rowOf (cell : Cell) : ℤ × ρ := (cell.rowid, m.decode cell)

/-- What the INSERT for a cell does to the contents, before the triggers run. -/
def stores (cell : Cell) : Option (Contents ρ × Outcome) :=
  l.rowidTable.bind fun schema =>
    l.assembler.db.store l.assembler.mode.onConflict (fold l.assembler.table) schema (rowOf m cell)

/-- A cell is read: it is entered into the books when its table has rowids. -/
def read (version : Option Version) (cell : Cell) : Ledger ρ κ :=
  match l.rowidTable, version with
  | some _, some version =>
    { l with readings := ⟨fold l.assembler.table, version, rowOf m cell⟩ :: l.readings }
  | _, _ => l

/-- A cell is assembled. -/
def enter (version : Option Version) (cell : Cell) : Ledger ρ κ :=
  let entry := (fold l.assembler.table, cell.rowid)
  match l.stores m cell with
  | none => l
  | some (_, outcome) =>
    { l with
      assembled := if version.isSome then entry :: l.assembled else l.assembled
      inserted := if outcome = .inserted then entry :: l.inserted else l.inserted }

/-- The effect of a call, and what it reports. -/
def perform (act : Act) : Result × Ledger ρ κ :=
  let a := l.assembler
  match act.call, act.fault with
  | .markAsAssembling, none => (.done, l)
  | .markAsAssembled, none => (.done, { l with assembler := a.markAsAssembled })
  | .markDuplicatedAsIgnorable ignorable, _ =>
    (.done, { l with assembler := a.markDuplicatedAsIgnorable ignorable })
  | .markDuplicatedAsReplaceable replaceable, _ =>
    (.done, { l with assembler := a.markDuplicatedAsReplaceable replaceable })
  | .assembleTable tableName sql, none =>
    (.done, { l with assembler := a.assembleTable m.parse tableName sql })
  | .assembleTable _ _,
      some severity => (.failed severity, { l with assembler := a.markAsAssembled })
  | .assembleSQL sql, none => (.done, { l with assembler := a.assembleSQL m.parse sql })
  | .assembleCell version cell, none =>
    let (result, assembler) := a.assembleCell (rowOf m cell)
    (result, { (l.read m version cell).enter m version cell with assembler := assembler })
  | .assembleCell version cell, some severity => (.failed severity, l.read m version cell)
  | .assembleSequence tableName sequence, fault =>
    if sequence = 0 then (.done, l)
    else
      match fault with
      | none =>
        (.done, { l with
          assembler := a.assembleSequence tableName sequence
          sequences := (tableName, sequence) :: l.sequences })
      | some severity => (.failed severity, l)
  | _, some severity => (.failed severity, l)

/-- A call as a step of a run. -/
def step (l : Ledger ρ κ) (act : Act) : Option (Ledger ρ κ) := some (l.perform m act).2

end Ledger

/-! ### The state of a repair -/

/-- The state of a repair. `severity` and the three fields after it belong to the repairman at work,
`worst` to the retriever, and `faults` are the errors that SQLite has in store. -/
structure Retrieval (ρ κ : Type) where
  ledger : Ledger ρ κ
  log : List Act := []
  faults : List (Option Severity)
  severity : Severity := .none
  pagerFailed : Bool := false
  sequenceSuspended : Bool := false
  associatedSQLs : List (Name × List Name) := []
  worst : Severity := .none

namespace Retrieval

variable [DecidableEq κ] (m : Meaning ρ κ) (s : Retrieval ρ κ)

def isErrorCritical : Bool := s.severity = .critical

def call (call : Call) : Result × Retrieval ρ κ :=
  let act := ⟨call, s.faults.headD none⟩
  let (result, ledger) := s.ledger.perform m act
  (result, { s with ledger := ledger, log := s.log ++ [act], faults := s.faults.tail })

/-- `tryUpgrateAssembleError`. -/
def upgrade (result : Result) : Retrieval ρ κ :=
  match result with
  | .failed severity => { s with severity := s.severity.upgrade severity }
  | _ => s

/-- A call of the assembler by a `Repairman`, which takes note of its error. -/
def repairmanCall (call : Call) : Bool × Retrieval ρ κ :=
  let (result, s) := s.call m call
  (result = .done, s.upgrade result)

/-- A call whose error is critical, whatever it is. -/
def criticalCall (call : Call) : Bool × Retrieval ρ κ :=
  let (result, s) := s.call m call
  if result = .done then (true, s) else (false, { s with severity := .critical })

/-- `Repairman::assembleAssociatedSQLs`. -/
def assembleAssociatedSQLs (sqls : List Name) : Retrieval ρ κ :=
  sqls.foldl (fun s sql => (s.call m (.assembleSQL sql)).2) s

/-- `Repairman::markAsAssembled`. -/
def markAsAssembled : Retrieval ρ κ :=
  if s.isErrorCritical then s else (s.criticalCall m .markAsAssembled).2

/-- `Repairman::onCrawlerError`. The error of a corruption is a notice. -/
def onCrawlerError : Retrieval ρ κ := { s with pagerFailed := true }

/-- A repairman begins. -/
def begin : Retrieval ρ κ :=
  { s with
    severity := .none
    pagerFailed := false
    sequenceSuspended := false
    associatedSQLs := [] }

end Retrieval

/-! ### The databases -/

/-- What a repairman finds when it opens a database. -/
inductive Opening where
  | empty
  | failed
  | corrupted
  | opened (pager : Pager)

/-- What the retriever finds of the materials of a database: none that is usable, an error, or the
first that can be read. -/
inductive MaterialFound where
  | nothing
  | failed
  | usable (material : Material)

/-- A database to be restored: its material, the pages `Mechanic` sees, who disposes of the log, and
the pages `FullCrawler` sees, with those that come from the log. -/
structure Source where
  material : MaterialFound := .nothing
  mechanic : Opening := .empty
  fullCrawler : Opening
  containPageInWal : ℤ → Bool := fun _ => false

/-! ### Mechanic -/

namespace Mechanic

variable [DecidableEq κ] (m : Meaning ρ κ) (current : Bool) (p : Pager)

/-- The callbacks of `Mechanic`. -/
def crawler (checksum : UInt32) (withoutRowId : Bool) : Crawler (Retrieval ρ κ) where
  isSuspended := fun s => (s.isErrorCritical, s)
  canCrawlPage := fun _ s => (true, s)
  willCrawlPage := fun page _ s =>
    if s.isErrorCritical then (false, s)
    else if page.type = .leafTable ∧ withoutRowId = false then
      if Material.crc32 page.data ≠ checksum then (false, s.onCrawlerError) else (true, s)
    else if page.type.isIndexPage && withoutRowId then (true, s)
    else (false, s.onCrawlerError)
  onCellCrawled := fun _ cell s =>
    if s.isErrorCritical then s
    else (s.repairmanCall m (.assembleCell (if current then some .verified else none) cell)).2
  onCrawlerError := fun _ _ s => s.onCrawlerError

/-- The loop over the verified pages of a table. -/
def crawlVerified : List Material.Page → Retrieval ρ κ → Retrieval ρ κ
  | [], s => s
  | page :: rest, s =>
    let s := Crawl.crawled (crawler m current page.hash false) p (int32 page.number.toNat) s
    if s.pagerFailed ∧ s.isErrorCritical then s else crawlVerified rest s

/-- A table of the material. -/
def assembleContent (name : Name) (content : Material.Content) (s : Retrieval ρ κ) :
    Retrieval ρ κ :=
  let (succeed, s) := s.repairmanCall m (.assembleTable name content.sql)
  if !succeed then s
  else
    let (succeed, s) := s.repairmanCall m (.assembleSequence name content.sequence.toInt)
    if !succeed then s
    else
      let s :=
        if !s.ledger.assembler.withoutRowid then crawlVerified m current p content.verifiedPagenos s
        else if 1 < content.rootPage then
          Crawl.crawled (crawler m current 0 true) p (int32 content.rootPage.toNat) s
        else s
      s.assembleAssociatedSQLs m content.associatedSQLs

/-- The loop over the tables of the material. -/
def assembleContents : List (Name × Material.Content) → Retrieval ρ κ → Retrieval ρ κ
  | [], s => s
  | (name, content) :: rest, s =>
    if s.isErrorCritical then s
    else assembleContents rest (assembleContent m current p name content s)

/-- `contentsMap`, with what it points to. -/
def contents (material : Material) : List (Name × Material.Content) :=
  material.contentsMap.filterMap fun (name, i) =>
    (material.contentsList[i]?).map fun content => (name, content)

/-- `Mechanic::work`. -/
def work (opening : Opening) (material : Material) (s : Retrieval ρ κ) : Bool × Retrieval ρ κ :=
  match opening with
  | .empty | .corrupted => (true, s.begin)
  | .failed => (false, { s.begin with severity := .critical })
  | .opened p =>
    let (succeed, s) := s.begin.criticalCall m .markAsAssembling
    let s :=
      if succeed then (assembleContents m current p (contents material) s).markAsAssembled m else s
    (!s.isErrorCritical, s)

end Mechanic

/-! ### FullCrawler -/

namespace FullCrawler

variable [DecidableEq κ] (m : Meaning ρ κ) (filter : Name → Bool) (current : Bool) (p : Pager)
  (containPageInWal : ℤ → Bool)

/-- The version of a cell that is read from a page. -/
def versionOf (pageno : ℤ) : Option Version :=
  if current then some (if containPageInWal pageno then .wal else .main) else none

/-- The callbacks of `FullCrawler`. -/
def crawler : Crawler (Retrieval ρ κ) where
  isSuspended := fun s => (s.isErrorCritical, s)
  canCrawlPage := fun _ s => (true, s)
  willCrawlPage := fun page _ s =>
    if s.isErrorCritical then (false, s)
    else (true, (s.call m (.markDuplicatedAsReplaceable (containPageInWal page.number))).2)
  onCellCrawled := fun pageno cell s =>
    if s.isErrorCritical then s
    else (s.repairmanCall m (.assembleCell (versionOf current containPageInWal pageno) cell)).2
  onCrawlerError := fun _ _ s => s.onCrawlerError

def sequenceDelegate : SequenceCrawlerDelegate (Retrieval ρ κ) where
  isSuspended := fun s => s.isErrorCritical || s.sequenceSuspended
  suspend := fun s => { s with sequenceSuspended := true }
  onSequencePageCrawled := fun _ s => s
  onSequenceCellCrawled := fun _ item s =>
    if s.isErrorCritical then s
    else (s.repairmanCall m (.assembleSequence item.name item.seq)).2
  onSequenceCrawlerError := fun _ _ s => s.onCrawlerError

/-- `m_associatedSQLs[tableName].push_back(sql)`, in a map ordered by the bytes of the name. -/
def pushBack (tableName sql : Name) : List (Name × List Name) → List (Name × List Name)
  | [] => [(tableName, [sql])]
  | (name, sqls) :: rest =>
    if name = tableName then (name, sqls ++ [sql]) :: rest
    else if tableName < name then (tableName, [sql]) :: (name, sqls) :: rest
    else (name, sqls) :: pushBack tableName sql rest

/-- `FullCrawler::onMasterCellCrawled`. -/
def onMasterCellCrawled (master : MasterItem) (s : Retrieval ρ κ) : Retrieval ρ κ :=
  if s.isErrorCritical then s
  else if master.name = ascii "sqlite_sequence" then
    Crawl.crawled (sequenceCrawler (sequenceDelegate m)) p master.rootpage s
  else if !filter master.tableName || MasterItem.isReservedTableName master.name ||
      MasterItem.isReservedTableName master.tableName then s
  else if caseInsensitiveEqual master.type (ascii "table") then
    let (succeed, s) := s.repairmanCall m (.assembleTable master.name master.sql)
    if succeed then Crawl.crawled (crawler m current containPageInWal) p master.rootpage s else s
  else if master.sql ≠ [] then
    { s with associatedSQLs := pushBack master.tableName master.sql s.associatedSQLs }
  else s

def masterDelegate : MasterCrawlerDelegate (Retrieval ρ κ) where
  isSuspended := fun s => s.isErrorCritical
  onMasterPageCrawled := fun _ s => s
  onMasterCellCrawled := fun _ => onMasterCellCrawled m filter current p containPageInWal
  onMasterCrawlerError := fun _ _ s => s.onCrawlerError

/-- The look at the type of every page, for the score. -/
def countPages (s : Retrieval ρ κ) : Retrieval ρ κ :=
  if (List.range p.numberOfPages.toNat).any fun i => (p.acquirePageData (i + 1)).isNone then
    s.onCrawlerError
  else s

/-- The associated statements of all tables. -/
def assembleAllAssociatedSQLs (s : Retrieval ρ κ) : Retrieval ρ κ :=
  s.associatedSQLs.foldl (fun s element => s.assembleAssociatedSQLs m element.2) s

/-- `FullCrawler::work`. -/
def work (opening : Opening) (s : Retrieval ρ κ) : Bool × Retrieval ρ κ :=
  match opening with
  | .empty | .corrupted => (true, s.begin)
  | .failed => (false, { s.begin with severity := .critical })
  | .opened p =>
    let (succeed, s) := (countPages p s.begin).criticalCall m .markAsAssembling
    let s :=
      if succeed then
        let s := Crawl.crawled
          (masterCrawler (masterDelegate m filter current p containPageInWal)) p 1 s
        let s := if s.pagerFailed || s.isErrorCritical then s else assembleAllAssociatedSQLs m s
        s.markAsAssembled m
      else s
    (!s.isErrorCritical, s)

end FullCrawler

/-! ### FactoryRetriever -/

namespace FactoryRetriever

variable [DecidableEq κ] (m : Meaning ρ κ) (filter : Name → Bool)

/-- The pass of `FactoryRetriever::restore` with the material. -/
def restoreMaterial (current : Bool) (source : Source) (material : Material) (s : Retrieval ρ κ) :
    Bool × Retrieval ρ κ :=
  let (_, s) := s.call m (.markDuplicatedAsIgnorable false)
  let (result, s) := Mechanic.work m current source.mechanic material s
  (result, { s with worst := s.worst.upgrade s.severity })

/-- The pass of `FactoryRetriever::restore` over the whole database. With a material its failure is
tolerated. -/
def restoreAll (current : Bool) (source : Source) (useMaterial : Bool) (s : Retrieval ρ κ) :
    Bool × Retrieval ρ κ :=
  let (_, s) := s.call m (.markDuplicatedAsIgnorable useMaterial)
  let (result, s) :=
    FullCrawler.work m filter current source.containPageInWal source.fullCrawler s
  (result || useMaterial, { s with worst := s.worst.upgrade s.severity })

/-- `FactoryRetriever::restore`. -/
def restore (current : Bool) (source : Source) (s : Retrieval ρ κ) : Bool × Retrieval ρ κ :=
  match source.material with
  | .nothing => restoreAll m filter current source false s
  | .failed => (false, { s with worst := .critical })
  | .usable material =>
    let (result, s) := restoreMaterial m current source material s
    if result then restoreAll m filter current source true s else (false, s)

/-- The loop over the deposited databases. -/
def restoreDeposited : List Source → Retrieval ρ κ → Option (Retrieval ρ κ)
  | [], s => some s
  | source :: rest, s =>
    let (result, s) := restore m filter false source s
    if result then restoreDeposited rest s else none

/-- `FactoryRetriever::work`, up to the point where the restored database is complete; `none` when
it gives up before. -/
def work (current : Source) (deposited : List Source) (faults : List (Option Severity)) :
    Option (Retrieval ρ κ) :=
  let (result, s) := restore m filter true current
    { ledger := { assembler := { db := Restored.empty } }, faults := faults }
  if !result ∨ s.worst ≠ .none then none else restoreDeposited m filter deposited s

end FactoryRetriever

end Wcdb.Repair
