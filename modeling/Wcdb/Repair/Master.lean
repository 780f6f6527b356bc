import Wcdb.Repair.Crawlable

/-!
# The master table and the sequence table

`MasterCrawler` crawls `sqlite_master` from page 1 and hands every row to its delegate as a
`MasterItem`, except one whose root page is an integer that is not positive, which it takes for a
corruption. `SequenceCrawler` does the same for `sqlite_sequence`, and suspends itself at its first
error.

Names and texts are the bytes of the file.
-/

namespace Wcdb.Repair

abbrev Name := List UInt8

/-- The bytes of a text of the source, all of whose texts are ASCII. -/
def ascii (text : String) : Name := text.toList.map fun c => UInt8.ofNat c.toNat

/-- `caseInsensitiveEqual`. -/
def caseInsensitiveEqual (a b : Name) : Bool :=
  a.map lower = b.map lower
where
  /-- `tolower` on ASCII. -/
  lower (b : UInt8) : UInt8 := if 65 ≤ b ∧ b ≤ 90 then b + 32 else b

structure MasterItem where
  type : Name := []
  name : Name := []
  tableName : Name := []
  rootpage : ℤ := 0
  sql : Name := []
  deriving DecidableEq, Repr

namespace MasterItem

def isReservedTableName (tableName : Name) : Bool := (ascii "sqlite_").isPrefixOf tableName

/-- A text of a cell, empty when the value is no text. -/
def textAt (cell : Cell) (i : ℕ) : Name :=
  if cell.getValueType i = .text then cell.textValue i else []

/-- The item of a cell; `none` for a root page that is not positive. -/
def ofCell (cell : Cell) : Option MasterItem :=
  let item : MasterItem := {
    type := textAt cell 0
    name := textAt cell 1
    tableName := textAt cell 2
    sql := textAt cell 4 }
  if cell.getValueType 3 = .integer then
    let rootpage := int32 (word (cell.integerValue 3))
    if rootpage ≤ 0 then none else some { item with rootpage := rootpage }
  else some item

end MasterItem

/-- What a crawler of the master table tells its delegate, over the state of the delegate. -/
structure MasterCrawlerDelegate (σ : Type) where
  isSuspended : σ → Bool
  onMasterPageCrawled : Page → σ → σ
  onMasterCellCrawled : Cell → MasterItem → σ → σ
  onMasterCrawlerError : ℤ → CrawlError → σ → σ

def masterCrawler {σ : Type} (delegate : MasterCrawlerDelegate σ) : Crawler σ where
  isSuspended := fun s => (delegate.isSuspended s, s)
  canCrawlPage := fun _ s => (true, s)
  willCrawlPage := fun page _ s => (true, delegate.onMasterPageCrawled page s)
  onCellCrawled := fun pageno cell s =>
    match MasterItem.ofCell cell with
    | some item => delegate.onMasterCellCrawled cell item s
    | none => delegate.onMasterCrawlerError pageno .rootPageNotPositive s
  onCrawlerError := delegate.onMasterCrawlerError

structure SequenceItem where
  name : Name
  seq : ℤ
  deriving DecidableEq, Repr

/-- The item of a cell of the sequence table, or what is wrong with it. -/
def SequenceItem.ofCell (cell : Cell) : Except CrawlError SequenceItem :=
  if cell.getValueType 0 ≠ .text then .error .nameNotText
  else if cell.getValueType 1 ≠ .integer then .error .seqNotInteger
  else if cell.textValue 0 = [] then .error .nameEmpty
  else .ok ⟨cell.textValue 0, cell.integerValue 1⟩

/-- What a crawler of the sequence table tells its delegate. `suspend` is its own doing. -/
structure SequenceCrawlerDelegate (σ : Type) where
  isSuspended : σ → Bool
  suspend : σ → σ
  onSequencePageCrawled : Page → σ → σ
  onSequenceCellCrawled : Cell → SequenceItem → σ → σ
  onSequenceCrawlerError : ℤ → CrawlError → σ → σ

def sequenceCrawler {σ : Type} (delegate : SequenceCrawlerDelegate σ) : Crawler σ where
  isSuspended := fun s => (delegate.isSuspended s, s)
  canCrawlPage := fun _ s => (true, s)
  willCrawlPage := fun page _ s => (true, delegate.onSequencePageCrawled page s)
  onCellCrawled := fun pageno cell s =>
    match SequenceItem.ofCell cell with
    | .ok item => delegate.onSequenceCellCrawled cell item s
    | .error error => delegate.suspend (delegate.onSequenceCrawlerError pageno error s)
  onCrawlerError := fun pageno error s =>
    delegate.suspend (delegate.onSequenceCrawlerError pageno error s)

end Wcdb.Repair
