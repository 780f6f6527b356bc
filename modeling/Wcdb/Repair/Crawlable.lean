import Wcdb.Repair.Cell

/-!
# Crawling a b-tree

`Crawlable::safeCrawl` walks the pages below a root page and hands every cell to `onCellCrawled`.
A subclass takes part through **callbacks**: it may refuse a page, it hears of every error, and it,
or another thread, may suspend the crawl at any time. `Crawler` gives these callbacks a state of
their own to act on, so that a suspension that comes from elsewhere is one more thing the state may
hold.

The pages may be anything, with children that form cycles or are shared. The set of the pages
crawled so far stops the recursion; `fuel` bounds its depth, and `none` means that the depth did not
suffice.
-/

namespace Wcdb.Repair

/-- What `markAsError` and `markAsCorrupted` report: a page or a cell that does not initialise, the
messages "Unmatched page type.", "Page is already crawled." and "Unexpected page type" of the crawl,
and those of its subclasses. -/
inductive CrawlError where
  | pageFailed
  | cellFailed
  | unmatchedPageType
  | alreadyCrawled
  | unexpectedPageType
  | rootPageNotPositive
  | nameNotText
  | seqNotInteger
  | nameEmpty
  | mismatchedHash
  deriving DecidableEq, Repr

/-- The callbacks of `Crawlable`, over the state of a subclass. -/
structure Crawler (σ : Type) where
  /-- A read of `m_suspend`. -/
  isSuspended : σ → Bool × σ
  canCrawlPage : ℤ → σ → Bool × σ
  willCrawlPage : Page → ℕ → σ → Bool × σ
  onCellCrawled : ℤ → Cell → σ → σ
  /-- The error as the pager keeps it and `onCrawlerError` hears of it, with the number of the
  page. -/
  onCrawlerError : ℤ → CrawlError → σ → σ

/-- A cell that was handed to `onCellCrawled`: the page, its place on the page, and the cell. -/
structure Delivery where
  pageno : ℤ
  index : ℕ
  cell : Cell
  deriving DecidableEq, Repr

/-- The state of a crawl. `delivered` only records what happened. -/
structure Crawl (σ : Type) where
  own : σ
  crawledInteriorPages : List ℤ
  isCrawlingIndexTable : Bool
  delivered : List Delivery

namespace Crawl

variable {σ : Type} (c : Crawler σ) (p : Pager)

/-- A callback that only concerns the subclass. -/
def ask (f : σ → Bool × σ) (s : Crawl σ) : Bool × Crawl σ :=
  ((f s.own).1, { s with own := (f s.own).2 })

def markAsError (pageno : ℤ) (error : CrawlError) (s : Crawl σ) : Crawl σ :=
  { s with own := c.onCrawlerError pageno error s.own }

def deliver (pageno : ℤ) (index : ℕ) (cell : Cell) (s : Crawl σ) : Crawl σ :=
  { s with
    own := c.onCellCrawled pageno cell s.own
    delivered := s.delivered ++ [⟨pageno, index, cell⟩] }

/-- The loop over the children of an interior page of a table. `crawlPage` is the recursive call. -/
def crawlSubpages (crawlPage : ℤ → Crawl σ → Option (Crawl σ)) :
    List ℤ → Crawl σ → Option (Crawl σ)
  | [], s => some s
  | pageno :: rest, s =>
    let (suspended, s) := s.ask c.isSuspended
    if suspended then some s
    else
      match crawlPage pageno s with
      | none => none
      | some s => crawlSubpages crawlPage rest s

/-- The loop over the cells of a page, from the cell `index` on. `descend` crawls what stands before
the cell: its left child on an interior page of an index, nothing on a leaf. The answer says whether
the loop came to its end. -/
def crawlCells (page : Page) (descend : Cell → Crawl σ → Option (Crawl σ)) :
    ℕ → List ℤ → Crawl σ → Option (Bool × Crawl σ)
  | _, [], s => some (true, s)
  | index, pointer :: rest, s =>
    let (suspended, s) := s.ask c.isSuspended
    if suspended then some (false, s)
    else
      match Cell.doInitialize p page.type page.data pointer with
      | some cell =>
        match descend cell s with
        | none => none
        | some s => crawlCells page descend (index + 1) rest (s.deliver c page.number index cell)
      | none => crawlCells page descend (index + 1) rest (s.markAsError c page.number .cellFailed)

/-- The `switch` of `safeCrawl` over the type of a page. -/
def crawlContent (crawlPage : ℤ → Crawl σ → Option (Crawl σ)) (page : Page) (s : Crawl σ) :
    Option (Crawl σ) :=
  match page.type with
  | .interiorTable => crawlSubpages c crawlPage page.subpagenos s
  | .interiorIndex =>
    match crawlCells c p page (fun cell => crawlPage cell.leftChild) 0 page.cellPointers s with
    | none => none
    | some (false, s) => some s
    | some (true, s) => crawlPage (page.subpagenos.getLastD 0) s
  | .leafTable | .leafIndex =>
    match crawlCells c p page (fun _ => some) 0 page.cellPointers s with
    | none => none
    | some (_, s) => some s
  | .unknown => some (s.markAsError c page.number .unexpectedPageType)

/-- `Crawlable::safeCrawl`. -/
def safeCrawl : ℕ → ℤ → ℕ → Crawl σ → Option (Crawl σ)
  | 0, _, _, _ => none
  | fuel + 1, rootpageno, height, s =>
    let (suspended, s) := s.ask c.isSuspended
    if suspended then some s
    else
      let (can, s) := s.ask (c.canCrawlPage rootpageno)
      if !can then some s
      else
        match Page.doInitialize p rootpageno with
        | none => some (s.markAsError c rootpageno .pageFailed)
        | some rootpage =>
          if height ≠ 1 ∧ s.isCrawlingIndexTable ≠ rootpage.type.isIndexPage then
            some (s.markAsError c rootpageno .unmatchedPageType)
          else
            let s := { s with isCrawlingIndexTable :=
              if height = 1 then rootpage.type.isIndexPage else s.isCrawlingIndexTable }
            let (will, s) := s.ask (c.willCrawlPage rootpage height)
            if !will then some s
            else if rootpageno ∈ s.crawledInteriorPages then
              some (s.markAsError c rootpageno .alreadyCrawled)
            else
              crawlContent c p (fun pageno => safeCrawl fuel pageno (height + 1)) rootpage
                { s with crawledInteriorPages := rootpageno :: s.crawledInteriorPages }

/-- `Crawlable::crawl`, which starts with no page crawled. -/
def crawl (fuel : ℕ) (rootpageno : ℤ) (isCrawlingIndexTable : Bool) (own : σ) : Option (Crawl σ) :=
  safeCrawl c p fuel rootpageno 1 ⟨own, [], isCrawlingIndexTable, []⟩

end Crawl

end Wcdb.Repair
