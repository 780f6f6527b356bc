import Wcdb.Repair.CrawlTotal

/-!
# What a crawl does to the state of its subclass

A crawl touches this state through its callbacks only. So a property that every callback keeps is
**kept by every crawl**, whatever the pages are. Crawls that run within a callback of another crawl
are reasoned about by this rule. `keepsFrom_crawled` is the rule for callbacks that keep a property
only on the pages that the crawl lets through.
-/

namespace Wcdb.Repair

variable {σ : Type}

/-- A crawl keeps `P` as far as it goes from `Reach` to `Reach` through pages that are `Allowed`. -/
structure Crawler.KeepsFrom (c : Crawler σ) (p : Pager) (Allowed : Page → Prop)
    (Reach : ℤ → Prop) (P : σ → Prop) : Prop where
  isSuspended : ∀ own, P own → P (c.isSuspended own).2
  canCrawlPage : ∀ n own, P own → P (c.canCrawlPage n own).2
  willCrawlPage : ∀ page height own, P own → P (c.willCrawlPage page height own).2
  allowed : ∀ page height own, (c.willCrawlPage page height own).1 = true → Allowed page
  subpage : ∀ n page, Reach n → Page.doInitialize p n = some page → Allowed page →
    page.type = .interiorTable → ∀ m ∈ page.subpagenos, Reach m
  leftChild : ∀ n page, Reach n → Page.doInitialize p n = some page → Allowed page →
    page.type = .interiorIndex → ∀ i cell, page.HasCell p i cell → Reach cell.leftChild
  last : ∀ n page, Reach n → Page.doInitialize p n = some page → Allowed page →
    page.type = .interiorIndex → Reach (page.subpagenos.getLastD 0)
  onCellCrawled : ∀ n page i cell own, Reach n → Page.doInitialize p n = some page → Allowed page →
    page.HasCell p i cell → P own → P (c.onCellCrawled n cell own)
  onCrawlerError : ∀ n error own, P own → P (c.onCrawlerError n error own)

/-- Every callback keeps a property. -/
structure Crawler.Keeps (c : Crawler σ) (P : σ → Prop) : Prop where
  isSuspended : ∀ own, P own → P (c.isSuspended own).2
  canCrawlPage : ∀ n own, P own → P (c.canCrawlPage n own).2
  willCrawlPage : ∀ page height own, P own → P (c.willCrawlPage page height own).2
  onCellCrawled : ∀ n cell own, P own → P (c.onCellCrawled n cell own)
  onCrawlerError : ∀ n error own, P own → P (c.onCrawlerError n error own)

/-- A property that every callback keeps, through all pages. -/
theorem Crawler.Keeps.keepsFrom {c : Crawler σ} {P : σ → Prop} (hc : c.Keeps P) (p : Pager) :
    c.KeepsFrom p (fun _ => True) (fun _ => True) P where
  isSuspended := hc.isSuspended
  canCrawlPage := hc.canCrawlPage
  willCrawlPage := hc.willCrawlPage
  allowed _ _ _ _ := trivial
  subpage _ _ _ _ _ _ _ _ := trivial
  leftChild _ _ _ _ _ _ _ _ _ := trivial
  last _ _ _ _ _ _ := trivial
  onCellCrawled n _ _ cell own _ _ _ _ := hc.onCellCrawled n cell own
  onCrawlerError := hc.onCrawlerError

namespace Crawl

variable {c : Crawler σ} {p : Pager} {Allowed : Page → Prop} {Reach : ℤ → Prop}
  {P : σ → Prop} (hc : c.KeepsFrom p Allowed Reach P)

section Loops

variable {crawlPage : ℤ → Crawl σ → Option (Crawl σ)} {descend : Cell → Crawl σ → Option (Crawl σ)}

include hc in
theorem keepsFrom_crawlSubpages {ns : List ℤ}
    (hcall : ∀ n ∈ ns, ∀ s t, P s.own → crawlPage n s = some t → P t.own) {s t : Crawl σ}
    (hs : P s.own) (h : crawlSubpages c crawlPage ns s = some t) : P t.own := by
  induction ns generalizing s with
  | nil => exact Option.some.inj h ▸ hs
  | cons n ns ih =>
    have hasked : P (s.polled c).own := hc.isSuspended _ hs
    cases hsuspended : (c.isSuspended s.own).1 with
    | true =>
      rw [crawlSubpages_of_suspended c hsuspended] at h
      exact Option.some.inj h ▸ hasked
    | false =>
      cases hn : crawlPage n (s.polled c) with
      | none =>
        simp only [polled, ask] at hn
        simp [crawlSubpages, ask, hsuspended, hn] at h
      | some u =>
        rw [crawlSubpages_of_running c hsuspended hn] at h
        exact ih (fun m hm => hcall m (List.mem_cons_of_mem n hm))
          (hcall n List.mem_cons_self _ _ hasked hn) h

/-- The cells from `index` on, whose pointers are those that are left. -/
theorem hasCell_of_drop {page : Page} {pointer : ℤ} {pointers : List ℤ} {index : ℕ}
    (hpointers : pointer :: pointers = page.cellPointers.drop index) :
    page.cellPointers[index]? = some pointer ∧ pointers = page.cellPointers.drop (index + 1) := by
  have hhead := congrArg (fun l => l[0]?) hpointers
  have htail := congrArg List.tail hpointers
  rw [List.tail_cons, List.tail_drop] at htail
  exact ⟨by simpa using hhead.symm, htail⟩

include hc in
theorem keepsFrom_crawlCells {n : ℤ} {page : Page} (hn : Reach n)
    (hpage : Page.doInitialize p n = some page) (hallowed : Allowed page)
    (htype : page.type ≠ .interiorTable) (hdescend : ∀ i cell, page.HasCell p i cell →
      ∀ s t, P s.own →
      descend cell s = some t → P t.own)
    {pointers : List ℤ} {index : ℕ} (hpointers : pointers = page.cellPointers.drop index)
    {s : Crawl σ} {r : Bool × Crawl σ} (hs : P s.own)
    (h : crawlCells c p page descend index pointers s = some r) : P r.2.own := by
  induction pointers generalizing index s with
  | nil => exact Option.some.inj h ▸ hs
  | cons pointer pointers ih =>
    have hasked : P (s.polled c).own := hc.isSuspended _ hs
    obtain ⟨hpointer, hrest⟩ := hasCell_of_drop hpointers
    cases hsuspended : (c.isSuspended s.own).1 with
    | true =>
      rw [crawlCells_of_suspended c hsuspended] at h
      exact Option.some.inj h ▸ hasked
    | false =>
      cases hcell : Cell.doInitialize p page.type page.data pointer with
      | none =>
        rw [crawlCells_of_failed c hsuspended hcell] at h
        exact ih hrest (hc.onCrawlerError _ _ _ hasked) h
      | some cell =>
        have hhas : page.HasCell p index cell := ⟨htype, pointer, hpointer, hcell⟩
        cases hcalled : descend cell (s.polled c) with
        | none =>
          simp only [polled, ask] at hcalled
          simp [crawlCells, ask, hsuspended, hcell, hcalled] at h
        | some u =>
          rw [crawlCells_of_cell c hsuspended hcell hcalled] at h
          refine ih hrest ?_ h
          simp only [deliver, Page.number_of_doInitialize hpage]
          exact hc.onCellCrawled n page index cell u.own hn hpage hallowed hhas
            (hdescend index cell hhas _ _ hasked hcalled)

include hc in
theorem keepsFrom_crawlContent {n : ℤ} {page : Page} (hn : Reach n)
    (hpage : Page.doInitialize p n = some page) (hallowed : Allowed page)
    (hcall : ∀ m, Reach m → ∀ s t, P s.own → crawlPage m s = some t → P t.own) {s t : Crawl σ}
    (hs : P s.own) (h : crawlContent c p crawlPage page s = some t) : P t.own := by
  cases htype : page.type with
  | interiorTable =>
    rw [crawlContent, htype] at h
    exact keepsFrom_crawlSubpages hc
      (fun m hm => hcall m (hc.subpage n page hn hpage hallowed htype m hm)) hs h
  | interiorIndex =>
    rw [crawlContent, htype] at h
    dsimp only at h
    cases hcells :
      crawlCells c p page (fun cell => crawlPage cell.leftChild) 0 page.cellPointers s with
    | none => simp [hcells] at h
    | some result =>
      have hresult := keepsFrom_crawlCells hc hn hpage hallowed (by simp [htype])
        (fun i cell hcell => hcall _
          (hc.leftChild n page hn hpage hallowed htype i cell hcell)) rfl hs
        hcells
      rw [hcells] at h
      obtain ⟨_ | _, u⟩ := result
      · exact Option.some.inj h ▸ hresult
      · exact hcall _ (hc.last n page hn hpage hallowed htype) _ _ hresult h
  | leafTable | leafIndex =>
    rw [crawlContent_leaf c (by simp [htype, PageType.isLeafPage])] at h
    obtain ⟨result, hcells, rfl⟩ := Option.map_eq_some_iff.mp h
    exact keepsFrom_crawlCells hc hn hpage hallowed (by simp [htype])
      (fun _ _ _ _ _ hs h => Option.some.inj h ▸ hs) rfl hs hcells
  | unknown =>
    rw [crawlContent, htype] at h
    exact Option.some.inj h ▸ hc.onCrawlerError _ _ _ hs

end Loops

include hc in
theorem keepsFrom_safeCrawl (fuel : ℕ) {n : ℤ} (hn : Reach n) (height : ℕ) {s t : Crawl σ}
    (hs : P s.own) (h : safeCrawl c p fuel n height s = some t) : P t.own := by
  induction fuel generalizing n height s t with
  | zero => cases h
  | succ fuel ih =>
    have hasked : P (s.ask c.isSuspended).2.own := hc.isSuspended _ hs
    have hcan : P ((s.ask c.isSuspended).2.ask (c.canCrawlPage n)).2.own :=
      hc.canCrawlPage n _ hasked
    simp only [safeCrawl] at h
    split at h
    · exact Option.some.inj h ▸ hasked
    split at h
    · exact Option.some.inj h ▸ hcan
    split at h
    · exact Option.some.inj h ▸ hc.onCrawlerError _ _ _ hcan
    next page hpage =>
      have hwill := hc.willCrawlPage page height _ hcan
      split at h
      · exact Option.some.inj h ▸ hc.onCrawlerError _ _ _ hcan
      generalize (if height = 1 then _ else _) = flag at h
      split at h
      · exact Option.some.inj h ▸ hwill
      rename_i hasks
      have hallowed : Allowed page := by
        refine hc.allowed page height ((s.ask c.isSuspended).2.ask (c.canCrawlPage n)).2.own ?_
        simpa [ask] using hasks
      split at h
      · exact Option.some.inj h ▸ hc.onCrawlerError _ _ _ hwill
      · exact keepsFrom_crawlContent hc hn hpage hallowed
          (fun m hm s t hs h => ih hm (height + 1) hs h) hwill h

/-- The state of the subclass after a crawl, to the depth that suffices. -/
def crawled (c : Crawler σ) (p : Pager) (rootpageno : ℤ) (own : σ) : σ :=
  match crawl c p (p.numberOfPages.toNat + 1) rootpageno false own with
  | some t => t.own
  | none => own

theorem crawl_eq_some (p : Pager) (c : Crawler σ) (rootpageno : ℤ) (own : σ) :
    ∃ t, crawl c p (p.numberOfPages.toNat + 1) rootpageno false own = some t ∧
      crawled c p rootpageno own = t.own := by
  obtain ⟨t, ht, -⟩ := crawl_total c p rootpageno false own
  have hrun := ht (p.numberOfPages.toNat + 1) (by omega)
  exact ⟨t, hrun, by rw [crawled, hrun]⟩

include hc in
/-- **What the callbacks keep on the way of a crawl, the crawl keeps.** -/
theorem keepsFrom_crawled {rootpageno : ℤ} (hroot : Reach rootpageno) {own : σ} (h : P own) :
    P (crawled c p rootpageno own) := by
  obtain ⟨t, ht, heq⟩ := crawl_eq_some p c rootpageno own
  rw [heq]
  exact keepsFrom_safeCrawl hc _ hroot _ h ht

/-- **What the callbacks keep, a crawl keeps.** -/
theorem keeps_crawled (hc : c.Keeps P) (p : Pager) (rootpageno : ℤ) {own : σ} (h : P own) :
    P (crawled c p rootpageno own) := keepsFrom_crawled (hc.keepsFrom p) trivial h

end Crawl

end Wcdb.Repair
