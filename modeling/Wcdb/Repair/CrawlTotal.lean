import Mathlib.Data.Finset.Interval
import Mathlib.Data.Int.Interval
import Wcdb.Repair.Crawlable
import Mathlib.Order.CompletePartialOrder

/-!
# Every crawl ends

`Crawlable::crawl` is shown to terminate on **every** page graph, with callbacks that may do
anything: the recursion is never deeper than the file has pages, because a page is entered once.
For the same reason no cell is delivered twice. `safeCrawl_cases` says once what a call can do, and
`Ran` what may have happened between two states of a crawl; every later result starts from the
first.
-/

namespace Wcdb.Repair

/-! ### Pages -/

/-- A page that initialises and belongs to a b-tree of the given kind. -/
structure Good (p : Pager) (index : Bool) (n : ℤ) (page : Page) : Prop where
  page_eq : Page.doInitialize p n = some page
  known : page.type ≠ .unknown
  kind : page.type.isIndexPage = index

/-- The kind of the b-tree below a root page. -/
def kindOf (p : Pager) (root : ℤ) : Bool :=
  match Page.doInitialize p root with
  | some page => page.type.isIndexPage
  | none => false

theorem Page.acquired_of_doInitialize {p : Pager} {n : ℤ} {page : Page}
    (h : Page.doInitialize p n = some page) : ∃ data, p.acquirePageData n = some data := by
  cases hdata : p.acquirePageData n with
  | none => simp [Page.doInitialize, hdata] at h
  | some data => exact ⟨data, rfl⟩

theorem Page.number_of_doInitialize {p : Pager} {n : ℤ} {page : Page}
    (h : Page.doInitialize p n = some page) : page.number = n := by
  simp only [Page.doInitialize, Option.bind_eq_bind, Option.bind_eq_some_iff] at h
  obtain ⟨data, -, h⟩ := h
  split at h
  · rw [← Option.some.inj h]
  · split at h
    · exact absurd h (by simp)
    · simp only [Option.pure_def, Option.bind_eq_some_iff] at h
      obtain ⟨pointers, -, h⟩ := h
      split at h
      · obtain ⟨subpagenos, -, h⟩ := Option.bind_eq_some_iff.mp h
        rw [← Option.some.inj h]
      · rw [← Option.some.inj h]

/-- A good page is determined by its number, so that what it leads to may be read off it. -/
theorem Good.unique {p : Pager} {index : Bool} {n : ℤ} {page q : Page} (hpage : Good p index n page)
    (hq : Good p index n q) :
    q = page :=
  Option.some.inj (hq.page_eq.symm.trans hpage.page_eq)

/-- `cell` is cell `i` of the page. -/
def Page.HasCell (p : Pager) (page : Page) (i : ℕ) (cell : Cell) : Prop :=
  page.type ≠ .interiorTable ∧ ∃ pointer, page.cellPointers[i]? = some pointer ∧
    Cell.doInitialize p page.type page.data pointer = some cell

namespace Crawl

variable {σ : Type} (c : Crawler σ) (p : Pager)

/-- Callbacks that let the crawl go on. -/
structure Unrefusing : Prop where
  running : ∀ own, (c.isSuspended own).1 = false
  can : ∀ n own, (c.canCrawlPage n own).1 = true
  will : ∀ page height own, (c.willCrawlPage page height own).1 = true

/-! ### Every crawl ends, and delivers a cell at most once -/

/-- The place of a delivered cell. -/
def place (d : Delivery) : ℤ × ℕ := (d.pageno, d.index)

/-- The pages crawled so far are distinct pages of the file. -/
structure Valid (s : Crawl σ) : Prop where
  nodup : s.crawledInteriorPages.Nodup
  range : ∀ m ∈ s.crawledInteriorPages, 0 < m ∧ m ≤ p.numberOfPages

/-- What happened between `s` and `t`: new pages were crawled, and the cells delivered are distinct,
each from a new page or from one of the places in `own`. -/
def Ran (own : Set (ℤ × ℕ)) (s t : Crawl σ) : Prop :=
  ∃ new ds, t.crawledInteriorPages = new ++ s.crawledInteriorPages ∧
    t.delivered = s.delivered ++ ds ∧
    (∀ m ∈ new, m ∉ s.crawledInteriorPages ∧ 0 < m ∧ m ≤ p.numberOfPages) ∧ new.Nodup ∧
    (∀ d ∈ ds, d.pageno ∈ new ∨ place d ∈ own) ∧ (ds.map place).Nodup

variable {p} {s t u : Crawl σ} {own own' : Set (ℤ × ℕ)}

theorem ran_of_eq (hpages : t.crawledInteriorPages = s.crawledInteriorPages)
    (hdelivered : t.delivered = s.delivered) : Ran p own s t :=
  ⟨[], [], by simp [hpages], by simp [hdelivered], by simp, List.nodup_nil, by simp, by simp⟩

theorem Ran.mono (h : Ran p own s t) (hown : own ⊆ own') : Ran p own' s t := by
  obtain ⟨new, ds, hnew, hds, hfresh, hnodup, hplace, hdistinct⟩ := h
  exact ⟨new, ds, hnew, hds, hfresh, hnodup,
    fun d hd => (hplace d hd).imp_right (@hown _), hdistinct⟩

/-- Two parts of a crawl, which deliver from different places of the pages already crawled. -/
theorem Ran.trans (h : Ran p own s t) (h' : Ran p own' t u)
    (hown : ∀ x ∈ own, x.1 ∈ s.crawledInteriorPages)
    (hown' : ∀ x ∈ own', x.1 ∈ s.crawledInteriorPages) (hdisjoint : Disjoint own own') :
    Ran p (own ∪ own') s u := by
  obtain ⟨new, ds, hnew, hds, hfresh, hnodup, hplace, hdistinct⟩ := h
  obtain ⟨new', ds', hnew', hds', hfresh', hnodup', hplace', hdistinct'⟩ := h'
  have hlater : ∀ m ∈ new', m ∉ new ∧ m ∉ s.crawledInteriorPages := by
    intro m hm
    have hmt := (hfresh' m hm).1
    rw [hnew, List.mem_append, not_or] at hmt
    exact hmt
  refine ⟨new' ++ new, ds ++ ds', by rw [hnew', hnew, List.append_assoc],
    by rw [hds', hds, List.append_assoc], ?_, ?_, ?_, ?_⟩
  · intro m hm
    obtain hm | hm := List.mem_append.mp hm
    · exact ⟨(hlater m hm).2, (hfresh' m hm).2⟩
    · exact hfresh m hm
  · exact hnodup'.append hnodup fun m hm hm' => (hlater m hm).1 hm'
  · intro d hd
    obtain hd | hd := List.mem_append.mp hd
    · exact (hplace d hd).imp (fun h => List.mem_append_right _ h) Or.inl
    · exact (hplace' d hd).imp (fun h => List.mem_append_left _ h) Or.inr
  · rw [List.map_append]
    refine hdistinct.append hdistinct' ?_
    intro x hx hx'
    obtain ⟨d, hd, rfl⟩ := List.mem_map.mp hx
    obtain ⟨d', hd', hsame⟩ := List.mem_map.mp hx'
    have hpage : d'.pageno = d.pageno := congrArg Prod.fst hsame
    obtain hnew1 | hold1 := hplace d hd
    · obtain hnew2 | hold2 := hplace' d' hd'
      · exact (hlater _ hnew2).1 (hpage ▸ hnew1)
      · have hin := hown' _ hold2
        exact (hfresh _ hnew1).1 (hpage ▸ hin)
    · obtain hnew2 | hold2 := hplace' d' hd'
      · have hin := hown _ hold1
        exact (hlater _ hnew2).2 (hpage ▸ hin)
      · exact Set.disjoint_left.mp hdisjoint hold1 (hsame ▸ hold2)

/-- Parts of a crawl that deliver from new pages only. -/
theorem Ran.trans_new (h : Ran p ∅ s t) (h' : Ran p ∅ t u) : Ran p ∅ s u := by
  simpa using h.trans h' (by simp) (by simp) (by simp)

theorem Ran.valid (h : Ran p own s t) (hs : s.Valid p) : t.Valid p := by
  obtain ⟨new, ds, hnew, -, hfresh, hnodup, -⟩ := h
  refine ⟨?_, ?_⟩
  · rw [hnew]
    exact hnodup.append hs.nodup fun m hm hm' => (hfresh m hm).1 hm'
  · intro m hm
    rw [hnew, List.mem_append] at hm
    exact hm.elim (fun h => (hfresh m h).2) (hs.range m)

theorem Ran.length_le (h : Ran p own s t) :
    s.crawledInteriorPages.length ≤ t.crawledInteriorPages.length := by
  obtain ⟨new, ds, hnew, -⟩ := h
  rw [hnew, List.length_append]
  omega

theorem Ran.mem (h : Ran p own s t) {m : ℤ} (hm : m ∈ s.crawledInteriorPages) :
    m ∈ t.crawledInteriorPages := by
  obtain ⟨new, ds, hnew, -⟩ := h
  rw [hnew]
  exact List.mem_append_right _ hm

/-- There are not more pages to crawl than the file has. -/
theorem Valid.length_le (hs : s.Valid p) :
    s.crawledInteriorPages.length ≤ p.numberOfPages.toNat := by
  have hsub : s.crawledInteriorPages.toFinset ⊆ Finset.Ioc 0 p.numberOfPages := by
    intro m hm
    exact Finset.mem_Ioc.mpr (hs.range m (List.mem_toFinset.mp hm))
  have hcard := Finset.card_le_card hsub
  rwa [List.toFinset_card_of_nodup hs.nodup, Int.card_Ioc, sub_zero] at hcard

/-! ### One round of each loop -/

variable {crawlPage : ℤ → Crawl σ → Option (Crawl σ)} {descend : Cell → Crawl σ → Option (Crawl σ)}

/-- The state after a read of the flag that suspends the crawl. -/
def polled (s : Crawl σ) : Crawl σ := (s.ask c.isSuspended).2

theorem crawlSubpages_of_suspended (hs : (c.isSuspended s.own).1 = true) (n : ℤ) (ns : List ℤ) :
    crawlSubpages c crawlPage (n :: ns) s = some (s.polled c) := by
  simp only [crawlSubpages, ask, hs, if_true, polled]

theorem crawlSubpages_of_running (hs : (c.isSuspended s.own).1 = false) {n : ℤ}
    (hcall : crawlPage n (s.polled c) = some t) (ns : List ℤ) :
    crawlSubpages c crawlPage (n :: ns) s = crawlSubpages c crawlPage ns t := by
  rw [polled, ask] at hcall
  simp only [crawlSubpages, ask, hs, Bool.false_eq_true, if_false, hcall]

theorem crawlCells_of_suspended (hs : (c.isSuspended s.own).1 = true) (page : Page) (index : ℕ)
    (pointer : ℤ) (pointers : List ℤ) :
    crawlCells c p page descend index (pointer :: pointers) s = some (false, s.polled c) := by
  simp only [crawlCells, ask, hs, if_true, polled]

theorem crawlCells_of_failed (hs : (c.isSuspended s.own).1 = false) {page : Page} {pointer : ℤ}
    (hcell : Cell.doInitialize p page.type page.data pointer = none) (index : ℕ)
    (pointers : List ℤ) :
    crawlCells c p page descend index (pointer :: pointers) s =
      crawlCells c p page descend (index + 1) pointers
        ((s.polled c).markAsError c page.number .cellFailed) := by
  simp only [crawlCells, ask, hs, Bool.false_eq_true, if_false, hcell, polled]

theorem crawlCells_of_cell (hs : (c.isSuspended s.own).1 = false) {page : Page} {pointer : ℤ}
    {cell : Cell} (hcell : Cell.doInitialize p page.type page.data pointer = some cell)
    (hcall : descend cell (s.polled c) = some t) (index : ℕ) (pointers : List ℤ) :
    crawlCells c p page descend index (pointer :: pointers) s =
      crawlCells c p page descend (index + 1) pointers (t.deliver c page.number index cell) := by
  rw [polled, ask] at hcall
  simp only [crawlCells, ask, hs, Bool.false_eq_true, if_false, hcell, hcall]

theorem crawlContent_leaf {page : Page} (hleaf : page.type.isLeafPage = true) :
    crawlContent c p crawlPage page s =
      (crawlCells c p page (fun _ => some) 0 page.cellPointers s).map Prod.snd := by
  unfold crawlContent
  cases htype : page.type with
  | leafTable | leafIndex => cases crawlCells c p page (fun _ => some) 0 page.cellPointers s <;> rfl
  | interiorTable | interiorIndex | unknown => simp [htype, PageType.isLeafPage] at hleaf

theorem ran_polled : Ran p own s (s.polled c) := ran_of_eq rfl rfl

section Total

variable {k : ℕ}

/-- The loop over children, when the recursive call ends once `k` pages are crawled. -/
theorem ran_crawlSubpages
    (hcall : ∀ n s, s.Valid p → k ≤ s.crawledInteriorPages.length →
      ∃ t, crawlPage n s = some t ∧ Ran p ∅ s t)
    (ns : List ℤ) (s : Crawl σ) (hs : s.Valid p) (hk : k ≤ s.crawledInteriorPages.length) :
    ∃ t, crawlSubpages c crawlPage ns s = some t ∧ Ran p ∅ s t := by
  induction ns generalizing s with
  | nil => exact ⟨s, rfl, ran_of_eq rfl rfl⟩
  | cons n ns ih =>
    cases hsuspended : (c.isSuspended s.own).1 with
    | true => exact ⟨_, crawlSubpages_of_suspended c hsuspended n ns, ran_polled c⟩
    | false =>
      have hasked : Ran p ∅ s (s.polled c) := ran_polled c
      obtain ⟨t, ht, hran⟩ := hcall n _ (hasked.valid hs) hk
      obtain ⟨u, hu, hrest⟩ := ih t (hran.valid (hasked.valid hs)) (hk.trans hran.length_le)
      rw [crawlSubpages_of_running c hsuspended ht]
      exact ⟨u, hu, hasked.trans_new (hran.trans_new hrest)⟩

/-- The loop over cells. Its own page is crawled already, and each of its cells comes once. -/
theorem ran_crawlCells
    (hcall : ∀ cell s, s.Valid p → k ≤ s.crawledInteriorPages.length →
      ∃ t, descend cell s = some t ∧ Ran p ∅ s t)
    (page : Page) (pointers : List ℤ) (index : ℕ) (s : Crawl σ) (hs : s.Valid p)
    (hk : k ≤ s.crawledInteriorPages.length) (hpage : page.number ∈ s.crawledInteriorPages) :
    ∃ b t, crawlCells c p page descend index pointers s = some (b, t) ∧
      Ran p {x | x.1 = page.number ∧ index ≤ x.2} s t := by
  induction pointers generalizing index s with
  | nil => exact ⟨true, s, rfl, ran_of_eq rfl rfl⟩
  | cons pointer pointers ih =>
    cases hsuspended : (c.isSuspended s.own).1 with
    | true =>
      exact ⟨_, _, crawlCells_of_suspended c hsuspended page index pointer pointers, ran_polled c⟩
    | false =>
      have hasked : Ran p ∅ s (s.polled c) := ran_polled c
      cases hcell : Cell.doInitialize p page.type page.data pointer with
      | none =>
        obtain ⟨b, u, hu, hrest⟩ := ih (index + 1)
          ((s.polled c).markAsError c page.number .cellFailed) ⟨hs.nodup, hs.range⟩ hk hpage
        rw [crawlCells_of_failed c hsuspended hcell]
        refine ⟨b, u, hu, ?_⟩
        obtain ⟨new, ds, hran⟩ := hrest
        exact Ran.mono ⟨new, ds, hran⟩ fun x hx => ⟨hx.1, by have := hx.2; omega⟩
      | some cell =>
        obtain ⟨t, ht, hran⟩ := hcall cell _ (hasked.valid hs) hk
        have hbefore : Ran p ∅ s t := hasked.trans_new hran
        have hdeliver : Ran p {(page.number, index)} t (t.deliver c page.number index cell) :=
          ⟨[], [⟨page.number, index, cell⟩], rfl, rfl, by simp, List.nodup_nil,
            by simp [place], by simp⟩
        have hupto : Ran p {(page.number, index)} s (t.deliver c page.number index cell) := by
          simpa using hbefore.trans hdeliver (by simp) (by simpa using hpage) (by simp)
        obtain ⟨b, u, hu, hrest⟩ := ih (index + 1) _ (hupto.valid hs) (hk.trans hupto.length_le)
          (hupto.mem hpage)
        rw [crawlCells_of_cell c hsuspended hcell ht]
        refine ⟨b, u, hu, ?_⟩
        refine (hupto.trans hrest (by simpa using hpage) (fun x hx => hx.1 ▸ hpage) ?_).mono ?_
        · refine Set.disjoint_left.mpr fun x hx hx' => ?_
          rw [Set.mem_singleton_iff.mp hx] at hx'
          have := hx'.2
          omega
        · rintro x (hx | hx)
          · rw [Set.mem_singleton_iff.mp hx]
            exact ⟨rfl, le_refl _⟩
          · exact ⟨hx.1, by have := hx.2; omega⟩

theorem ran_crawlContent
    (hcall : ∀ n s, s.Valid p → k ≤ s.crawledInteriorPages.length →
      ∃ t, crawlPage n s = some t ∧ Ran p ∅ s t)
    (page : Page) (s : Crawl σ) (hs : s.Valid p) (hk : k ≤ s.crawledInteriorPages.length)
    (hpage : page.number ∈ s.crawledInteriorPages) :
    ∃ t, crawlContent c p crawlPage page s = some t ∧ Ran p {x | x.1 = page.number} s t := by
  have hleaf : page.type.isLeafPage = true → ∃ t, crawlContent c p crawlPage page s = some t ∧
      Ran p {x | x.1 = page.number} s t := by
    intro hleaf
    obtain ⟨b, t, ht, hran⟩ := ran_crawlCells c (k := k)
      (fun cell s _ _ => ⟨s, rfl, ran_of_eq rfl rfl⟩ : ∀ (cell : Cell) (s : Crawl σ), s.Valid p →
        k ≤ s.crawledInteriorPages.length →
          ∃ t, some s = some t ∧ Ran p ∅ s t) page page.cellPointers 0 s hs hk hpage
    rw [crawlContent_leaf c hleaf, ht]
    exact ⟨t, rfl, hran.mono fun x hx => hx.1⟩
  cases htype : page.type with
  | interiorTable =>
    rw [crawlContent, htype]
    obtain ⟨t, ht, hran⟩ := ran_crawlSubpages c hcall page.subpagenos s hs hk
    exact ⟨t, ht, hran.mono (by simp)⟩
  | interiorIndex =>
    obtain ⟨b, t, ht, hran⟩ := ran_crawlCells c
      (fun cell s hs hk => hcall cell.leftChild s hs hk) page page.cellPointers 0 s hs hk hpage
    rw [crawlContent, htype]
    simp only [ht]
    cases b with
    | false => exact ⟨t, rfl, hran.mono fun x hx => hx.1⟩
    | true =>
      obtain ⟨u, hu, hlast⟩ := hcall (page.subpagenos.getLastD 0) t (hran.valid hs)
        (hk.trans hran.length_le)
      refine ⟨u, hu, (hran.trans hlast (fun x hx => hx.1 ▸ hpage) (by simp) (by simp)).mono ?_⟩
      rintro x (hx | hx)
      · exact hx.1
      · exact absurd hx (Set.notMem_empty x)
  | leafTable | leafIndex => exact hleaf (by simp [htype, PageType.isLeafPage])
  | unknown =>
    rw [crawlContent, htype]
    exact ⟨_, rfl, ran_of_eq rfl rfl⟩

end Total

/-- A call that does not come to the content of its page. -/
structure Stopped (p : Pager) (n : ℤ) (height : ℕ) (s t : Crawl σ) : Prop where
  pages : t.crawledInteriorPages = s.crawledInteriorPages
  delivered : t.delivered = s.delivered
  flag : (height = 1 → kindOf p n = s.isCrawlingIndexTable) →
    t.isCrawlingIndexTable = s.isCrawlingIndexTable
  reason : Unrefusing c → n ∈ s.crawledInteriorPages ∨ Page.doInitialize p n = none ∨
    ∃ page, Page.doInitialize p n = some page ∧ height ≠ 1 ∧
      s.isCrawlingIndexTable ≠ page.type.isIndexPage

/-- A call that comes to the content of its page, in the state `t`. -/
structure Entered (p : Pager) (n : ℤ) (height : ℕ) (page : Page) (s t : Crawl σ) : Prop where
  page_eq : Page.doInitialize p n = some page
  fresh : n ∉ s.crawledInteriorPages
  pages : t.crawledInteriorPages = n :: s.crawledInteriorPages
  delivered : t.delivered = s.delivered
  flag : t.isCrawlingIndexTable = page.type.isIndexPage
  kept : height ≠ 1 → t.isCrawlingIndexTable = s.isCrawlingIndexTable

/-- What a call can do. -/
theorem safeCrawl_cases (p : Pager) (n : ℤ) (height : ℕ) (s : Crawl σ) :
    (∃ t, (∀ fuel, safeCrawl c p (fuel + 1) n height s = some t) ∧ Stopped c p n height s t) ∨
      ∃ page t, Entered p n height page s t ∧ ∀ fuel, safeCrawl c p (fuel + 1) n height s =
        crawlContent c p (fun pageno => safeCrawl c p fuel pageno (height + 1)) page t := by
  have hflag : ∀ {page : Page}, Page.doInitialize p n = some page →
      (height = 1 → kindOf p n = s.isCrawlingIndexTable) →
      (if height = 1 then page.type.isIndexPage else s.isCrawlingIndexTable) =
        s.isCrawlingIndexTable := by
    intro page hpage hkind
    split_ifs with hroot
    · rw [← hkind hroot, kindOf, hpage]
    · rfl
  simp only [safeCrawl, ask]
  by_cases hsuspended : (c.isSuspended s.own).1 = true
  · simp only [hsuspended, if_true]
    refine .inl ⟨_, fun _ => rfl, rfl, rfl, fun _ => rfl, fun hc => ?_⟩
    exact absurd (hc.running s.own) (by simp [hsuspended])
  simp only [hsuspended]
  by_cases hcan : (c.canCrawlPage n (c.isSuspended s.own).2).1 = true
  swap
  · simp only [hcan, Bool.not_false, if_true]
    refine .inl ⟨_, fun _ => rfl, rfl, rfl, fun _ => rfl, fun hc => ?_⟩
    exact absurd (hc.can n _) hcan
  simp only [hcan, Bool.not_true, Bool.false_eq_true, if_false]
  cases hpage : Page.doInitialize p n with
  | none => exact .inl ⟨_, fun _ => rfl, rfl, rfl, fun _ => rfl, fun _ => .inr (.inl hpage)⟩
  | some page =>
    by_cases hkind : height ≠ 1 ∧ s.isCrawlingIndexTable ≠ page.type.isIndexPage
    · exact .inl ⟨_, fun _ => if_pos hkind, rfl, rfl, fun _ => rfl,
        fun _ => .inr (.inr ⟨page, hpage, hkind⟩)⟩
    by_cases hwill : (c.willCrawlPage page height
      (c.canCrawlPage n (c.isSuspended s.own).2).2).1 = true
    swap
    · refine .inl ⟨_, fun _ => (if_neg hkind).trans (if_pos (by simp [hwill])), rfl, rfl,
        hflag hpage, fun hc => ?_⟩
      exact absurd (hc.will page height _) hwill
    by_cases hmem : n ∈ s.crawledInteriorPages
    · exact .inl ⟨_, fun _ => (if_neg hkind).trans ((if_neg (by simp [hwill])).trans (if_pos hmem)),
        rfl, rfl, hflag hpage, fun _ => .inl hmem⟩
    · refine .inr ⟨page,
        { own := _
          crawledInteriorPages := n :: s.crawledInteriorPages
          isCrawlingIndexTable :=
            if height = 1 then page.type.isIndexPage else s.isCrawlingIndexTable
          delivered := s.delivered }, ⟨hpage, hmem, rfl, rfl, ?_, fun h => if_neg h⟩,
        fun _ => (if_neg hkind).trans ((if_neg (by simp [hwill])).trans (if_neg hmem))⟩
      by_cases hroot : height = 1
      · exact if_pos hroot
      · have hsame : s.isCrawlingIndexTable = page.type.isIndexPage := by
          by_contra hne
          exact hkind ⟨hroot, hne⟩
        exact (if_neg hroot).trans hsame

/-- A call whose depth suffices for the pages that are left ends. -/
theorem ran_safeCrawl (fuel : ℕ) (n : ℤ) (height : ℕ) (s : Crawl σ) (hs : s.Valid p)
    (hfuel : p.numberOfPages.toNat + 1 ≤ fuel + s.crawledInteriorPages.length) :
    ∃ t, safeCrawl c p fuel n height s = some t ∧ Ran p ∅ s t := by
  induction fuel generalizing n height s with
  | zero =>
    have := hs.length_le
    omega
  | succ fuel ih =>
    obtain ⟨t, ht, hstop⟩ | ⟨page, t, henter, ht⟩ := safeCrawl_cases c p n height s
    · exact ⟨t, ht fuel, ran_of_eq hstop.pages hstop.delivered⟩
    · obtain ⟨data, hdata⟩ : ∃ data, p.acquirePageData n = some data :=
        Page.acquired_of_doInitialize henter.page_eq
      have hrange := p.range_data n data hdata
      have hvalid : t.Valid p := by
        refine ⟨?_, ?_⟩
        · rw [henter.pages]
          exact List.nodup_cons.mpr ⟨henter.fresh, hs.nodup⟩
        · rw [henter.pages]
          exact List.forall_mem_cons.mpr ⟨hrange, hs.range⟩
      have hnumber : page.number = n := Page.number_of_doInitialize henter.page_eq
      have hin : page.number ∈ t.crawledInteriorPages := by simp [henter.pages, hnumber]
      obtain ⟨u, hu, hran⟩ := ran_crawlContent c
        (k := p.numberOfPages.toNat + 1 - fuel)
        (fun m s hs hk => ih m (height + 1) s hs (by omega)) page t hvalid
        (by rw [henter.pages, List.length_cons]; omega) hin
      refine ⟨u, by rw [ht fuel, hu], ?_⟩
      obtain ⟨new, ds, hnew, hds, hfresh, hnodup, hplace, hdistinct⟩ := hran
      rw [henter.pages] at hnew hfresh
      refine ⟨new ++ [n], ds, by rw [hnew]; simp, by rw [hds, henter.delivered], ?_, ?_, ?_,
        hdistinct⟩
      · intro m hm
        obtain hm | hm := List.mem_append.mp hm
        · exact ⟨fun hold => (hfresh m hm).1 (List.mem_cons_of_mem _ hold), (hfresh m hm).2⟩
        · rw [List.mem_singleton.mp hm]
          exact ⟨henter.fresh, hrange⟩
      · refine hnodup.append (List.nodup_singleton n) fun m hm hm' => ?_
        rw [List.mem_singleton.mp hm'] at hm
        exact (hfresh n hm).1 List.mem_cons_self
      · intro d hd
        obtain hold | hown := hplace d hd
        · exact .inl (List.mem_append_left _ hold)
        · have hpage : d.pageno = n := hnumber ▸ hown
          exact .inl (List.mem_append_right _ (by rw [hpage]; exact List.mem_singleton_self n))

/-! ### More depth changes nothing -/

theorem crawlSubpages_mono {call call' : ℤ → Crawl σ → Option (Crawl σ)}
    (hcall : ∀ n s t, call n s = some t → call' n s = some t) {ns : List ℤ} :
    ∀ {s t : Crawl σ}, crawlSubpages c call ns s = some t →
      crawlSubpages c call' ns s = some t := by
  induction ns with
  | nil => exact fun h => h
  | cons n ns ih =>
    intro s t h
    simp only [crawlSubpages] at h ⊢
    split_ifs at h ⊢
    · exact h
    · cases hn : call n (s.ask c.isSuspended).2 with
      | none => simp [hn] at h
      | some u =>
        rw [hn] at h
        rw [hcall _ _ _ hn]
        exact ih h

theorem crawlCells_mono {call call' : Cell → Crawl σ → Option (Crawl σ)}
    (hcall : ∀ cell s t, call cell s = some t → call' cell s = some t) {page : Page}
    {pointers : List ℤ} : ∀ {index : ℕ} {s : Crawl σ} {t : Bool × Crawl σ},
      crawlCells c p page call index pointers s = some t →
      crawlCells c p page call' index pointers s = some t := by
  induction pointers with
  | nil => exact fun h => h
  | cons pointer pointers ih =>
    intro index s t h
    simp only [crawlCells] at h ⊢
    split_ifs at h ⊢
    · exact h
    · cases hcell : Cell.doInitialize p page.type page.data pointer with
      | none =>
        rw [hcell] at h
        exact ih h
      | some cell =>
        simp only [hcell] at h ⊢
        cases hn : call cell (s.ask c.isSuspended).2 with
        | none => simp [hn] at h
        | some u =>
          rw [hn] at h
          rw [hcall _ _ _ hn]
          exact ih h

theorem crawlContent_mono {call call' : ℤ → Crawl σ → Option (Crawl σ)}
    (hcall : ∀ n s t, call n s = some t → call' n s = some t) {page : Page} {s t : Crawl σ}
    (h : crawlContent c p call page s = some t) : crawlContent c p call' page s = some t := by
  unfold crawlContent at h ⊢
  cases hpage : page.type with
  | interiorTable =>
    simp only [hpage] at h ⊢
    exact crawlSubpages_mono c hcall h
  | interiorIndex =>
    simp only [hpage] at h ⊢
    cases hcells : crawlCells c p page (fun cell => call cell.leftChild) 0 page.cellPointers s with
    | none => simp [hcells] at h
    | some result =>
      rw [hcells] at h
      rw [crawlCells_mono c (fun cell s t => hcall cell.leftChild s t) hcells]
      obtain ⟨finished, u⟩ := result
      cases finished with
      | false => exact h
      | true => exact hcall _ _ _ h
  | leafTable | leafIndex | unknown =>
    simp only [hpage] at h ⊢
    exact h

theorem safeCrawl_succ (fuel : ℕ) : ∀ (n : ℤ) (height : ℕ) (s t : Crawl σ),
    safeCrawl c p fuel n height s = some t → safeCrawl c p (fuel + 1) n height s = some t := by
  induction fuel with
  | zero => exact fun n height s t h => absurd h (by simp [safeCrawl])
  | succ fuel ih =>
    intro n height s t h
    obtain ⟨u, hu, -⟩ | ⟨page, u, -, hu⟩ := safeCrawl_cases c p n height s
    · rw [hu fuel] at h
      rw [hu (fuel + 1), h]
    · rw [hu fuel] at h
      rw [hu (fuel + 1)]
      exact crawlContent_mono c (fun m s t => ih m (height + 1) s t) h

theorem safeCrawl_mono {fuel fuel' : ℕ} (hle : fuel ≤ fuel') {n : ℤ} {height : ℕ} {s t : Crawl σ}
    (h : safeCrawl c p fuel n height s = some t) : safeCrawl c p fuel' n height s = some t := by
  induction hle with
  | refl => exact h
  | step _ ih => exact safeCrawl_succ c _ n height s t ih

/-- A crawl ends, with a result that does not depend on the depth allowed to it. The cells delivered
are distinct, and all belong to crawled pages. -/
theorem crawl_total (p : Pager) (root : ℤ) (flag : Bool) (own : σ) :
    ∃ t, (∀ fuel, p.numberOfPages.toNat < fuel → crawl c p fuel root flag own = some t) ∧
      (∀ fuel u, crawl c p fuel root flag own = some u → u = t) ∧
      (t.delivered.map place).Nodup ∧ ∀ d ∈ t.delivered, d.pageno ∈ t.crawledInteriorPages := by
  obtain ⟨t, ht, new, ds, hnew, hds, -, -, hplace, hnodup⟩ := ran_safeCrawl c
    (p.numberOfPages.toNat + 1) root 1 ⟨own, [], flag, []⟩ (p := p) ⟨List.nodup_nil, by simp⟩
    (by simp)
  refine ⟨t, fun fuel hfuel => safeCrawl_mono c hfuel ht, fun fuel u hu => ?_, ?_, fun d hd => ?_⟩
  · have hmore := safeCrawl_mono c (Nat.le_add_right fuel (p.numberOfPages.toNat + 1)) hu
    have hmore' := safeCrawl_mono c (Nat.le_add_left (p.numberOfPages.toNat + 1) fuel) ht
    exact Option.some.inj (hmore.symm.trans hmore')
  · rw [hds]
    exact hnodup
  · rw [hds, List.nil_append] at hd
    rw [hnew, List.append_nil]
    exact (hplace d hd).elim id fun hnone => absurd hnone (Set.notMem_empty _)

end Crawl

end Wcdb.Repair
