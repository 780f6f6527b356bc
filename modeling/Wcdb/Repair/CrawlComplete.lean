import Mathlib.Logic.Relation
import Wcdb.Repair.CrawlTree

/-!
# What a crawl delivers

Three things are asked of `Crawlable::crawl`. On **every** page graph it terminates and delivers
each cell at most once. On a well-formed b-tree it delivers every cell, in key order. On a damaged
one it still delivers every cell of every page that can be reached from the root through good
interior pages.

The first two hold. The third fails for an index: the loop over an interior page of an index takes
the left child from the initialised cell, so that a cell that does not initialise takes the whole
subtree to its left with it, although the page has read the number of that child. `crawls_iff` says
exactly when nothing is lost that way.
-/

namespace Wcdb.Repair

open Relation

/-! ### What can be reached -/

/-- `n` is a child of the good interior page `m`. -/
def Child (p : Pager) (index : Bool) (m n : ℤ) : Prop :=
  ∃ page, Good p index m page ∧ n ∈ page.subpagenos

/-- `n` is a child of the good interior page `m` that the crawl comes to: any child of a page of a
table, and of a page of an index the right-most one and those of the cells that initialise. -/
def Followed (p : Pager) (index : Bool) (m n : ℤ) : Prop :=
  ∃ page, Good p index m page ∧
    (page.type = .interiorTable ∧ n ∈ page.subpagenos ∨
      page.type = .interiorIndex ∧
        (n = page.subpagenos.getLastD 0 ∨ ∃ i cell, page.HasCell p i cell ∧ n = cell.leftChild))

namespace Crawl

variable {σ : Type} (c : Crawler σ) {p : Pager} {s t u : Crawl σ}
  {crawlPage : ℤ → Crawl σ → Option (Crawl σ)} {descend : Cell → Crawl σ → Option (Crawl σ)}

/-! ### What an unrefused crawl explores -/

variable {index : Bool} {start : ℤ → Prop}

/-- Page `m` is done with: its cells are delivered, and the good pages it leads to are crawled. -/
def Done (p : Pager) (index : Bool) (m : ℤ) (t : Crawl σ) : Prop :=
  ∀ page, Good p index m page →
    (∀ i cell, page.HasCell p i cell → ⟨m, i, cell⟩ ∈ t.delivered) ∧
    ∀ n page', Followed p index m n → Good p index n page' → n ∈ t.crawledInteriorPages

/-- Between `s` and `t` the crawl has gone through pages below those in `start` and is done with
them. -/
structure Explored (p : Pager) (index : Bool) (start : ℤ → Prop) (s t : Crawl σ) : Prop where
  flag : s.isCrawlingIndexTable = index → t.isCrawlingIndexTable = index
  pages : ∀ m ∈ s.crawledInteriorPages, m ∈ t.crawledInteriorPages
  delivered : ∀ d ∈ s.delivered, d ∈ t.delivered
  done : ∀ m ∈ t.crawledInteriorPages, m ∉ s.crawledInteriorPages → Done p index m t
  origin : ∀ m ∈ t.crawledInteriorPages, m ∉ s.crawledInteriorPages →
    ∃ n, start n ∧ ReflTransGen (Followed p index) n m

theorem explored_of_same (hflag : t.isCrawlingIndexTable = s.isCrawlingIndexTable)
    (hpages : t.crawledInteriorPages = s.crawledInteriorPages)
    (hdelivered : ∀ d ∈ s.delivered, d ∈ t.delivered) : Explored p index start s t where
  flag := fun h => hflag.trans h
  pages := fun _ hm => hpages ▸ hm
  delivered := hdelivered
  done := fun _ hm hm' => absurd (hpages ▸ hm) hm'
  origin := fun _ hm hm' => absurd (hpages ▸ hm) hm'

theorem Explored.mono {start' : ℤ → Prop} (h : Explored p index start s t)
    (hstart : ∀ n, start n → start' n) : Explored p index start' s t :=
  ⟨h.flag, h.pages, h.delivered, h.done, fun m hm hm' =>
    (h.origin m hm hm').imp fun n hn => ⟨hstart n hn.1, hn.2⟩⟩

theorem Explored.done_mono (h : Explored p index start t u) {m : ℤ} (hm : Done p index m t) :
    Done p index m u :=
  fun page hpage => ⟨fun i cell hcell => h.delivered _ ((hm page hpage).1 i cell hcell),
    fun n page' hn hn' => h.pages n ((hm page hpage).2 n page' hn hn')⟩

theorem Explored.trans (h : Explored p index start s t) (h' : Explored p index start t u) :
    Explored p index start s u where
  flag := fun hs => h'.flag (h.flag hs)
  pages := fun m hm => h'.pages m (h.pages m hm)
  delivered := fun d hd => h'.delivered d (h.delivered d hd)
  done := fun m hm hm' => by
    by_cases hmt : m ∈ t.crawledInteriorPages
    · exact h'.done_mono (h.done m hmt hm')
    · exact h'.done m hm hmt
  origin := fun m hm hm' => by
    by_cases hmt : m ∈ t.crawledInteriorPages
    · exact h.origin m hmt hm'
    · exact h'.origin m hm hmt

/-- What a recursive call on page `n` owes. -/
def Explores (p : Pager) (index : Bool) (target : ℤ → Prop)
    (f : Crawl σ → Option (Crawl σ)) : Prop :=
  ∀ s t, s.isCrawlingIndexTable = index → f s = some t → Explored p index target s t ∧
    ∀ n page, target n → Good p index n page → n ∈ t.crawledInteriorPages

/-- A call that does nothing explores nothing. -/
theorem explores_some (target : ℤ → Prop) (hnone : ∀ n, ¬target n) :
    Explores p index target (some : Crawl σ → Option (Crawl σ)) := by
  intro s t _ hst
  rw [← Option.some.inj hst]
  exact ⟨explored_of_same rfl rfl fun d hd => hd, fun n page hn => absurd hn (hnone n)⟩

section Explore

variable (hc : Unrefusing c)

include hc

theorem explored_crawlSubpages (hcall : ∀ n, Explores p index (· = n) (crawlPage n)) (ns : List ℤ) :
    Explores p index (· ∈ ns) (crawlSubpages c crawlPage ns) := by
  induction ns with
  | nil =>
    intro s t _ h
    rw [← Option.some.inj h]
    exact ⟨explored_of_same rfl rfl fun d hd => hd, fun n page hn => absurd hn List.not_mem_nil⟩
  | cons n ns ih =>
    intro s u hs h
    cases hn : crawlPage n (s.polled c) with
    | none =>
      simp only [polled, ask] at hn
      simp [crawlSubpages, ask, hn, hc.running] at h
    | some t =>
      rw [crawlSubpages_of_running c (hc.running s.own) hn] at h
      obtain ⟨hfirst, hfirst'⟩ := hcall n (s.polled c) t hs hn
      obtain ⟨hrest, hrest'⟩ := ih t u (hfirst.flag hs) h
      have hpolled : Explored p index (· ∈ n :: ns) s (s.polled c) :=
        explored_of_same rfl rfl fun d hd => hd
      refine ⟨hpolled.trans ((hfirst.mono fun m hm => ?_).trans (hrest.mono fun m hm => ?_)), ?_⟩
      · exact List.mem_cons.mpr (.inl hm)
      · exact List.mem_cons_of_mem n hm
      · intro m page hm hgood
        obtain hm | hm := List.mem_cons.mp hm
        · exact hrest.pages m (hfirst' m page hm hgood)
        · exact hrest' m page hm hgood

/-- The loop over cells, of which `target` says where it descends. -/
theorem explored_crawlCells {target : Cell → ℤ → Prop}
    (hcall : ∀ cell, Explores p index (target cell) (descend cell)) (page : Page)
    (pointers : List ℤ) (i : ℕ) (s t : Crawl σ) (b : Bool) (hs : s.isCrawlingIndexTable = index)
    (h : crawlCells c p page descend i pointers s = some (b, t)) :
    b = true ∧
      Explored p index (fun n => ∃ (k : ℕ) (pointer : ℤ) (cell : Cell),
        pointers[k]? = some pointer ∧
        Cell.doInitialize p page.type page.data pointer = some cell ∧ target cell n) s t ∧
      ∀ (k : ℕ) (pointer : ℤ) (cell : Cell), pointers[k]? = some pointer →
        Cell.doInitialize p page.type page.data pointer = some cell →
        ⟨page.number, i + k, cell⟩ ∈ t.delivered ∧
        ∀ n page', target cell n → Good p index n page' → n ∈ t.crawledInteriorPages := by
  induction pointers generalizing i s with
  | nil =>
    rw [crawlCells, Option.some.injEq, Prod.mk.injEq] at h
    obtain ⟨rfl, rfl⟩ := h
    exact ⟨rfl, explored_of_same rfl rfl fun d hd => hd,
      fun k pointer cell hk => absurd hk (by simp)⟩
  | cons pointer pointers ih =>
    cases hcell : Cell.doInitialize p page.type page.data pointer with
    | none =>
      rw [crawlCells_of_failed c (hc.running s.own) hcell] at h
      obtain ⟨hb, hrest, hrest'⟩ := ih (i + 1)
        ((s.polled c).markAsError c page.number .cellFailed) hs h
      have hfirst : Explored p index (fun n => ∃ (k : ℕ) (pointer' : ℤ) (cell : Cell),
          (pointer :: pointers)[k]? = some pointer' ∧
          Cell.doInitialize p page.type page.data pointer' = some cell ∧ target cell n) s
          ((s.polled c).markAsError c page.number .cellFailed) :=
        explored_of_same rfl rfl fun d hd => hd
      refine ⟨hb, hfirst.trans (hrest.mono ?_), ?_⟩
      · rintro n ⟨k, pointer', cell, hk, hcell'⟩
        exact ⟨k + 1, pointer', cell, hk, hcell'⟩
      · intro k pointer' cell hk hcell'
        cases k with
        | zero =>
          rw [← Option.some.inj hk, hcell] at hcell'
          exact absurd hcell' (by simp)
        | succ k =>
          have := hrest' k pointer' cell hk hcell'
          rwa [Nat.add_assoc, Nat.add_comm 1] at this
    | some cell =>
      cases hn : descend cell (s.polled c) with
      | none =>
        simp only [polled, ask] at hn
        simp [crawlCells, ask, hcell, hn, hc.running] at h
      | some u =>
        rw [crawlCells_of_cell c (hc.running s.own) hcell hn] at h
        obtain ⟨hdescend, hdescend'⟩ := hcall cell (s.polled c) u hs hn
        have hdeliver : Explored p index (target cell) u (u.deliver c page.number i cell) :=
          explored_of_same rfl rfl fun d hd => List.mem_append_left _ hd
        obtain ⟨hb, hrest, hrest'⟩ := ih (i + 1) (u.deliver c page.number i cell)
          (hdescend.flag hs) h
        have hpolled : Explored p index (target cell) s (s.polled c) :=
          explored_of_same rfl rfl fun d hd => hd
        refine ⟨hb, ((hpolled.trans (hdescend.trans hdeliver)).mono ?_).trans (hrest.mono ?_), ?_⟩
        · exact fun n hn => ⟨0, pointer, cell, rfl, hcell, hn⟩
        · rintro n ⟨k, pointer', cell', hk, hcell'⟩
          exact ⟨k + 1, pointer', cell', hk, hcell'⟩
        · intro k pointer' cell' hk hcell'
          cases k with
          | zero =>
            rw [← Option.some.inj hk, hcell] at hcell'
            obtain rfl := Option.some.inj hcell'
            refine ⟨hrest.delivered _ (List.mem_append_right _ (List.mem_singleton_self _)), ?_⟩
            exact fun n page' hn hgood => hrest.pages n (hdescend' n page' hn hgood)
          | succ k =>
            have := hrest' k pointer' cell' hk hcell'
            rwa [Nat.add_assoc, Nat.add_comm 1] at this

end Explore

theorem followed_iff {n m : ℤ} {page : Page} (hpage : Good p index n page) :
    Followed p index n m ↔ page.type = .interiorTable ∧ m ∈ page.subpagenos ∨
      page.type = .interiorIndex ∧ (m = page.subpagenos.getLastD 0 ∨
        ∃ i cell, page.HasCell p i cell ∧ m = cell.leftChild) := by
  constructor
  · rintro ⟨q, hq, hfollowed⟩
    rwa [hpage.unique hq] at hfollowed
  · exact fun hfollowed => ⟨page, hpage, hfollowed⟩

theorem done_iff {n : ℤ} {page : Page} (hpage : Good p index n page) {t : Crawl σ} :
    Done p index n t ↔ (∀ i cell, page.HasCell p i cell → ⟨n, i, cell⟩ ∈ t.delivered) ∧
      ∀ m q, Followed p index n m → Good p index m q → m ∈ t.crawledInteriorPages := by
  constructor
  · exact fun hdone => hdone page hpage
  · intro hdone q hq
    rwa [hpage.unique hq]

section Explore

variable (hc : Unrefusing c)

include hc

theorem explored_leaf {n : ℤ} {page : Page} (hpage : Good p index n page)
    (hleaf : page.type.isLeafPage = true) (s t : Crawl σ) (hs : s.isCrawlingIndexTable = index)
    (h : crawlContent c p crawlPage page s = some t) :
    Explored p index (Followed p index n) s t ∧ Done p index n t := by
  rw [crawlContent_leaf c hleaf] at h
  obtain ⟨⟨b, u⟩, hcells, rfl⟩ := Option.map_eq_some_iff.mp h
  obtain ⟨-, hexplored, hdelivered⟩ := explored_crawlCells c hc
    (fun (_ : Cell) => explores_some (fun _ => False) fun _ h => h) page page.cellPointers 0 s u b
    hs hcells
  refine ⟨hexplored.mono fun m hm => ?_, (done_iff hpage).mpr ⟨?_, fun m q hm => ?_⟩⟩
  · obtain ⟨-, -, -, -, -, hm⟩ := hm
    exact hm.elim
  · rintro i cell ⟨-, pointer, hpointer, hcell⟩
    have hat := (hdelivered i pointer cell hpointer hcell).1
    rwa [Page.number_of_doInitialize hpage.page_eq, Nat.zero_add] at hat
  · obtain ⟨htype, -⟩ | ⟨htype, -⟩ := (followed_iff hpage).mp hm
    · exact absurd hleaf (by simp [htype, PageType.isLeafPage])
    · exact absurd hleaf (by simp [htype, PageType.isLeafPage])

theorem explored_table (hcall : ∀ n, Explores p index (· = n) (crawlPage n)) {n : ℤ} {page : Page}
    (hpage : Good p index n page) (htype : page.type = .interiorTable) (s t : Crawl σ)
    (hs : s.isCrawlingIndexTable = index) (h : crawlContent c p crawlPage page s = some t) :
    Explored p index (Followed p index n) s t ∧ Done p index n t := by
  rw [crawlContent, htype] at h
  obtain ⟨hexplored, hcrawled⟩ := explored_crawlSubpages c hc hcall page.subpagenos s t hs h
  refine ⟨hexplored.mono fun m hm => (followed_iff hpage).mpr (.inl ⟨htype, hm⟩),
    (done_iff hpage).mpr ⟨fun i cell hcell => absurd htype hcell.1, fun m q hm hq => ?_⟩⟩
  obtain ⟨-, hm⟩ | ⟨hindex, -⟩ := (followed_iff hpage).mp hm
  · exact hcrawled m q hm hq
  · exact absurd (htype.symm.trans hindex) (by simp)

theorem explored_index (hcall : ∀ n, Explores p index (· = n) (crawlPage n)) {n : ℤ} {page : Page}
    (hpage : Good p index n page) (htype : page.type = .interiorIndex) (s t : Crawl σ)
    (hs : s.isCrawlingIndexTable = index) (h : crawlContent c p crawlPage page s = some t) :
    Explored p index (Followed p index n) s t ∧ Done p index n t := by
  rw [crawlContent, htype] at h
  cases hcells :
    crawlCells c p page (fun cell => crawlPage cell.leftChild) 0 page.cellPointers s with
  | none => simp [hcells] at h
  | some result =>
    obtain ⟨b, u⟩ := result
    obtain ⟨rfl, hexplored, hdelivered⟩ := explored_crawlCells c hc
      (fun cell => hcall cell.leftChild) page page.cellPointers 0 s u b hs hcells
    rw [hcells] at h
    obtain ⟨hlast, hlast'⟩ := hcall (page.subpagenos.getLastD 0) u t (hexplored.flag hs) h
    refine ⟨(hexplored.mono fun m hm => ?_).trans (hlast.mono fun m hm => ?_),
      (done_iff hpage).mpr ⟨?_, fun m q hm hq => ?_⟩⟩
    · obtain ⟨k, pointer, cell, hpointer, hcell, hm⟩ := hm
      exact (followed_iff hpage).mpr (.inr ⟨htype, .inr ⟨k, cell,
        ⟨by simp [htype], pointer, hpointer, hcell⟩, hm⟩⟩)
    · exact (followed_iff hpage).mpr (.inr ⟨htype, .inl hm⟩)
    · rintro i cell ⟨-, pointer, hpointer, hcell⟩
      have hat := (hdelivered i pointer cell hpointer hcell).1
      rw [Page.number_of_doInitialize hpage.page_eq, Nat.zero_add] at hat
      exact hlast.delivered _ hat
    · obtain ⟨htable, -⟩ | ⟨-, hm | ⟨i, cell, ⟨-, pointer, hpointer, hcell⟩, hm⟩⟩ :=
        (followed_iff hpage).mp hm
      · exact absurd (htype.symm.trans htable) (by simp)
      · exact hlast' m q hm hq
      · exact hlast.pages m ((hdelivered i pointer cell hpointer hcell).2 m q hm hq)

theorem explored_crawlContent (hcall : ∀ n, Explores p index (· = n) (crawlPage n)) {n : ℤ}
    {page : Page} (hpage : Good p index n page) (s t : Crawl σ)
    (hs : s.isCrawlingIndexTable = index)
    (h : crawlContent c p crawlPage page s = some t) :
    Explored p index (Followed p index n) s t ∧ Done p index n t := by
  cases htype : page.type with
  | interiorTable => exact explored_table c hc hcall hpage htype s t hs h
  | interiorIndex => exact explored_index c hc hcall hpage htype s t hs h
  | leafTable => exact explored_leaf c hc hpage (by simp [htype, PageType.isLeafPage]) s t hs h
  | leafIndex => exact explored_leaf c hc hpage (by simp [htype, PageType.isLeafPage]) s t hs h
  | unknown => exact absurd htype hpage.known

/-- A call on a child page, or on the root page. -/
theorem explored_safeCrawl (fuel : ℕ) : ∀ (n : ℤ) (height : ℕ) (s t : Crawl σ),
    1 ≤ height → (height = 1 → kindOf p n = index) → (height ≠ 1 → s.isCrawlingIndexTable = index) →
    safeCrawl c p fuel n height s = some t →
    Explored p index (· = n) s t ∧ ∀ page, Good p index n page → n ∈ t.crawledInteriorPages := by
  induction fuel with
  | zero => exact fun n height s t _ _ _ h => absurd h (by simp [safeCrawl])
  | succ fuel ih =>
    intro n height s u hheight hroot hkind h
    obtain ⟨t, ht, hstop⟩ | ⟨page, t, henter, ht⟩ := safeCrawl_cases c p n height s
    · rw [ht fuel] at h
      obtain rfl := Option.some.inj h
      refine ⟨⟨?_, fun m hm => hstop.pages ▸ hm, fun d hd => hstop.delivered ▸ hd,
        fun m hm hm' => absurd (hstop.pages ▸ hm) hm',
        fun m hm hm' => absurd (hstop.pages ▸ hm) hm'⟩, ?_⟩
      · exact fun hs => (hstop.flag fun h1 => (hroot h1).trans hs.symm).trans hs
      · intro page hgood
        obtain hmem | hnone | ⟨page', hpage', hchild, hne⟩ := hstop.reason hc
        · rwa [hstop.pages]
        · rw [hgood.page_eq] at hnone
          exact absurd hnone (by simp)
        · rw [hgood.page_eq] at hpage'
          obtain rfl := Option.some.inj hpage'
          exact absurd ((hkind hchild).trans hgood.kind.symm) hne
    · rw [ht fuel] at h
      have hindex : t.isCrawlingIndexTable = index := by
        by_cases h1 : height = 1
        · rw [henter.flag, ← hroot h1, kindOf, henter.page_eq]
        · rw [henter.kept h1, hkind h1]
      have hcall : ∀ m, Explores p index (· = m) fun s => safeCrawl c p fuel m (height + 1) s :=
        fun m s t hs hst => by
          obtain ⟨hexplored, hmem⟩ := ih m (height + 1) s t (by omega)
            (fun h1 => absurd h1 (by omega)) (fun _ => hs) hst
          exact ⟨hexplored, fun m' page hm' hgood => hm' ▸ hmem page (hm' ▸ hgood)⟩
      -- The content is explored below the children that the page leads to.
      have hcontent : Explored p index (Followed p index n) t u ∧ Done p index n u := by
        by_cases hknown : page.type = .unknown
        · rw [crawlContent, hknown] at h
          obtain rfl := Option.some.inj h
          refine ⟨explored_of_same rfl rfl fun d hd => hd, fun q hq => ?_⟩
          have hq' : q = page := Option.some.inj (hq.page_eq.symm.trans henter.page_eq)
          exact absurd (hq' ▸ hknown) hq.known
        · exact explored_crawlContent c hc hcall
            ⟨henter.page_eq, hknown, henter.flag.symm.trans hindex⟩ t u hindex h
      obtain ⟨hexplored, hdone⟩ := hcontent
      have hmem : n ∈ u.crawledInteriorPages :=
        hexplored.pages n (by rw [henter.pages]; exact List.mem_cons_self)
      have hold : ∀ m ∈ u.crawledInteriorPages, m ∉ s.crawledInteriorPages →
          m = n ∨ m ∉ t.crawledInteriorPages := by
        intro m _ hm'
        rw [henter.pages, List.mem_cons, not_or]
        by_cases hmn : m = n
        · exact .inl hmn
        · exact .inr ⟨hmn, hm'⟩
      refine ⟨⟨fun _ => hexplored.flag hindex, fun m hm => hexplored.pages m ?_,
        fun d hd => hexplored.delivered d (henter.delivered ▸ hd), fun m hm hm' => ?_,
        fun m hm hm' => ?_⟩, fun _ _ => hmem⟩
      · rw [henter.pages]
        exact List.mem_cons_of_mem n hm
      · obtain rfl | hmt := hold m hm hm'
        · exact hdone
        · exact hexplored.done m hm hmt
      · obtain rfl | hmt := hold m hm hm'
        · exact ⟨m, rfl, .refl⟩
        · obtain ⟨k, hk, hpath⟩ := hexplored.origin m hm hmt
          exact ⟨n, rfl, .head hk hpath⟩

end Explore

/-- The good pages that can be reached over followed children are those that are crawled. -/
theorem crawl_reached (hc : Unrefusing c) {root : ℤ} {flag : Bool} {own : σ} {fuel : ℕ}
    {t : Crawl σ} (h : crawl c p fuel root flag own = some t) :
    (∀ m ∈ t.crawledInteriorPages, Done p (kindOf p root) m t) ∧
    (∀ m ∈ t.crawledInteriorPages, ReflTransGen (Followed p (kindOf p root)) root m) ∧
    ∀ m page, ReflTransGen (Followed p (kindOf p root)) root m → Good p (kindOf p root) m page →
      m ∈ t.crawledInteriorPages := by
  obtain ⟨hexplored, hroot⟩ := explored_safeCrawl c hc fuel root 1 ⟨own, [], flag, []⟩ t
    (le_refl 1) (fun _ => rfl) (fun h1 => absurd rfl h1) h
  refine ⟨fun m hm => hexplored.done m hm (by simp), fun m hm => ?_, fun m page hpath => ?_⟩
  · obtain ⟨n, rfl, hpath⟩ := hexplored.origin m hm (by simp)
    exact hpath
  · induction hpath generalizing page with
    | refl => exact hroot page
    | tail hpath hstep ih =>
      obtain ⟨q, hq, -⟩ := id hstep
      exact fun hgood => (hexplored.done _ (ih q hq) (by simp) q hq).2 _ page hstep hgood

/-! ### The contract of a crawl -/

/-- What is asked of a crawl from `root`. -/
structure Crawls (p : Pager) (root : ℤ) : Prop where
  ends : ∀ {σ : Type} (c : Crawler σ) (flag : Bool) (own : σ), ∃ t, ∀ fuel,
    p.numberOfPages.toNat < fuel → crawl c p fuel root flag own = some t
  once : ∀ {σ : Type} (c : Crawler σ) (flag : Bool) (own : σ) (fuel : ℕ) (t : Crawl σ),
    crawl c p fuel root flag own = some t → (t.delivered.map place).Nodup
  ordered : ∀ {σ : Type} (c : Crawler σ) (flag : Bool) (own : σ) (fuel : ℕ) (t : Crawl σ),
    Unrefusing c → crawl c p fuel root flag own = some t →
    ∀ index lt depth part, IsTree p index lt depth root part → part.pages.Nodup →
      t.delivered = part.cells ∧ t.delivered.Pairwise fun x y => lt x.cell y.cell
  complete : ∀ {σ : Type} (c : Crawler σ) (flag : Bool) (own : σ) (fuel : ℕ) (t : Crawl σ),
    Unrefusing c → crawl c p fuel root flag own = some t →
    ∀ n page i cell, ReflTransGen (Child p (kindOf p root)) root n →
      Good p (kindOf p root) n page → page.HasCell p i cell → ⟨n, i, cell⟩ ∈ t.delivered

/-- A crawler that only walks. -/
def idle : Crawler Unit where
  isSuspended := fun own => (false, own)
  canCrawlPage := fun _ own => (true, own)
  willCrawlPage := fun _ _ own => (true, own)
  onCellCrawled := fun _ _ own => own
  onCrawlerError := fun _ _ own => own

theorem unrefusing_idle : Unrefusing idle := ⟨fun _ => rfl, fun _ _ => rfl, fun _ _ _ => rfl⟩

/-- Every crawl ends, delivers no cell twice and delivers a well-formed tree in key order. It
delivers every cell of every page that can be reached through good interior pages exactly when such
a page can also be reached without the left child of a cell that does not initialise. -/
theorem crawls_iff (p : Pager) (root : ℤ) :
    Crawls p root ↔ ∀ n page i cell, ReflTransGen (Child p (kindOf p root)) root n →
      Good p (kindOf p root) n page → page.HasCell p i cell →
      ReflTransGen (Followed p (kindOf p root)) root n := by
  constructor
  · intro hcrawls n page i cell hchild hgood hcell
    obtain ⟨t, ht, -, -, hpages⟩ := crawl_total idle p root false ()
    have hrun := ht (p.numberOfPages.toNat + 1) (by omega)
    have hdelivered := hcrawls.complete idle false () _ t unrefusing_idle hrun n page i cell hchild
      hgood hcell
    exact (crawl_reached idle unrefusing_idle hrun).2.1 n (hpages _ hdelivered)
  · intro hreach
    refine ⟨fun c flag own => ?_, fun c flag own fuel t h => ?_,
      fun c flag own fuel t hc h index lt depth part htree hnodup => ?_,
      fun c flag own fuel t hc h n page i cell hchild hgood hcell => ?_⟩
    · obtain ⟨t, ht, -⟩ := crawl_total c p root flag own
      exact ⟨t, ht⟩
    · obtain ⟨u, -, hunique, hnodup, -⟩ := crawl_total c p root flag own
      rwa [hunique fuel t h]
    · have hdelivered :=
        (delivers_safeCrawl c hc depth root part htree hnodup fuel 1 _ t (le_refl 1)
        (fun h1 => absurd rfl h1) (by simp) h).2.1
      rw [List.nil_append] at hdelivered
      rw [hdelivered]
      exact ⟨rfl, htree.pairwise⟩
    · obtain ⟨hdone, -, hcrawled⟩ := crawl_reached c hc h
      have hmem := hcrawled n page (hreach n page i cell hchild hgood hcell) hgood
      exact (hdone n hmem page hgood).1 i cell hcell

/-! ### A lost subtree -/

/-- A page of 512 bytes that starts with the bytes given. -/
def padded (bytes : List UInt8) : List UInt8 := bytes ++ List.replicate (512 - bytes.length) 0

/-- An index of three pages. The root has one cell, with the left child 3 and an empty payload,
which is no record, and the right-most child 4. Page 3 holds one record, and page 4 none. -/
def indexPage (n : ℤ) : Option (List UInt8) :=
  if n = 2 then some (padded [2, 0, 0, 0, 1, 0, 0, 0, 0, 0, 0, 4, 0, 14, 0, 0, 0, 3, 0])
  else if n = 3 then some (padded [10, 0, 0, 0, 1, 0, 0, 0, 0, 10, 2, 2, 8])
  else if n = 4 then some (padded [10])
  else none

theorem indexPage_spec {n : ℤ} {data : List UInt8} (h : indexPage n = some data) :
    data.length = 512 ∧ 0 < n ∧ n ≤ 4 := by
  unfold indexPage at h
  split_ifs at h with h2 h3 h4
  · rw [← Option.some.inj h, h2]
    exact ⟨by decide +kernel, by decide⟩
  · rw [← Option.some.inj h, h3]
    exact ⟨by decide +kernel, by decide⟩
  · rw [← Option.some.inj h, h4]
    exact ⟨by decide +kernel, by decide⟩

def indexPager : Pager where
  pageSize := 512
  reservedBytes := 0
  numberOfPages := 4
  acquirePageData := indexPage
  pageSize_ge := smallestPage_ge
  pageSize_le := smallestPage_le
  reservedBytes_le := unreserved_le
  numberOfPages_lt := by decide
  length_data := fun _ _ h => (indexPage_spec h).1
  range_data := fun _ _ h => (indexPage_spec h).2

/-- The record of page 3, a child of the good root, is not delivered. -/
theorem not_crawls_indexPager :
    (∃ page cell, Child indexPager true 2 3 ∧ Good indexPager true 3 page ∧
      page.HasCell indexPager 0 cell) ∧
    (∃ t, crawl idle indexPager 5 2 false () = some t ∧ t.delivered = []) ∧
    ¬Crawls indexPager 2 := by
  have hroot : Page.doInitialize indexPager 2 = some ⟨2,
      padded [2, 0, 0, 0, 1, 0, 0, 0, 0, 0, 0, 4, 0, 14, 0, 0, 0, 3, 0], .interiorIndex, [14],
      [3, 4]⟩ := by decide +kernel
  have hleaf : Page.doInitialize indexPager 3 = some ⟨3,
      padded [10, 0, 0, 0, 1, 0, 0, 0, 0, 10, 2, 2, 8], .leafIndex, [10], []⟩ := by decide +kernel
  have hkind : kindOf indexPager 2 = true := by rw [kindOf, hroot]; rfl
  have hchild : Child indexPager true 2 3 := ⟨_, ⟨hroot, by simp, rfl⟩, by simp⟩
  have hgood : Good indexPager true 3 _ := ⟨hleaf, by simp, rfl⟩
  have hcell : Page.HasCell indexPager ⟨3, padded [10, 0, 0, 0, 1, 0, 0, 0, 0, 10, 2, 2, 8],
      .leafIndex, [10], []⟩ 0 ⟨0, 0, [2, 8], [(8, 2)]⟩ :=
    ⟨by simp, 10, rfl, by decide +kernel⟩
  have hrun : (crawl idle indexPager 5 2 false ()).map Crawl.delivered = some [] := by
    decide +kernel
  obtain ⟨t, ht, hdelivered⟩ := Option.map_eq_some_iff.mp hrun
  refine ⟨⟨_, _, hchild, hgood, hcell⟩, ⟨t, ht, hdelivered⟩, fun hcrawls => ?_⟩
  have hmem := hcrawls.complete idle false () 5 t unrefusing_idle ht 3 _ 0 _
    (by rw [hkind]; exact .single hchild) (by rw [hkind]; exact hgood) hcell
  rw [hdelivered] at hmem
  exact absurd hmem List.not_mem_nil

end Crawl

end Wcdb.Repair
