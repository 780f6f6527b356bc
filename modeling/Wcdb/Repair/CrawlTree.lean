import Mathlib.Data.List.Forall2
import Wcdb.Repair.CrawlTotal

/-!
# Crawling a well-formed tree

`IsTree` describes a well-formed b-tree of the file format: pages of one kind, all of whose cells
initialise, and keys that grow from left to right. An unrefused crawl delivers the cells of such a
tree **in key order**, each once.
-/

namespace Wcdb.Repair

namespace Crawl

variable {σ : Type} (c : Crawler σ) {p : Pager}
  {crawlPage : ℤ → Crawl σ → Option (Crawl σ)} {descend : Cell → Crawl σ → Option (Crawl σ)}

/-! ### Well-formed trees -/

/-- The pages of a subtree, and its cells in key order. -/
structure Part where
  pages : List ℤ
  cells : List Delivery

/-- The cells of page `n` from place `i` on. -/
def deliveries (n : ℤ) : ℕ → List Cell → List Delivery
  | _, [] => []
  | i, cell :: cells => ⟨n, i, cell⟩ :: deliveries n (i + 1) cells

/-- The left subtree of each cell of page `n`, and the cell. -/
def interleave (n : ℤ) : ℕ → List Cell → List Part → List (List Delivery)
  | i, cell :: cells, part :: parts =>
    part.cells :: [⟨n, i, cell⟩] :: interleave n (i + 1) cells parts
  | _, _, _ => []

/-- All the cells of a page initialise. -/
def HasCells (p : Pager) (page : Page) (cells : List Cell) : Prop :=
  List.Forall₂ (fun pointer cell => Cell.doInitialize p page.type page.data pointer = some cell)
    page.cellPointers cells

/-- What stands further left is smaller. -/
def Ordered (lt : Cell → Cell → Prop) (segments : List (List Delivery)) : Prop :=
  segments.Pairwise fun a b => ∀ x ∈ a, ∀ y ∈ b, lt x.cell y.cell

/-- Page `n` is the root of a well-formed b-tree of the given depth, whose keys are ordered by
`lt`. -/
def IsTree (p : Pager) (index : Bool) (lt : Cell → Cell → Prop) : ℕ → ℤ → Part → Prop
  | 0, n, part => ∃ page cells, Good p index n page ∧ page.type.isLeafPage = true ∧
      HasCells p page cells ∧ cells.Pairwise lt ∧ part = ⟨[n], deliveries n 0 cells⟩
  | depth + 1, n, part => ∃ page, Good p index n page ∧
      ((page.type = .interiorTable ∧ ∃ parts,
        List.Forall₂ (IsTree p index lt depth) page.subpagenos parts ∧
        Ordered lt (parts.map Part.cells) ∧
        part = ⟨n :: parts.flatMap Part.pages, (parts.map Part.cells).flatten⟩) ∨
      (page.type = .interiorIndex ∧ ∃ cells parts last, HasCells p page cells ∧
        List.Forall₂ (fun cell part => IsTree p index lt depth cell.leftChild part) cells parts ∧
        IsTree p index lt depth (page.subpagenos.getLastD 0) last ∧
        Ordered lt (interleave n 0 cells parts ++ [last.cells]) ∧
        part = ⟨n :: (parts.flatMap Part.pages ++ last.pages),
          (interleave n 0 cells parts ++ [last.cells]).flatten⟩))

theorem exists_of_forall₂ {α β : Type} {r : α → β → Prop} {as : List α} {bs : List β}
    (h : List.Forall₂ r as bs) {b : β} (hb : b ∈ bs) : ∃ a ∈ as, r a b := by
  induction h with
  | nil => exact absurd hb List.not_mem_nil
  | cons hr _ ih =>
    obtain rfl | hb := List.mem_cons.mp hb
    · exact ⟨_, List.mem_cons_self, hr⟩
    · obtain ⟨a, ha, hr'⟩ := ih hb
      exact ⟨a, List.mem_cons_of_mem _ ha, hr'⟩

/-- Subtrees that share no page have distinct pages each. -/
theorem forall₂_nodup {α : Type} {r r' : α → Part → Prop} {as : List α} {parts : List Part}
    (h : List.Forall₂ r as parts) (hnodup : (parts.flatMap Part.pages).Nodup)
    (himp : ∀ a part, r a part → part.pages.Nodup → r' a part) : List.Forall₂ r' as parts := by
  induction h with
  | nil => exact .nil
  | cons hr _ ih =>
    rw [List.flatMap_cons, List.nodup_append] at hnodup
    exact .cons (himp _ _ hr hnodup.1) (ih hnodup.2.1)

theorem cells_deliveries (n : ℤ) (i : ℕ) (cells : List Cell) :
    (deliveries n i cells).map Delivery.cell = cells := by
  induction cells generalizing i with
  | nil => rfl
  | cons cell cells ih => rw [deliveries, List.map_cons, ih]

theorem mem_interleave {n : ℤ} {i : ℕ} {cells : List Cell} {parts : List Part}
    {segment : List Delivery} (h : segment ∈ interleave n i cells parts) :
    (∃ part ∈ parts, segment = part.cells) ∨ ∃ d, segment = [d] := by
  induction cells generalizing i parts with
  | nil => simp [interleave] at h
  | cons cell cells ih =>
    cases parts with
    | nil => simp [interleave] at h
    | cons part parts =>
      simp only [interleave, List.mem_cons] at h
      obtain rfl | rfl | h := h
      · exact .inl ⟨part, List.mem_cons_self, rfl⟩
      · exact .inr ⟨_, rfl⟩
      · obtain ⟨q, hq, hsegment⟩ | hsingle := ih h
        · exact .inl ⟨q, List.mem_cons_of_mem part hq, hsegment⟩
        · exact .inr hsingle

/-- The cells of a well-formed tree stand in key order. -/
theorem IsTree.pairwise {lt : Cell → Cell → Prop} {index : Bool} {depth : ℕ} {n : ℤ} {part : Part}
    (h : IsTree p index lt depth n part) : part.cells.Pairwise fun x y => lt x.cell y.cell := by
  induction depth generalizing n part with
  | zero =>
    obtain ⟨page, cells, -, -, -, hsorted, rfl⟩ := h
    rw [← cells_deliveries n 0 cells, List.pairwise_map] at hsorted
    exact hsorted
  | succ depth ih =>
    obtain ⟨page, -, ⟨-, parts, htrees, hordered, rfl⟩ |
      ⟨-, cells, parts, last, -, htrees, hlast, hordered, rfl⟩⟩ := h
    · refine List.pairwise_flatten.mpr ⟨fun segment hsegment => ?_, hordered⟩
      obtain ⟨q, hq, rfl⟩ := List.mem_map.mp hsegment
      obtain ⟨m, -, htree⟩ := exists_of_forall₂ htrees hq
      exact ih htree
    · refine List.pairwise_flatten.mpr ⟨fun segment hsegment => ?_, hordered⟩
      obtain hsegment | hsegment := List.mem_append.mp hsegment
      · obtain ⟨q, hq, rfl⟩ | ⟨d, rfl⟩ := mem_interleave hsegment
        · obtain ⟨m, -, htree⟩ := exists_of_forall₂ htrees hq
          exact ih htree
        · exact List.pairwise_singleton _ d
      · rw [List.mem_singleton.mp hsegment]
        exact ih hlast

/-! ### A crawl delivers a well-formed tree in order -/

/-- What a call on the root of a subtree owes. -/
def Delivers (index : Bool) (part : Part) (f : Crawl σ → Option (Crawl σ)) : Prop :=
  ∀ s t, s.isCrawlingIndexTable = index → (∀ m ∈ part.pages, m ∉ s.crawledInteriorPages) →
    f s = some t → t.isCrawlingIndexTable = index ∧ t.delivered = s.delivered ++ part.cells ∧
      ∀ m ∈ t.crawledInteriorPages, m ∈ s.crawledInteriorPages ∨ m ∈ part.pages

section Tree

variable (hc : Unrefusing c)

include hc

theorem delivers_crawlSubpages {index : Bool} {ns : List ℤ} {parts : List Part}
    (hcall : List.Forall₂ (fun n part => Delivers index part (crawlPage n)) ns parts)
    (hnodup : (parts.flatMap Part.pages).Nodup) :
    Delivers index ⟨parts.flatMap Part.pages, (parts.map Part.cells).flatten⟩
      (crawlSubpages c crawlPage ns) := by
  induction hcall with
  | nil =>
    intro s t hs _ h
    obtain rfl := Option.some.inj h
    exact ⟨hs, by simp, fun m hm => .inl hm⟩
  | @cons n part ns parts hn _ ih =>
    intro s u hs hfresh h
    rw [List.flatMap_cons, List.nodup_append] at hnodup
    obtain ⟨-, hnodup, hdisjoint⟩ := hnodup
    simp only [List.flatMap_cons, List.mem_append] at hfresh
    cases hcalled : crawlPage n (s.polled c) with
    | none =>
      simp only [polled, ask] at hcalled
      simp [crawlSubpages, ask, hcalled, hc.running] at h
    | some t =>
      rw [crawlSubpages_of_running c (hc.running s.own) hcalled] at h
      obtain ⟨hflag, hdelivered, hpages⟩ := hn (s.polled c) t hs (fun m hm => hfresh m (.inl hm))
        hcalled
      obtain ⟨hflag', hdelivered', hpages'⟩ := ih hnodup t u hflag (fun m hm hmt => by
        obtain hold | hnew := hpages m hmt
        · exact hfresh m (.inr hm) hold
        · exact hdisjoint m hnew m hm rfl) h
      refine ⟨hflag', ?_, fun m hm => ?_⟩
      · rw [hdelivered', hdelivered, List.map_cons, List.flatten_cons, List.append_assoc]
        rfl
      · simp only [List.flatMap_cons, List.mem_append]
        obtain hmt | hmu := hpages' m hm
        · exact (hpages m hmt).imp_right Or.inl
        · exact .inr (.inr hmu)

theorem delivers_crawlCells {index : Bool} {page : Page} {pointers : List ℤ} {cells : List Cell}
    {parts : List Part}
    (hcells : List.Forall₂ (fun pointer cell =>
      Cell.doInitialize p page.type page.data pointer = some cell) pointers cells)
    (hcall : List.Forall₂ (fun cell part => Delivers index part (descend cell)) cells parts)
    (hnodup : (parts.flatMap Part.pages).Nodup) (i : ℕ) (s t : Crawl σ) (b : Bool)
    (hs : s.isCrawlingIndexTable = index)
    (hfresh : ∀ m ∈ parts.flatMap Part.pages, m ∉ s.crawledInteriorPages)
    (h : crawlCells c p page descend i pointers s = some (b, t)) :
    b = true ∧ t.isCrawlingIndexTable = index ∧
      t.delivered = s.delivered ++ (interleave page.number i cells parts).flatten ∧
      ∀ m ∈ t.crawledInteriorPages, m ∈ s.crawledInteriorPages ∨ m ∈ parts.flatMap Part.pages := by
  induction hcells generalizing parts i s with
  | nil =>
    rw [crawlCells, Option.some.injEq, Prod.mk.injEq] at h
    obtain ⟨rfl, rfl⟩ := h
    exact ⟨rfl, hs, by simp [interleave], fun m hm => .inl hm⟩
  | @cons pointer cell pointers cells hcell _ ih =>
    obtain ⟨part, parts, hn, hrest, rfl⟩ := List.forall₂_cons_left_iff.mp hcall
    rw [List.flatMap_cons, List.nodup_append] at hnodup
    obtain ⟨-, hnodup, hdisjoint⟩ := hnodup
    simp only [List.flatMap_cons, List.mem_append] at hfresh
    cases hcalled : descend cell (s.polled c) with
    | none =>
      simp only [polled, ask] at hcalled
      simp [crawlCells, ask, hcell, hcalled, hc.running] at h
    | some u =>
      rw [crawlCells_of_cell c (hc.running s.own) hcell hcalled] at h
      obtain ⟨hflag, hdelivered, hpages⟩ := hn (s.polled c) u hs (fun m hm => hfresh m (.inl hm))
        hcalled
      obtain ⟨hb, hflag', hdelivered', hpages'⟩ := ih hrest hnodup (i + 1)
        (u.deliver c page.number i cell) hflag (fun m hm hmu => by
          obtain hold | hnew := hpages m hmu
          · exact hfresh m (.inr hm) hold
          · exact hdisjoint m hnew m hm rfl) h
      refine ⟨hb, hflag', ?_, fun m hm => ?_⟩
      · rw [hdelivered', deliver, hdelivered]
        simp [interleave, polled, ask]
      · simp only [List.flatMap_cons, List.mem_append]
        obtain hmu | hmt := hpages' m hm
        · exact (hpages m hmu).imp_right Or.inl
        · exact .inr (.inr hmt)

end Tree

theorem interleave_of_leaves (n : ℤ) (i : ℕ) (cells : List Cell) :
    (interleave n i cells (cells.map fun _ => ⟨[], []⟩)).flatten = deliveries n i cells := by
  induction cells generalizing i with
  | nil => rfl
  | cons cell cells ih =>
    rw [List.map_cons, interleave, List.flatten_cons, List.flatten_cons, ih]
    rfl

theorem pages_of_leaves (cells : List Cell) :
    (cells.map fun _ => (⟨[], []⟩ : Part)).flatMap Part.pages = [] := by
  simp

section Tree

variable (hc : Unrefusing c)

include hc

/-- A call on a good page that is not crawled yet comes to its content. -/
theorem entered_of_good {n : ℤ} {height : ℕ} {page : Page} {index : Bool}
    (hgood : Good p index n page) {s : Crawl σ} (hfresh : n ∉ s.crawledInteriorPages)
    (hkind : height ≠ 1 → s.isCrawlingIndexTable = index) :
    ∃ t, Entered p n height page s t ∧ ∀ fuel, safeCrawl c p (fuel + 1) n height s =
      crawlContent c p (fun pageno => safeCrawl c p fuel pageno (height + 1)) page t := by
  obtain ⟨t, -, hstop⟩ | ⟨q, t, henter, ht⟩ := safeCrawl_cases c p n height s
  · obtain hmem | hnone | ⟨q, hq, hchild, hne⟩ := hstop.reason hc
    · exact absurd hmem hfresh
    · rw [hgood.page_eq] at hnone
      exact absurd hnone (by simp)
    · rw [hgood.page_eq] at hq
      obtain rfl := Option.some.inj hq
      exact absurd ((hkind hchild).trans hgood.kind.symm) hne
  · have hq : q = page := Option.some.inj (henter.page_eq.symm.trans hgood.page_eq)
    exact ⟨t, hq ▸ henter, hq ▸ ht⟩

/-- The call on the root of a well-formed tree delivers it. -/
theorem delivers_safeCrawl {lt : Cell → Cell → Prop} {index : Bool} (depth : ℕ) :
    ∀ (n : ℤ) (part : Part), IsTree p index lt depth n part → part.pages.Nodup →
    ∀ (fuel height : ℕ) (s u : Crawl σ), 1 ≤ height →
      (height ≠ 1 → s.isCrawlingIndexTable = index) →
      (∀ m ∈ part.pages, m ∉ s.crawledInteriorPages) →
      safeCrawl c p fuel n height s = some u →
      u.isCrawlingIndexTable = index ∧ u.delivered = s.delivered ++ part.cells ∧
        ∀ m ∈ u.crawledInteriorPages, m ∈ s.crawledInteriorPages ∨ m ∈ part.pages := by
  induction depth with
  | zero =>
    rintro n part ⟨page, cells, hgood, hleaf, hcells, -, rfl⟩ - fuel height s u - hkind hfresh h
    cases fuel with
    | zero => exact absurd h (by simp [safeCrawl])
    | succ fuel =>
      obtain ⟨t, henter, ht⟩ := entered_of_good c hc hgood (hfresh n (by simp)) hkind
      rw [ht fuel, crawlContent_leaf c hleaf] at h
      obtain ⟨⟨b, u⟩, hcontent, rfl⟩ := Option.map_eq_some_iff.mp h
      have hcall : List.Forall₂ (fun (_ : Cell) part => Delivers index part
          (some : Crawl σ → Option (Crawl σ))) cells (cells.map fun _ => ⟨[], []⟩) := by
        rw [List.forall₂_map_right_iff, List.forall₂_same]
        intro cell _ s t hs _ hst
        obtain rfl := Option.some.inj hst
        exact ⟨hs, by simp, fun m hm => .inl hm⟩
      obtain ⟨-, hflag, hdelivered, hpages⟩ := delivers_crawlCells c hc hcells hcall
        (by rw [pages_of_leaves]; exact List.nodup_nil) 0 t u b (henter.flag.trans hgood.kind)
        (by rw [pages_of_leaves]; simp) hcontent
      refine ⟨hflag, ?_, fun m hm => ?_⟩
      · rw [hdelivered, henter.delivered, interleave_of_leaves,
          Page.number_of_doInitialize hgood.page_eq]
      · obtain hmt | hnone := hpages m hm
        · rw [henter.pages, List.mem_cons] at hmt
          exact hmt.symm.imp_right fun hmn => by rw [hmn]; exact List.mem_singleton_self n
        · rw [pages_of_leaves] at hnone
          exact absurd hnone List.not_mem_nil
  | succ depth ih =>
    rintro n part ⟨page, hgood, hnode⟩ hnodup fuel height s u hheight hkind hfresh h
    cases fuel with
    | zero => exact absurd h (by simp [safeCrawl])
    | succ fuel =>
      have hn : n ∈ part.pages := by
        obtain ⟨-, parts, -, -, rfl⟩ | ⟨-, cells, parts, last, -, -, -, -, rfl⟩ := hnode <;> simp
      obtain ⟨t, henter, ht⟩ := entered_of_good c hc hgood (hfresh n hn) hkind
      have hindex : t.isCrawlingIndexTable = index := henter.flag.trans hgood.kind
      have hcall : ∀ m q, IsTree p index lt depth m q → q.pages.Nodup →
          Delivers index q fun s => safeCrawl c p fuel m (height + 1) s :=
        fun m q htree hq s u hs hf hsu =>
          ih m q htree hq fuel (height + 1) s u (by omega) (fun _ => hs) hf hsu
      rw [ht fuel, crawlContent] at h
      obtain ⟨htype, parts, htrees, -, rfl⟩ | ⟨htype, cells, parts, last, hcells, htrees, hlast, -,
        rfl⟩ := hnode
      · rw [htype] at h
        obtain ⟨hnot, hnodup⟩ := List.nodup_cons.mp hnodup
        have hdelivers : Delivers index
            ⟨parts.flatMap Part.pages, (parts.map Part.cells).flatten⟩
            (crawlSubpages c (fun m s => safeCrawl c p fuel m (height + 1) s) page.subpagenos) :=
          delivers_crawlSubpages c hc (forall₂_nodup htrees hnodup hcall) hnodup
        obtain ⟨hflag, hdelivered, hpages⟩ := hdelivers t u hindex (fun m hm hmt => by
          rw [henter.pages, List.mem_cons] at hmt
          obtain rfl | hmt := hmt
          · exact hnot hm
          · exact hfresh m (List.mem_cons_of_mem n hm) hmt) h
        refine ⟨hflag, by rw [hdelivered, henter.delivered], fun m hm => ?_⟩
        obtain hmt | hmp := hpages m hm
        · rw [henter.pages, List.mem_cons] at hmt
          exact hmt.symm.imp_right fun hmn => by rw [hmn]; exact List.mem_cons_self
        · exact .inr (List.mem_cons_of_mem n hmp)
      · rw [htype] at h
        obtain ⟨hnot, hnodup⟩ := List.nodup_cons.mp hnodup
        rw [List.nodup_append] at hnodup
        obtain ⟨hparts, hright, hdisjoint⟩ := hnodup
        have hfresh' : ∀ m ∈ parts.flatMap Part.pages ++ last.pages,
            m ∉ t.crawledInteriorPages := by
          intro m hm hmt
          rw [henter.pages, List.mem_cons] at hmt
          obtain rfl | hmt := hmt
          · exact hnot hm
          · exact hfresh m (List.mem_cons_of_mem n hm) hmt
        cases hresult : crawlCells c p page (fun cell s => safeCrawl c p fuel cell.leftChild
          (height + 1) s) 0 page.cellPointers t with
        | none => simp [hresult] at h
        | some result =>
          obtain ⟨b, v⟩ := result
          obtain ⟨rfl, hflag, hdelivered, hpages⟩ := delivers_crawlCells c hc hcells
            (forall₂_nodup htrees hparts fun cell q => hcall cell.leftChild q) hparts 0 t v b hindex
            (fun m hm => hfresh' m (List.mem_append_left _ hm)) hresult
          rw [hresult] at h
          obtain ⟨hflag', hdelivered', hpages'⟩ := hcall _ last hlast hright v u hflag
            (fun m hm hmv => by
              obtain hmt | hmp := hpages m hmv
              · exact hfresh' m (List.mem_append_right _ hm) hmt
              · exact hdisjoint m hmp m hm rfl) h
          refine ⟨hflag', ?_, fun m hm => ?_⟩
          · rw [hdelivered', hdelivered, henter.delivered,
              Page.number_of_doInitialize hgood.page_eq]
            simp
          · rw [List.mem_cons, List.mem_append]
            obtain hmv | hmp := hpages' m hm
            · obtain hmt | hmp := hpages m hmv
              · rw [henter.pages, List.mem_cons] at hmt
                exact hmt.symm.imp_right Or.inl
              · exact .inr (.inr (.inl hmp))
            · exact .inr (.inr (.inr hmp))

end Tree

end Crawl

end Wcdb.Repair
