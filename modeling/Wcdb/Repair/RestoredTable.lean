import Wcdb.Repair.CrawlTree
import Wcdb.Repair.PageWriter
import Wcdb.Repair.RetrieverRun
import Wcdb.Repair.VerifiedPages

/-!
# A table that the material lists is restored

`Mechanic` comes to the leaves that the material lists for a table directly, so that a damage to the
interior pages of the table does no harm to it, and a leaf whose hash has changed is left out.

`restores_listed` puts the two together: when `Mechanic::work` creates a table with rowids, its next
calls of the assembler are for the cells of the intact leaves, leaf by leaf. If the material lists
the leaves of a well-formed table and all are intact, these are all cells of the table in key order.
-/

namespace Wcdb.Repair

namespace Crawl

/-! ### The leaves of a table -/

/-- The leaves below a page, from left to right, of a tree of the given depth. -/
def leavesOf (p : Pager) : ℕ → ℤ → List Page
  | 0, n => (Page.doInitialize p n).toList
  | depth + 1, n =>
    match Page.doInitialize p n with
    | some page => page.subpagenos.flatMap (leavesOf p depth)
    | none => []

section Leaves

variable {p : Pager} {lt : Cell → Cell → Prop} {depth : ℕ} {n : ℤ} {part : Part}

theorem cellsOf_of_hasCells {page : Page} {cells : List Cell} (h : HasCells p page cells) :
    Mechanic.cellsOf p page = cells := by
  rw [Mechanic.cellsOf]
  unfold HasCells at h
  generalize page.cellPointers = pointers at h
  induction h with
  | nil => rfl
  | cons hcell _ ih => rw [List.filterMap_cons_some hcell, ih]

/-- A node of a table with children is an interior page of a table. -/
theorem IsTree.cases_table (h : IsTree p false lt (depth + 1) n part) :
    ∃ page parts, Good p false n page ∧
      List.Forall₂ (IsTree p false lt depth) page.subpagenos parts ∧
      part.cells = (parts.map Part.cells).flatten := by
  obtain ⟨page, hgood, ⟨htype, parts, htrees, -, rfl⟩ | ⟨htype, -⟩⟩ := h
  · exact ⟨page, parts, hgood, htrees, rfl⟩
  · have hkind := hgood.kind
    rw [htype] at hkind
    cases hkind

end Leaves

end Crawl

namespace Mechanic

open Crawl

variable {ρ κ : Type} [DecidableEq κ] {m : Meaning ρ κ} {current : Bool} {p q : Pager}

/-! ### The leaves that are intact -/

/-- A leaf as the material lists it. -/
def listed (leaf : Page) : Material.Page := ⟨.ofNat leaf.number.toNat, Material.crc32 leaf.data⟩

/-- A leaf as it was when it was listed. -/
def Intact (p q : Pager) (leaf : Page) : Prop :=
  Page.doInitialize q leaf.number = some leaf ∧ cellsOf q leaf = cellsOf p leaf

/-- The number of a page survives the record of it. -/
theorem int32_listed {leaf : Page} (hleaf : Page.doInitialize p leaf.number = some leaf) :
    int32 (listed leaf).number.toNat = leaf.number := by
  obtain ⟨data, hdata⟩ := Page.acquired_of_doInitialize hleaf
  have hrange := p.range_data _ _ hdata
  have hlt := hrange.2.trans_lt p.numberOfPages_lt
  rw [listed, UInt32.toNat_ofNat', Nat.mod_eq_of_lt (by omega), int32_of_lt (by omega)]
  exact Int.toNat_of_nonneg hrange.1.le

/-- The intact leaves of a well-formed table hold all of its cells. -/
theorem verifiedCells_listed {lt : Cell → Cell → Prop} {depth : ℕ} {n : ℤ} {part : Part}
    (htree : IsTree p false lt depth n part)
    (hintact : ∀ leaf ∈ leavesOf p depth n, Intact p q leaf) :
    ((leavesOf p depth n).map listed).flatMap (verifiedCells q) = part.cells.map Delivery.cell := by
  induction depth generalizing n part with
  | zero =>
    obtain ⟨page, cells, hgood, hleaf, hcells, -, rfl⟩ := htree
    rw [leavesOf, hgood.page_eq] at hintact ⊢
    obtain ⟨hsame, hsameCells⟩ := hintact page (by simp)
    have hpage : Page.doInitialize p page.number = some page := by
      rw [Page.number_of_doInitialize hgood.page_eq]
      exact hgood.page_eq
    have htype : page.type = .leafTable := by
      have hkind := hgood.kind
      cases htype : page.type <;> simp_all [PageType.isLeafPage, PageType.isIndexPage]
    rw [Option.toList_some, List.map_singleton, List.flatMap_singleton, verifiedCells,
      int32_listed hpage, hsame]
    simp only [htype, listed, and_self, if_true]
    rw [hsameCells, cellsOf_of_hasCells hcells]
    exact (cells_deliveries n 0 cells).symm
  | succ depth ih =>
    obtain ⟨page, parts, hgood, htrees, hcells⟩ := htree.cases_table
    rw [leavesOf, hgood.page_eq] at hintact ⊢
    rw [hcells]
    clear htree hgood hcells
    dsimp only at hintact ⊢
    generalize page.subpagenos = ns at htrees hintact ⊢
    induction htrees with
    | nil => rfl
    | cons htree _ ihparts =>
      simp only [List.flatMap_cons, List.forall_mem_append] at hintact
      rw [List.flatMap_cons, List.map_append, List.flatMap_append, ih htree hintact.1,
        ihparts hintact.2, List.map_cons, List.flatten_cons, List.map_append]

/-! ### The calls for a table -/

/-- `assembleTable` and `assembleSequence` succeed for a content, and the table has rowids. -/
def Created (m : Meaning ρ κ) (name : Name) (content : Material.Content) (s : Retrieval ρ κ) :
    Prop :=
  let created := s.repairmanCall m (.assembleTable name content.sql)
  let succeed := created.2.repairmanCall m (.assembleSequence name content.sequence.toInt)
  ¬s.isErrorCritical ∧ created.1 = true ∧ succeed.1 = true ∧
    succeed.2.ledger.assembler.withoutRowid = false

/-- A call that succeeds brings no error. -/
theorem severity_repairmanCall {s : Retrieval ρ κ} {call : Call}
    (hdone : (s.repairmanCall m call).1 = true) :
    (s.repairmanCall m call).2.severity = s.severity := by
  have hresult : (s.call m call).1 = .done := of_decide_eq_true hdone
  simp only [Retrieval.repairmanCall, hresult, Retrieval.upgrade]
  rfl

/-- The calls for a table that is created: those for its cells come next. -/
theorem makes_assembleContent (current : Bool) {name : Name} {content : Material.Content} {s : Retrieval ρ κ}
    (hcreated : Created m name content s) :
    ∃ t, s.Makes ([.assembleTable name content.sql,
          .assembleSequence name content.sequence.toInt] ++
        (content.verifiedPagenos.flatMap (verifiedCells q)).map (cellCall current)) t ∧
      assembleContent m current q name content s =
        t.assembleAssociatedSQLs m content.associatedSQLs := by
  obtain ⟨hcritical, hcreate, hsequence, hrowid⟩ := hcreated
  have hseverity := severity_repairmanCall hcreate
  have htable := Retrieval.makes_repairmanCall (m := m) (.assembleTable name content.sql) hcritical
  rw [assembleContent]
  generalize s.repairmanCall m (.assembleTable name content.sql) = created at *
  have hcritical' : ¬created.2.isErrorCritical := by
    rw [Retrieval.isErrorCritical, hseverity]
    exact hcritical
  have hset := Retrieval.makes_repairmanCall (m := m)
    (.assembleSequence name content.sequence.toInt) hcritical'
  dsimp only
  generalize created.2.repairmanCall m (.assembleSequence name content.sequence.toInt) = succeed
    at *
  simp only [hcreate, hsequence, hrowid, Bool.not_true, Bool.not_false, Bool.false_eq_true,
    if_false, if_true]
  exact ⟨_, (htable.trans hset).trans (makes_crawlVerified _), rfl⟩

theorem assembleContents_append (before after : List (Name × Material.Content))
    (s : Retrieval ρ κ) :
    assembleContents m current q (before ++ after) s =
      assembleContents m current q after (assembleContents m current q before s) := by
  induction before generalizing s with
  | nil => rfl
  | cons element before ih =>
    rw [List.cons_append, assembleContents, assembleContents]
    split_ifs with hcritical
    · cases after with
      | nil => rfl
      | cons element after => rw [assembleContents, if_pos hcritical]
    · exact ih _

/-- **What `Mechanic` does before and after a table.** -/
theorem work_of_contents {material : Material} {before after : List (Name × Material.Content)}
    {name : Name} {content : Material.Content}
    (hcontents : contents material = before ++ (name, content) :: after)
    {start s : Retrieval ρ κ}
    (hassembling : start.begin.criticalCall m .markAsAssembling = (true, s))
    (hgoing : ¬(assembleContents m current q before s).isErrorCritical) :
    ∃ acts, (work m current (.opened q) material start).2.log =
      (assembleContent m current q name content (assembleContents m current q before s)).log ++
        acts := by
  generalize hdone : assembleContent m current q name content
    (assembleContents m current q before s) = done
  have hafter : VouchedBy m q current after done [] done := .refl
  obtain ⟨_, hrest⟩ := hafter.assembleContents (List.Subset.refl after)
  simp only [work, hassembling, if_true, hcontents]
  rw [assembleContents_append, assembleContents, if_neg hgoing, hdone, Retrieval.markAsAssembled]
  split_ifs
  · exact ⟨_, hrest.log⟩
  · obtain ⟨_, hend⟩ := hrest.criticalCall .markAsAssembled fun _ _ h => by cases h
    exact ⟨_, hend.log⟩

/-- **A table that the material lists is restored.** When `Mechanic` comes to a content whose table
is created with rowids, its next calls are for the cells of the leaves that still have the hash
that is listed, leaf by leaf, up to a critical error. If these are the leaves of a well-formed table
of the file as it was, and they are intact, the calls are for all cells of the table in key order.
Of the other pages nothing is asked. -/
theorem restores_listed {material : Material} {before after : List (Name × Material.Content)}
    {name : Name} {content : Material.Content}
    (hcontents : contents material = before ++ (name, content) :: after)
    {start s : Retrieval ρ κ}
    (hassembling : start.begin.criticalCall m .markAsAssembling = (true, s))
    (hcreated : Created m name content (assembleContents m current q before s)) :
    (∃ t acts, (assembleContents m current q before s).Makes
        ([.assembleTable name content.sql, .assembleSequence name content.sequence.toInt] ++
          (content.verifiedPagenos.flatMap (verifiedCells q)).map (cellCall current)) t ∧
      (work m current (.opened q) material start).2.log = t.log ++ acts) ∧
    ∀ (p : Pager) (lt : Cell → Cell → Prop) (depth : ℕ) (n : ℤ) (part : Part),
      IsTree p false lt depth n part →
      content.verifiedPagenos = (leavesOf p depth n).map listed →
      (∀ leaf ∈ leavesOf p depth n, Intact p q leaf) →
        content.verifiedPagenos.flatMap (verifiedCells q) = part.cells.map Delivery.cell ∧
          (part.cells.map Delivery.cell).Pairwise lt := by
  constructor
  · obtain ⟨t, hmakes, hcontent⟩ := makes_assembleContent (q := q) current hcreated
    obtain ⟨acts, hwork⟩ := work_of_contents hcontents hassembling hcreated.1
    -- the associated statements come next
    have hrefl : VouchedBy m q current [] t [] t := .refl
    obtain ⟨acts', hassociated⟩ := hrefl.assembleAssociatedSQLs content.associatedSQLs
    refine ⟨t, acts' ++ acts, hmakes, ?_⟩
    rw [hwork, hcontent, hassociated.log, List.append_assoc]
  · intro p lt depth n part htree hlisted hintact
    rw [hlisted]
    exact ⟨verifiedCells_listed htree hintact, List.pairwise_map.mpr htree.pairwise⟩

/-- A table of two leaves with a row each, below an interior page. -/
def twoLeaves : Pager := .ofPages [leafPage 100 [],
  [5, 0, 0, 0, 1, 0, 0, 0, 0, 0, 0, 4, 0, 14, 0, 0, 0, 3, 1],
  leafPage 0 [(1, [.inr 7])], leafPage 0 [(2, [.inr 8])]] (by simp)

/-- The interior page is overwritten. -/
def twoLeavesDamaged : Pager :=
  .ofPages [leafPage 100 [], [], leafPage 0 [(1, [.inr 7])], leafPage 0 [(2, [.inr 8])]] (by simp)

/-- A content with the leaves of the table. -/
def twoLeavesContent : Material.Content :=
  { verifiedPagenos := (leavesOf twoLeaves 1 2).map listed }

theorem restores_listed_twoLeaves : ∃ cells : List Cell, cells.map Cell.rowid = [1, 2] ∧
    ∃ s t : Retrieval Unit Unit, ∃ acts,
      s.Makes ([.assembleTable [] [], .assembleSequence [] 0] ++ cells.map (cellCall true)) t ∧
      (work (⟨fun _ => .other, fun _ => ()⟩ : Meaning Unit Unit) true (.opened twoLeavesDamaged)
        { contentsList := [twoLeavesContent], contentsMap := [([], 0)] }
        { ledger := Ledger.start, faults := [] }).2.log = t.log ++ acts := by
  have hcontents : contents
      { contentsList := [twoLeavesContent], contentsMap := [([], 0)] } =
        [] ++ ([], twoLeavesContent) :: [] := rfl
  obtain ⟨s, hassembling⟩ : ∃ s, Retrieval.criticalCall
      (⟨fun _ => .other, fun _ => ()⟩ : Meaning Unit Unit)
      (Retrieval.begin { ledger := Ledger.start, faults := [] }) .markAsAssembling = (true, s) :=
    ⟨_, rfl⟩
  have hcreated : Created (⟨fun _ => .other, fun _ => ()⟩ : Meaning Unit Unit) [] twoLeavesContent
      (assembleContents ⟨fun _ => .other, fun _ => ()⟩ true twoLeavesDamaged [] s) := by
    obtain ⟨-, rfl⟩ := Prod.mk.inj hassembling
    exact ⟨by decide, rfl, rfl, rfl⟩
  obtain ⟨⟨t, acts, hmakes, hlog⟩, hall⟩ :=
    restores_listed hcontents hassembling hcreated
  -- the leaves with their cells, and the page above them
  have hleaf (n rowid : ℤ) (h : (Page.doInitialize twoLeaves n).map (fun page => (page.type,
      page.cellPointers, (Cell.doInitialize twoLeaves .leafTable page.data 10).map Cell.rowid)) =
        some (.leafTable, [10], some rowid)) :
      ∃ cell, cell.rowid = rowid ∧
        IsTree twoLeaves false (fun a b => a.rowid < b.rowid) 0 n ⟨[n], [⟨n, 0, cell⟩]⟩ := by
    obtain ⟨page, hpage, heq⟩ := Option.map_eq_some_iff.mp h
    simp only [Prod.mk.injEq, Option.map_eq_some_iff] at heq
    obtain ⟨htype, hpointers, cell, hcell, hrowid⟩ := heq
    refine ⟨cell, hrowid, page, [cell], ⟨hpage, by simp [htype], by rw [htype]; rfl⟩,
      by rw [htype]; rfl, ?_, List.pairwise_singleton _ _, rfl⟩
    rw [HasCells, hpointers, htype]
    exact .cons hcell .nil
  obtain ⟨first, hfirst, htree⟩ := hleaf 3 1 (by decide +kernel)
  obtain ⟨second, hsecond, htree'⟩ := hleaf 4 2 (by decide +kernel)
  have hroot : (Page.doInitialize twoLeaves 2).map (fun page => (page.type, page.subpagenos)) =
      some (.interiorTable, [3, 4]) := by decide +kernel
  obtain ⟨page, hpage, heq⟩ := Option.map_eq_some_iff.mp hroot
  obtain ⟨htype, hsubpagenos⟩ := Prod.mk.inj heq
  have hcells := (hall twoLeaves (fun a b => a.rowid < b.rowid) 1 2
    ⟨[2, 3, 4], [⟨3, 0, first⟩, ⟨4, 0, second⟩]⟩
    ⟨page, ⟨hpage, by simp [htype], by rw [htype]; rfl⟩, .inl ⟨htype,
      [⟨[3], [⟨3, 0, first⟩]⟩, ⟨[4], [⟨4, 0, second⟩]⟩],
      by rw [hsubpagenos]; exact .cons htree (.cons htree' .nil),
      by simp [Ordered, hfirst, hsecond], rfl⟩⟩
    (by rw [twoLeavesContent]) (by unfold Intact; decide +kernel)).1
  rw [hcells] at hmakes
  exact ⟨_, by simp [hfirst, hsecond], s, t, acts, hmakes, hlog⟩

end Mechanic

end Wcdb.Repair
