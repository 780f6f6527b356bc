import Wcdb.Repair.CrawlComplete
import Wcdb.Repair.Retriever

/-!
# What `Mechanic` assembles

`Mechanic` trusts a page of the database as far as the material does. Of a table with rowids it
crawls the leaves that the material lists, each alone and only with the hash that is listed. Of a
table without rowids it crawls the pages of its index.

* `vouched_of_work`: whatever the pages hold and whichever calls fail, every cell that is assembled
  is vouched for by the content of the table at work.
* `makes_crawlVerified`: the calls for the leaves of a table are those for their cells, leaf by leaf
  and cell by cell, up to a critical error.
-/

namespace Wcdb.Repair

variable {ρ κ : Type}

/-! ### Stretches of calls -/

/-- **The calls of a stretch** are the first of those that are planned, and all of them unless an
error is critical. After a critical error there are none. -/
structure Retrieval.Makes (planned : List Call) (s t : Retrieval ρ κ) : Prop where
  log : ∃ acts, t.log = s.log ++ acts ∧ acts.map Act.call <+: planned ∧
    (¬t.isErrorCritical → acts.map Act.call = planned)
  stopped : s.isErrorCritical → t.log = s.log ∧ t.isErrorCritical

namespace Retrieval.Makes

variable {planned planned' : List Call} {s t u : Retrieval ρ κ}

/-- A stretch that logs nothing and whose errors are not critical. -/
theorem of_same (hlog : t.log = s.log) (hseverity : t.severity = s.severity) : Makes [] s t where
  log := ⟨[], by simp [hlog], List.prefix_refl _, fun _ => rfl⟩
  stopped h := ⟨hlog, by rwa [isErrorCritical, hseverity]⟩

/-- Nothing is done after a critical error. -/
theorem of_critical (hlog : t.log = s.log) (ht : t.isErrorCritical) :
    Makes planned s t where
  log := ⟨[], by simp [hlog], List.nil_prefix, fun hnot => absurd ht hnot⟩
  stopped _ := ⟨hlog, ht⟩

theorem trans (h : Makes planned s t) (h' : Makes planned' t u) :
    Makes (planned ++ planned') s u where
  log := by
    obtain ⟨acts, hlog, hprefix, hall⟩ := h.log
    obtain ⟨acts', hlog', hprefix', hall'⟩ := h'.log
    by_cases hcritical : t.isErrorCritical
    · obtain ⟨hsame, hu⟩ := h'.stopped hcritical
      exact ⟨acts, by rw [hsame, hlog], hprefix.trans (List.prefix_append _ _),
        fun hnot => absurd hu hnot⟩
    · refine ⟨acts ++ acts', by rw [hlog', hlog, List.append_assoc], ?_, fun hu => ?_⟩
      · rw [List.map_append, hall hcritical]
        exact (List.prefix_append_right_inj planned).mpr hprefix'
      · rw [List.map_append, hall hcritical, hall' hu]
  stopped hs := by
    obtain ⟨hlog, ht⟩ := h.stopped hs
    obtain ⟨hlog', hu⟩ := h'.stopped ht
    exact ⟨hlog'.trans hlog, hu⟩

end Retrieval.Makes

variable [DecidableEq κ] {m : Meaning ρ κ}

namespace Retrieval

variable {s : Retrieval ρ κ}

omit [DecidableEq κ] in
theorem log_upgrade (result : Result) : (s.upgrade result).log = s.log := by cases result <;> rfl

/-- Every call is logged. -/
theorem log_repairmanCall (call : Call) :
    (s.repairmanCall m call).2.log = s.log ++ [⟨call, s.faults.headD none⟩] := log_upgrade _

theorem makes_repairmanCall (call : Call) (hs : ¬s.isErrorCritical) :
    s.Makes [call] (s.repairmanCall m call).2 where
  log := ⟨[⟨call, s.faults.headD none⟩], log_repairmanCall call, List.prefix_refl _, fun _ => rfl⟩
  stopped h := absurd h hs

end Retrieval

namespace Mechanic

open Retrieval

variable {current : Bool} {p : Pager}

/-! ### The leaves of a table with rowids -/

/-- The version of the cells that `Mechanic` reads. -/
def version (current : Bool) : Option Version := if current then some .verified else none

/-- The call for a cell. -/
def cellCall (current : Bool) (cell : Cell) : Call := .assembleCell (version current) cell

/-- The cells of a page that initialise. -/
def cellsOf (p : Pager) (page : Page) : List Cell :=
  page.cellPointers.filterMap (Cell.doInitialize p page.type page.data)

/-- The cells of a page that is listed, as far as the page is a leaf with the hash that is
listed. -/
def verifiedCells (p : Pager) (page : Material.Page) : List Cell :=
  match Page.doInitialize p (int32 page.number.toNat) with
  | some leaf =>
    if leaf.type = .leafTable ∧ Material.crc32 leaf.data = page.hash then cellsOf p leaf else []
  | none => []

section Leaves

variable {checksum : UInt32} {s : Retrieval ρ κ}

/-- The cells of a page are assembled in their order. -/
theorem makes_crawlCells {page : Page} {pointers : List ℤ} {index : ℕ} {s : Crawl (Retrieval ρ κ)}
    {r : Bool × Crawl (Retrieval ρ κ)}
    (h : Crawl.crawlCells (crawler m current checksum false) p page
      (fun _ => some) index pointers s =
      some r) :
    s.own.Makes ((pointers.filterMap (Cell.doInitialize p page.type page.data)).map
      (cellCall current)) r.2.own := by
  induction pointers generalizing index s with
  | nil =>
    obtain rfl := Option.some.inj h
    exact .of_same rfl rfl
  | cons pointer pointers ih =>
    by_cases hcritical : s.own.isErrorCritical
    · rw [Crawl.crawlCells_of_suspended _ hcritical] at h
      obtain rfl := Option.some.inj h
      exact .of_critical rfl hcritical
    · have hrunning : ((crawler m current checksum false).isSuspended s.own).1 = false :=
        Bool.eq_false_iff.mpr hcritical
      cases hcell : Cell.doInitialize p page.type page.data pointer with
      | none =>
        rw [Crawl.crawlCells_of_failed _ hrunning hcell] at h
        rw [List.filterMap_cons_none hcell]
        exact (Makes.of_same rfl rfl : s.own.Makes [] s.own.onCrawlerError).trans (ih h)
      | some cell =>
        rw [Crawl.crawlCells_of_cell _ hrunning hcell rfl] at h
        rw [List.filterMap_cons_some hcell, List.map_cons]
        have hcall := makes_repairmanCall (m := m) (cellCall current cell) hcritical
        have hrest := ih h
        simp only [Crawl.deliver, Crawl.polled, Crawl.ask, crawler, if_neg hcritical] at hrest
        exact hcall.trans hrest

/-- **A leaf is assembled if it has the hash that is listed**, and left alone otherwise. -/
theorem makes_crawled (page : Material.Page) :
    s.Makes ((verifiedCells p page).map (cellCall current))
      (Crawl.crawled (crawler m current page.hash false) p (int32 page.number.toNat) s) := by
  obtain ⟨t, ht, heq⟩ := Crawl.crawl_eq_some p (crawler m current page.hash false)
    (int32 page.number.toNat) s
  rw [heq]
  by_cases hcritical : s.isErrorCritical
  · have hsame : t.own = s := by
      simp only [Crawl.crawl, Crawl.safeCrawl, Crawl.ask, crawler, hcritical, if_true] at ht
      exact (congrArg Crawl.own (Option.some.inj ht)).symm
    rw [hsame]
    exact .of_critical rfl hcritical
  · rw [verifiedCells]
    have hrunning : s.isErrorCritical = false := Bool.eq_false_iff.mpr hcritical
    have hsuspended : (crawler m current page.hash false).isSuspended s = (false, s) := by
      simp only [crawler, hrunning]
    have hcan : (crawler m current page.hash false).canCrawlPage (int32 page.number.toNat) s =
      (true, s) := rfl
    simp only [Crawl.crawl, Crawl.safeCrawl, Crawl.ask, hsuspended, hcan,
      Bool.false_eq_true, if_false,
      Bool.not_true] at ht
    cases hpage : Page.doInitialize p (int32 page.number.toNat) with
    | none =>
      rw [hpage] at ht
      obtain rfl := Option.some.inj ht
      exact .of_same rfl rfl
    | some leaf =>
      rw [hpage] at ht
      dsimp only at ht ⊢
      rw [if_neg fun h => h.1 rfl] at ht
      split_ifs with hleaf
      · obtain ⟨htype, hhash⟩ := hleaf
        have hwill : (crawler m current page.hash false).willCrawlPage leaf 1 s = (true, s) := by
          simp only [crawler, hrunning, htype, hhash, Bool.false_eq_true, if_false,
            and_self, if_true,
            ne_eq, not_true_eq_false]
        simp only [hwill, Bool.not_true, Bool.false_eq_true, if_false, List.not_mem_nil] at ht
        rw [Crawl.crawlContent_leaf _ (by rw [htype]; rfl)] at ht
        obtain ⟨result, hcells, rfl⟩ := Option.map_eq_some_iff.mp ht
        exact makes_crawlCells hcells
      · have hwill : (crawler m current page.hash false).willCrawlPage leaf 1 s =
            (false, s.onCrawlerError) := by
          simp only [crawler, hrunning, Bool.false_eq_true, if_false, and_true, Bool.and_false]
          split_ifs with htype hhash
          · rfl
          · exact absurd ⟨htype, not_not.mp hhash⟩ hleaf
          · rfl
        simp only [hwill, Bool.not_false, if_true] at ht
        obtain rfl := Option.some.inj ht
        exact .of_same rfl rfl

/-- **The leaves that are listed are assembled** one after the other. -/
theorem makes_crawlVerified (pages : List Material.Page) :
    s.Makes ((pages.flatMap (verifiedCells p)).map (cellCall current))
      (crawlVerified m current p pages s) := by
  induction pages generalizing s with
  | nil => exact .of_same rfl rfl
  | cons page pages ih =>
    rw [List.flatMap_cons, List.map_append]
    have hfirst : s.Makes ((verifiedCells p page).map (cellCall current))
        (Crawl.crawled (crawler m current page.hash false) p (int32 page.number.toNat) s) :=
      makes_crawled page
    rw [crawlVerified]
    split_ifs with hstop
    · exact hfirst.trans (.of_critical rfl hstop.2)
    · exact hfirst.trans ih

end Leaves

/-! ### What is vouched for -/

/-- **The cells that the material vouches for**: of a table with rowids those of the leaves that it
lists with their hashes, and of one without those of the index pages below the root page that it
names. -/
def Vouched (p : Pager) (withoutRowid : Bool) (content : Material.Content) (cell : Cell) : Prop :=
  if withoutRowid then
    1 < content.rootPage ∧ ∃ n page i,
      Relation.ReflTransGen (Followed p true) (int32 content.rootPage.toNat) n ∧
        Page.doInitialize p n = some page ∧ page.type.isIndexPage ∧ page.HasCell p i cell
  else ∃ page ∈ content.verifiedPagenos, cell ∈ verifiedCells p page

/-- The name and the text of the last table that the calls create. -/
def lastTable (acts : List Act) : Option (Name × Name) :=
  acts.foldl (fun last act =>
    match act.call with
    | .assembleTable tableName sql => some (tableName, sql)
    | _ => last) none

theorem lastTable_append (acts : List Act) (act : Act)
    (h : ∀ tableName sql, act.call ≠ .assembleTable tableName sql) :
    lastTable (acts ++ [act]) = lastTable acts := by
  rw [lastTable, List.foldl_append, List.foldl_cons, List.foldl_nil]
  split
  · exact absurd ‹_› (h _ _)
  · rfl

/-- A cell that is assembled after some calls is vouched for by the content of the table that they
created last, which is the table at work. -/
def VouchedAfter (m : Meaning ρ κ) (p : Pager) (contents : List (Name × Material.Content))
    (start : Ledger ρ κ) (acts : List Act) (cell : Cell) : Prop :=
  ∃ element ∈ contents, lastTable acts = some (element.1, element.2.sql) ∧
    ∃ l, Run.exec (Ledger.step m) start acts = some l ∧ l.assembler.table = element.1 ∧
      Vouched p l.assembler.withoutRowid element.2 cell

/-- The calls lead from one repair to another, and each of their cells is vouched for. -/
structure VouchedBy (m : Meaning ρ κ) (p : Pager) (current : Bool)
    (contents : List (Name × Material.Content)) (start : Retrieval ρ κ) (acts : List Act)
    (s : Retrieval ρ κ) : Prop where
  log : s.log = start.log ++ acts
  replays : Run.exec (Ledger.step m) start.ledger acts = some s.ledger
  vouched : ∀ before act, before ++ [act] <+: acts → ∀ v cell, act.call = .assembleCell v cell →
    v = version current ∧ VouchedAfter m p contents start.ledger before cell

/-- The table at work is the one of the element. -/
structure WorksOn (m : Meaning ρ κ) (p : Pager) (current : Bool)
    (contents : List (Name × Material.Content)) (start : Retrieval ρ κ)
    (element : Name × Material.Content) (withoutRowid : Bool) (s : Retrieval ρ κ) : Prop where
  calls : ∃ acts, VouchedBy m p current contents start acts s ∧
    lastTable acts = some (element.1, element.2.sql)
  table : s.ledger.assembler.table = element.1
  withoutRowid : s.ledger.assembler.withoutRowid = withoutRowid

section Vouched

variable {contents : List (Name × Material.Content)} {start s t : Retrieval ρ κ} {acts : List Act}
  {element : Name × Material.Content} {withoutRowid : Bool}

theorem VouchedBy.refl : VouchedBy m p current contents s [] s where
  log := (List.append_nil _).symm
  replays := rfl
  vouched _ _ h := absurd (List.prefix_nil.mp h) (List.append_ne_nil_of_right_ne_nil _ (by simp))

theorem VouchedBy.of_same (h : VouchedBy m p current contents start acts s) (hlog : t.log = s.log)
    (hledger : t.ledger = s.ledger) : VouchedBy m p current contents start acts t :=
  ⟨hlog.trans h.log, by rw [hledger]; exact h.replays, h.vouched⟩

/-- One more call, whose cell is vouched for. -/
theorem VouchedBy.call (h : VouchedBy m p current contents start acts s) (call : Call)
    (hcall : ∀ v cell, call = .assembleCell v cell →
      v = version current ∧ VouchedAfter m p contents start.ledger acts cell) :
    VouchedBy m p current contents start (acts ++ [⟨call, s.faults.headD none⟩])
      (s.call m call).2 where
  log := by
    rw [Retrieval.call]
    dsimp only
    rw [h.log, List.append_assoc]
  replays := by
    rw [Run.exec_append, h.replays]
    rfl
  vouched before act hprefix v cell heq := by
    obtain hlast | hbefore := List.prefix_concat_iff.mp hprefix
    · obtain ⟨rfl, hact⟩ := List.append_inj' hlast rfl
      obtain rfl := List.singleton_inj.mp hact
      exact hcall v cell heq
    · exact h.vouched before act hbefore v cell heq

omit [DecidableEq κ] in
theorem ledger_upgrade (result : Result) : (s.upgrade result).ledger = s.ledger := by
  cases result <;> rfl

theorem VouchedBy.repairmanCall (h : VouchedBy m p current contents start acts s) (call : Call)
    (hcall : ∀ v cell, call = .assembleCell v cell →
      v = version current ∧ VouchedAfter m p contents start.ledger acts cell) :
    VouchedBy m p current contents start (acts ++ [⟨call, s.faults.headD none⟩])
      (s.repairmanCall m call).2 :=
  (h.call call hcall).of_same (log_upgrade _) (ledger_upgrade _)

/-- A call whose error is critical assembles no cell. -/
theorem VouchedBy.criticalCall (h : VouchedBy m p current contents start acts s) (call : Call)
    (hcall : ∀ v cell, call ≠ .assembleCell v cell) :
    ∃ acts', VouchedBy m p current contents start acts' (s.criticalCall m call).2 := by
  refine ⟨_, (h.call call fun v cell heq => absurd heq (hcall v cell)).of_same ?_ ?_⟩
  all_goals
    rw [Retrieval.criticalCall]
    dsimp only
    split_ifs <;> rfl

theorem VouchedBy.assembleAssociatedSQLs (h : VouchedBy m p current contents start acts s)
    (sqls : List Name) :
    ∃ acts', VouchedBy m p current contents start acts' (s.assembleAssociatedSQLs m sqls) := by
  induction sqls generalizing s acts with
  | nil => exact ⟨acts, h⟩
  | cons sql sqls ih => exact ih (h.call (.assembleSQL sql) fun _ _ heq => by cases heq)

/-- A cell stays in the table at work. -/
theorem assembler_assembleCell (l : Ledger ρ κ) (v : Option Version) (cell : Cell)
    (fault : Option Severity) :
    (l.perform m ⟨.assembleCell v cell, fault⟩).2.assembler.table = l.assembler.table ∧
      (l.perform m ⟨.assembleCell v cell, fault⟩).2.assembler.withoutRowid =
        l.assembler.withoutRowid := by
  cases fault with
  | some severity =>
    simp only [Ledger.perform, Ledger.read]
    split <;> exact ⟨rfl, rfl⟩
  | none =>
    simp only [Ledger.perform, Assembler.assembleCell]
    split
    · exact ⟨rfl, rfl⟩
    · split <;> exact ⟨rfl, rfl⟩

/-- The cell of a table at work. -/
theorem WorksOn.assembleCell (h : WorksOn m p current contents start element withoutRowid s)
    (helement : element ∈ contents) {cell : Cell} (hcell : Vouched p withoutRowid element.2 cell) :
    WorksOn m p current contents start element withoutRowid
      (s.repairmanCall m (.assembleCell (version current) cell)).2 := by
  obtain ⟨⟨acts, hacts, hlast⟩, htable, hwithout⟩ := h
  have hafter : VouchedAfter m p contents start.ledger acts cell :=
    ⟨element, helement, hlast, s.ledger, hacts.replays, htable, by rw [hwithout]; exact hcell⟩
  have hkeep := assembler_assembleCell (m := m) s.ledger (version current) cell
    (s.faults.headD none)
  refine ⟨⟨_, hacts.repairmanCall (.assembleCell (version current) cell) fun v cell' heq => ?_, ?_⟩,
    ?_, ?_⟩
  · obtain ⟨rfl, rfl⟩ := Call.assembleCell.inj heq
    exact ⟨rfl, hafter⟩
  · rw [lastTable_append _ _ fun _ _ h => by cases h]
    exact hlast
  · rw [Retrieval.repairmanCall, ledger_upgrade]
    exact hkeep.1.trans htable
  · rw [Retrieval.repairmanCall, ledger_upgrade]
    exact hkeep.2.trans hwithout

theorem WorksOn.onCrawlerError (h : WorksOn m p current contents start element withoutRowid s) :
    WorksOn m p current contents start element withoutRowid s.onCrawlerError := by
  obtain ⟨⟨acts, hacts, hlast⟩, htable, hwithout⟩ := h
  exact ⟨⟨acts, hacts.of_same rfl rfl, hlast⟩, htable, hwithout⟩

theorem WorksOn.willCrawlPage (h : WorksOn m p current contents start element withoutRowid s)
    (page : Page) (height : ℕ) (checksum : UInt32) (withoutRowId : Bool) :
    WorksOn m p current contents start element withoutRowid
      ((crawler m current checksum withoutRowId).willCrawlPage page height s).2 := by
  simp only [crawler]
  split_ifs
  · exact h
  · exact h.onCrawlerError
  · exact h
  · exact h
  · exact h.onCrawlerError

/-- What both crawls of a table do at a cell. -/
theorem WorksOn.onCellCrawled (h : WorksOn m p current contents start element withoutRowid s)
    (helement : element ∈ contents) {cell : Cell} (hcell : Vouched p withoutRowid element.2 cell)
    (n : ℤ) (checksum : UInt32) (withoutRowId : Bool) :
    WorksOn m p current contents start element withoutRowid
      ((crawler m current checksum withoutRowId).onCellCrawled n cell s) := by
  by_cases hcritical : s.isErrorCritical
  · simp only [crawler, hcritical, if_true]
    exact h
  · simp only [crawler, if_neg hcritical]
    exact h.assembleCell helement hcell

/-- The cells of a leaf that is listed. -/
theorem keepsFrom_leaf (helement : element ∈ contents) {page : Material.Page}
    (hpage : page ∈ element.2.verifiedPagenos) :
    (crawler m current page.hash false).KeepsFrom p
      (fun leaf => leaf.type = .leafTable ∧ Material.crc32 leaf.data = page.hash)
      (· = int32 page.number.toNat) (WorksOn m p current contents start element false) where
  isSuspended _ h := h
  canCrawlPage _ _ h := h
  willCrawlPage page height own h := h.willCrawlPage page height _ _
  allowed leaf height own h := by
    simp only [crawler] at h
    split_ifs at h <;> simp_all
  subpage n leaf _ _ hallowed htype := by
    rw [hallowed.1] at htype
    cases htype
  leftChild n leaf _ _ hallowed htype := by
    rw [hallowed.1] at htype
    cases htype
  last n leaf _ _ hallowed htype := by
    rw [hallowed.1] at htype
    cases htype
  onCellCrawled n leaf i cell own hn hleaf hallowed hcell h := by
    obtain ⟨-, pointer, hpointer, hcell⟩ := hcell
    have hmem : cell ∈ cellsOf p leaf :=
      List.mem_filterMap.mpr ⟨pointer, List.mem_of_getElem? hpointer, hcell⟩
    have hverified : verifiedCells p page = cellsOf p leaf := by
      rw [verifiedCells, ← show n = int32 page.number.toNat from hn, hleaf]
      exact if_pos hallowed
    have hvouched : Vouched p false element.2 cell := ⟨page, hpage, hverified ▸ hmem⟩
    exact h.onCellCrawled helement hvouched _ page.hash false
  onCrawlerError _ _ _ h := h.onCrawlerError

theorem WorksOn.crawlVerified (h : WorksOn m p current contents start element false s)
    (helement : element ∈ contents) {pages : List Material.Page}
    (hpages : pages ⊆ element.2.verifiedPagenos) :
    WorksOn m p current contents start element false (crawlVerified m current p pages s) := by
  induction pages generalizing s with
  | nil => exact h
  | cons page pages ih =>
    have hpage := Crawl.keepsFrom_crawled
      (keepsFrom_leaf helement (hpages List.mem_cons_self)) rfl h
    rw [Mechanic.crawlVerified]
    split_ifs
    · exact hpage
    · exact ih hpage fun other hmem => hpages (List.mem_cons_of_mem _ hmem)

/-- The cells of a table without rowids. -/
theorem keepsFrom_crawler (helement : element ∈ contents) (hroot : 1 < element.2.rootPage) :
    (crawler m current 0 true).KeepsFrom p (fun page => page.type.isIndexPage)
      (Relation.ReflTransGen (Followed p true) (int32 element.2.rootPage.toNat))
      (WorksOn m p current contents start element true) where
  isSuspended _ h := h
  canCrawlPage _ _ h := h
  willCrawlPage page height own h := h.willCrawlPage page height _ _
  allowed page height own h := by
    simp only [crawler] at h
    split_ifs at h <;> simp_all
  subpage n page _ _ hallowed htype := by simp [htype, PageType.isIndexPage] at hallowed
  leftChild n page hn hpage hallowed htype i cell hcell :=
    hn.tail ⟨page, ⟨hpage, by simp [htype], hallowed⟩, .inr ⟨htype, .inr ⟨i, cell, hcell, rfl⟩⟩⟩
  last n page hn hpage hallowed htype :=
    hn.tail ⟨page, ⟨hpage, by simp [htype], hallowed⟩, .inr ⟨htype, .inl rfl⟩⟩
  onCellCrawled n page i cell own hn hpage hallowed hcell h := by
    have hvouched : Vouched p true element.2 cell :=
      ⟨hroot, n, page, i, hn, hpage, hallowed, hcell⟩
    exact h.onCellCrawled helement hvouched n 0 true
  onCrawlerError _ _ _ h := h.onCrawlerError

/-- A table that was created is at work. -/
theorem VouchedBy.worksOn (h : VouchedBy m p current contents start acts s)
    (element : Name × Material.Content)
    (hdone : (s.repairmanCall m (.assembleTable element.1 element.2.sql)).1 = true) :
    WorksOn m p current contents start element
      (s.repairmanCall m (.assembleTable element.1 element.2.sql)).2.ledger.assembler.withoutRowid
      (s.repairmanCall m (.assembleTable element.1 element.2.sql)).2 := by
  have hcall := h.repairmanCall (.assembleTable element.1 element.2.sql)
    (fun _ _ heq => by cases heq)
  refine ⟨⟨_, hcall, ?_⟩, ?_, rfl⟩
  · rw [lastTable, List.foldl_append]
    rfl
  · have hresult : (s.call m (.assembleTable element.1 element.2.sql)).1 = .done :=
      of_decide_eq_true hdone
    rw [Retrieval.repairmanCall, ledger_upgrade]
    simp only [Retrieval.call, Ledger.perform] at hresult ⊢
    cases hfault : s.faults.headD none with
    | none => rfl
    | some severity =>
      rw [hfault] at hresult
      cases hresult

theorem WorksOn.assembleSequence
    (h : WorksOn m p current contents start element withoutRowid s) (sequence : ℤ) :
    WorksOn m p current contents start element withoutRowid
      (s.repairmanCall m (.assembleSequence element.1 sequence)).2 := by
  obtain ⟨⟨acts, hacts, hlast⟩, htable, hwithout⟩ := h
  have hkeep : ∀ fault,
      (s.ledger.perform m ⟨.assembleSequence element.1 sequence, fault⟩).2.assembler.table =
          s.ledger.assembler.table ∧
        (s.ledger.perform m ⟨.assembleSequence element.1 sequence,
          fault⟩).2.assembler.withoutRowid =
          s.ledger.assembler.withoutRowid := by
    intro fault
    rw [Ledger.perform]
    dsimp only
    split_ifs
    · exact ⟨rfl, rfl⟩
    · cases fault <;> exact ⟨rfl, rfl⟩
  have hcall := hacts.repairmanCall (.assembleSequence element.1 sequence)
    (fun _ _ heq => by cases heq)
  refine ⟨⟨_, hcall, ?_⟩, ?_, ?_⟩
  · rw [lastTable_append _ _ fun _ _ h => by cases h]
    exact hlast
  · rw [Retrieval.repairmanCall, ledger_upgrade]
    exact (hkeep _).1.trans htable
  · rw [Retrieval.repairmanCall, ledger_upgrade]
    exact (hkeep _).2.trans hwithout

theorem VouchedBy.assembleContent (h : VouchedBy m p current contents start acts s)
    (helement : element ∈ contents) :
    ∃ acts', VouchedBy m p current contents start acts'
      (assembleContent m current p element.1 element.2 s) := by
  have htable := h.repairmanCall (.assembleTable element.1 element.2.sql)
    (fun _ _ heq => by cases heq)
  have hworks := h.worksOn element
  rw [Mechanic.assembleContent]
  dsimp only
  generalize s.repairmanCall m (.assembleTable element.1 element.2.sql) = r at htable hworks ⊢
  obtain ⟨succeed, s₁⟩ := r
  dsimp only at htable hworks ⊢
  cases succeed with
  | false => exact ⟨_, htable⟩
  | true =>
    have hsequence := htable.repairmanCall (.assembleSequence element.1 element.2.sequence.toInt)
      (fun _ _ heq => by cases heq)
    have hworks := (hworks rfl).assembleSequence element.2.sequence.toInt
    generalize s₁.ledger.assembler.withoutRowid = withoutRowid at hworks
    have hwithout := hworks.withoutRowid
    simp only [Bool.not_true, Bool.false_eq_true, if_false]
    split_ifs with hfailed hrowid hroot
    · exact ⟨_, hsequence⟩
    · obtain rfl : withoutRowid = false := by rw [← hwithout]; simpa using hrowid
      obtain ⟨acts', hacts, -⟩ :=
        (hworks.crawlVerified helement (List.Subset.refl element.2.verifiedPagenos)).calls
      exact hacts.assembleAssociatedSQLs _
    · obtain rfl : withoutRowid = true := by rw [← hwithout]; simpa using hrowid
      obtain ⟨acts', hacts, -⟩ :=
        (Crawl.keepsFrom_crawled (keepsFrom_crawler helement hroot) .refl hworks).calls
      exact hacts.assembleAssociatedSQLs _
    · exact hsequence.assembleAssociatedSQLs _

theorem VouchedBy.assembleContents {elements : List (Name × Material.Content)}
    (h : VouchedBy m p current contents start acts s) (helements : elements ⊆ contents) :
    ∃ acts', VouchedBy m p current contents start acts'
      (assembleContents m current p elements s) := by
  induction elements generalizing s acts with
  | nil => exact ⟨acts, h⟩
  | cons element elements ih =>
    obtain ⟨name, content⟩ := element
    rw [Mechanic.assembleContents]
    split_ifs
    · exact ⟨acts, h⟩
    · obtain ⟨acts', hacts⟩ := h.assembleContent (helements List.mem_cons_self)
      exact ih hacts fun element hmem => helements (List.mem_cons_of_mem _ hmem)

/-- **`Mechanic` assembles what the material vouches for**, whatever the pages hold and whichever
calls fail: every cell goes into the table that was created last, and is one of those that the
content of this table vouches for. -/
theorem vouched_of_work (opening : Opening) (material : Material) (s : Retrieval ρ κ) :
    ∃ acts, (work m current opening material s).2.log = s.log ++ acts ∧
      ∀ before act, before ++ [act] <+: acts → ∀ v cell, act.call = .assembleCell v cell →
        v = version current ∧ ∃ p, opening = .opened p ∧
          VouchedAfter m p (Mechanic.contents material) s.ledger before cell := by
  cases opening with
  | empty | corrupted | failed =>
    refine ⟨[], by simp [work, Retrieval.begin], fun before act hprefix => ?_⟩
    exact absurd (List.prefix_nil.mp hprefix) (List.append_ne_nil_of_right_ne_nil _ (by simp))
  | opened p =>
    have hbegin : VouchedBy m p current (Mechanic.contents material) s [] s.begin :=
      VouchedBy.refl.of_same rfl rfl
    obtain ⟨_, hassembling⟩ := hbegin.criticalCall .markAsAssembling (fun _ _ h => by cases h)
    obtain ⟨acts, hacts⟩ : ∃ acts, VouchedBy m p current (Mechanic.contents material) s acts
        (work m current (.opened p) material s).2 := by
      simp only [work]
      split_ifs with hsucceed
      · obtain ⟨acts, hcontents⟩ := hassembling.assembleContents (List.Subset.refl _)
        rw [Retrieval.markAsAssembled]
        split_ifs
        · exact ⟨acts, hcontents⟩
        · exact hcontents.criticalCall _ (fun _ _ h => by cases h)
      · exact ⟨_, hassembling⟩
    refine ⟨acts, hacts.log, fun before act hprefix v cell heq => ?_⟩
    obtain ⟨hversion, hafter⟩ := hacts.vouched before act hprefix v cell heq
    exact ⟨hversion, p, rfl, hafter⟩

end Vouched

end Mechanic

end Wcdb.Repair
