import Wcdb.Repair.PageBasedFileHandle

/-!
# The page cache of the pager

`Pager::acquirePageData` reads a page from the log if the log contains it, and through
`PageBasedFileHandle` from the main file otherwise, decodes it and caches it. `loadWal` and
`disposeWal` change what the log contains, and leave the cache as it is.

`caches_transparent` is about both caches: in a run without short reads, and in one in which loading
or disposing the log changes no cached page, what is read is what would be read without the caches.
-/

namespace Wcdb.Repair.CachedPager

open PageBasedFileHandle (Unmappable)

/-- The two files of a database. -/
structure Env where
  handle : PageBasedFileHandle.Env
  wal : FileData
  /-- Which of the mappings of the log succeed. -/
  walMaps : ℕ → Bool
  codec : Option (ℕ → List UInt8 → Option (List UInt8))
  /-- What `Wal::doInitialize` ends in. -/
  loaded : Bool × Wal

/-- The members of the pager that change. `walInitialized` is the state of `Initializeable`. -/
structure State where
  cache : LRUCache ℕ (List UInt8) := {}
  handle : PageBasedFileHandle.State := {}
  wal : Wal
  walInitialized : Option Bool
  walCalls : ℕ := 0

section Pager

variable (e : Env)

def Env.pageSize : ℕ := e.handle.pageSize

def Env.numberOfPages : ℤ := int32 ((e.handle.file.size + e.pageSize - 1) / e.pageSize)

/-- The offset of the page in a frame. -/
def Env.frameOffset (frameno : ℤ) : ℕ := (32 + (24 + e.pageSize) * (frameno - 1) + 24).toNat

def decode (number : ℕ) (data : List UInt8) : Option (List UInt8) :=
  match e.codec with
  | none => some data
  | some codec => codec number data

/-- `Wal::acquirePageData`. -/
def acquireFrame (frameno : ℤ) (s : State) : List UInt8 × State :=
  let data := if e.walMaps s.walCalls then
    e.wal.mapped e.handle.memoryPageSize (e.frameOffset frameno) e.pageSize else []
  (if data.length = e.pageSize then data else [], { s with walCalls := s.walCalls + 1 })

/-- The bytes of a page that is not cached; `none` if `mapPage` did not end. -/
def acquireStored (number : ℕ) (s : State) : Option (List UInt8 × State) :=
  match s.wal.pages2Frames number with
  | some frameno => some (acquireFrame e frameno s)
  | none =>
    if e.numberOfPages < number then some ([], s)
    else
      (PageBasedFileHandle.mapPage e.handle number 0 e.pageSize s.handle).map fun m =>
        (m.data, { s with handle := m.state })

def lookup (number : ℕ) (c : LRUCache ℕ (List UInt8)) : Option (List UInt8) :=
  (c.list.find? fun entry => entry.1 = number).map Prod.snd

/-- `tryPurgeCache`. The high water mark is that of all data in memory: below it nothing is purged,
above it the one cache is emptied and some entries of the other. -/
def tryPurgeCache (aboveHighWater : Option ℕ) (s : State) : State :=
  match aboveHighWater with
  | none => s
  | some count =>
    if e.codec.isSome then
      { s with
        handle := PageBasedFileHandle.purge s.handle.cache.list.length s.handle
        cache := s.cache.purge List.length count }
    else
      { s with
        cache := s.cache.purge List.length s.cache.list.length
        handle := PageBasedFileHandle.purge count s.handle }

def maxAllowedCacheMemory : ℕ := 16 * 1024 * 1024

/-- `Pager::acquirePageData`. -/
def acquirePageData (number offset size : ℕ) (aboveHighWater : Option ℕ) (s : State) :
    Option (List UInt8 × State) :=
  match lookup number s.cache with
  | some data => some (subdata data offset size, { s with cache := s.cache.retain number })
  | none =>
    (acquireStored e number s).map fun (data, s) =>
      if data.length ≠ e.pageSize then ([], s)
      else
        match decode e number data with
        | none => ([], s)
        | some data =>
          let s := { s with
            cache := s.cache.insert List.length maxAllowedCacheMemory number data }
          (subdata data offset size, tryPurgeCache e aboveHighWater s)

/-- `initialize` works once. -/
def loadWal (s : State) : State :=
  match s.walInitialized with
  | none => { s with wal := e.loaded.2, walInitialized := some e.loaded.1 }
  | some _ => s

def disposeWal (s : State) : State := { s with wal := s.wal.dispose }

inductive Op where
  | acquirePageData (number offset size : ℕ) (aboveHighWater : Option ℕ)
  | loadWal
  | disposeWal
  deriving DecidableEq, Repr

def step (s : State) : Op → Option State
  | .acquirePageData number offset size aboveHighWater =>
    if 0 < number ∧ offset + size ≤ e.pageSize then
      (acquirePageData e number offset size aboveHighWater s).map Prod.snd
    else none
  | .loadWal => some (loadWal e s)
  | .disposeWal => some (disposeWal s)

/-! ### Without caches -/

/-- The bytes of a page in the log if it contains the page, and otherwise in the main file. -/
def Env.stored (wal : Wal) (number : ℕ) : List UInt8 :=
  match wal.pages2Frames number with
  | some frameno => e.wal.mapped e.handle.memoryPageSize (e.frameOffset frameno) e.pageSize
  | none =>
    if e.numberOfPages < number then []
    else e.handle.file.mapped e.handle.memoryPageSize ((number - 1) * e.pageSize) e.pageSize

/-- The page, decoded. -/
def Env.uncached (wal : Wal) (number : ℕ) : Option (List UInt8) :=
  if (e.stored wal number).length = e.pageSize then decode e number (e.stored wal number) else none

/-- A part of it; nothing if there is no page. -/
def Env.read (wal : Wal) (number offset size : ℕ) : List UInt8 :=
  match e.uncached wal number with
  | some page => subdata page offset size
  | none => []

/-- A page that is not cached cannot be mapped. -/
def Unreadable (s : State) (number : ℕ) : Prop :=
  lookup number s.cache = none ∧
    match s.wal.pages2Frames number with
    | some _ => e.walMaps s.walCalls = false
    | none => ∃ m, PageBasedFileHandle.mapPage e.handle number 0 e.pageSize s.handle = some m ∧
        Unmappable (e.handle.offset number 0 / e.handle.cachePageSize) m.tried

/-- **The cache is transparent** to a call of `acquirePageData`. -/
def Transparent (s : State) (number offset size : ℕ) (aboveHighWater : Option ℕ) : Prop :=
  ∃ data t, acquirePageData e number offset size aboveHighWater s = some (data, t) ∧
    (data = e.read s.wal number offset size ∨ data = [] ∧ Unreadable e s number)

/-- The condition on a step: loading or disposing the log changes no cached page. -/
def Ok (s : State) (op : Op) : Prop :=
  match op with
  | .acquirePageData _ _ _ _ => True
  | .loadWal => ∀ entry ∈ s.cache.list,
      e.uncached (loadWal e s).wal entry.1 = e.uncached s.wal entry.1
  | .disposeWal => ∀ entry ∈ s.cache.list,
      e.uncached (disposeWal s).wal entry.1 = e.uncached s.wal entry.1

/-- What is cached is what would be read. -/
structure Valid (s : State) : Prop where
  handle : PageBasedFileHandle.Valid e.handle s.handle
  cached : ∀ entry ∈ s.cache.list, e.uncached s.wal entry.1 = some entry.2

variable {e} {s : State} {number offset size : ℕ}

/-! ### Reading a page -/

theorem mem_of_lookup {c : LRUCache ℕ (List UInt8)} {data : List UInt8}
    (h : lookup number c = some data) : (number, data) ∈ c.list := by
  obtain ⟨entry, hfind, rfl⟩ := Option.map_eq_some_iff.mp h
  have hkey : entry.1 = number := by simpa using List.find?_some hfind
  rw [← hkey]
  exact List.mem_of_find?_eq_some hfind

/-- A page of the file begins within it. -/
theorem Env.lt_size_of_le (hpos : 0 < number) (hle : (number : ℤ) ≤ e.numberOfPages) :
    (number - 1) * e.pageSize < e.handle.file.size := by
  have hpage : 0 < e.pageSize := e.handle.pageSize_pos
  have hceil : number ≤ (e.handle.file.size + e.pageSize - 1) / e.pageSize := by
    exact_mod_cast hle.trans (int32_le _)
  rw [Nat.le_div_iff_mul_le hpage] at hceil
  have hmul : (number - 1) * e.pageSize + e.pageSize = number * e.pageSize := by
    rw [← Nat.succ_mul, Nat.succ_eq_add_one, Nat.sub_add_cancel hpos]
  omega

/-- Either both are the whole page, or neither is. -/
def Agree (e : Env) (data stored : List UInt8) : Prop :=
  data = stored ∨ data.length ≠ e.pageSize ∧ stored.length ≠ e.pageSize

/-- What `mapPage` returns of a page, and what mapping it returns. -/
theorem agree_page (offset : ℕ) : Agree e (e.handle.page offset e.pageSize)
    (e.handle.file.mapped e.handle.memoryPageSize offset e.pageSize) := by
  have hpage : 0 < e.pageSize := e.handle.pageSize_pos
  by_cases hshort : PageBasedFileHandle.ShortRead e.handle offset e.pageSize
  · have hnot : ¬offset + e.pageSize ≤ e.handle.file.size := Nat.not_le.mpr hshort.2.2
    refine Or.inr ⟨?_, ?_⟩
    · rw [PageBasedFileHandle.Env.page, if_neg hnot]
      exact hpage.ne
    · rw [FileData.mapped_eq hpage, if_neg hnot, if_pos hshort.1, FileData.length_bytes]
      omega
  · exact Or.inl ((PageBasedFileHandle.page_eq_mapped_iff hpage).mpr hshort)

theorem acquireStored_eq (hvalid : PageBasedFileHandle.Valid e.handle s.handle)
    (hpos : 0 < number) :
    ∃ data t, acquireStored e number s = some (data, t) ∧ t.cache = s.cache ∧ t.wal = s.wal ∧
      PageBasedFileHandle.Valid e.handle t.handle ∧
      (Agree e data (e.stored s.wal number) ∨ data = [] ∧
        (lookup number s.cache = none → Unreadable e s number)) := by
  rw [acquireStored]
  cases hframe : s.wal.pages2Frames number with
  | some frameno =>
    refine ⟨_, _, rfl, rfl, rfl, hvalid, ?_⟩
    rw [Env.stored, hframe]
    dsimp only
    cases hmaps : e.walMaps s.walCalls with
    | false =>
      refine Or.inr ⟨?_, fun hlookup => ⟨hlookup, by rw [hframe]; exact hmaps⟩⟩
      simp only [Bool.false_eq_true, if_false, ite_self]
    | true =>
      simp only [if_true]
      refine Or.inl ?_
      split_ifs with hlength
      · exact Or.inl rfl
      · exact Or.inr ⟨e.handle.pageSize_pos.ne, hlength⟩
  | none =>
    dsimp only
    rw [Env.stored, hframe]
    by_cases hexceeds : e.numberOfPages < number
    · simp only [if_pos hexceeds]
      exact ⟨_, _, rfl, rfl, rfl, hvalid, Or.inl (Or.inl rfl)⟩
    · have hsize := e.lt_size_of_le hpos (not_lt.mp hexceeds)
      have hlegal : PageBasedFileHandle.Legal e.handle number 0 e.pageSize :=
        ⟨hpos, e.handle.pageSize_pos, (Nat.zero_add _).le, e.handle.div_lt hsize⟩
      obtain ⟨m, hm, hvalid', -, hdata⟩ := PageBasedFileHandle.mapPage_eq hvalid hlegal
      simp only [if_neg hexceeds, hm, Option.map_some]
      refine ⟨_, _, rfl, rfl, rfl, hvalid', ?_⟩
      rcases hdata with hdata | ⟨hdata, hunmappable⟩
      · rw [hdata]
        exact Or.inl (agree_page _)
      · refine Or.inr ⟨hdata, fun hlookup => ⟨hlookup, ?_⟩⟩
        rw [hframe]
        exact ⟨m, hm, hunmappable⟩

theorem Valid.tryPurgeCache (hvalid : Valid e s) (aboveHighWater : Option ℕ) :
    Valid e (tryPurgeCache e aboveHighWater s) ∧
      (tryPurgeCache e aboveHighWater s).wal = s.wal := by
  cases aboveHighWater with
  | none => exact ⟨hvalid, rfl⟩
  | some count =>
    simp only [CachedPager.tryPurgeCache]
    split_ifs
    all_goals
      refine ⟨⟨hvalid.handle.purge _, fun entry hentry => ?_⟩, rfl⟩
      exact hvalid.cached entry ((LRUCache.sublist_purge _ _).subset hentry)

/-- **`acquirePageData`** returns what is read without the cache, and keeps the cache valid. -/
theorem acquirePageData_eq (hvalid : Valid e s) (hpos : 0 < number) (offset size : ℕ)
    (aboveHighWater : Option ℕ) :
    ∃ data t, acquirePageData e number offset size aboveHighWater s = some (data, t) ∧ Valid e t ∧
      (data = e.read s.wal number offset size ∨ data = [] ∧ Unreadable e s number) := by
  rw [acquirePageData]
  cases hlookup : lookup number s.cache with
  | some page =>
    have hpage := hvalid.cached _ (mem_of_lookup hlookup)
    have hperm := LRUCache.perm_retain s.cache number
    refine ⟨_, _, rfl, ⟨hvalid.handle, fun entry hentry => ?_⟩, Or.inl ?_⟩
    · exact hvalid.cached entry (hperm.subset hentry)
    · rw [Env.read, hpage]
  | none =>
    obtain ⟨data, t, hstored, hcache, hwal, hhandle, hdata⟩ :=
      acquireStored_eq (e := e) (s := s) hvalid.handle hpos
    have ht : Valid e t := ⟨hhandle, by rw [hcache, hwal]; exact hvalid.cached⟩
    simp only [hstored, Option.map_some]
    rcases hdata with hagree | ⟨rfl, hunreadable⟩
    · by_cases hlength : data.length = e.pageSize
      · -- the whole page was read
        have hsame : data = e.stored s.wal number := hagree.resolve_right fun h => h.1 hlength
        have huncached : e.uncached s.wal number = decode e number data := by
          rw [Env.uncached, ← hsame, if_pos hlength]
        simp only [if_neg (not_not.mpr hlength)]
        cases hdecode : decode e number data with
        | none =>
          refine ⟨_, _, rfl, ht, Or.inl ?_⟩
          rw [Env.read, huncached, hdecode]
        | some page =>
          have hinsert : Valid e { t with
              cache := t.cache.insert List.length maxAllowedCacheMemory number page } := by
            refine ⟨hhandle, fun entry hentry => ?_⟩
            rcases List.mem_cons.mp ((LRUCache.sublist_insert t.cache number page).subset hentry)
              with rfl | hentry
            · rw [hwal, huncached, hdecode]
            · exact ht.cached entry hentry
          refine ⟨_, _, rfl, (hinsert.tryPurgeCache aboveHighWater).1, Or.inl ?_⟩
          rw [Env.read, huncached, hdecode]
      · -- neither is the whole page
        have hnot : (e.stored s.wal number).length ≠ e.pageSize := by
          rcases hagree with rfl | h
          · exact hlength
          · exact h.2
        simp only [if_pos hlength]
        refine ⟨_, _, rfl, ht, Or.inl ?_⟩
        rw [Env.read, Env.uncached, if_neg hnot]
    · have hnot : ([] : List UInt8).length ≠ e.pageSize := e.handle.pageSize_pos.ne
      simp only [if_pos hnot]
      exact ⟨_, _, rfl, ht, Or.inr ⟨rfl, hunreadable hlookup⟩⟩

/-! ### Runs -/

theorem step_valid {t : State} {op : Op} (hvalid : Valid e s) (hok : Ok e s op)
    (hstep : step e s op = some t) : Valid e t := by
  cases op with
  | acquirePageData number offset size aboveHighWater =>
    rw [step] at hstep
    by_cases hlegal : 0 < number ∧ offset + size ≤ e.pageSize
    · obtain ⟨data, t', heq, ht, -⟩ := acquirePageData_eq hvalid hlegal.1 offset size
        aboveHighWater
      rw [if_pos hlegal, heq] at hstep
      obtain rfl := Option.some.inj hstep
      exact ht
    · rw [if_neg hlegal] at hstep
      cases hstep
  | loadWal =>
    obtain rfl := Option.some.inj hstep
    have hsame : (loadWal e s).cache = s.cache ∧ (loadWal e s).handle = s.handle := by
      rw [loadWal]
      cases s.walInitialized <;> exact ⟨rfl, rfl⟩
    refine ⟨hsame.2 ▸ hvalid.handle, fun entry hentry => ?_⟩
    rw [hsame.1] at hentry
    exact (hok entry hentry).trans (hvalid.cached entry hentry)
  | disposeWal =>
    obtain rfl := Option.some.inj hstep
    exact ⟨hvalid.handle, fun entry hentry =>
      (hok entry hentry).trans (hvalid.cached entry hentry)⟩

/-- A pager that has read nothing, with any log. -/
def start (wal : Wal) (walInitialized : Option Bool) : State := { wal, walInitialized }

theorem valid_start (wal : Wal) (walInitialized : Option Bool) :
    Valid e (start wal walInitialized) :=
  ⟨PageBasedFileHandle.valid_empty 0, by simp [start]⟩

variable (e) in
/-- **The caches are transparent**: of the ranges in any run, to a call that is no short read; of
the pages in a run in which loading and disposing the log change no cached page, to any call. -/
theorem caches_transparent {ranges : List PageBasedFileHandle.Op}
    {handle : PageBasedFileHandle.State}
    (hranges : Run.exec (PageBasedFileHandle.step e.handle) {} ranges = some handle)
    {wal : Wal} {walInitialized : Option Bool} {ops : List Op}
    (hok : Run.Meets (step e) (Ok e) (start wal walInitialized) ops)
    (hexec : Run.exec (step e) (start wal walInitialized) ops = some s) :
    (∀ pageno offsetWithinPage sizeWithinPage,
      PageBasedFileHandle.Legal e.handle pageno offsetWithinPage sizeWithinPage →
      ¬PageBasedFileHandle.ShortRead e.handle (e.handle.offset pageno offsetWithinPage)
        sizeWithinPage →
      PageBasedFileHandle.Transparent e.handle handle pageno offsetWithinPage sizeWithinPage) ∧
    ∀ number offset size aboveHighWater, 0 < number → offset + size ≤ e.pageSize →
      Transparent e s number offset size aboveHighWater := by
  refine ⟨fun _ _ _ => PageBasedFileHandle.transparent
    (PageBasedFileHandle.valid_of_exec hranges), ?_⟩
  intro number offset size aboveHighWater hpos _
  have hvalid : Valid e s := Run.inv_exec (I := Valid e) (fun _ _ _ h hok hstep =>
    step_valid h hok hstep) (valid_start wal walInitialized) hok hexec
  obtain ⟨data, t, heq, -, hdata⟩ := acquirePageData_eq hvalid hpos offset size
    aboveHighWater
  exact ⟨data, t, heq, hdata⟩

end Pager

/-- A file that ends within its ninth page, and a log of one frame. -/
def sampleEnv : Env where
  handle := {
    file := ⟨4300, fun _ => 1⟩
    memoryPageSize := 4096
    pageSize := 512
    maps := fun _ => true
    memoryPageSize_pow := ⟨12, by decide, rfl⟩
    pageSize_pow := ⟨9, by decide, rfl⟩ }
  wal := ⟨568, fun _ => 2⟩
  walMaps := fun _ => true
  codec := none
  loaded := (true, Wal.fresh (0, 0) 0)

/-- The log with page 1 in its frame. -/
def sampleWal : Wal :=
  { Wal.fresh (1, 1) 0 with pages2Frames := fun n => if n = 1 then some 1 else none }

theorem caches_transparent_sample :
    ∃ handle s,
      PageBasedFileHandle.Transparent sampleEnv.handle handle 1 0 512 ∧
        Transparent sampleEnv s 1 0 512 none := by
  obtain ⟨handle, hranges⟩ := Option.isSome_iff_exists.mp
    (show (Run.exec (PageBasedFileHandle.step sampleEnv.handle) {} [.mapPage 1 0 512]).isSome by
      decide +kernel)
  obtain ⟨s, hexec⟩ := Option.isSome_iff_exists.mp
    (show (Run.exec (step sampleEnv) (start sampleWal (some true))
      [.disposeWal, .acquirePageData 1 0 512 none]).isSome by decide +kernel)
  have hok : Run.Meets (step sampleEnv) (Ok sampleEnv) (start sampleWal (some true))
      [.disposeWal, .acquirePageData 1 0 512 none] :=
    ⟨by simp [Ok, start], fun _ _ => ⟨trivial, fun _ _ => trivial⟩⟩
  have h := caches_transparent sampleEnv hranges hok hexec
  exact ⟨handle, s, h.1 1 0 512 (by decide +kernel) (by decide +kernel),
    h.2 1 0 512 none (by decide) (by decide)⟩

/-- The ninth page is a short read, which the cache of ranges does not return; and page 1 is still
that of the log when the log is disposed. -/
theorem caches_not_transparent :
    ¬PageBasedFileHandle.Transparent sampleEnv.handle {} 9 0 512 ∧
    ∃ s, Run.exec (step sampleEnv) (start sampleWal (some true))
        [.acquirePageData 1 0 512 none, .disposeWal] = some s ∧
      ¬Transparent sampleEnv s 1 0 512 none := by
  constructor
  · intro h
    obtain ⟨m, hm, -, hdata⟩ := h.mapped
    have hread : (PageBasedFileHandle.mapPage sampleEnv.handle 9 0 512 {}).map
        (fun m => (m.data, m.tried.map (·.succeeded))) = some ([], [true]) := by decide +kernel
    rw [hm] at hread
    obtain ⟨hempty, htried⟩ := Prod.mk.inj (Option.some.inj hread)
    rcases hdata with hdata | ⟨-, t, hlast, -, -, hfailed⟩
    · rw [hempty] at hdata
      revert hdata
      decide +kernel
    · have hmem : t.succeeded ∈ m.tried.map (·.succeeded) :=
        List.mem_map_of_mem (List.mem_of_getLast? hlast)
      rw [htried, List.mem_singleton, hfailed] at hmem
      cases hmem
  · obtain ⟨s, hexec⟩ := Option.isSome_iff_exists.mp
      (show (Run.exec (step sampleEnv) (start sampleWal (some true))
        [.acquirePageData 1 0 512 none, .disposeWal]).isSome by decide +kernel)
    refine ⟨s, hexec, ?_⟩
    rintro ⟨data, t, hacquire, hdata⟩
    have hrun : (Run.exec (step sampleEnv) (start sampleWal (some true))
        [.acquirePageData 1 0 512 none, .disposeWal]).map (fun s =>
          ((acquirePageData sampleEnv 1 0 512 none s).map Prod.fst,
            sampleEnv.read s.wal 1 0 512, (lookup 1 s.cache).isSome)) =
        some (some (List.replicate 512 2), List.replicate 512 1, true) := by decide +kernel
    rw [hexec, Option.map_some, hacquire] at hrun
    obtain ⟨hcached, hread⟩ := Prod.mk.inj (Option.some.inj hrun)
    obtain ⟨hread, hlookup⟩ := Prod.mk.inj hread
    obtain rfl : data = List.replicate 512 2 := Option.some.inj hcached
    rcases hdata with hdata | ⟨-, hnone, -⟩
    · rw [hread] at hdata
      revert hdata
      decide +kernel
    · rw [hnone] at hlookup
      cases hlookup

end Wcdb.Repair.CachedPager
