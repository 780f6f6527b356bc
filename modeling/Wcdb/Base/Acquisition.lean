import Wcdb.Base.TableCatalog

/-!
# Acquiring the tables of a database

`Migration` and `Compression` filter every table once. A table that will be created is hinted, which
clears the flag that all tables are acquired; a step that finds it cleared reads the names of the
tables, adds those hinted, initializes one after the other, sets the flag and starts again. `View`
is what this depends on, and the lemmas here say what each kind of section preserves.
-/

namespace Wcdb

namespace Acquisition

/-- Where a handle is, as far as the acquisition is concerned. -/
inductive Phase (N : Type) where
  /-- In no step, or on the way out of one. -/
  | outside
  /-- Before the step looks whether the tables are acquired. -/
  | searching
  | listing
  /-- Before the tables hinted are added to those read. -/
  | listed (tables : Finset N)
  | initializing (tables : Finset N)
  /-- After the step found the tables acquired. -/
  | found
  deriving DecidableEq

/-- The tables that a step has still to initialize. -/
def Phase.tables {N : Type} : Phase N → Option (Finset N)
  | .listed tables | .initializing tables => some tables
  | _ => none

/-- The tables that were filtered, those hinted, the flag, and where each handle is. -/
structure View (H N : Type) where
  filted : N → Prop
  hints : Finset N
  tableAcquired : Bool
  phase : H → Phase N
  recursions : H → ℕ

variable {H N : Type} [DecidableEq H] [DecidableEq N]

namespace View

/-- The table was filtered, or it is known that it will be created. -/
def Known (v : View H N) (table : N) : Prop := v.filted table ∨ table ∈ v.hints

/-- The step of the handle has acquired the tables or found them acquired. -/
def PastAcquisition (v : View H N) (h : H) : Prop :=
  v.phase h = .found ∨ 0 < v.recursions h ∧ v.phase h = .searching

instance (v : View H N) (h : H) : Decidable (v.PastAcquisition h) := by
  unfold PastAcquisition
  infer_instance

end View

/-- How a handle goes on. -/
inductive Moves (builtin : N → Bool) (v v' : View H N) (c : TableCatalog H N) (h : H) : Prop where
  | outside (hafter : v'.phase h = .outside) (hsame : v'.recursions h = v.recursions h)
  | start (hafter : v'.phase h = .searching) (hzero : v'.recursions h = 0)
  | stay (hafter : v'.phase h = v.phase h) (hsame : v'.recursions h = v.recursions h)
  | found (hbefore : v.phase h = .searching) (hset : v.tableAcquired = true)
      (hafter : v'.phase h = .found) (hsame : v'.recursions h = v.recursions h)
  | list (hbefore : v.phase h = .searching) (hcleared : v.tableAcquired = false)
      (hafter : v'.phase h = .listing) (hsame : v'.recursions h = v.recursions h)
  | listed (tables : Finset N) (hbefore : v.phase h = .listing)
      (htables : ∀ t ∈ c.committed, builtin t = false → t ∈ tables)
      (hafter : v'.phase h = .listed tables) (hsame : v'.recursions h = v.recursions h)
  | addHints (tables : Finset N) (hbefore : v.phase h = .listed tables)
      (hafter : v'.phase h = .initializing (tables ∪ v.hints))
      (hsame : v'.recursions h = v.recursions h)
  | initialized (tables : Finset N) (table : N) (hknown : v'.Known table)
      (hbefore : v.phase h = .initializing tables)
      (hafter : v'.phase h = .initializing (tables.erase table))
      (hsame : v'.recursions h = v.recursions h)

/-- The handle goes on, and no other. -/
structure MovesAlone (builtin : N → Bool) (v v' : View H N) (c : TableCatalog H N)
    (h : H) : Prop where
  moves : Moves builtin v v' c h
  others : ∀ h' ≠ h, v'.phase h' = v.phase h' ∧ v'.recursions h' = v.recursions h'

/-- A section that neither initializes a table nor ends the acquisition. -/
structure Quiet (v v' : View H N) : Prop where
  filted : v'.filted = v.filted
  hints : v'.hints = v.hints
  tableAcquired : v'.tableAcquired = v.tableAcquired

/-- A section that initializes a table; `hinting` says that it hints it. -/
structure Initialized (v v' : View H N) (table : N) (hinting succeed : Bool) : Prop where
  known : succeed = true → v'.Known table
  kept : ∀ t, v.Known t → v'.Known t
  unhinted : hinting = false → v'.tableAcquired = v.tableAcquired ∧ v'.hints ⊆ v.hints
  hinted : hinting = true → v'.tableAcquired = false

/-- What the place of a handle relies on. -/
structure Ready (builtin : N → Bool) (v : View H N) (c : TableCatalog H N) (h : H) : Prop where
  past : v.PastAcquisition h → v.tableAcquired = true
  listing : v.phase h = .listing → v.recursions h = 0
  tables : ∀ tables, (v.phase h).tables = some tables → v.recursions h = 0 ∧
    ∀ t ∈ c.existing, builtin t = false → v.Known t ∨ t ∈ tables
  recursions : v.recursions h ≤ 1

/-- What all sections preserve, as long as the flag is set only without a hint and no table is
hinted while a step is past its acquisition. -/
structure Inv (builtin : N → Bool) (v : View H N) (c : TableCatalog H N) : Prop where
  announced : ∀ h t, (h, t) ∈ c.announced → v.Known t
  created : ∀ h t, (h, t) ∈ c.created → v.Known t
  unhinted : v.tableAcquired = true → v.hints = ∅
  covered : v.tableAcquired = true → ∀ t ∈ c.existing, builtin t = false → v.Known t
  ready : ∀ h, Ready builtin v c h

variable {builtin : N → Bool} {v v' : View H N} {c c' : TableCatalog H N} {h : H}

omit [DecidableEq H] in
/-- A step that found the tables acquired is right: no hint is left and all tables were filtered. -/
theorem Inv.found (hv : Inv builtin v c) (hfound : v.phase h = .found) :
    v.hints = ∅ ∧ ∀ t ∈ c.existing, builtin t = false → v.filted t := by
  have hacquired := (hv.ready h).past (Or.inl hfound)
  have hhints := hv.unhinted hacquired
  refine ⟨hhints, fun t ht hbuiltin => ?_⟩
  exact (hv.covered hacquired t ht hbuiltin).resolve_right (by simp [hhints])

omit [DecidableEq H] in
/-- A handle that does not act stays ready. -/
theorem Ready.mono (hready : Ready builtin v c h) (hphase : v'.phase h = v.phase h)
    (hsame : v'.recursions h = v.recursions h)
    (hacquired : v.PastAcquisition h → v.tableAcquired = true → v'.tableAcquired = true)
    (hkept : ∀ t, v.Known t → v'.Known t)
    (hexisting : ∀ t ∈ c'.existing, t ∈ c.existing ∨ v'.Known t) : Ready builtin v' c' h := by
  have hpast : v'.PastAcquisition h ↔ v.PastAcquisition h := by
    simp only [View.PastAcquisition, hphase, hsame]
  refine ⟨fun hp => ?_, fun hp => ?_, fun tables hp => ?_, ?_⟩
  · rw [hpast] at hp
    exact hacquired hp (hready.past hp)
  · rw [hsame]
    exact hready.listing (hphase ▸ hp)
  · rw [hsame]
    obtain ⟨hzero, hcovered⟩ := hready.tables tables (hphase ▸ hp)
    refine ⟨hzero, fun t ht hbuiltin => ?_⟩
    rcases hexisting t ht with hbefore | hknown
    · exact (hcovered t hbefore hbuiltin).imp_left (hkept t)
    · exact Or.inl hknown
  · rw [hsame]
    exact hready.recursions

omit [DecidableEq H] in
/-- A handle with tables to initialize is ready if these are all that are not known. -/
theorem ready_of_tables {tables : Finset N} (htables : (v.phase h).tables = some tables)
    (hzero : v.recursions h = 0)
    (hcovered : ∀ t ∈ c.existing, builtin t = false → v.Known t ∨ t ∈ tables) :
    Ready builtin v c h := by
  refine ⟨fun hp => ?_, fun _ => hzero, fun tables' hp => ?_, hzero ▸ Nat.zero_le _⟩
  · cases hphase : v.phase h <;>
      simp_all [View.PastAcquisition, Phase.tables]
  · rw [htables, Option.some.injEq] at hp
    exact ⟨hzero, hp ▸ hcovered⟩

omit [DecidableEq H] in
/-- The handle that acts is ready for its next section, if the flag is as before. -/
theorem ready_of_moves (hv : Inv builtin v c) (hmoves : Moves builtin v v' c h)
    (hexisting : c'.existing = c.existing) (hkept : ∀ t, v.Known t → v'.Known t)
    (hacquired : v'.phase h = .searching ∨ v'.phase h = .found →
      v'.tableAcquired = v.tableAcquired) : Ready builtin v' c' h := by
  have hready := hv.ready h
  have hle := hready.recursions
  cases hmoves with
  | outside hafter hsame =>
    refine ⟨fun hp => ?_, fun hp => ?_, fun tables hp => ?_, hsame ▸ hle⟩
    · simp [View.PastAcquisition, hafter] at hp
    · simp [hafter] at hp
    · simp [hafter, Phase.tables] at hp
  | start hafter hzero =>
    refine ⟨fun hp => ?_, fun hp => ?_, fun tables hp => ?_, hzero ▸ Nat.zero_le _⟩
    · simp [View.PastAcquisition, hafter, hzero] at hp
    · simp [hafter] at hp
    · simp [hafter, Phase.tables] at hp
  | stay hafter hsame =>
    refine hready.mono hafter hsame (fun hp hset => ?_) hkept fun t ht => Or.inl (hexisting ▸ ht)
    rw [hacquired (hp.symm.imp (fun hp => hafter.trans hp.2) hafter.trans), hset]
  | found hbefore hset hafter hsame =>
    refine ⟨fun _ => ?_, fun hp => ?_, fun tables hp => ?_, hsame ▸ hle⟩
    · rw [hacquired (Or.inr hafter), hset]
    · simp [hafter] at hp
    · simp [hafter, Phase.tables] at hp
  | list hbefore hcleared hafter hsame =>
    have hzero : v.recursions h = 0 := by
      by_contra hne
      have hset := hready.past (Or.inr ⟨Nat.pos_of_ne_zero hne, hbefore⟩)
      rw [hcleared] at hset
      cases hset
    refine ⟨fun hp => ?_, fun _ => hsame.trans hzero, fun tables hp => ?_, hsame ▸ hle⟩
    · simp [View.PastAcquisition, hafter] at hp
    · simp [hafter, Phase.tables] at hp
  | listed tables hbefore htables hafter hsame =>
    refine ready_of_tables (by rw [hafter]; rfl) (hsame.trans (hready.listing hbefore))
      fun t ht hbuiltin => ?_
    rw [hexisting] at ht
    rcases TableCatalog.mem_existing.mp ht with hcommitted | ⟨h', hcreated⟩
    · exact Or.inr (htables t hcommitted hbuiltin)
    · exact Or.inl (hkept t (hv.created h' t hcreated))
  | addHints tables hbefore hafter hsame =>
    obtain ⟨hzero, hcovered⟩ := hready.tables tables (by rw [hbefore]; rfl)
    refine ready_of_tables (by rw [hafter]; rfl) (hsame.trans hzero) fun t ht hbuiltin => ?_
    rw [hexisting] at ht
    exact (hcovered t ht hbuiltin).imp (hkept t) (Finset.mem_union_left _)
  | initialized tables table hknown hbefore hafter hsame =>
    obtain ⟨hzero, hcovered⟩ := hready.tables tables (by rw [hbefore]; rfl)
    refine ready_of_tables (by rw [hafter]; rfl) (hsame.trans hzero) fun t ht hbuiltin => ?_
    rw [hexisting] at ht
    by_cases heq : t = table
    · exact Or.inl (heq ▸ hknown)
    · exact (hcovered t ht hbuiltin).imp (hkept t) (Finset.mem_erase_of_ne_of_mem heq)

omit [DecidableEq H] in
theorem inv_of_quiet (hv : Inv builtin v c) (hquiet : Quiet v v')
    (hmoves : MovesAlone builtin v v' c h) : Inv builtin v' c := by
  have hknown (t : N) : v'.Known t ↔ v.Known t := by
    rw [View.Known, View.Known, hquiet.filted, hquiet.hints]
  refine ⟨fun u t ht => (hknown t).mpr (hv.announced u t ht),
    fun u t ht => (hknown t).mpr (hv.created u t ht), fun hp => ?_, fun hp t ht hbuiltin => ?_,
    fun u => ?_⟩
  · exact hquiet.hints.trans (hv.unhinted (hquiet.tableAcquired.symm.trans hp))
  · exact (hknown t).mpr (hv.covered (hquiet.tableAcquired.symm.trans hp) t ht hbuiltin)
  · by_cases hu : u = h
    · subst hu
      exact ready_of_moves hv hmoves.moves rfl (fun t => (hknown t).mpr)
        fun _ => hquiet.tableAcquired
    · obtain ⟨hphase, hsame⟩ := hmoves.others u hu
      exact (hv.ready u).mono hphase hsame (fun _ hp => hquiet.tableAcquired.trans hp)
        (fun t => (hknown t).mpr) fun t ht => Or.inl ht

/-- A table is initialized, by a handle that then is elsewhere than past its acquisition; one that
succeeds may announce the table. -/
theorem inv_of_initialized (hv : Inv builtin v c) {table : N} {hinting succeed : Bool}
    (hinit : Initialized v v' table hinting succeed)
    (hheeds : hinting = true → ∀ u, ¬ v.PastAcquisition u)
    (hmoves : MovesAlone builtin v v' c h) (helsewhere : v'.phase h ≠ .searching ∧
      v'.phase h ≠ .found)
    (hcatalog : c' = c ∨ succeed = true ∧ c' = c.announce h table) : Inv builtin v' c' := by
  have hexisting : c'.existing = c.existing := by
    rcases hcatalog with rfl | ⟨-, rfl⟩ <;> rfl
  have hcreated : c'.created = c.created := by
    rcases hcatalog with rfl | ⟨-, rfl⟩ <;> rfl
  -- The flag is set only where nothing was hinted.
  have hfalse (hp : v'.tableAcquired = true) : hinting = false := by
    by_contra htrue
    rw [hinit.hinted (by simpa using htrue)] at hp
    cases hp
  have hacquired (hp : v'.tableAcquired = true) : v.tableAcquired = true :=
    (hinit.unhinted (hfalse hp)).1.symm.trans hp
  refine ⟨fun u t ht => ?_, fun u t ht => ?_, fun hp => ?_, fun hp t ht hbuiltin => ?_, fun u => ?_⟩
  · rcases hcatalog with rfl | ⟨hsucceed, rfl⟩
    · exact hinit.kept t (hv.announced u t ht)
    · rcases List.mem_cons.mp ht with heq | hmem
      · cases heq
        exact hinit.known hsucceed
      · exact hinit.kept t (hv.announced u t hmem)
  · exact hinit.kept t (hv.created u t (hcreated ▸ ht))
  · have hsub := (hinit.unhinted (hfalse hp)).2
    rw [hv.unhinted (hacquired hp)] at hsub
    exact Finset.subset_empty.mp hsub
  · exact hinit.kept t (hv.covered (hacquired hp) t (hexisting ▸ ht) hbuiltin)
  · by_cases hu : u = h
    · subst hu
      exact ready_of_moves hv hmoves.moves hexisting hinit.kept fun hphase =>
        hphase.elim (fun hp => absurd hp helsewhere.1) fun hp => absurd hp helsewhere.2
    · obtain ⟨hphase, hsame⟩ := hmoves.others u hu
      refine (hv.ready u).mono hphase hsame (fun hpast hp => ?_) hinit.kept
        fun t ht => Or.inl (hexisting ▸ ht)
      have hunhinted : hinting = false := by
        by_contra htrue
        exact hheeds (by simpa using htrue) u hpast
      rw [(hinit.unhinted hunhinted).1, hp]

omit [DecidableEq H] in
/-- The flag is set, and the step starts again. -/
theorem inv_of_acquired (hv : Inv builtin v c) (hbefore : v.phase h = .initializing ∅)
    (hhints : v.hints = ∅) (hfilted : v'.filted = v.filted) (hsame : v'.hints = v.hints)
    (hacquired : v'.tableAcquired = true) (hafter : v'.phase h = .searching)
    (hsucc : v'.recursions h = v.recursions h + 1)
    (hothers : ∀ h' ≠ h, v'.phase h' = v.phase h' ∧ v'.recursions h' = v.recursions h') :
    Inv builtin v' c := by
  have hknown (t : N) : v'.Known t ↔ v.Known t := by
    rw [View.Known, View.Known, hfilted, hsame]
  obtain ⟨hzero, hcovered⟩ := (hv.ready h).tables ∅ (by rw [hbefore]; rfl)
  refine ⟨fun u t ht => (hknown t).mpr (hv.announced u t ht),
    fun u t ht => (hknown t).mpr (hv.created u t ht), fun _ => hsame.trans hhints,
    fun _ t ht hbuiltin => ?_, fun u => ?_⟩
  · exact (hknown t).mpr ((hcovered t ht hbuiltin).resolve_right (Finset.notMem_empty t))
  · by_cases hu : u = h
    · subst hu
      refine ⟨fun _ => hacquired, fun hp => ?_, fun tables hp => ?_, ?_⟩
      · simp [hafter] at hp
      · simp [hafter, Phase.tables] at hp
      · simp [hsucc, hzero]
    · obtain ⟨hphase, hrecursions⟩ := hothers u hu
      exact (hv.ready u).mono hphase hrecursions (fun _ _ => hacquired)
        (fun t => (hknown t).mpr) fun t ht => Or.inl ht

/-- A handle creates a table that it has announced, or ends its transaction. -/
theorem inv_catalog (hv : Inv builtin v c) {a : TableCatalog.Action H N}
    (hstep : c.step a = some c') :
    Inv builtin v c' := by
  have hexisting (t : N) (ht : t ∈ c'.existing) : t ∈ c.existing ∨ v.Known t := by
    rcases TableCatalog.step_existing hstep ht with hbefore | ⟨u, hannounced⟩
    · exact Or.inl hbefore
    · exact Or.inr (hv.announced u t hannounced)
  refine ⟨fun u t ht => ?_, fun u t ht => ?_, hv.unhinted, fun hp t ht hbuiltin => ?_,
    fun u => ?_⟩
  · exact hv.announced u t (TableCatalog.step_announced hstep ▸ ht)
  · rcases TableCatalog.step_created hstep ht with hcreated | hannounced
    · exact hv.created u t hcreated
    · exact hv.announced u t hannounced
  · exact (hexisting t ht).elim (fun hbefore => hv.covered hp t hbefore hbuiltin) id
  · exact (hv.ready u).mono rfl rfl (fun _ hp => hp) (fun _ ht => ht) hexisting

omit [DecidableEq H] in
/-- Nothing is filtered yet, and no transaction is open. -/
theorem Inv.init {committed : Finset N} (hcleared : v.tableAcquired = false)
    (hphase : ∀ u, v.phase u = .outside) (hzero : ∀ u, v.recursions u = 0) :
    Inv builtin v { committed } where
  announced := fun _ _ ht => by cases ht
  created := fun _ _ ht => by cases ht
  unhinted := fun hp => by simp [hcleared] at hp
  covered := fun hp => by simp [hcleared] at hp
  ready := fun u => by
    refine ⟨fun hp => ?_, fun hp => ?_, fun tables hp => ?_, by rw [hzero]; exact Nat.zero_le _⟩
    · simp [View.PastAcquisition, hphase] at hp
    · simp [hphase] at hp
    · simp [hphase, Phase.tables] at hp

end Acquisition

end Wcdb
