import Wcdb.Base.Acquisition
import Wcdb.Migration.Stepping

/-!
# `Compression::step`: when it reports that all is compressed

The books of `Compression` are simpler than those of `Migration`: an info that was held is never
dropped, and `m_compressings` is replaced as a whole when the tables were acquired. A step returns
true as soon as it found `m_compressings` empty and the tables acquired; that nothing is left is an
assertion here, where `Migration::step` looks.

The flag is overwritten at the end of the loop as in `Migration`. In a run in which that happens
only when no hint is left, no info is out of sight and no other step is about to return, a step that
returns true is right (`honest_of_exec`). `honest_steps` has both steppers.
-/

namespace Wcdb

namespace Compression

open Function (update)
open Acquisition (Phase View)

/-- Where in `step` a handle is. -/
inductive Place (N : Type) where
  | idle
  /-- At the start of `tryCompressRows`. -/
  | starting
  | compressing (info : ℕ)
  /-- At the start of `tryAcquireTables`. -/
  | acquiring
  | listing
  /-- Before the tables hinted are added to those read. -/
  | listed (tables : Finset N)
  /-- In the loop, with the tables that are left of those read. -/
  | initializing (tables left : Finset N)
  /-- Before the infos that are compressed already are left out. -/
  | filtering (infos : Finset ℕ)
  | acquired (infos : Finset ℕ)
  | completing
  deriving DecidableEq

/-- The fields of `Compression`; where each handle is, and how often its step has called itself.
Infos are named by their addresses. `finished` are the infos whose table the records or a step found
compressed. `stepAsserted` says that no assertion of `step` failed. -/
structure State (H N : Type) where
  compressings : Finset ℕ := ∅
  holder : List (ℕ × N) := []
  filted : N → Option (Option ℕ) := fun _ => none
  hints : Finset N := ∅
  tableAcquired : Bool := false
  compressed : Bool := false
  place : H → Place N := fun _ => .idle
  recursions : H → ℕ := fun _ => 0
  finished : Finset ℕ := ∅
  stepAsserted : Bool := true

/-- What an `initInfo` reads before its last section: whether it found the table hinted, what the
filter says, whether the table exists and whether there is a table for the records. -/
structure Request (N : Type) where
  table : N
  hasFiltered : Bool := false
  shouldCompress : Bool := true
  tableExists : Option Bool
  recordCreated : Bool := true
  deriving DecidableEq, Repr

variable {H N : Type} [DecidableEq H] [DecidableEq N]

namespace State

def goto (s : State H N) (h : H) (place : Place N) : State H N :=
  { s with place := update s.place h place }

def markAsNoNeedToCompress (s : State H N) (table : N) : State H N :=
  { s with
    filted := if s.filted table = none then update s.filted table (some none) else s.filted
    hints := s.hints.erase table }

/-- The last section of `initInfo`. The info that is held gets the address `hold`. -/
def holdOrHint (s : State H N) (table : N) (hasFiltered tableExists : Bool) (hold : ℕ) :
    State H N :=
  if s.filted table = none then
    let s := { s with compressed := false }
    if !tableExists then
      if !hasFiltered then { s with hints := insert table s.hints, tableAcquired := false } else s
    else
      { s with
        holder := s.holder ++ [(hold, table)]
        filted := update s.filted table (some (some hold))
        hints := s.hints.erase table }
  else s

/-- `builtin` are the tables of SQLite and of WCDB. -/
def initInfo (builtin : N → Bool) (s : State H N) (request : Request N) (hold : ℕ) :
    State H N × Bool :=
  if builtin request.table || !request.hasFiltered && !request.shouldCompress then
    (s.markAsNoNeedToCompress request.table, true)
  else
    match request.tableExists with
    | none => (s, false)
    | some tableExists =>
        if !request.recordCreated then (s, false)
        else (s.holdOrHint request.table request.hasFiltered tableExists hold, true)

def markAsCompressed (s : State H N) (info : ℕ) : State H N :=
  { s with
    compressings := s.compressings.erase info
    finished := insert info s.finished }

/-- The first section of `tryCompressRows`. -/
def tryCompressRows (s : State H N) (h : H) : State H N :=
  match s.compressings.sort.head? with
  | some info => s.goto h (.compressing info)
  | none => s.goto h .acquiring

/-- The rest of `tryCompressRows`: whether the table exists, whether its columns could be checked,
and what `compressRows` comes to. -/
def compressRows (s : State H N) (h : H) (info : ℕ) (tableExists : Option Bool) (checked : Bool)
    (compressed : Option Bool) : State H N :=
  match tableExists with
  | none => s.goto h .idle
  | some false => (s.markAsCompressed info).goto h .idle
  | some true =>
      if checked && compressed == some true then (s.markAsCompressed info).goto h .idle
      else s.goto h .idle

/-- The first section of `tryAcquireTables`. -/
def tryAcquireTables (s : State H N) (h : H) : State H N :=
  s.goto h (if s.tableAcquired then .completing else .listing)

def didGetAllTables (s : State H N) (h : H) : Option (List N) → State H N
  | none => s.goto h .idle
  | some tables => s.goto h (.listed tables.toFinset)

def addHints (s : State H N) (h : H) (tables : Finset N) : State H N :=
  s.goto h (.initializing (tables ∪ s.hints) (tables ∪ s.hints))

/-- One round of the loop in `tryAcquireTables`. -/
def initNext (builtin : N → Bool) (s : State H N) (h : H) (tables left : Finset N)
    (request : Request N) (hold : ℕ) : State H N :=
  let (s, succeed) := s.initInfo builtin request hold
  s.goto h (if succeed then .initializing tables (left.erase request.table) else .idle)

/-- The infos of the tables read. -/
def needCompressInfos (s : State H N) (tables : Finset N) : Finset ℕ :=
  ((s.holder.filter fun info => info.2 ∈ tables ∧ s.filted info.2 = some (some info.1)).map
    Prod.fst).toFinset

/-- Whether there is a table for the records, and the infos that `filterComplessingTables`
leaves. -/
def filterComplessingTables (s : State H N) (h : H) (infos : Finset ℕ) (recordCreated : Bool) :
    Option (Finset ℕ) → State H N
  | none => s.goto h .idle
  | some kept =>
      if recordCreated then
        { s with finished := s.finished ∪ (infos \ kept) }.goto h (.acquired kept)
      else s.goto h .idle

/-- The last section of `tryAcquireTables`, after which the step calls itself. -/
def didAcquire (s : State H N) (h : H) (infos : Finset ℕ) : State H N :=
  { s with
    tableAcquired := true
    compressings := infos
    recursions := update s.recursions h (s.recursions h + 1) }.goto h .starting

/-- The last section of `step`. -/
def complete (s : State H N) (h : H) : State H N :=
  { s with
    stepAsserted := s.stepAsserted &&
      decide (s.tableAcquired = true ∧ s.compressings = ∅ ∧ s.hints = ∅)
    compressed := true }.goto h .idle

end State

/-- What a handle does next. What the database says and what the stepper does are part of the
action. -/
inductive Action (H N : Type) where
  /-- For a table that is created, or in `getOrInitInfo`. -/
  | initInfo (h : H) (request : Request N) (hold : ℕ)
  | step (h : H)
  | tryCompressRows (h : H)
  | compressRows (h : H) (tableExists : Option Bool) (checked : Bool) (compressed : Option Bool)
  | tryAcquireTables (h : H)
  | getAllTables (h : H) (tables : Option (List N))
  | addHints (h : H)
  | initNext (h : H) (request : Request N) (hold : ℕ)
  | collect (h : H)
  | filterComplessingTables (h : H) (recordCreated : Bool) (kept : Option (Finset ℕ))
  | didAcquire (h : H)
  | complete (h : H)
  deriving DecidableEq

/-- The handle that acts. -/
def Action.handle : Action H N → H
  | .initInfo h _ _ | .step h | .tryCompressRows h | .compressRows h _ _ _ | .tryAcquireTables h
  | .getAllTables h _ | .addHints h | .initNext h _ _ | .collect h
  | .filterComplessingTables h _ _ | .didAcquire h | .complete h => h

/-- A hint that was found is there still, or its table was filtered since. -/
def Request.Found (request : Request N) (s : State H N) : Prop :=
  request.hasFiltered = true → request.table ∈ s.hints ∨ s.filted request.table ≠ none

instance (request : Request N) (s : State H N) : Decidable (request.Found s) := by
  unfold Request.Found
  infer_instance

open State in
/-- A new info has an address that is not taken. -/
def step (builtin : N → Bool) (s : State H N) : Action H N → Option (State H N)
  | .initInfo h request hold =>
      if s.place h = .idle ∧ request.Found s ∧ hold ∉ s.holder.map Prod.fst then
        some (s.initInfo builtin request hold).1
      else none
  | .step h =>
      if s.place h = .idle then
        some ({ s with recursions := update s.recursions h 0 }.goto h .starting)
      else none
  | .tryCompressRows h => if s.place h = .starting then some (s.tryCompressRows h) else none
  | .compressRows h tableExists checked compressed =>
      match s.place h with
      | .compressing info => some (s.compressRows h info tableExists checked compressed)
      | _ => none
  | .tryAcquireTables h => if s.place h = .acquiring then some (s.tryAcquireTables h) else none
  | .getAllTables h tables =>
      if s.place h = .listing ∧ ∀ table ∈ tables.getD [], builtin table = false then
        some (s.didGetAllTables h tables)
      else none
  | .addHints h =>
      match s.place h with
      | .listed tables => some (s.addHints h tables)
      | _ => none
  | .initNext h request hold =>
      match s.place h with
      | .initializing tables left =>
          if request.table ∈ left ∧ request.Found s ∧ hold ∉ s.holder.map Prod.fst then
            some (s.initNext builtin h tables left request hold)
          else none
      | _ => none
  | .collect h =>
      match s.place h with
      | .initializing tables left =>
          if left = ∅ then some (s.goto h (.filtering (s.needCompressInfos tables))) else none
      | _ => none
  | .filterComplessingTables h recordCreated kept =>
      match s.place h with
      | .filtering infos =>
          if ∀ infos' ∈ kept, infos' ⊆ infos then
            some (s.filterComplessingTables h infos recordCreated kept)
          else none
      | _ => none
  | .didAcquire h =>
      match s.place h with
      | .acquired infos => some (s.didAcquire h infos)
      | _ => none
  | .complete h => if s.place h = .completing then some (s.complete h) else none

/-- What the acquisition of the tables sees of a place. -/
def Place.phase : Place N → Phase N
  | .starting | .acquiring => .searching
  | .listing => .listing
  | .listed tables => .listed tables
  | .initializing _ left => .initializing left
  | .filtering _ | .acquired _ => .initializing ∅
  | .completing => .found
  | .idle | .compressing _ => .outside

def State.view (s : State H N) : View H N where
  filted := fun table => s.filted table ≠ none
  hints := s.hints
  tableAcquired := s.tableAcquired
  phase := fun h => (s.place h).phase
  recursions := s.recursions

/-! ### One initialization -/

/-- `initInfo` comes to hinting the table. -/
def hintsTable (builtin : N → Bool) (s : State H N) (request : Request N) : Bool :=
  !builtin request.table && !request.hasFiltered && request.shouldCompress &&
    request.tableExists == some false && request.recordCreated && (s.filted request.table).isNone

/-- What an `initInfo` leaves of the books. -/
structure Initialized (builtin : N → Bool) (s s' : State H N) (request : Request N)
    (succeed : Bool) :
    Prop extends Acquisition.Initialized s.view s'.view request.table (hintsTable builtin s request)
      succeed where
  compressings : s'.compressings = s.compressings
  finished : s'.finished = s.finished
  held : s'.holder = s.holder ∨
    builtin request.table = false ∧ s.filted request.table = none ∧ request.tableExists = some true

section Initialized

variable {builtin : N → Bool} {s : State H N} {request : Request N}

omit [DecidableEq H] [DecidableEq N] in
theorem initialized_failed (hhints : hintsTable builtin s request = false) :
    Initialized builtin s s request false where
  known := by simp
  kept := fun _ h => h
  unhinted := fun _ => ⟨rfl, Finset.Subset.refl _⟩
  hinted := fun h => by simp [hhints] at h
  compressings := rfl
  finished := rfl
  held := Or.inl rfl

omit [DecidableEq H] in
theorem initialized_markAsNoNeedToCompress (hhints : hintsTable builtin s request = false) :
    Initialized builtin s (s.markAsNoNeedToCompress request.table) request true := by
  refine ⟨⟨fun _ => Or.inl ?_, fun t ht => ?_, fun _ => ⟨rfl, fun t ht => ?_⟩,
    fun h => by simp [hhints] at h⟩, rfl, rfl, Or.inl rfl⟩
  · simp only [State.view, State.markAsNoNeedToCompress]
    split_ifs with hnone
    · simp
    · exact hnone
  · simp only [View.Known, State.view, State.markAsNoNeedToCompress] at ht ⊢
    grind [Function.update_apply]
  · exact Finset.mem_of_mem_erase ht

omit [DecidableEq H] in
theorem initialized_holdOrHint {tableExists : Bool} (hbuiltin : builtin request.table = false)
    (hrequest : request.hasFiltered = true ∨ request.shouldCompress = true)
    (hexists : request.tableExists = some tableExists) (hrecord : request.recordCreated = true)
    (hfound : request.Found s) (hold : ℕ) :
    Initialized builtin s (s.holdOrHint request.table request.hasFiltered tableExists hold) request
      true := by
  have hhints : hintsTable builtin s request =
      ((s.filted request.table).isNone && !tableExists && !request.hasFiltered) := by
    rcases hrequest with hr | hr <;>
      cases tableExists <;> simp [hintsTable, hbuiltin, hexists, hrecord, hr, Bool.and_comm]
  have hfiltered (hne : s.filted request.table ≠ none) :
      hintsTable builtin s request = false := by
    rw [hhints, Option.isNone_eq_false_iff.mpr (Option.isSome_iff_ne_none.mpr hne)]
    rfl
  unfold State.holdOrHint
  simp only
  split_ifs with hnone hexist hfirst
  · have htrue : hintsTable builtin s request = true := by
      rw [hhints, hnone, hexist, hfirst]
      rfl
    refine ⟨⟨fun _ => Or.inr (Finset.mem_insert_self _ _), fun t ht => ?_,
      fun h => by simp [htrue] at h, fun _ => rfl⟩, rfl, rfl, Or.inl rfl⟩
    exact ht.imp_right fun hmem => Finset.mem_insert_of_mem hmem
  · -- The table was hinted before.
    have hhas : request.hasFiltered = true := by simpa using hfirst
    have hfalse : hintsTable builtin s request = false := by simp [hhints, hhas]
    refine ⟨⟨fun _ => (hfound hhas).symm, fun t ht => ht, fun _ => ⟨rfl, Finset.Subset.refl _⟩,
      fun h => by simp [hfalse] at h⟩, rfl, rfl, Or.inl rfl⟩
  · have htrue : tableExists = true := by simpa using hexist
    have hfalse : hintsTable builtin s request = false := by simp [hhints, htrue]
    refine ⟨⟨fun _ => ?_, fun t ht => ?_, fun _ => ⟨rfl, fun t ht => ?_⟩,
      fun h => by simp [hfalse] at h⟩, rfl, rfl, Or.inr ⟨hbuiltin, hnone, htrue ▸ hexists⟩⟩
    · left
      simp [State.view]
    · simp only [View.Known, State.view] at ht ⊢
      grind [Function.update_apply]
    · exact Finset.mem_of_mem_erase ht
  · exact ⟨⟨fun _ => Or.inl hnone, fun _ h => h, fun _ => ⟨rfl, Finset.Subset.refl _⟩,
      fun h => by simp [hfiltered hnone] at h⟩, rfl, rfl, Or.inl rfl⟩

omit [DecidableEq H] in
theorem initialized_initInfo (builtin : N → Bool) (s : State H N) (request : Request N)
    (hfound : request.Found s) (hold : ℕ) :
    Initialized builtin s (s.initInfo builtin request hold).1 request
      (s.initInfo builtin request hold).2 := by
  unfold State.initInfo
  by_cases hneedless : (builtin request.table ||
      !request.hasFiltered && !request.shouldCompress) = true
  · rw [if_pos hneedless]
    refine initialized_markAsNoNeedToCompress ?_
    simp only [Bool.or_eq_true, Bool.and_eq_true, Bool.not_eq_true'] at hneedless
    rcases hneedless with hbuiltin | ⟨-, hshould⟩
    · simp [hintsTable, hbuiltin]
    · simp [hintsTable, hshould]
  · rw [if_neg hneedless]
    simp only [Bool.or_eq_true, Bool.and_eq_true, Bool.not_eq_true', not_or, not_and,
      Bool.not_eq_true, Bool.not_eq_false] at hneedless
    obtain ⟨hbuiltin, hrequest⟩ := hneedless
    split
    next hexists => exact initialized_failed (by simp [hintsTable, hexists])
    next tableExists hexists =>
      split_ifs with hrecord
      · refine initialized_failed ?_
        simp only [Bool.not_eq_true'] at hrecord
        simp [hintsTable, hrecord]
      · refine initialized_holdOrHint hbuiltin ?_ hexists (by simpa using hrecord) hfound hold
        exact (Bool.eq_false_or_eq_true request.hasFiltered).imp_right hrequest

omit [DecidableEq H] in
theorem State.initInfo_place (builtin : N → Bool) (s : State H N) (request : Request N) (hold : ℕ) :
    (s.initInfo builtin request hold).1.place = s.place ∧
      (s.initInfo builtin request hold).1.recursions = s.recursions := by
  unfold State.initInfo State.holdOrHint
  repeat' split
  all_goals exact ⟨rfl, rfl⟩

/-- One round of the loop initializes the table, and goes on if it succeeded. -/
theorem initialized_initNext (builtin : N → Bool) (s : State H N) (h : H) (tables left : Finset N)
    (request : Request N) (hfound : request.Found s) (hold : ℕ) :
    ∃ succeed, Initialized builtin s (s.initNext builtin h tables left request hold) request
        succeed ∧
      (s.initNext builtin h tables left request hold).place h =
        if succeed then .initializing tables (left.erase request.table) else .idle := by
  have hinit := initialized_initInfo builtin s request hfound hold
  refine ⟨(s.initInfo builtin request hold).2,
    ⟨⟨hinit.known, hinit.kept, hinit.unhinted, hinit.hinted⟩, hinit.compressings, hinit.finished,
      hinit.held⟩, ?_⟩
  simp [State.initNext, State.goto]

end Initialized

/-! ### Where a step stands -/

/-- The handle is in a step. -/
def Place.isStepping : Place N → Bool
  | .idle => false
  | _ => true

/-- How far a step is from its end, for one call: `didAcquire` spends the first component of
`remaining`, each table initialized the last. -/
def Place.rank : Place N → ℕ ×ₗ ℕ
  | .idle => toLex (0, 0)
  | .compressing _ | .completing => toLex (1, 0)
  | .acquired _ => toLex (2, 0)
  | .filtering _ => toLex (3, 0)
  | .initializing _ left => toLex (4, left.card)
  | .listed _ => toLex (5, 0)
  | .listing => toLex (6, 0)
  | .acquiring => toLex (7, 0)
  | .starting => toLex (8, 0)

def State.remaining (s : State H N) (h : H) : ℕ ×ₗ ℕ ×ₗ ℕ :=
  toLex (1 - s.recursions h, (s.place h).rank)

/-- From one section of a step to the next. -/
inductive Next (s s' : State H N) (h : H) (a : Action H N) : Place N → Place N → Prop where
  | compress (info : ℕ) : Next s s' h a .starting (.compressing info)
  | acquire (hempty : s.compressings = ∅) : Next s s' h a .starting .acquiring
  | complete (hacquired : s.tableAcquired = true) : Next s s' h a .acquiring .completing
  | list (hcleared : s.tableAcquired = false) : Next s s' h a .acquiring .listing
  | listed (tables : List N) (haction : a = .getAllTables h (some tables)) :
      Next s s' h a .listing (.listed tables.toFinset)
  | addHints (tables : Finset N) :
      Next s s' h a (.listed tables) (.initializing (tables ∪ s.hints) (tables ∪ s.hints))
  | initialized (tables left : Finset N) (table : N) (htable : table ∈ left)
      (hknown : s'.view.Known table) :
      Next s s' h a (.initializing tables left) (.initializing tables (left.erase table))
  | collect (tables : Finset N) (infos : Finset ℕ) :
      Next s s' h a (.initializing tables ∅) (.filtering infos)
  | filter (infos kept : Finset ℕ) : Next s s' h a (.filtering infos) (.acquired kept)

/-- How a handle goes on. -/
inductive Moves (s s' : State H N) (h : H) (a : Action H N) : Prop where
  | idle (hbefore : s.place h = .idle) (hafter : s'.place h = .idle)
      (hsame : s'.recursions h = s.recursions h)
  | start (hbefore : s.place h = .idle) (hafter : s'.place h = .starting)
      (hzero : s'.recursions h = 0)
  | finish (hbefore : (s.place h).isStepping = true) (hafter : s'.place h = .idle)
      (hsame : s'.recursions h = s.recursions h)
  | next (hnext : Next s s' h a (s.place h) (s'.place h)) (hsame : s'.recursions h = s.recursions h)
  | recurse (infos : Finset ℕ) (hbefore : s.place h = .acquired infos)
      (hafter : s'.place h = .starting) (haction : a = .didAcquire h)
      (hsucc : s'.recursions h = s.recursions h + 1)

/-- The handle goes on, and no other. -/
def MovesAlone (s s' : State H N) (h : H) (a : Action H N) : Prop :=
  Moves s s' h a ∧ ∀ h' ≠ h, s'.place h' = s.place h' ∧ s'.recursions h' = s.recursions h'

section MovesAlone

omit [DecidableEq H] in
theorem MovesAlone.view {s s' : State H N} {h : H} {a : Action H N} (hmoves : MovesAlone s s' h a)
    (h' : H) (hne : h' ≠ h) :
    s'.view.phase h' = s.view.phase h' ∧ s'.view.recursions h' = s.view.recursions h' :=
  (hmoves.2 h' hne).imp_left (congrArg Place.phase)

variable {s t : State H N} {h : H} {a : Action H N} {place : Place N}

omit [DecidableEq N] in
theorem others_goto (hplace : t.place = s.place) (hsame : t.recursions = s.recursions) (h' : H)
    (hne : h' ≠ h) : (t.goto h place).place h' = s.place h' ∧
      (t.goto h place).recursions h' = s.recursions h' := by
  simp [State.goto, hne, hplace, hsame]

theorem movesAlone_next (hplace : t.place = s.place) (hsame : t.recursions = s.recursions)
    (hnext : Next s (t.goto h place) h a (s.place h) place) :
    MovesAlone s (t.goto h place) h a :=
  ⟨.next (by simpa [State.goto] using hnext) (by simp [State.goto, hsame]),
    others_goto hplace hsame⟩

theorem movesAlone_finish (hplace : t.place = s.place) (hsame : t.recursions = s.recursions)
    (hbefore : (s.place h).isStepping = true) : MovesAlone s (t.goto h .idle) h a :=
  ⟨.finish hbefore (by simp [State.goto]) (by simp [State.goto, hsame]), others_goto hplace hsame⟩

/-- The handle that acts goes on, and no other. -/
theorem movesAlone_of_step {builtin : N → Bool} {s s' : State H N} {a : Action H N}
    (hstep : step builtin s a = some s') : MovesAlone s s' a.handle a := by
  cases a with
  | initInfo h request hold =>
    obtain ⟨⟨hplace, -⟩, hs'⟩ := Option.ite_none_right_eq_some.mp hstep
    cases hs'
    obtain ⟨hp, hr⟩ := State.initInfo_place builtin s request hold
    exact ⟨.idle hplace ((congrFun hp h).trans hplace) (by rw [hr]),
      fun h' _ => ⟨by rw [hp], by rw [hr]⟩⟩
  | step h =>
    obtain ⟨hplace, hs'⟩ := Option.ite_none_right_eq_some.mp hstep
    cases hs'
    exact ⟨.start hplace (by simp [State.goto, Action.handle])
      (by simp [State.goto, Action.handle]), fun h' hne => by
        simp only [Action.handle] at hne
        simp [State.goto, hne]⟩
  | tryCompressRows h =>
    obtain ⟨hplace, hs'⟩ := Option.ite_none_right_eq_some.mp hstep
    cases hs'
    unfold State.tryCompressRows
    split
    next info _ => exact movesAlone_next rfl rfl (hplace ▸ .compress info)
    next hnone =>
      have hempty : s.compressings = ∅ := by
        refine Finset.eq_empty_of_forall_notMem fun info hinfo => ?_
        rw [List.head?_eq_none_iff] at hnone
        simpa [hnone] using (Finset.mem_sort (· ≤ ·)).mpr hinfo
      exact movesAlone_next rfl rfl (hplace ▸ .acquire hempty)
  | compressRows h tableExists checked compressed =>
    simp only [step] at hstep
    split at hstep
    next info hplace =>
      cases hstep
      have hstepping : (s.place h).isStepping = true := by rw [hplace]; rfl
      unfold State.compressRows
      split
      · exact movesAlone_finish rfl rfl hstepping
      · exact movesAlone_finish rfl rfl hstepping
      · split_ifs
        · exact movesAlone_finish rfl rfl hstepping
        · exact movesAlone_finish rfl rfl hstepping
    · cases hstep
  | tryAcquireTables h =>
    obtain ⟨hplace, hs'⟩ := Option.ite_none_right_eq_some.mp hstep
    cases hs'
    unfold State.tryAcquireTables
    split_ifs with hacquired
    · exact movesAlone_next rfl rfl (hplace ▸ .complete hacquired)
    · exact movesAlone_next rfl rfl (hplace ▸ .list ((Bool.not_eq_true _).mp hacquired))
  | getAllTables h tables =>
    obtain ⟨⟨hplace, -⟩, hs'⟩ := Option.ite_none_right_eq_some.mp hstep
    cases hs'
    cases tables with
    | none => exact movesAlone_finish rfl rfl (show (s.place h).isStepping =
        true by rw [hplace]; rfl)
    | some tables => exact movesAlone_next rfl rfl (hplace ▸ .listed tables rfl)
  | addHints h =>
    simp only [step] at hstep
    split at hstep
    next tables hplace =>
      cases hstep
      exact movesAlone_next rfl rfl (hplace ▸ .addHints tables)
    · cases hstep
  | initNext h request hold =>
    simp only [step] at hstep
    split at hstep
    next tables left hplace =>
      obtain ⟨⟨htable, hfound, -⟩, hs'⟩ := Option.ite_none_right_eq_some.mp hstep
      cases hs'
      have hinit := initialized_initInfo builtin s request hfound hold
      obtain ⟨hp, hr⟩ := State.initInfo_place builtin s request hold
      unfold State.initNext
      simp only
      split_ifs with hsucceed
      · exact movesAlone_next hp hr
          (hplace ▸ .initialized tables left request.table htable (hinit.known hsucceed))
      · exact movesAlone_finish hp hr (show (s.place h).isStepping = true by rw [hplace]; rfl)
    · cases hstep
  | collect h =>
    simp only [step] at hstep
    split at hstep
    next tables left hplace =>
      obtain ⟨hleft, hs'⟩ := Option.ite_none_right_eq_some.mp hstep
      cases hs'
      subst hleft
      exact movesAlone_next rfl rfl (hplace ▸ .collect tables _)
    · cases hstep
  | filterComplessingTables h recordCreated kept =>
    simp only [step] at hstep
    split at hstep
    next infos hplace =>
      obtain ⟨-, hs'⟩ := Option.ite_none_right_eq_some.mp hstep
      cases hs'
      have hstepping : (s.place h).isStepping = true := by rw [hplace]; rfl
      unfold State.filterComplessingTables
      split
      · exact movesAlone_finish rfl rfl hstepping
      next kept =>
        split_ifs
        · exact movesAlone_next rfl rfl (hplace ▸ .filter infos kept)
        · exact movesAlone_finish rfl rfl hstepping
    · cases hstep
  | didAcquire h =>
    simp only [step] at hstep
    split at hstep
    next infos hplace =>
      cases hstep
      exact ⟨.recurse infos hplace (by simp [State.didAcquire, State.goto, Action.handle]) rfl
        (by simp [State.didAcquire, State.goto, Action.handle]), fun h' hne => by
          simp only [Action.handle] at hne
          simp [State.didAcquire, State.goto, hne]⟩
    · cases hstep
  | complete h =>
    obtain ⟨hplace, hs'⟩ := Option.ite_none_right_eq_some.mp hstep
    cases hs'
    exact movesAlone_finish rfl rfl (show (s.place h).isStepping = true by rw [hplace]; rfl)

end MovesAlone

omit [DecidableEq H] in
theorem Next.rank_lt {s s' : State H N} {h : H} {a : Action H N} {p p' : Place N}
    (hnext : Next s s' h a p p') : p'.rank < p.rank := by
  cases hnext with
  | initialized tables left table htable =>
    exact Prod.Lex.toLex_lt_toLex.mpr (Or.inr ⟨rfl, Finset.card_erase_lt_of_mem htable⟩)
  | compress | acquire | complete | list | listed | addHints | collect | filter =>
    exact Prod.Lex.toLex_lt_toLex.mpr (Or.inl (by simp))

omit [DecidableEq N] in
theorem rank_idle_lt {place : Place N} (hstepping : place.isStepping = true) :
    Place.rank (.idle : Place N) < place.rank := by
  cases place with
  | idle => cases hstepping
  | starting | compressing | acquiring | listing | listed | initializing | filtering | acquired
  | completing => exact Prod.Lex.toLex_lt_toLex.mpr (Or.inl (Nat.succ_pos _))

omit [DecidableEq H] in
theorem remaining_lt {s s' : State H N} {h : H} {a : Action H N}
    (hmoves : Moves s s' h a) (hstepping : (s.place h).isStepping = true)
    (hzero : ∀ infos, s.place h = .acquired infos → s.recursions h = 0) :
    s'.remaining h < s.remaining h := by
  cases hmoves with
  | idle hbefore => simp [hbefore, Place.isStepping] at hstepping
  | start hbefore => simp [hbefore, Place.isStepping] at hstepping
  | finish hbefore hafter hsame =>
    refine Prod.Lex.toLex_lt_toLex.mpr (Or.inr ⟨by rw [hsame], ?_⟩)
    rw [hafter]
    exact rank_idle_lt hbefore
  | next hnext hsame =>
    exact Prod.Lex.toLex_lt_toLex.mpr (Or.inr ⟨by rw [hsame], hnext.rank_lt⟩)
  | recurse infos hbefore _ _ hsucc =>
    refine Prod.Lex.toLex_lt_toLex.mpr (Or.inl ?_)
    rw [hsucc, hzero infos hbefore]
    exact Nat.one_pos

omit [DecidableEq H] in
/-- The places of a step are those of the acquisition. -/
theorem Moves.acquisition {builtin : N → Bool} {s s' : State H N} {h : H} {a : Action H N}
    {c : TableCatalog H N} (hmoves : Moves s s' h a) (hacquire : a ≠ .didAcquire h)
    (htables : ∀ tables, a = .getAllTables h (some tables) →
      ∀ t ∈ c.committed, builtin t = false → t ∈ tables) :
    Acquisition.Moves builtin s.view s'.view c h := by
  cases hmoves with
  | idle _ hafter hsame => exact .outside (congrArg Place.phase hafter) hsame
  | start _ hafter hzero => exact .start (congrArg Place.phase hafter) hzero
  | finish _ hafter hsame => exact .outside (congrArg Place.phase hafter) hsame
  | recurse _ _ _ haction => exact absurd haction hacquire
  | next hnext hsame =>
    generalize hfrom : s.place h = p at hnext
    generalize hto : s'.place h = p' at hnext
    have hbefore : s.view.phase h = p.phase := congrArg Place.phase hfrom
    have hafter : s'.view.phase h = p'.phase := congrArg Place.phase hto
    cases hnext with
    | compress info => exact .outside hafter hsame
    | acquire | collect | filter => exact .stay (hafter.trans hbefore.symm) hsame
    | complete hacquired => exact .found hbefore hacquired hafter hsame
    | list hcleared => exact .list hbefore hcleared hafter hsame
    | listed tables haction =>
      refine .listed tables.toFinset hbefore (fun t ht hbuiltin => ?_) hafter hsame
      exact List.mem_toFinset.mpr (htables tables haction t ht hbuiltin)
    | addHints tables => exact .addHints tables hbefore hafter hsame
    | initialized tables left table _ hknown =>
      exact .initialized left table hknown hbefore hafter hsame

/-! ### What a step changes -/

/-- The tables known, the flag and the infos stay; an info is no longer to be compressed once it is
finished. -/
structure Quiet (s s' : State H N) : Prop extends Acquisition.Quiet s.view s'.view where
  holder : s'.holder = s.holder
  finished : s.finished ⊆ s'.finished
  compressings : s'.compressings ⊆ s.compressings
  settled : ∀ info ∈ s.compressings, info ∈ s'.finished ∨ info ∈ s'.compressings

section Quiet

variable {s s' : State H N}

omit [DecidableEq H] [DecidableEq N] in
theorem Quiet.refl (s : State H N) : Quiet s s :=
  ⟨⟨rfl, rfl, rfl⟩, rfl, Finset.Subset.refl _, Finset.Subset.refl _, fun _ => Or.inr⟩

omit [DecidableEq N] in
theorem Quiet.goto (hquiet : Quiet s s') (h : H) (place : Place N) : Quiet s (s'.goto h place) :=
  ⟨⟨hquiet.filted, hquiet.hints, hquiet.tableAcquired⟩, hquiet.holder, hquiet.finished,
    hquiet.compressings, hquiet.settled⟩

omit [DecidableEq H] [DecidableEq N] in
theorem quiet_markAsCompressed (info : ℕ) : Quiet s (s.markAsCompressed info) := by
  refine ⟨⟨rfl, rfl, rfl⟩, rfl, Finset.subset_insert _ _, Finset.erase_subset _ _, fun i hi => ?_⟩
  by_cases heq : i = info
  · exact Or.inl (heq ▸ Finset.mem_insert_self _ _)
  · exact Or.inr (Finset.mem_erase_of_ne_of_mem heq hi)

/-- A step that neither initializes a table nor ends the acquisition is quiet. -/
theorem quiet_of_step {builtin : N → Bool} {a : Action H N} (hstep : step builtin s a = some s')
    (hinit : ∀ h request hold, a ≠ .initInfo h request hold ∧ a ≠ .initNext h request hold)
    (hacquire : ∀ h, a ≠ .didAcquire h) : Quiet s s' := by
  have hrefl := Quiet.refl s
  cases a with
  | initInfo h request hold => exact absurd rfl (hinit h request hold).1
  | initNext h request hold => exact absurd rfl (hinit h request hold).2
  | didAcquire h => exact absurd rfl (hacquire h)
  | step | complete =>
    obtain ⟨-, hs'⟩ := Option.ite_none_right_eq_some.mp hstep
    cases hs'
    exact ⟨⟨rfl, rfl, rfl⟩, rfl, Finset.Subset.refl _, Finset.Subset.refl _, fun _ => Or.inr⟩
  | tryCompressRows h =>
    obtain ⟨-, hs'⟩ := Option.ite_none_right_eq_some.mp hstep
    cases hs'
    unfold State.tryCompressRows
    split
    · exact hrefl.goto h _
    · exact hrefl.goto h _
  | compressRows h tableExists checked compressed =>
    simp only [step] at hstep
    split at hstep
    next info _ =>
      cases hstep
      unfold State.compressRows
      split
      · exact hrefl.goto h _
      · exact (quiet_markAsCompressed info).goto h _
      · split_ifs
        · exact (quiet_markAsCompressed info).goto h _
        · exact hrefl.goto h _
    · cases hstep
  | tryAcquireTables h =>
    obtain ⟨-, hs'⟩ := Option.ite_none_right_eq_some.mp hstep
    cases hs'
    exact hrefl.goto h _
  | getAllTables h tables =>
    obtain ⟨-, hs'⟩ := Option.ite_none_right_eq_some.mp hstep
    cases hs'
    cases tables with
    | none => exact hrefl.goto h _
    | some tables => exact hrefl.goto h _
  | addHints h =>
    simp only [step] at hstep
    split at hstep
    · cases hstep
      exact hrefl.goto h _
    · cases hstep
  | collect h =>
    simp only [step] at hstep
    split at hstep
    · obtain ⟨-, hs'⟩ := Option.ite_none_right_eq_some.mp hstep
      cases hs'
      exact hrefl.goto h _
    · cases hstep
  | filterComplessingTables h recordCreated kept =>
    simp only [step] at hstep
    split at hstep
    next infos _ =>
      obtain ⟨-, hs'⟩ := Option.ite_none_right_eq_some.mp hstep
      cases hs'
      unfold State.filterComplessingTables
      split
      · exact hrefl.goto h _
      · split_ifs
        · exact ⟨⟨rfl, rfl, rfl⟩, rfl, Finset.subset_union_left, Finset.Subset.refl _,
            fun _ => Or.inr⟩
        · exact hrefl.goto h _
    · cases hstep

end Quiet

/-- In a step that found nothing to compress and did not acquire the tables since. -/
def Place.isReturning : Place N → Bool
  | .acquiring | .completing => true
  | _ => false

/-- The infos that a step has collected and is about to set. -/
def Place.infos : Place N → Finset ℕ
  | .filtering infos | .acquired infos => infos
  | _ => ∅

omit [DecidableEq H] in
/-- A step gets there only when it finds nothing to compress. -/
theorem Moves.isReturning {s s' : State H N} {h : H} {a : Action H N} (hmoves : Moves s s' h a)
    (hafter : (s'.place h).isReturning = true) :
    s.compressings = ∅ ∨ (s.place h).isReturning = true := by
  cases hmoves with
  | idle _ hto | start _ hto | finish _ hto | recurse _ _ hto =>
    simp [hto, Place.isReturning] at hafter
  | next hnext =>
    generalize s.place h = p at hnext
    generalize s'.place h = p' at hnext hafter
    cases hnext with
    | acquire hempty => exact Or.inl hempty
    | complete => exact Or.inr rfl
    | compress | list | listed | addHints | initialized | collect | filter => cases hafter

/-! ### Steps among other handles -/

/-- The books and the tables of the database. -/
structure World (H N : Type) where
  compression : State H N := {}
  catalog : TableCatalog H N

inductive World.Action (H N : Type) where
  | compression (a : Compression.Action H N)
  | catalog (a : TableCatalog.Action H N)

namespace World

/-- What is read from the database is so: a table that is found exists for the handle, and of the
tables that exist, those are read whose names the pattern of `getAllTables` does not leave out. -/
def Reads (listed : N → Bool) (w : World H N) : Compression.Action H N → Prop
  | .initInfo h request _ | .initNext h request _ =>
      request.tableExists = some true → request.table ∈ w.catalog.visible h
  | .getAllTables h tables => ∀ list ∈ tables,
      list.toFinset = (w.catalog.visible h).filter fun table => listed table = true
  | _ => True

instance Reads.decidable (listed : N → Bool) (w : World H N) :
    (a : Compression.Action H N) → Decidable (w.Reads listed a)
  | .initInfo h request _ | .initNext h request _ => inferInstanceAs (Decidable
      (request.tableExists = some true → request.table ∈ w.catalog.visible h))
  | .getAllTables h tables => inferInstanceAs (Decidable (∀ list ∈ tables,
      list.toFinset = (w.catalog.visible h).filter fun table => listed table = true))
  | .step _ | .tryCompressRows _ | .compressRows _ _ _ _ | .tryAcquireTables _ | .addHints _
  | .collect _ | .filterComplessingTables _ _ _ | .didAcquire _ | .complete _ =>
      inferInstanceAs (Decidable True)

/-- An `initInfo` that succeeds lets the handle create the table. -/
def announced (builtin : N → Bool) (w : World H N) : Compression.Action H N → TableCatalog H N
  | .initInfo h request hold =>
      if (w.compression.initInfo builtin request hold).2 then w.catalog.announce h request.table
      else w.catalog
  | _ => w.catalog

/-- A step of the books or of the database. -/
def step (builtin listed : N → Bool) (w : World H N) : World.Action H N → Option (World H N)
  | .compression a =>
      if w.Reads listed a then
        (Compression.step builtin w.compression a).map fun s => ⟨s, w.announced builtin a⟩
      else none
  | .catalog a => (w.catalog.step a).map fun c => { w with catalog := c }

variable {builtin listed : N → Bool} {w w' : World H N}

/-- What every state of an orderly run keeps. -/
structure Inv (builtin : N → Bool) (w : World H N) : Prop extends
    Acquisition.Inv builtin w.compression.view w.catalog where
  held : w.compression.tableAcquired = true → ∀ info ∈ w.compression.holder,
    info.1 ∈ w.compression.finished ∨ info.1 ∈ w.compression.compressings
  returning : ∀ h, (w.compression.place h).isReturning = true → w.compression.compressings = ∅

/-- **The tables count as acquired only when no hint is left, all infos held are in sight and no
other step is about to return; no table is hinted while a step has found the tables acquired; and
the names read are those of all tables that exist.** This is a condition on the state before the
step. -/
def Heeds (builtin listed : N → Bool) (w : World H N) : Compression.Action H N → Prop
  | .initInfo _ request _ | .initNext _ request _ =>
      hintsTable builtin w.compression request = true →
        ∀ h, ¬ w.compression.view.PastAcquisition h
  | .getAllTables _ _ => ∀ t ∈ w.catalog.committed, builtin t = true ∨ listed t = true
  | .didAcquire h => w.compression.hints = ∅ ∧
      (∀ info ∈ w.compression.holder, info.1 ∈ w.compression.finished ∨
        info.1 ∈ (w.compression.place h).infos) ∧
      ∀ h' ≠ h, (w.compression.place h').isReturning = false
  | _ => True

instance Heeds.decidable [Fintype H] (builtin listed : N → Bool) (w : World H N) :
    (a : Compression.Action H N) → Decidable (w.Heeds builtin listed a)
  | .initInfo _ request _ | .initNext _ request _ => inferInstanceAs (Decidable
      (hintsTable builtin w.compression request = true →
        ∀ h, ¬ w.compression.view.PastAcquisition h))
  | .getAllTables _ _ => inferInstanceAs (Decidable
      (∀ t ∈ w.catalog.committed, builtin t = true ∨ listed t = true))
  | .didAcquire h => inferInstanceAs (Decidable (w.compression.hints = ∅ ∧
      (∀ info ∈ w.compression.holder, info.1 ∈ w.compression.finished ∨
        info.1 ∈ (w.compression.place h).infos) ∧
      ∀ h' ≠ h, (w.compression.place h').isReturning = false))
  | .step _ | .tryCompressRows _ | .compressRows _ _ _ _ | .tryAcquireTables _ | .addHints _
  | .collect _ | .filterComplessingTables _ _ _ | .complete _ => inferInstanceAs (Decidable True)

def Orderly (builtin listed : N → Bool) (w : World H N) : World.Action H N → Prop
  | .compression a => w.Heeds builtin listed a
  | .catalog _ => True

instance Orderly.decidable [Fintype H] (builtin listed : N → Bool) (w : World H N) :
    (a : World.Action H N) → Decidable (w.Orderly builtin listed a)
  | .compression a => inferInstanceAs (Decidable (w.Heeds builtin listed a))
  | .catalog _ => inferInstanceAs (Decidable True)

/-- **A step that returns true is right**: nothing is left to compress, the table of every info was
found compressed, every table that exists was filtered, but for those of SQLite and of WCDB, and no
table is hinted; a step calls itself at most once; and each of its sections brings it nearer to its
end, whatever the others do. -/
structure Honest (builtin listed : N → Bool) (w : World H N) : Prop where
  returns : ∀ h, w.compression.place h = .completing → w.compression.compressings = ∅ ∧
    (∀ info ∈ w.compression.holder, info.1 ∈ w.compression.finished) ∧
      w.compression.hints = ∅ ∧
        ∀ t ∈ w.catalog.existing, builtin t = false → w.compression.filted t ≠ none
  recursions : ∀ h, w.compression.recursions h ≤ 1
  progress : ∀ a w', w.step builtin listed (.compression a) = some w' →
    ∀ h, (w.compression.place h).isStepping = true →
      if a.handle = h then w'.compression.remaining h < w.compression.remaining h
      else w'.compression.remaining h = w.compression.remaining h

section Steps

/-- One table is initialized by a handle that stays outside a step or goes on in its loop. -/
theorem inv_of_initialized (hw : Inv builtin w) {s' : State H N} {c' : TableCatalog H N} {h : H}
    {a : Compression.Action H N} {request : Request N} {succeed : Bool}
    (hinit : Initialized builtin w.compression s' request succeed)
    (hheeds : hintsTable builtin w.compression request = true →
      ∀ h, ¬ w.compression.view.PastAcquisition h)
    (hreads : request.tableExists = some true → request.table ∈ w.catalog.visible h)
    (hmoves : MovesAlone w.compression s' h a)
    (hacquisition : Acquisition.Moves builtin w.compression.view s'.view w.catalog h)
    (helsewhere : s'.view.phase h ≠ .searching ∧ s'.view.phase h ≠ .found)
    (hcatalog : c' = w.catalog ∨ succeed = true ∧ c' = w.catalog.announce h request.table) :
    Inv builtin ⟨s', c'⟩ := by
  refine ⟨Acquisition.inv_of_initialized hw.toInv hinit.toInitialized hheeds
    ⟨hacquisition, hmoves.view⟩ helsewhere hcatalog, fun hp => ?_, fun u hu => ?_⟩
  · have hacquired : w.compression.tableAcquired = true := by
      by_cases hhints : hintsTable builtin w.compression request = true
      · cases (hinit.hinted hhints).symm.trans hp
      · exact (hinit.unhinted ((Bool.not_eq_true _).mp hhints)).1.symm.trans hp
    rcases hinit.held with hholder | ⟨hbuiltin, hnone, hexists⟩
    · simp only [hholder, hinit.finished, hinit.compressings]
      exact hw.held hacquired
    · -- A table that exists was filtered, for the tables are acquired and no hint is left.
      have hexisting := TableCatalog.mem_existing_of_visible (hreads hexists)
      rcases hw.covered hacquired request.table hexisting hbuiltin with hfilted | hhint
      · exact absurd hnone hfilted
      · rw [hw.unhinted hacquired] at hhint
        exact absurd hhint (Finset.notMem_empty _)
  · by_cases heq : u = h
    · subst heq
      have hphase : (s'.place u).phase = .searching ∨ (s'.place u).phase = .found := by
        simp only at hu
        cases hp : s'.place u <;> simp [hp, Place.isReturning, Place.phase] at hu ⊢
      exact (hphase.elim helsewhere.1 helsewhere.2).elim
    · rw [show s'.place u = w.compression.place u from (hmoves.2 u heq).1] at hu
      exact hinit.compressings.trans (hw.returning u hu)

/-- A section that is quiet. -/
theorem inv_of_quiet (hw : Inv builtin w) {s' : State H N} {h : H} {a : Compression.Action H N}
    (hquiet : Quiet w.compression s') (hmoves : MovesAlone w.compression s' h a)
    (hacquisition : Acquisition.Moves builtin w.compression.view s'.view w.catalog h) :
    Inv builtin ⟨s', w.catalog⟩ := by
  refine ⟨Acquisition.inv_of_quiet hw.toInv hquiet.toQuiet ⟨hacquisition, hmoves.view⟩,
    fun hp info hinfo => ?_, fun u hu => ?_⟩
  · rcases hw.held (hquiet.tableAcquired.symm.trans hp) info (hquiet.holder ▸ hinfo) with hf | hc
    · exact Or.inl (hquiet.finished hf)
    · exact hquiet.settled info.1 hc
  · have hempty : w.compression.compressings = ∅ := by
      by_cases heq : u = h
      · subst heq
        exact (hmoves.1.isReturning hu).elim id (hw.returning u)
      · exact hw.returning u ((hmoves.2 u heq).1 ▸ hu)
    exact Finset.subset_empty.mp (hempty ▸ hquiet.compressings)

theorem inv_didAcquire (hw : Inv builtin w) {h : H} {infos : Finset ℕ}
    (hplace : w.compression.place h = .acquired infos)
    (hheeds : w.Heeds builtin listed (.didAcquire h))
    (hmoves : MovesAlone w.compression (w.compression.didAcquire h infos) h (.didAcquire h)) :
    Inv builtin ⟨w.compression.didAcquire h infos, w.catalog⟩ := by
  obtain ⟨hhints, hsight, hothers⟩ := hheeds
  rw [hplace] at hsight
  refine ⟨Acquisition.inv_of_acquired hw.toInv (congrArg Place.phase hplace) hhints rfl rfl rfl
    ?_ ?_ hmoves.view, fun _ => hsight, fun u hu => ?_⟩
  · simp [State.view, State.didAcquire, State.goto, Place.phase]
  · simp [State.view, State.didAcquire, State.goto]
  · by_cases heq : u = h
    · subst heq
      simp [State.didAcquire, State.goto, Place.isReturning] at hu
    · rw [show (w.compression.didAcquire h infos).place u = w.compression.place u from
        (hmoves.2 u heq).1, hothers u heq] at hu
      cases hu

theorem step_inv (w : World H N) (a : World.Action H N) (w' : World H N) (hw : Inv builtin w)
    (hok : w.Orderly builtin listed a) (hstep : w.step builtin listed a = some w') :
    Inv builtin w' := by
  cases a with
  | catalog a =>
    obtain ⟨c', hc', hw'⟩ := Option.map_eq_some_iff.mp hstep
    cases hw'
    exact ⟨Acquisition.inv_catalog hw.toInv hc', hw.held, hw.returning⟩
  | compression a =>
    obtain ⟨hreads, hmap⟩ := Option.ite_none_right_eq_some.mp hstep
    obtain ⟨s', hs', hw'⟩ := Option.map_eq_some_iff.mp hmap
    cases hw'
    have hheeds : w.Heeds builtin listed a := hok
    have hmoves := movesAlone_of_step hs'
    have hacquisition (hacquire : a ≠ .didAcquire a.handle) :
        Acquisition.Moves builtin w.compression.view s'.view w.catalog a.handle := by
      refine hmoves.1.acquisition hacquire fun tables ha t ht hbuiltin => ?_
      rw [ha] at hheeds hreads
      have hlisted := (hheeds t ht).resolve_left (by simp [hbuiltin])
      rw [← List.mem_toFinset, hreads tables rfl]
      exact Finset.mem_filter.mpr ⟨Finset.mem_union_left _ ht, hlisted⟩
    cases a with
    | initInfo h request hold =>
      obtain ⟨⟨hplace, hfound, -⟩, hs'⟩ := Option.ite_none_right_eq_some.mp hs'
      cases hs'
      have hinit := initialized_initInfo builtin w.compression request hfound hold
      have hp := congrFun (State.initInfo_place builtin w.compression request hold).1 h
      rw [hplace] at hp
      have hphase := congrArg Place.phase hp
      refine inv_of_initialized hw hinit hheeds hreads hmoves (hacquisition (by simp)) ?_ ?_
      · simp only [State.view, hphase]
        exact ⟨by simp [Place.phase], by simp [Place.phase]⟩
      · unfold announced
        simp only
        split_ifs with hsucceed
        · exact Or.inr ⟨hsucceed, rfl⟩
        · exact Or.inl rfl
    | initNext h request hold =>
      simp only [Compression.step] at hs'
      split at hs'
      next tables left hplace =>
        obtain ⟨⟨-, hfound, -⟩, hs'⟩ := Option.ite_none_right_eq_some.mp hs'
        cases hs'
        obtain ⟨succeed, hinit, hto⟩ :=
          initialized_initNext builtin w.compression h tables left request hfound hold
        refine inv_of_initialized hw hinit hheeds hreads hmoves (hacquisition (by simp)) ?_
          (Or.inl rfl)
        have hphase := congrArg Place.phase hto
        simp only [State.view, hphase]
        cases succeed <;> exact ⟨by simp [Place.phase], by simp [Place.phase]⟩
      · cases hs'
    | didAcquire h =>
      simp only [Compression.step] at hs'
      split at hs'
      next infos hplace =>
        cases hs'
        exact inv_didAcquire hw hplace hheeds hmoves
      · cases hs'
    | step | tryCompressRows | compressRows | tryAcquireTables | getAllTables | addHints | collect
    | filterComplessingTables | complete =>
      exact inv_of_quiet hw (quiet_of_step hs' (by simp) (by simp)) hmoves (hacquisition (by simp))

end Steps

omit [DecidableEq H] in
theorem Inv.init (committed : Finset N) :
    Inv builtin ({ catalog := { committed } } : World H N) where
  toInv := Acquisition.Inv.init rfl (fun _ => rfl) fun _ => rfl
  held := fun _ _ hinfo => by cases hinfo
  returning := fun _ _ => rfl

theorem Inv.honest (hw : Inv builtin w) : Honest builtin listed w where
  returns := fun h hp => by
    have hfound : w.compression.view.phase h = .found := congrArg Place.phase hp
    have hempty := hw.returning h (by rw [hp]; rfl)
    have hacquired := (hw.ready h).past (Or.inl hfound)
    refine ⟨hempty, fun info hinfo => ?_, hw.toInv.found hfound⟩
    exact (hw.held hacquired info hinfo).resolve_right (by simp [hempty])
  recursions := fun h => (hw.ready h).recursions
  progress := fun a w' hstep h hstepping => by
    obtain ⟨-, hmap⟩ := Option.ite_none_right_eq_some.mp hstep
    obtain ⟨s', hs', hw'⟩ := Option.map_eq_some_iff.mp hmap
    cases hw'
    have hmoves := movesAlone_of_step hs'
    split_ifs with heq
    · subst heq
      refine remaining_lt hmoves.1 hstepping fun infos hp => ?_
      have hphase : w.compression.view.phase a.handle = .initializing ∅ := congrArg Place.phase hp
      exact ((hw.ready a.handle).tables ∅ (by rw [hphase]; rfl)).1
    · obtain ⟨hplace, hsame⟩ := hmoves.2 h (Ne.symm heq)
      rw [State.remaining, State.remaining, hplace, hsame]

/-- **A step that returns true is right, in every orderly run.** -/
theorem honest_of_exec {committed : Finset N} {actions : List (World.Action H N)}
    (horderly : Run.Meets (step builtin listed) (Orderly builtin listed)
      { catalog := { committed } } actions)
    (h : Run.exec (step builtin listed) { catalog := { committed } } actions = some w) :
    Honest builtin listed w :=
  (Run.inv_exec step_inv (Inv.init committed) horderly h).honest

def hintedThenCreated : List (World.Action (Fin 2) ℕ) :=
  [.compression (.initInfo 1 { table := 7, tableExists := some false } 0), .catalog (.create 1 7),
    .catalog (.commit 1), .compression (.step 0), .compression (.tryCompressRows 0),
    .compression (.tryAcquireTables 0), .compression (.getAllTables 0 (some [7, 8])),
    .compression (.addHints 0),
    .compression (.initNext 0 { table := 7, hasFiltered := true, tableExists := some true } 0),
    .compression (.initNext 0 { table := 8, tableExists := some true } 1),
      .compression (.collect 0),
    .compression (.filterComplessingTables 0 true (some {0})), .compression (.didAcquire 0),
    .compression (.tryCompressRows 0), .compression (.compressRows 0 (some true) true (some true)),
    .compression (.step 0), .compression (.tryCompressRows 0), .compression (.tryAcquireTables 0)]

end World

end Compression

/-- **Both steppers are right when they return true, in every orderly run.** -/
theorem honest_steps {H N : Type} [DecidableEq H] [DecidableEq N] (builtin listed : N → Bool)
    (committed : Finset N) :
    (∀ (actions : List (Migration.World.Action H N)) (w : Migration.World H N),
      Run.Meets (Migration.World.step builtin listed) (Migration.World.Orderly builtin listed)
        { catalog := { committed } } actions →
      Run.exec (Migration.World.step builtin listed) { catalog := { committed } } actions = some w →
      w.Honest builtin listed) ∧
    ∀ (actions : List (Compression.World.Action H N)) (w : Compression.World H N),
      Run.Meets (Compression.World.step builtin listed) (Compression.World.Orderly builtin listed)
        { catalog := { committed } } actions →
      Run.exec (Compression.World.step builtin listed) { catalog := { committed } } actions =
        some w →
      w.Honest builtin listed :=
  ⟨fun _ _ horderly hexec => Migration.World.honest_of_exec horderly hexec,
    fun _ _ horderly hexec => Compression.World.honest_of_exec horderly hexec⟩

/-- A table that is hinted, created, acquired and worked off by either. -/
theorem honest_steps_hintedThenCreated :
    (∃ w, Run.exec (Migration.World.step Migration.noBuiltin fun _ => true)
        { catalog := { committed := {8} } } Migration.World.hintedThenCreated = some w ∧
      w.migration.place 0 = .completing ∧ w.Honest Migration.noBuiltin fun _ => true) ∧
    ∃ w, Run.exec (Compression.World.step Migration.noBuiltin fun _ => true)
        { catalog := { committed := {8} } } Compression.World.hintedThenCreated = some w ∧
      w.compression.place 0 = .completing ∧ w.Honest Migration.noBuiltin fun _ => true := by
  constructor
  · have hplace : (Run.exec (Migration.World.step Migration.noBuiltin fun _ => true)
        ({ catalog := { committed := {8} } } : Migration.World (Fin 2) ℕ)
        Migration.World.hintedThenCreated).map (fun w => w.migration.place 0) =
        some .completing := by decide +kernel
    obtain ⟨w, hw, hplace⟩ := Option.map_eq_some_iff.mp hplace
    exact ⟨w, hw, hplace, (honest_steps _ _ _).1 _ w (by decide +kernel) hw⟩
  · have hplace : (Run.exec (Compression.World.step Migration.noBuiltin fun _ => true)
        ({ catalog := { committed := {8} } } : Compression.World (Fin 2) ℕ)
        Compression.World.hintedThenCreated).map (fun w => w.compression.place 0) =
        some .completing := by decide +kernel
    obtain ⟨w, hw, hplace⟩ := Option.map_eq_some_iff.mp hplace
    exact ⟨w, hw, hplace, (honest_steps _ _ _).2 _ w (by decide +kernel) hw⟩

end Wcdb
