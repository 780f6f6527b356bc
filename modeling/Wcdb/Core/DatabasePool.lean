import Wcdb.Base.Recyclable

/-!
# `DatabasePool`: one database for each path

A thread that asks for a path looks it up under the shared lock, and if it is not there, looks it up
again and creates it under the exclusive lock. Between the two critical sections other threads go on
(`missed`). What is handed out is a `Recyclable`, whose callback `flowBack` counts the database down
and closes it at zero.

A critical section is one step, and so is an operation on variables. `closed` records that a
`flowBack` decided to close a database; other threads may get the database before it is closed.
`getTag` is a look-up whose variable goes at once.

* `referenced_of_exec`: in every run a path has at most one database, its counter is the number of
  the values that were handed out and have not flowed back, and it is positive while a variable
  holds the database.
-/

namespace Wcdb.DatabasePool

open Recyclable

/-- `m_databases`: the database of a path and its counter. A database is known by its number. -/
structure State (V P Thread : Type) where
  memory : Memory V ℕ Unit := {}
  databases : P → Option (ℕ × ℕ) := fun _ => none
  /-- The paths of the databases that were created. -/
  created : List P := []
  missed : Thread → Option P := fun _ => none
  /-- The values that have flowed back, by their counters in the memory. -/
  flowed : List ℕ := []
  closed : List ℕ := []

variable {V P Thread : Type} [DecidableEq V]

namespace State

variable [DecidableEq P]

/-- `DatabasePool::get`, into a new variable. -/
def get (v : V) (path : P) (database reference : ℕ) (s : State V P Thread) : State V P Thread :=
  { s with
    databases := Function.update s.databases path (some (database, reference + 1))
    memory := s.memory.construct v (some database) (some ()) }

/-- `DatabasePool::flowBack` for the value of the counter `g`. -/
def flowBack (g database : ℕ) (s : State V P Thread) : Option (State V P Thread) :=
  match s.created[database]? with
  | none => none
  | some path =>
    match s.databases path with
    | none => none
    | some (found, reference) =>
      some { s with
        databases := Function.update s.databases path (some (found, reference - 1))
        flowed := s.flowed ++ [g]
        closed := if reference - 1 = 0 then s.closed ++ [found] else s.closed }

variable [DecidableEq Thread]

/-- The first critical section of `getOrCreate`. -/
def find (thread : Thread) (v : V) (path : P) (s : State V P Thread) : State V P Thread :=
  match s.databases path with
  | some (database, reference) => s.get v path database reference
  | none => { s with missed := Function.update s.missed thread (some path) }

/-- The second critical section of `getOrCreate`. -/
def create (thread : Thread) (v : V) (path : P) (s : State V P Thread) : State V P Thread :=
  let s := { s with missed := Function.update s.missed thread none }
  match s.databases path with
  | some (database, reference) => s.get v path database reference
  | none => { s with created := s.created ++ [path] }.get v path s.created.length 0

end State

/-- What a thread does next. -/
inductive Action (V P Thread : Type) where
  | find (thread : Thread) (v : V) (path : P)
  | create (thread : Thread) (v : V)
  | operate (action : Recyclable.Action V ℕ Unit)
  | flowBack (recycling : Recycling ℕ Unit)

section Steps

variable [DecidableEq P] [DecidableEq Thread]

/-- A value is handed in by the pool only, and `flowBack` follows a call of the callback. -/
def step (s : State V P Thread) : Action V P Thread → Option (State V P Thread)
  | .find thread v path =>
    if s.missed thread = none ∧ (s.memory.objects v).isNone
      then some (s.find thread v path) else none
  | .create thread v =>
    match s.missed thread with
    | none => none
    | some path => if (s.memory.objects v).isNone then some (s.create thread v path) else none
  | .operate action =>
    if action.isConstruct then none
    else (Recyclable.step s.memory action).map fun memory => { s with memory }
  | .flowBack recycling =>
    if recycling ∈ s.memory.recycled ∧ recycling.reference ∉ s.flowed then
      recycling.value.bind fun database => s.flowBack recycling.reference database
    else none

end Steps

/-! ### The invariant -/

namespace State

variable {s : State V P Thread}

/-- A value of the database that has not flowed back, as a share of its counter. -/
def share (s : State V P Thread) (database g : ℕ) : ℕ :=
  if s.memory.made[g]? = some ⟨some database, some ()⟩ ∧ g ∉ s.flowed then 1 else 0

structure Inv (s : State V P Thread) : Prop where
  memory : s.memory.Inv
  /-- The entry of a path is a database that was created for it. -/
  entry : ∀ path database reference, s.databases path = some (database, reference) →
    s.created[database]? = some path
  /-- A database that was created is the entry of its path. -/
  known : ∀ (database : ℕ) path, s.created[database]? = some path →
    ∃ reference, s.databases path = some (database, reference)
  made : ∀ (g : ℕ) m, s.memory.made[g]? = some m →
    ∃ database, m = ⟨some database, some ()⟩ ∧ database < s.created.length
  tally : ∀ path database reference, s.databases path = some (database, reference) →
    Tally reference (s.share database)
  flowed : ∀ g ∈ s.flowed, ∃ recycling ∈ s.memory.recycled, recycling.reference = g

theorem Inv.init : Inv ({} : State V P Thread) where
  memory := Memory.Inv.init
  entry _ _ _ h := by cases h
  known _ _ h := by cases h
  made _ _ h := by cases h
  tally _ _ _ h := by cases h
  flowed _ h := absurd h List.not_mem_nil

theorem Inv.withMissed (h : s.Inv) (missed : Thread → Option P) : Inv { s with missed } :=
  ⟨h.memory, h.entry, h.known, h.made, h.tally, h.flowed⟩

/-- What flowed back was recycled, so it was handed in. -/
theorem Inv.flowed_lt (h : s.Inv) {g : ℕ} (hg : g ∈ s.flowed) : g < s.memory.made.length := by
  obtain ⟨recycling, hmem, rfl⟩ := h.flowed g hg
  by_contra hge
  have hnone := h.memory.fresh recycling.reference (.inr (not_lt.mp hge))
  rw [Memory.recycledOf, List.filter_eq_nil_iff] at hnone
  exact hnone recycling hmem (by simp)

variable [DecidableEq P]

theorem made_get_of_ne {v : V} {path : P} {database reference g : ℕ}
    (hg : g ≠ s.memory.made.length) :
    (s.get v path database reference).memory.made[g]? = s.memory.made[g]? := by
  simp only [State.get, Memory.made_construct]
  obtain hlt | hgt := Nat.lt_or_gt_of_ne hg
  · rw [List.getElem?_append_left hlt]
  · rw [List.getElem?_eq_none hgt.le, List.getElem?_eq_none (by simp; omega)]

theorem made_get_self {v : V} {path : P} {database reference : ℕ} :
    (s.get v path database reference).memory.made[s.memory.made.length]? =
      some ⟨some database, some ()⟩ := by
  simp [State.get, Memory.made_construct]

/-- A value is handed out. -/
theorem Inv.get (h : s.Inv) {v : V} (path : P) {database reference : ℕ}
    (hv : s.memory.objects v = none) (hpath : s.databases path = some (database, reference)) :
    (s.get v path database reference).Inv where
  memory := h.memory.construct hv
  entry path' database' reference' h' := by
    simp only [State.get] at h'
    by_cases heq : path' = path
    · subst heq
      rw [Function.update_self] at h'
      obtain ⟨rfl, -⟩ := Prod.ext_iff.mp (Option.some.inj h')
      exact h.entry _ _ _ hpath
    · rw [Function.update_of_ne heq] at h'
      exact h.entry _ _ _ h'
  known database' path' h' := by
    obtain ⟨reference', hfound⟩ := h.known database' path' h'
    by_cases heq : path' = path
    · subst heq
      obtain ⟨rfl, -⟩ := Prod.ext_iff.mp (Option.some.inj (hpath.symm.trans hfound))
      exact ⟨reference + 1, by simp [State.get]⟩
    · exact ⟨reference', by simp only [State.get, Function.update_of_ne heq, hfound]⟩
  made g m hm := by
    by_cases hg : g = s.memory.made.length
    · rw [hg, made_get_self] at hm
      obtain rfl := Option.some.inj hm
      exact ⟨database, rfl, (List.getElem?_eq_some_iff.mp (h.entry _ _ _ hpath)).1⟩
    · rw [made_get_of_ne hg] at hm
      exact h.made g m hm
  tally path' database' reference' h' := by
    have hnew : s.memory.made.length ∉ s.flowed := fun hmem => (h.flowed_lt hmem).ne rfl
    by_cases heq : path' = path
    · subst heq
      simp only [State.get, Function.update_self] at h'
      obtain ⟨rfl, rfl⟩ := Prod.ext_iff.mp (Option.some.inj h')
      have hshare : s.share database s.memory.made.length = 0 := by
        rw [share, if_neg]
        simp
      have hadd := (h.tally _ _ _ hpath).add s.memory.made.length
      rw [hshare] at hadd
      convert hadd using 1
      funext g
      by_cases hg : g = s.memory.made.length
      · rw [hg, Function.update_self, share, made_get_self, if_pos ⟨rfl, hnew⟩]
      · rw [Function.update_of_ne hg, share, made_get_of_ne hg]
        rfl
    · simp only [State.get, Function.update_of_ne heq] at h'
      have hne : database ≠ database' := by
        rintro rfl
        exact heq (Option.some.inj ((h.entry _ _ _ h').symm.trans (h.entry _ _ _ hpath)))
      convert h.tally _ _ _ h' using 1
      funext g
      by_cases hg : g = s.memory.made.length
      · rw [hg, share, made_get_self, share, List.getElem?_eq_none le_rfl]
        simp [hne]
      · rw [share, made_get_of_ne hg]
        rfl
  flowed g hg := by
    obtain ⟨recycling, hmem, hreference⟩ := h.flowed g hg
    refine ⟨recycling, ?_, hreference⟩
    simp only [State.get, Memory.recycled_construct]
    exact hmem

/-- A database is created for a path that has none, and counts nothing yet. -/
theorem Inv.emplace (h : s.Inv) {path : P} (hpath : s.databases path = none) :
    Inv { s with
      created := s.created ++ [path]
      databases := Function.update s.databases path (some (s.created.length, 0)) } where
  memory := h.memory
  entry path' database reference h' := by
    by_cases heq : path' = path
    · subst heq
      simp only [Function.update_self] at h'
      obtain ⟨rfl, -⟩ := Prod.ext_iff.mp (Option.some.inj h')
      simp
    · simp only [Function.update_of_ne heq] at h'
      have hentry := h.entry _ _ _ h'
      simp only
      rw [List.getElem?_append_left (List.getElem?_eq_some_iff.mp hentry).1]
      exact hentry
  known database path' h' := by
    simp only at h'
    rw [List.getElem?_append] at h'
    split at h'
    · obtain ⟨reference, hfound⟩ := h.known database path' h'
      have hne : path' ≠ path := by
        rintro rfl
        rw [hpath] at hfound
        cases hfound
      exact ⟨reference, by simp only [Function.update_of_ne hne, hfound]⟩
    · rename_i hge
      rw [List.getElem?_singleton] at h'
      split at h'
      · rename_i hzero
        obtain rfl := Option.some.inj h'
        have hlength : database = s.created.length := by omega
        exact ⟨0, by simp only [Function.update_self, hlength]⟩
      · cases h'
  made g m hm := by
    obtain ⟨database, hm, hlt⟩ := h.made g m hm
    exact ⟨database, hm, by simp only [List.length_append]; omega⟩
  tally path' database reference h' := by
    by_cases heq : path' = path
    · subst heq
      simp only [Function.update_self] at h'
      obtain ⟨rfl, rfl⟩ := Prod.ext_iff.mp (Option.some.inj h')
      have hshare : s.share s.created.length = fun _ => 0 := by
        funext g
        rw [share, if_neg]
        rintro ⟨hm, -⟩
        obtain ⟨database, heq, hlt⟩ := h.made g _ hm
        simp only [Made.mk.injEq, Option.some.injEq, and_true] at heq
        omega
      exact hshare ▸ Tally.zero
    · simp only [Function.update_of_ne heq] at h'
      exact h.tally _ _ _ h'
  flowed := h.flowed

theorem Inv.create [DecidableEq Thread] (h : s.Inv) {thread : Thread} {v : V} {path : P}
    (hv : s.memory.objects v = none) : (s.create thread v path).Inv := by
  have hmissed := h.withMissed (Function.update s.missed thread none)
  simp only [State.create]
  split
  · rename_i database reference hpath
    exact hmissed.get path hv hpath
  · rename_i hpath
    have hget := (hmissed.emplace hpath).get path hv
      (Function.update_self _ _ _)
    simpa only [State.get, Function.update_idem] using hget

theorem Inv.find [DecidableEq Thread] (h : s.Inv) {thread : Thread} {v : V} {path : P}
    (hv : s.memory.objects v = none) : (s.find thread v path).Inv := by
  simp only [State.find]
  split
  · rename_i database reference hpath
    exact h.get path hv hpath
  · exact h.withMissed _

omit [DecidableEq P] in
/-- An operation of a holder. -/
theorem Inv.operate (h : s.Inv) {action : Recyclable.Action V ℕ Unit} {memory : Memory V ℕ Unit}
    (hconstruct : action.isConstruct = false)
    (hstep : Recyclable.step s.memory action = some memory) : Inv { s with memory } := by
  obtain ⟨hmade, hprefix⟩ := grows_step hconstruct hstep
  refine ⟨step_inv h.memory action hstep, h.entry, h.known, ?_, ?_, ?_⟩
  · simpa only [hmade] using h.made
  · intro path database reference hpath
    convert h.tally _ _ _ hpath using 1
    funext g
    simp only [share, hmade]
  · intro g hg
    obtain ⟨recycling, hmem, hreference⟩ := h.flowed g hg
    exact ⟨recycling, hprefix.subset hmem, hreference⟩

omit [DecidableEq P] in
/-- What the callback was called for. -/
theorem Inv.recycling (h : s.Inv) {recycling : Recycling ℕ Unit}
    (hmem : recycling ∈ s.memory.recycled) : ∃ database path reference,
      recycling.value = some database ∧
      s.memory.made[recycling.reference]? = some ⟨some database, some ()⟩ ∧
      s.memory.counters recycling.reference = 0 ∧ s.created[database]? = some path ∧
      s.databases path = some (database, reference) := by
  obtain ⟨m, hm, hrecycling, hzero⟩ := h.memory.mem_recycled hmem
  obtain ⟨database, rfl, hlt⟩ := h.made _ _ hm
  obtain ⟨reference, hreference⟩ := h.known database _ (List.getElem?_eq_getElem hlt)
  have hvalue := congrArg Recycling.value (List.mem_singleton.mp hrecycling)
  exact ⟨database, _, reference, hvalue, hm, hzero, List.getElem?_eq_getElem hlt, hreference⟩

theorem Inv.flowBack (h : s.Inv) {recycling : Recycling ℕ Unit}
    (hmem : recycling ∈ s.memory.recycled) (hflowed : recycling.reference ∉ s.flowed) :
    ∃ t, (recycling.value.bind fun database => s.flowBack recycling.reference database) = some t ∧
      t.Inv := by
  obtain ⟨database, path, reference, hvalue, hm, -, hcreated, hpath⟩ := h.recycling hmem
  rw [hvalue, Option.bind_some]
  simp only [State.flowBack, hcreated, hpath]
  refine ⟨_, rfl, h.memory, ?_, ?_, h.made, ?_, ?_⟩
  · intro path' database' reference' h'
    by_cases heq : path' = path
    · subst heq
      simp only [Function.update_self] at h'
      obtain ⟨rfl, -⟩ := Prod.ext_iff.mp (Option.some.inj h')
      exact hcreated
    · simp only [Function.update_of_ne heq] at h'
      exact h.entry _ _ _ h'
  · intro database' path' h'
    obtain ⟨reference', hfound⟩ := h.known database' path' h'
    by_cases heq : path' = path
    · subst heq
      obtain ⟨rfl, -⟩ := Prod.ext_iff.mp (Option.some.inj (hpath.symm.trans hfound))
      exact ⟨reference - 1, by simp only [Function.update_self]⟩
    · exact ⟨reference', by simp only [Function.update_of_ne heq, hfound]⟩
  · intro path' database' reference' h'
    have hother (g : ℕ) (hne : g ≠ recycling.reference) :
        g ∉ s.flowed ++ [recycling.reference] ↔ g ∉ s.flowed := by simp [hne]
    by_cases heq : path' = path
    · subst heq
      simp only [Function.update_self] at h'
      obtain ⟨rfl, rfl⟩ := Prod.ext_iff.mp (Option.some.inj h')
      have hshare : s.share database recycling.reference = 1 := by
        rw [share, if_pos ⟨hm, hflowed⟩]
      have hremove := (h.tally _ _ _ hpath).remove (hshare ▸ Nat.one_pos)
      rw [hshare] at hremove
      convert hremove using 1
      funext g
      by_cases hg : g = recycling.reference
      · rw [hg, Function.update_self, share, if_neg]
        simp
      · rw [Function.update_of_ne hg, share]
        simp only [hother g hg]
        rfl
    · simp only [Function.update_of_ne heq] at h'
      have hne : database ≠ database' := by
        rintro rfl
        exact heq (Option.some.inj ((h.entry _ _ _ h').symm.trans (h.entry _ _ _ hpath)))
      convert h.tally _ _ _ h' using 1
      funext g
      by_cases hg : g = recycling.reference
      · rw [hg, share, if_neg (by simp), share, hm, if_neg]
        simp [hne]
      · rw [share]
        simp only [hother g hg]
        rfl
  · intro g hg
    obtain hg | hg := List.mem_append.mp hg
    · exact h.flowed g hg
    · exact ⟨recycling, hmem, (List.mem_singleton.mp hg).symm⟩

omit [DecidableEq P] in
/-- A variable that holds a database keeps its counter from zero. -/
theorem Inv.reference_pos (h : s.Inv) {v : V} {g database reference : ℕ} {path : P}
    (hv : s.memory.held v = some g)
    (hm : s.memory.made[g]? = some ⟨some database, some ()⟩)
    (hpath : s.databases path = some (database, reference)) : 0 < reference := by
  refine (h.tally _ _ _ hpath).pos_iff.mpr ⟨g, ?_⟩
  rw [share, if_pos]
  · exact Nat.one_pos
  · refine ⟨hm, fun hg => ?_⟩
    obtain ⟨recycling, hmem, rfl⟩ := h.flowed g hg
    obtain ⟨-, -, -, hzero⟩ := h.memory.mem_recycled hmem
    exact (h.memory.held_pos hv).ne' hzero

end State

/-! ### Runs -/

section Runs

variable [DecidableEq P] [DecidableEq Thread] {s t : State V P Thread}

theorem step_inv (h : s.Inv) (action : Action V P Thread) (hstep : step s action = some t) :
    t.Inv := by
  cases action with
  | find thread v path =>
    obtain ⟨⟨-, hv⟩, hstep⟩ := Option.ite_none_right_eq_some.mp hstep
    obtain rfl := Option.some.inj hstep
    exact h.find (Option.isNone_iff_eq_none.mp hv)
  | create thread v =>
    simp only [step] at hstep
    split at hstep
    · cases hstep
    · obtain ⟨hv, hstep⟩ := Option.ite_none_right_eq_some.mp hstep
      obtain rfl := Option.some.inj hstep
      exact h.create (Option.isNone_iff_eq_none.mp hv)
  | operate action =>
    obtain ⟨hconstruct, hstep⟩ := Option.ite_none_left_eq_some.mp hstep
    obtain ⟨memory, hmemory, rfl⟩ := Option.map_eq_some_iff.mp hstep
    exact h.operate (Bool.eq_false_iff.mpr hconstruct) hmemory
  | flowBack recycling =>
    obtain ⟨⟨hmem, hflowed⟩, hstep⟩ := Option.ite_none_right_eq_some.mp hstep
    obtain ⟨u, hu, hinv⟩ := h.flowBack hmem hflowed
    obtain rfl := Option.some.inj (hu.symm.trans hstep)
    exact hinv

/-- **One database for each path, counted as long as it is held**, in every interleaving: no path is
created twice; the entry of a path is its database, whose counter is the number of the values that
were handed out and have not flowed back, and is positive while a variable holds the database; and
`flowBack` finds the database again. -/
theorem referenced_of_exec {actions : List (Action V P Thread)}
    (hexec : Run.exec step {} actions = some s) :
    s.created.Nodup ∧
      (∀ (database : ℕ) path, s.created[database]? = some path →
        ∃ reference, s.databases path = some (database, reference) ∧
          Tally reference (s.share database) ∧
          ∀ v g, s.memory.held v = some g →
            s.memory.made[g]? = some ⟨some database, some ()⟩ → 0 < reference) ∧
      ∀ recycling ∈ s.memory.recycled, recycling.reference ∉ s.flowed →
        (step s (.flowBack recycling)).isSome := by
  have h : s.Inv := Run.inv_exec_of_step (fun _ action _ hs hstep => step_inv hs action hstep)
    State.Inv.init hexec
  refine ⟨?_, ?_, ?_⟩
  · rw [List.nodup_iff_getElem?_ne_getElem?]
    intro i j hij hj heq
    obtain ⟨reference, hi⟩ := h.known j _ (List.getElem?_eq_getElem hj)
    obtain ⟨reference', hj⟩ := h.known i _ (heq.trans (List.getElem?_eq_getElem hj))
    obtain ⟨rfl, -⟩ := Prod.ext_iff.mp (Option.some.inj (hi.symm.trans hj))
    exact absurd hij (lt_irrefl _)
  · intro database path hcreated
    obtain ⟨reference, hpath⟩ := h.known database path hcreated
    exact ⟨reference, hpath, h.tally _ _ _ hpath,
      fun v g hv hm => h.reference_pos hv hm hpath⟩
  · intro recycling hmem hflowed
    obtain ⟨u, hu, -⟩ := h.flowBack hmem hflowed
    simp only [step]
    rw [if_pos ⟨hmem, hflowed⟩, hu]
    rfl

/-- Two threads miss the path, and the second finds what the first created. -/
def missedTwice : List (Action Bool ℕ Bool) :=
  [.find false false 7, .find true true 7, .create false false, .create true true,
    .operate (.destroy false), .flowBack ⟨0, (), some 0⟩]

theorem referenced_of_exec_missedTwice : ∃ s, Run.exec step {} missedTwice = some s ∧
    s.created = [7] ∧ s.closed = [] ∧ s.created.Nodup := by
  refine ⟨_, rfl, rfl, rfl, ?_⟩
  exact (referenced_of_exec (rfl : Run.exec step {} missedTwice = some _)).1

end Runs

end Wcdb.DatabasePool
