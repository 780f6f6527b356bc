import Wcdb.Lib.Run
import Mathlib.Data.Finset.Union
import Mathlib.Data.Fintype.Basic

/-!
# `Migration`: whether the sequence of a table is up to date

Before a handle binds a migrating table with AUTOINCREMENT, `sqlite_sequence` gets an entry for it.
All handles share the flag that says this is done, while the entry belongs to a transaction. A
thread notes the tables whose entries it wrote in a transaction, and `MigratingHandleDecorator` sets
their flags back after a rollback, but only when a union view was created in the transaction.

A handle that has the view already sets the flag in a transaction and does not set it back
(`rollbackWithoutView`). In a run in which every bind that relies on an entry of its own transaction
has written the entry and leaves a new view, the flag agrees with the database (`agrees_of_exec`).
-/

namespace Wcdb

namespace MigrationSequence

open Function (update)

/-- The transaction that holds the write lock. -/
structure Transaction (H T N : Type) where
  handle : H
  /-- A handle in a transaction is bound to its thread. -/
  thread : T
  /-- The entries of `sqlite_sequence` written in it. -/
  entries : Finset N := ∅
  /-- The union views of the connection when it began. -/
  views : Finset N
  /-- The entries and the views at each savepoint, the innermost first. -/
  savepoints : List (Finset N × Finset N) := []
  deriving DecidableEq

/-- What `bindInfos` comes to: the views that are left where `rebindViews` failed, or whether
`rebindSchemas` succeeded. -/
inductive Rebinding (N : Type) where
  | failed (views : Finset N)
  | unattached
  | done
  deriving DecidableEq

/-- Tables stand for their infos: the flags and the infos that the threads note (`Migration`), the
entries of `sqlite_sequence` that are committed, the views of each connection, and the fields of
`Migration::Binder` and `MigratingHandleDecorator` of each handle. -/
structure State (H T N : Type) where
  needUpdateSequence : N → Bool
  migratings : Finset N
  commitingInfos : T → Finset N := fun _ => ∅
  sequence : Finset N
  transaction : Option (Transaction H T N) := none
  views : H → Finset N := fun _ => ∅
  referenceds : H → Finset N := fun _ => ∅
  bindings : H → Finset N := fun _ => ∅
  bounds : H → Finset N := fun _ => ∅
  rebind : H → Bool := fun _ => false
  createdNewView : H → Bool := fun _ => false

variable {H T N : Type} [DecidableEq H] [DecidableEq T] [DecidableEq N]

namespace State

def isInTransaction (s : State H T N) (h : H) : Bool := s.transaction.any fun x => x.handle = h

/-- The entries of `sqlite_sequence` that a handle sees. -/
def entries (s : State H T N) (h : H) : Finset N :=
  s.sequence ∪ ((s.transaction.filter fun x => x.handle = h).elim ∅ Transaction.entries)

def setTableInfoCommitted (s : State H T N) (t : T) (committed : Bool) : State H T N :=
  { s with
    needUpdateSequence := fun n =>
      s.needUpdateSequence n || !committed && decide (n ∈ s.commitingInfos t)
    commitingInfos := update s.commitingInfos t ∅ }

/-- `MigratingHandleDecorator::commitTransaction` once no transaction is left. -/
def didCommit (s : State H T N) (t : T) (h : H) : State H T N :=
  { s with createdNewView := update s.createdNewView h false }.setTableInfoCommitted t true

/-- `InfoInitializer::tryUpdateSequence`, which runs in the transaction of the handle or in one of
its own. Another transaction keeps it from writing. -/
def updateSequence (s : State H T N) (t : T) (h : H) (n : N) : Option (State H T N × Bool) :=
  if n ∈ s.entries h then some (s, false)
  else
    match s.transaction with
    | none => some ({ s with sequence := insert n s.sequence }.didCommit t h, true)
    | some x =>
        if x.handle = h then
          some ({ s with transaction := some { x with entries := insert n x.entries } }, true)
        else none

def tryUpdateSequence (s : State H T N) (t : T) (h : H) (n : N) : State H T N × Bool :=
  if !s.needUpdateSequence n then (s, true)
  else
    match s.updateSequence t h n with
    | none => (s, false)
    | some (s, updated) =>
        ({ s with
          needUpdateSequence := update s.needUpdateSequence n false
          commitingInfos :=
            if updated && s.isInTransaction h then
              update s.commitingInfos t (insert n (s.commitingInfos t))
            else s.commitingInfos }, true)

/-- `Migration::Binder::bindTable` for one table after the other. -/
def bindTables (s : State H T N) (t : T) (h : H) : List N → State H T N × Bool
  | [] => (s, true)
  | n :: tables =>
      let (s, succeed) := s.tryUpdateSequence t h n
      if succeed then
        { s with referenceds := update s.referenceds h (insert n (s.referenceds h)) }.bindTables t h
          tables
      else (s, false)

/-- The views are those of the bindings afterwards. -/
def rebindViews (s : State H T N) (h : H) : State H T N :=
  { s with
    views := update s.views h (s.bindings h)
    createdNewView := update s.createdNewView h
      (s.createdNewView h || s.isInTransaction h && !decide (s.bindings h ⊆ s.views h)) }

def bindInfos (s : State H T N) (h : H) : Rebinding N → State H T N × Bool
  | .failed views => ({ s with views := update s.views h views }, false)
  | .unattached => (s.rebindViews h, false)
  | .done => (s.rebindViews h, true)

/-- The bindings that a handle comes to with some tables. -/
def newBindings (s : State H T N) (h : H) (tables : List N) : Finset N :=
  s.bindings h ∩ s.migratings ∪ (s.referenceds h ∪ tables.toFinset)

def stopBinding (s : State H T N) (h : H) (succeed : Bool) (rebinding : Rebinding N) :
    State H T N :=
  if succeed then
    let s := { s with bindings := update s.bindings h (s.newBindings h []) }
    if s.rebind h || s.bounds h ≠ s.bindings h then
      let (s, succeed) := s.bindInfos h rebinding
      if succeed then
        { s with
          rebind := update s.rebind h false
          bounds := update s.bounds h (s.bindings h) }
      else { s with rebind := update s.rebind h true }
    else s
  else s

/-- A handle binds the tables of a statement; `succeed` says that nothing else failed. -/
def bind (s : State H T N) (t : T) (h : H) (tables : List N) (succeed : Bool)
    (rebinding : Rebinding N) : State H T N :=
  let (s, bound) := s.bindTables t h tables
  s.stopBinding h (bound && succeed) rebinding

/-- `AbstractHandle::commitTransaction`. -/
def commitDatabase (s : State H T N) (h : H) : State H T N :=
  match s.transaction with
  | none => s
  | some x =>
      if x.handle = h then
        match x.savepoints with
        | [] => { s with sequence := s.sequence ∪ x.entries, transaction := none }
        | _ :: savepoints => { s with transaction := some { x with savepoints } }
      else s

def commitTransaction (s : State H T N) (t : T) (h : H) : State H T N :=
  let s := s.commitDatabase h
  if s.isInTransaction h then s else s.didCommit t h

/-- `AbstractHandle::rollbackTransaction`. The views are part of the transaction. -/
def rollbackDatabase (s : State H T N) (h : H) : State H T N :=
  match s.transaction with
  | none => s
  | some x =>
      if x.handle = h then
        match x.savepoints with
        | [] => { s with transaction := none, views := update s.views h x.views }
        | (entries, views) :: savepoints =>
            { s with
              transaction := some { x with entries, savepoints }
              views := update s.views h views }
      else s

def rollbackTransaction (s : State H T N) (t : T) (h : H) : State H T N :=
  let s := s.rollbackDatabase h
  if s.createdNewView h then
    { s with
      bounds := update s.bounds h ∅
      rebind := update s.rebind h true
      createdNewView := update s.createdNewView h false }.setTableInfoCommitted t false
  else s

/-- A transaction, or a savepoint in one. -/
def beginTransaction (s : State H T N) (t : T) (h : H) : Option (State H T N) :=
  match s.transaction with
  | none => some { s with transaction := some { handle := h, thread := t, views := s.views h } }
  | some x =>
      if x.handle = h then
        some { s with
          transaction := some { x with savepoints := (x.entries, s.views h) :: x.savepoints } }
      else none

/-- SQLite writes the entry when a row is inserted. -/
def insertRow (s : State H T N) (h : H) (n : N) : Option (State H T N) :=
  match s.transaction with
  | none => some { s with sequence := insert n s.sequence }
  | some x =>
      if x.handle = h then
        some { s with transaction := some { x with entries := insert n x.entries } }
      else none

/-- A step of the migration updates the sequence with a handle that is not decorated and in no
transaction. -/
def migrateRows (s : State H T N) (n : N) : Option (State H T N) :=
  if !s.needUpdateSequence n then some s
  else if n ∈ s.sequence ∨ s.transaction = none then
    some { s with
      sequence := insert n s.sequence
      needUpdateSequence := update s.needUpdateSequence n false }
  else none

/-- The handle is used on this thread. -/
def OnThread (s : State H T N) (t : T) (h : H) : Prop :=
  ∀ x ∈ s.transaction, x.handle = h → x.thread = t

instance (s : State H T N) (t : T) (h : H) : Decidable (s.OnThread t h) :=
  match hx : s.transaction with
  | none => isTrue (by simp [OnThread, hx])
  | some x => decidable_of_iff (x.handle = h → x.thread = t) (by simp [OnThread, hx])

end State

inductive Action (H T N : Type) where
  | beginTransaction (t : T) (h : H)
  | bind (t : T) (h : H) (tables : List N) (succeed : Bool) (rebinding : Rebinding N)
  | stopReferenced (h : H)
  | commitTransaction (t : T) (h : H)
  | rollbackTransaction (t : T) (h : H)
  | insertRow (h : H) (n : N)
  | migrateRows (n : N)
  | markAsMigrated (n : N)
  deriving DecidableEq

/-- Only tables that are migrating are bound. -/
def step (s : State H T N) : Action H T N → Option (State H T N)
  | .beginTransaction t h => if s.OnThread t h then s.beginTransaction t h else none
  | .bind t h tables succeed rebinding =>
      if s.OnThread t h ∧ ∀ n ∈ tables, n ∈ s.migratings then
        some (s.bind t h tables succeed rebinding)
      else none
  | .stopReferenced h => some { s with referenceds := update s.referenceds h ∅ }
  | .commitTransaction t h => if s.OnThread t h then some (s.commitTransaction t h) else none
  | .rollbackTransaction t h => if s.OnThread t h then some (s.rollbackTransaction t h) else none
  | .insertRow h n => s.insertRow h n
  | .migrateRows n => s.migrateRows n
  | .markAsMigrated n => some { s with migratings := s.migratings.erase n }

/-! ### Agreement -/

/-- **The flag agrees with the database**: a table whose sequence is up to date has an entry that is
committed, or one in a transaction whose rollback sets the flag back. -/
def Agrees (autoincrement : N → Bool) (s : State H T N) : Prop :=
  ∀ n, autoincrement n = true → s.needUpdateSequence n = false → n ∈ s.sequence ∨
    ∃ x ∈ s.transaction, n ∈ x.entries ∧
      (s.rollbackTransaction x.thread x.handle).needUpdateSequence n = true

/-- The handle has created a union view in its transaction by the end of the bind. -/
def State.createsView (s : State H T N) (h : H) (tables : List N) (succeed : Bool) :
    Rebinding N → Bool
  | .failed _ => s.createdNewView h
  | .unattached | .done =>
      s.createdNewView h ||
        succeed && (s.rebind h || s.bounds h ≠ s.newBindings h tables) &&
          !decide (s.newBindings h tables ⊆ s.views h)

/-- **Whenever a bind relies on an entry that only its own transaction has, it writes the entry or
the thread has noted it, and the handle has created a view in the transaction by the end of the
bind; and nobody commits a handle without transaction on the thread of another handle's
transaction.** This is a condition on the state before the step. -/
def Orderly (s : State H T N) : Action H T N → Prop
  | .bind _ h tables succeed rebinding => ∀ x ∈ s.transaction, x.handle = h →
      ∀ n ∈ tables, s.needUpdateSequence n = true → n ∉ s.sequence →
        (n ∉ x.entries ∨ n ∈ s.commitingInfos x.thread) ∧
          s.createsView h tables succeed rebinding = true
  | .commitTransaction t h => ∀ x ∈ s.transaction, x.thread = t → x.handle = h
  | _ => True

instance Orderly.decidable (s : State H T N) : (a : Action H T N) → Decidable (Orderly s a)
  | .bind _ h tables succeed rebinding =>
      match hx : s.transaction with
      | none => isTrue (by simp [Orderly, hx])
      | some x => decidable_of_iff (x.handle = h → ∀ n ∈ tables, s.needUpdateSequence n = true →
          n ∉ s.sequence → (n ∉ x.entries ∨ n ∈ s.commitingInfos x.thread) ∧
            s.createsView h tables succeed rebinding = true) (by simp [Orderly, hx])
  | .commitTransaction t h =>
      match hx : s.transaction with
      | none => isTrue (by simp [Orderly, hx])
      | some x => decidable_of_iff (x.thread = t → x.handle = h) (by simp [Orderly, hx])
  | .beginTransaction _ _ | .stopReferenced _ | .rollbackTransaction _ _ | .insertRow _ _
  | .migrateRows _ | .markAsMigrated _ => inferInstanceAs (Decidable True)

/-! ### What a handle changes -/

section Changes

variable {s s' : State H T N} {t : T} {h : H} {x : Transaction H T N}

omit [DecidableEq T] [DecidableEq N] in
theorem isInTransaction_iff : s.isInTransaction h = true ↔ ∃ x ∈ s.transaction, x.handle = h := by
  cases hx : s.transaction <;> simp [State.isInTransaction, hx]

/-- The sequences of some tables were updated in a transaction, which has the entries `E` now. -/
structure Marked (s s' : State H T N) (x : Transaction H T N) (E : Finset N) (tables : List N) :
    Prop where
  sequence : s'.sequence = s.sequence
  transaction : s'.transaction = some { x with entries := E }
  entries : x.entries ⊆ E
  noted : ∀ n ∈ E, n ∈ x.entries ∨ n ∈ s'.commitingInfos x.thread
  flags : ∀ n, s'.needUpdateSequence n = false →
    s.needUpdateSequence n = false ∨ n ∈ tables ∧ (n ∈ s.sequence ∨ n ∈ E)
  commiting : ∀ t, s.commitingInfos t ⊆ s'.commitingInfos t
  created : s'.createdNewView = s.createdNewView
  views : s'.views = s.views
  bounds : s'.bounds = s.bounds ∧ s'.rebind = s.rebind
  bindings : s'.bindings = s.bindings ∧ s'.migratings = s.migratings

omit [DecidableEq H] [DecidableEq T] [DecidableEq N] in
theorem Marked.refl (hx : s.transaction = some x) : Marked s s x x.entries [] where
  sequence := rfl
  transaction := hx
  entries := Finset.Subset.refl _
  noted := fun _ hn => Or.inl hn
  flags := fun _ hn => Or.inl hn
  commiting := fun _ => Finset.Subset.refl _
  created := rfl
  views := rfl
  bounds := ⟨rfl, rfl⟩
  bindings := ⟨rfl, rfl⟩

omit [DecidableEq H] [DecidableEq T] [DecidableEq N] in
theorem Marked.trans {s'' : State H T N} {E E' : Finset N} {tables tables' : List N}
    (hfirst : Marked s s' x E tables) (hrest : Marked s' s'' { x with entries := E } E' tables') :
    Marked s s'' x E' (tables ++ tables') where
  sequence := hrest.sequence.trans hfirst.sequence
  transaction := hrest.transaction
  entries := hfirst.entries.trans hrest.entries
  noted := fun n hn => by
    rcases hrest.noted n hn with hbefore | hnoted
    · exact (hfirst.noted n hbefore).imp_right fun hnoted => hrest.commiting _ hnoted
    · exact Or.inr hnoted
  flags := fun n hn => by
    rcases hrest.flags n hn with hbefore | ⟨htable, hentry⟩
    · rcases hfirst.flags n hbefore with hbefore | ⟨htable, hentry⟩
      · exact Or.inl hbefore
      · refine Or.inr ⟨List.mem_append_left _ htable, ?_⟩
        exact hentry.imp_right fun hentry => hrest.entries hentry
    · exact Or.inr ⟨List.mem_append_right _ htable, hfirst.sequence ▸ hentry⟩
  commiting := fun t => (hfirst.commiting t).trans (hrest.commiting t)
  created := hrest.created.trans hfirst.created
  views := hrest.views.trans hfirst.views
  bounds := ⟨hrest.bounds.1.trans hfirst.bounds.1, hrest.bounds.2.trans hfirst.bounds.2⟩
  bindings := ⟨hrest.bindings.1.trans hfirst.bindings.1, hrest.bindings.2.trans hfirst.bindings.2⟩

omit [DecidableEq T] in
theorem entries_inTransaction (hx : s.transaction = some x) :
    s.entries x.handle = s.sequence ∪ x.entries := by
  simp [State.entries, hx, Option.filter]

/-- In its own transaction, a handle updates a sequence without fail. -/
theorem marked_tryUpdateSequence (hx : s.transaction = some x) (n : N) :
    ∃ s' E, s.tryUpdateSequence x.thread x.handle n = (s', true) ∧ Marked s s' x E [n] ∧
      s'.referenceds = s.referenceds := by
  have hrefl := Marked.refl hx
  unfold State.tryUpdateSequence
  split_ifs with hneed
  · exact ⟨s, x.entries, rfl, { hrefl with flags := fun _ hm => Or.inl hm }, rfl⟩
  · have hin : s.isInTransaction x.handle = true := isInTransaction_iff.mpr ⟨x, hx, rfl⟩
    unfold State.updateSequence
    by_cases hn : n ∈ s.entries x.handle
    · rw [if_pos hn]
      refine ⟨_, x.entries, rfl, ?_, rfl⟩
      refine { hrefl with flags := fun m hm => ?_, noted := hrefl.noted, commiting := ?_ }
      · by_cases hmn : m = n
        · rw [entries_inTransaction hx] at hn
          exact Or.inr ⟨List.mem_singleton.mpr hmn, hmn ▸ Finset.mem_union.mp hn⟩
        · exact Or.inl (by simpa [hmn] using hm)
      · exact hrefl.commiting
    · -- The entry is written, and the thread notes it.
      rw [if_neg hn, hx]
      simp only [if_true]
      have hin' : State.isInTransaction { s with
          transaction := some { x with entries := insert n x.entries } } x.handle = true :=
        isInTransaction_iff.mpr ⟨_, rfl, rfl⟩
      rw [hin', Bool.and_self, if_pos rfl]
      refine ⟨_, insert n x.entries, rfl, ?_, rfl⟩
      refine { hrefl with
        transaction := rfl
        entries := Finset.subset_insert _ _
        noted := fun m hm => ?_
        flags := fun m hm => ?_
        commiting := fun t m hm => ?_ }
      · rcases Finset.mem_insert.mp hm with rfl | hbefore
        · exact Or.inr (by simp)
        · exact Or.inl hbefore
      · by_cases hmn : m = n
        · exact Or.inr ⟨List.mem_singleton.mpr hmn, Or.inr (hmn ▸ Finset.mem_insert_self _ _)⟩
        · exact Or.inl (by simpa [hmn] using hm)
      · by_cases ht : t = x.thread
        · subst ht
          simpa using Or.inr hm
        · simpa [ht] using hm

theorem marked_bindTables (hx : s.transaction = some x) (tables : List N) :
    ∃ s' E, s.bindTables x.thread x.handle tables = (s', true) ∧ Marked s s' x E tables ∧
      s'.referenceds x.handle = s.referenceds x.handle ∪ tables.toFinset := by
  induction tables generalizing s x with
  | nil => exact ⟨s, x.entries, rfl, Marked.refl hx, by simp⟩
  | cons n tables ih =>
    obtain ⟨s₁, E₁, hfirst, hmarked₁, href₁⟩ := marked_tryUpdateSequence hx n
    have hreferenced : Marked s { s₁ with
        referenceds := update s₁.referenceds x.handle (insert n (s₁.referenceds x.handle)) } x E₁
        [n] := { hmarked₁ with }
    obtain ⟨s', E', hrest, hmarked, href⟩ := ih hreferenced.transaction
    refine ⟨s', E', ?_, hreferenced.trans hmarked, ?_⟩
    · rw [State.bindTables, hfirst]
      exact hrest
    · rw [href]
      simp [href₁, Finset.insert_union]

/-- The sequences of some tables were updated outside a transaction. -/
structure Settled (s s' : State H T N) : Prop where
  transaction : s'.transaction = s.transaction
  sequence : s.sequence ⊆ s'.sequence
  flags : ∀ n, s'.needUpdateSequence n = false →
    s.needUpdateSequence n = false ∨ n ∈ s'.sequence
  commiting : s.transaction ≠ none → s'.commitingInfos = s.commitingInfos
  created : s.transaction ≠ none → s'.createdNewView = s.createdNewView
  uncreated : ∀ h, s'.createdNewView h = true → s.createdNewView h = true

omit [DecidableEq H] [DecidableEq T] [DecidableEq N] in
theorem Settled.refl (s : State H T N) : Settled s s :=
  ⟨rfl, Finset.Subset.refl _, fun _ => Or.inl, fun _ => rfl, fun _ => rfl, fun _ => id⟩

omit [DecidableEq H] [DecidableEq T] [DecidableEq N] in
theorem Settled.trans {s'' : State H T N} (hfirst : Settled s s') (hrest : Settled s' s'') :
    Settled s s'' where
  transaction := hrest.transaction.trans hfirst.transaction
  sequence := hfirst.sequence.trans hrest.sequence
  flags := fun n hn => by
    rcases hrest.flags n hn with hbefore | hentry
    · exact (hfirst.flags n hbefore).imp_right fun hentry => hrest.sequence hentry
    · exact Or.inr hentry
  commiting := fun hne =>
    (hrest.commiting (hfirst.transaction ▸ hne)).trans (hfirst.commiting hne)
  created := fun hne => (hrest.created (hfirst.transaction ▸ hne)).trans (hfirst.created hne)
  uncreated := fun h hh => hfirst.uncreated h (hrest.uncreated h hh)

theorem settled_tryUpdateSequence (hout : s.isInTransaction h = false) (n : N) :
    Settled s (s.tryUpdateSequence t h n).1 := by
  have hrefl := Settled.refl s
  unfold State.tryUpdateSequence
  split_ifs with hneed
  · exact hrefl
  · unfold State.updateSequence
    by_cases hn : n ∈ s.entries h
    · have hcommitted : n ∈ s.sequence := by
        cases hx : s.transaction with
        | none => simpa [State.entries, hx] using hn
        | some x =>
          have hne : ¬ x.handle = h := by simpa [State.isInTransaction, hx] using hout
          simpa [State.entries, hx, Option.filter, hne] using hn
      rw [if_pos hn]
      refine { hrefl with flags := fun m hm => ?_, commiting := fun _ => rfl }
      by_cases hmn : m = n
      · exact Or.inr (hmn ▸ hcommitted)
      · exact Or.inl (by simpa [hmn] using hm)
    · rw [if_neg hn]
      cases hx : s.transaction with
      | none =>
        -- The transaction of its own is committed.
        refine ⟨hx.symm, Finset.subset_insert _ _, fun m hm => ?_, fun hne => absurd hx hne,
          fun hne => absurd hx hne, fun h' hh => ?_⟩
        · by_cases hmn : m = n
          · exact Or.inr (hmn ▸ Finset.mem_insert_self _ _)
          · exact Or.inl (by simpa [hmn, State.didCommit, State.setTableInfoCommitted] using hm)
        · by_cases hh' : h' = h
          · subst hh'
            simp [State.didCommit, State.setTableInfoCommitted] at hh
          · simpa [State.didCommit, State.setTableInfoCommitted, hh'] using hh
      | some x =>
        have hne : ¬ x.handle = h := by simpa [State.isInTransaction, hx] using hout
        simp only [if_neg hne]
        exact hrefl

theorem settled_bindTables (hout : s.isInTransaction h = false) (tables : List N) :
    Settled s (s.bindTables t h tables).1 := by
  induction tables generalizing s with
  | nil => exact Settled.refl s
  | cons n tables ih =>
    have hfirst := settled_tryUpdateSequence (t := t) hout n
    rw [State.bindTables]
    simp only
    split_ifs
    · have hreferenced : Settled s { (s.tryUpdateSequence t h n).1 with
          referenceds := update (s.tryUpdateSequence t h n).1.referenceds h
            (insert n ((s.tryUpdateSequence t h n).1.referenceds h)) } := { hfirst with }
      refine hreferenced.trans (ih ?_)
      rw [State.isInTransaction, hreferenced.transaction]
      exact hout
    · exact hfirst

/-- The flags, the notes and the entries are as before, and a view is created in a transaction
only. -/
structure Framed (s s' : State H T N) : Prop where
  needUpdateSequence : s'.needUpdateSequence = s.needUpdateSequence
  commitingInfos : s'.commitingInfos = s.commitingInfos
  sequence : s'.sequence = s.sequence
  transaction : s'.transaction = s.transaction
  kept : ∀ h, s.createdNewView h = true → s'.createdNewView h = true
  created : ∀ h, s'.createdNewView h = true →
    s.createdNewView h = true ∨ s.isInTransaction h = true

omit [DecidableEq T] [DecidableEq N] in
theorem Framed.refl (s : State H T N) : Framed s s :=
  ⟨rfl, rfl, rfl, rfl, fun _ => id, fun _ => Or.inl⟩

omit [DecidableEq T] in
theorem framed_rebindViews (s : State H T N) (h : H) : Framed s (s.rebindViews h) := by
  refine ⟨rfl, rfl, rfl, rfl, fun h' hh => ?_, fun h' hh => ?_⟩
  · by_cases heq : h' = h
    · subst heq
      simp [State.rebindViews, hh]
    · simpa [State.rebindViews, heq] using hh
  · by_cases heq : h' = h
    · subst heq
      simp only [State.rebindViews, Function.update_self, Bool.or_eq_true, Bool.and_eq_true] at hh
      exact hh.imp_right And.left
    · exact Or.inl (by simpa [State.rebindViews, heq] using hh)

omit [DecidableEq T] in
theorem framed_stopBinding (s : State H T N) (h : H) (succeed : Bool) (rebinding : Rebinding N) :
    Framed s (s.stopBinding h succeed rebinding) := by
  have hrefl := Framed.refl s
  have hviews := framed_rebindViews
    { s with bindings := update s.bindings h (s.newBindings h []) } h
  unfold State.stopBinding
  by_cases hsucceed : succeed = true
  · rw [if_pos hsucceed]
    simp only
    by_cases hrebind : (s.rebind h ||
        decide (s.bounds h ≠ update s.bindings h (s.newBindings h []) h)) = true
    · rw [if_pos hrebind]
      cases rebinding with
      | failed views => exact { hrefl with }
      | unattached => exact { hviews with }
      | done => exact { hviews with }
    · rw [if_neg hrebind]
      exact { hrefl with }
  · rw [if_neg hsucceed]
    exact hrefl

end Changes

/-! ### The invariant -/

/-- The table has an entry that is committed, or one in a transaction that is noted for a
rollback. -/
def State.Backed (s : State H T N) (n : N) : Prop :=
  n ∈ s.sequence ∨ ∃ x ∈ s.transaction, n ∈ x.entries ∧ s.createdNewView x.handle = true ∧
    n ∈ s.commitingInfos x.thread

structure Inv (autoincrement : N → Bool) (s : State H T N) : Prop where
  backed : ∀ n, autoincrement n = true → s.needUpdateSequence n = false → s.Backed n
  created : ∀ h, s.createdNewView h = true → s.isInTransaction h = true

section Invariant

variable {autoincrement : N → Bool} {s s' : State H T N} {t : T} {h : H} {x : Transaction H T N}

omit [DecidableEq T] [DecidableEq N] in
theorem rollbackDatabase_frame (s : State H T N) (h : H) :
    (s.rollbackDatabase h).needUpdateSequence = s.needUpdateSequence ∧
      (s.rollbackDatabase h).commitingInfos = s.commitingInfos ∧
      (s.rollbackDatabase h).createdNewView = s.createdNewView ∧
      (s.rollbackDatabase h).sequence = s.sequence := by
  unfold State.rollbackDatabase
  repeat' split
  all_goals exact ⟨rfl, rfl, rfl, rfl⟩

/-- A rollback sets the flags of the tables noted back, if a view was created. -/
theorem rollbackTransaction_needUpdateSequence (s : State H T N) (t : T) (h : H) (n : N) :
    (s.rollbackTransaction t h).needUpdateSequence n =
      (s.needUpdateSequence n || s.createdNewView h && decide (n ∈ s.commitingInfos t)) := by
  obtain ⟨hneed, hcommiting, hcreated, -⟩ := rollbackDatabase_frame s h
  unfold State.rollbackTransaction
  simp only
  split_ifs with hview
  · simp [State.setTableInfoCommitted, hneed, hcommiting, ← hcreated, hview]
  · rw [hneed, ← hcreated, (Bool.not_eq_true _).mp hview, Bool.false_and, Bool.or_false]

theorem Inv.agrees (hs : Inv autoincrement s) : Agrees autoincrement s := by
  intro n hauto hflag
  refine (hs.backed n hauto hflag).imp_right fun ⟨x, hx, hentry, hcreated, hnoted⟩ => ?_
  refine ⟨x, hx, hentry, ?_⟩
  rw [rollbackTransaction_needUpdateSequence, hflag, hcreated, decide_eq_true hnoted]
  rfl

omit [DecidableEq T] [DecidableEq N] in
theorem Inv.framed (hs : Inv autoincrement s) (hframed : Framed s s') : Inv autoincrement s' := by
  refine ⟨fun n hauto hflag => ?_, fun h hh => ?_⟩
  · rw [hframed.needUpdateSequence] at hflag
    rw [State.Backed, hframed.sequence, hframed.transaction, hframed.commitingInfos]
    exact (hs.backed n hauto hflag).imp_right fun ⟨x, hx, hentry, hcreated, hnoted⟩ =>
      ⟨x, hx, hentry, hframed.kept _ hcreated, hnoted⟩
  · rw [State.isInTransaction, hframed.transaction]
    exact (hframed.created h hh).elim (hs.created h) id

omit [DecidableEq T] [DecidableEq N] in
theorem Inv.settled (hs : Inv autoincrement s) (hsettled : Settled s s') :
    Inv autoincrement s' := by
  refine ⟨fun n hauto hflag => ?_, fun h hh => ?_⟩
  · rcases hsettled.flags n hflag with hbefore | hentry
    · rcases hs.backed n hauto hbefore with hentry | ⟨x, hx, hentry, hcreated, hnoted⟩
      · exact Or.inl (hsettled.sequence hentry)
      · have hne : s.transaction ≠ none := by
          rintro hnone
          rw [hnone] at hx
          cases hx
        refine Or.inr ⟨x, hsettled.transaction ▸ hx, hentry, ?_, ?_⟩
        · rw [hsettled.created hne, hcreated]
        · rw [hsettled.commiting hne]
          exact hnoted
    · exact Or.inl hentry
  · rw [State.isInTransaction, hsettled.transaction]
    exact hs.created h (hsettled.uncreated h hh)

omit [DecidableEq T] in
/-- A view that is to be created has been created after the bind. -/
theorem createdNewView_stopBinding (hin : s.isInTransaction h = true) {succeed : Bool}
    {rebinding : Rebinding N} (hcreates : s.createsView h [] succeed rebinding = true) :
    (s.stopBinding h succeed rebinding).createdNewView h = true := by
  by_cases hbefore : s.createdNewView h = true
  · exact (framed_stopBinding s h succeed rebinding).kept h hbefore
  · have hviews (hne : ¬ s.newBindings h [] ⊆ s.views h) : (State.rebindViews
        { s with bindings := update s.bindings h (s.newBindings h []) } h).createdNewView h =
          true := by
      have hin' : State.isInTransaction
          { s with bindings := update s.bindings h (s.newBindings h []) } h = true := hin
      simp [State.rebindViews, hin', hne]
    cases rebinding with
    | failed views => exact absurd hcreates hbefore
    | unattached | done =>
      simp only [State.createsView, hbefore, Bool.false_or, Bool.and_eq_true, Bool.not_eq_true',
        decide_eq_false_iff_not] at hcreates
      obtain ⟨⟨hsucceed, hrebind⟩, hne⟩ := hcreates
      unfold State.stopBinding
      rw [if_pos hsucceed]
      simp only [Function.update_self]
      rw [if_pos hrebind]
      exact hviews hne

omit [DecidableEq H] [DecidableEq T] [DecidableEq N] in
theorem State.createsView_marked [DecidableEq H] [DecidableEq N] {E : Finset N} {tables : List N}
    (hmarked : Marked s s' x E tables)
    (href : s'.referenceds h = s.referenceds h ∪ tables.toFinset) (succeed : Bool)
    (rebinding : Rebinding N) :
    s'.createsView h [] succeed rebinding = s.createsView h tables succeed rebinding := by
  have hbindings : s'.newBindings h [] = s.newBindings h tables := by
    simp [State.newBindings, hmarked.bindings.1, hmarked.bindings.2, href]
  cases rebinding with
  | failed => rw [State.createsView, State.createsView, hmarked.created]
  | unattached | done =>
    simp only [State.createsView, hbindings, hmarked.created, hmarked.views, hmarked.bounds.1,
      hmarked.bounds.2]

theorem inv_bind (hs : Inv autoincrement s) {tables : List N} {succeed : Bool}
    {rebinding : Rebinding N} (hthread : s.OnThread t h)
    (horderly : Orderly s (.bind t h tables succeed rebinding)) :
    Inv autoincrement (s.bind t h tables succeed rebinding) := by
  by_cases hin : s.isInTransaction h = true
  · obtain ⟨x, hx, rfl⟩ := isInTransaction_iff.mp hin
    obtain rfl := hthread x hx rfl
    obtain ⟨s', E, hbound, hmarked, href⟩ := marked_bindTables hx tables
    have hin' : s'.isInTransaction x.handle = true :=
      isInTransaction_iff.mpr ⟨_, hmarked.transaction, rfl⟩
    have hframed := framed_stopBinding s' x.handle succeed rebinding
    have hbind : s.bind x.thread x.handle tables succeed rebinding =
        s'.stopBinding x.handle succeed rebinding := by
      simp only [State.bind, hbound, Bool.true_and]
    rw [hbind]
    refine ⟨fun n hauto hflag => ?_, fun h' hh => ?_⟩
    · rw [hframed.needUpdateSequence] at hflag
      rw [State.Backed, hframed.sequence, hframed.transaction, hframed.commitingInfos,
        hmarked.sequence, hmarked.transaction]
      have hin_entries (hentry : n ∈ E)
          (hcreated : (s'.stopBinding x.handle succeed rebinding).createdNewView x.handle = true)
          (hnoted : n ∈ s'.commitingInfos x.thread) : n ∈ s.sequence ∨
          ∃ y ∈ some { x with entries := E }, n ∈ y.entries ∧
            (s'.stopBinding x.handle succeed rebinding).createdNewView y.handle = true ∧
              n ∈ s'.commitingInfos y.thread :=
        Or.inr ⟨_, rfl, hentry, hcreated, hnoted⟩
      by_cases hbefore : s.needUpdateSequence n = false
      · rcases hs.backed n hauto hbefore with hentry | ⟨y, hy, hentry, hcreated, hnoted⟩
        · exact Or.inl hentry
        · obtain rfl : x = y := Option.some.inj (hx.symm.trans hy)
          refine hin_entries (hmarked.entries hentry) ?_ (hmarked.commiting _ hnoted)
          exact hframed.kept _ (by rw [hmarked.created]; exact hcreated)
      · -- This bind set the flag.
        obtain ⟨htable, hentry⟩ := (hmarked.flags n hflag).resolve_left hbefore
        by_cases hcommitted : n ∈ s.sequence
        · exact Or.inl hcommitted
        · obtain ⟨hnoted, hcreates⟩ :=
            horderly x hx rfl n htable (by simpa using hbefore) hcommitted
          have hentry := hentry.resolve_left hcommitted
          refine hin_entries hentry ?_ ?_
          · refine createdNewView_stopBinding hin' ?_
            rw [State.createsView_marked hmarked href]
            exact hcreates
          · rcases hmarked.noted n hentry with hold | hnew
            · exact hmarked.commiting _ (hnoted.resolve_left (not_not.mpr hold))
            · exact hnew
    · have hcreated := hframed.created h' hh
      have hsame : s'.isInTransaction h' = s.isInTransaction h' := by
        simp [State.isInTransaction, hmarked.transaction, show s.transaction = some x from hx]
      rw [State.isInTransaction, hframed.transaction, ← State.isInTransaction]
      rcases hcreated with hbefore | hnow
      · rw [hmarked.created] at hbefore
        exact hsame.trans (hs.created h' hbefore)
      · exact hnow
  · have hsettled := settled_bindTables (t := t) ((Bool.not_eq_true _).mp hin) tables
    exact (hs.settled hsettled).framed (framed_stopBinding _ h _ rebinding)

omit [DecidableEq T] [DecidableEq N] in
/-- No view is created outside a transaction. -/
theorem Inv.createdNewView_eq_false (hs : Inv autoincrement s)
    (hout : s.isInTransaction h = false) :
    s.createdNewView h = false := by
  by_contra hview
  exact absurd (hs.created h (by simpa using hview)) (by simp [hout])

omit [DecidableEq T] [DecidableEq N] in
theorem inv_beginTransaction (hs : Inv autoincrement s)
    (hbegin : s.beginTransaction t h = some s') : Inv autoincrement s' := by
  unfold State.beginTransaction at hbegin
  split at hbegin
  next hnone =>
    cases hbegin
    refine ⟨fun n hauto hflag => ?_, fun h' hh => ?_⟩
    · rcases hs.backed n hauto hflag with hentry | ⟨x, hx, -⟩
      · exact Or.inl hentry
      · rw [hnone] at hx
        cases hx
    · have hin := hs.created h' hh
      simp [State.isInTransaction, hnone] at hin
  next x hx =>
    obtain ⟨-, hs'⟩ := Option.ite_none_right_eq_some.mp hbegin
    cases hs'
    refine ⟨fun n hauto hflag => ?_, fun h' hh => ?_⟩
    · rcases hs.backed n hauto hflag with hentry | ⟨y, hy, hentry, hcreated, hnoted⟩
      · exact Or.inl hentry
      · obtain rfl : x = y := Option.some.inj (hx.symm.trans hy)
        exact Or.inr ⟨_, rfl, hentry, hcreated, hnoted⟩
    · have hin := hs.created h' hh
      simpa [State.isInTransaction, hx] using hin

theorem inv_didCommit (hs : Inv autoincrement s) (hout : s.isInTransaction h = false)
    (horderly : ∀ x ∈ s.transaction, x.thread ≠ t) : Inv autoincrement (s.didCommit t h) := by
  refine ⟨fun n hauto hflag => ?_, fun h' hh => ?_⟩
  · have hbefore : s.needUpdateSequence n = false := by
      simpa [State.didCommit, State.setTableInfoCommitted] using hflag
    refine (hs.backed n hauto hbefore).imp_right fun ⟨x, hx, hentry, hcreated, hnoted⟩ => ?_
    have hne : x.handle ≠ h := fun heq => by
      have hin := isInTransaction_iff.mpr ⟨x, hx, heq⟩
      rw [hout] at hin
      cases hin
    refine ⟨x, hx, hentry, ?_, ?_⟩
    · simpa [State.didCommit, State.setTableInfoCommitted, hne] using hcreated
    · simpa [State.didCommit, State.setTableInfoCommitted, horderly x hx] using hnoted
  · by_cases heq : h' = h
    · subst heq
      simp [State.didCommit, State.setTableInfoCommitted] at hh
    · exact hs.created h' (by simpa [State.didCommit, State.setTableInfoCommitted, heq] using hh)

theorem inv_commitTransaction (hs : Inv autoincrement s)
    (horderly : Orderly s (.commitTransaction t h)) :
    Inv autoincrement (s.commitTransaction t h) := by
  unfold State.commitTransaction State.commitDatabase
  cases hx : s.transaction with
  | none =>
    have hout : s.isInTransaction h = false := by simp [State.isInTransaction, hx]
    simp only [hout]
    exact inv_didCommit hs hout fun x hx' => by
      rw [hx] at hx'
      cases hx'
  | some x =>
    by_cases heq : x.handle = h
    · simp only [if_pos heq]
      have hnotin (h' : H) (hne : h' ≠ h) : s.createdNewView h' = false := by
        refine hs.createdNewView_eq_false ?_
        simp only [State.isInTransaction, hx, Option.any_some, heq, decide_eq_false_iff_not]
        exact fun hh => hne hh.symm
      cases hsavepoints : x.savepoints with
      | nil =>
        simp only [State.isInTransaction, Option.any_none, Bool.false_eq_true, if_false]
        refine ⟨fun n hauto hflag => ?_, fun h' hh => ?_⟩
        · have hbefore : s.needUpdateSequence n = false := by
            simpa [State.didCommit, State.setTableInfoCommitted] using hflag
          left
          rcases hs.backed n hauto hbefore with hentry | ⟨y, hy, hentry, -⟩
          · exact Finset.mem_union_left _ hentry
          · obtain rfl : x = y := Option.some.inj (hx.symm.trans hy)
            exact Finset.mem_union_right _ hentry
        · by_cases hh' : h' = h
          · subst hh'
            simp [State.didCommit, State.setTableInfoCommitted] at hh
          · simp [State.didCommit, State.setTableInfoCommitted, hh', hnotin h' hh'] at hh
      | cons savepoint savepoints =>
        have hin : State.isInTransaction
            { s with transaction := some { x with savepoints } } h = true :=
          isInTransaction_iff.mpr ⟨_, rfl, heq⟩
        simp only [hin, if_true]
        refine ⟨fun n hauto hflag => ?_, fun h' hh => ?_⟩
        · refine (hs.backed n hauto hflag).imp_right ?_
          rintro ⟨y, hy, hentry, hcreated, hnoted⟩
          obtain rfl : x = y := Option.some.inj (hx.symm.trans hy)
          exact ⟨_, rfl, hentry, hcreated, hnoted⟩
        · have hin' := hs.created h' hh
          simpa [State.isInTransaction, hx] using hin'
    · have hout : s.isInTransaction h = false := by simp [State.isInTransaction, hx, heq]
      simp only [if_neg heq, hout]
      refine inv_didCommit hs hout fun y hy hthread => ?_
      obtain rfl : x = y := Option.some.inj (hx.symm.trans hy)
      exact heq (horderly x hx hthread)

theorem inv_rollbackTransaction (hs : Inv autoincrement s) (hthread : s.OnThread t h) :
    Inv autoincrement (s.rollbackTransaction t h) := by
  by_cases hview : s.createdNewView h = true
  · obtain ⟨x, hx, rfl⟩ := isInTransaction_iff.mp (hs.created h hview)
    obtain rfl := hthread x hx rfl
    obtain ⟨-, -, hcreated, hsequence⟩ := rollbackDatabase_frame s x.handle
    refine ⟨fun n hauto hflag => ?_, fun h' hh => ?_⟩
    · rw [rollbackTransaction_needUpdateSequence, hview] at hflag
      simp only [Bool.true_and, Bool.or_eq_false_iff, decide_eq_false_iff_not] at hflag
      -- A table that is in the transaction only was noted, and has its flag back.
      rcases hs.backed n hauto hflag.1 with hentry | ⟨y, hy, -, -, hnoted⟩
      · left
        simp only [State.rollbackTransaction]
        split_ifs
        · exact hsequence.symm ▸ hentry
        · exact hsequence.symm ▸ hentry
      · obtain rfl : x = y := Option.some.inj ((show s.transaction = some x from hx).symm.trans hy)
        exact absurd hnoted hflag.2
    · simp only [State.rollbackTransaction, hcreated, hview, if_true] at hh
      by_cases hne : h' = x.handle
      · subst hne
        simp [State.setTableInfoCommitted] at hh
      · have hbefore : s.createdNewView h' = true := by
          simpa [State.setTableInfoCommitted, hne, hcreated] using hh
        obtain ⟨y, hy, hyh⟩ := isInTransaction_iff.mp (hs.created h' hbefore)
        obtain rfl : x = y := Option.some.inj ((show s.transaction = some x from hx).symm.trans hy)
        exact absurd hyh.symm hne
  · obtain ⟨hneed, -, hcreated, hsequence⟩ := rollbackDatabase_frame s h
    have hrolled : s.rollbackTransaction t h = s.rollbackDatabase h := by
      unfold State.rollbackTransaction
      simp only [hcreated, if_neg hview]
    have hothers (h' : H) (hh : s.createdNewView h' = true) (x : Transaction H T N)
        (hx : s.transaction = some x) : x.handle = h' ∧ h' ≠ h := by
      obtain ⟨y, hy, hyh⟩ := isInTransaction_iff.mp (hs.created h' hh)
      obtain rfl : x = y := Option.some.inj (hx.symm.trans hy)
      exact ⟨hyh, fun heq => hview (heq ▸ hh)⟩
    rw [hrolled]
    cases hx : s.transaction with
    | none =>
      have hsame : s.rollbackDatabase h = s := by simp [State.rollbackDatabase, hx]
      rw [hsame]
      exact hs
    | some x =>
      by_cases heq : x.handle = h
      · refine ⟨fun n hauto hflag => ?_, fun h' hh => ?_⟩
        · rw [hneed] at hflag
          rcases hs.backed n hauto hflag with hentry | ⟨y, hy, -, hbad, -⟩
          · exact Or.inl (hsequence.symm ▸ hentry)
          · obtain rfl : x = y := Option.some.inj (hx.symm.trans hy)
            exact absurd (heq ▸ hbad) hview
        · rw [hcreated] at hh
          obtain ⟨hxh, hne⟩ := hothers h' hh x hx
          exact absurd (hxh.symm.trans heq) hne
      · have hsame : s.rollbackDatabase h = s := by simp [State.rollbackDatabase, hx, heq]
        rw [hsame]
        exact hs

omit [DecidableEq T] in
theorem inv_insertRow (hs : Inv autoincrement s) {n : N} (hinsert : s.insertRow h n = some s') :
    Inv autoincrement s' := by
  unfold State.insertRow at hinsert
  split at hinsert
  next hnone =>
    cases hinsert
    refine ⟨fun m hauto hflag => ?_, hs.created⟩
    exact (hs.backed m hauto hflag).imp_left fun hentry => Finset.mem_insert_of_mem hentry
  next x hx =>
    obtain ⟨-, hs'⟩ := Option.ite_none_right_eq_some.mp hinsert
    cases hs'
    refine ⟨fun m hauto hflag => ?_, fun h' hh => ?_⟩
    · refine (hs.backed m hauto hflag).imp_right fun ⟨y, hy, hentry, hcreated, hnoted⟩ => ?_
      obtain rfl : x = y := Option.some.inj (hx.symm.trans hy)
      exact ⟨_, rfl, Finset.mem_insert_of_mem hentry, hcreated, hnoted⟩
    · have hin := hs.created h' hh
      simpa [State.isInTransaction, hx] using hin

omit [DecidableEq H] [DecidableEq T] in
theorem settled_migrateRows {n : N} (hmigrate : s.migrateRows n = some s') : Settled s s' := by
  unfold State.migrateRows at hmigrate
  split_ifs at hmigrate with hneed hwrite
  · cases hmigrate
    exact Settled.refl s
  · cases hmigrate
    refine ⟨rfl, Finset.subset_insert _ _, fun m hm => ?_, fun _ => rfl, fun _ => rfl, fun _ => id⟩
    by_cases hmn : m = n
    · exact Or.inr (hmn ▸ Finset.mem_insert_self _ _)
    · exact Or.inl (by simpa [hmn] using hm)

theorem step_inv (s : State H T N) (a : Action H T N) (s' : State H T N)
    (hs : Inv autoincrement s) (horderly : Orderly s a) (hstep : step s a = some s') :
    Inv autoincrement s' := by
  have hrefl := Framed.refl s
  cases a with
  | beginTransaction t h =>
    obtain ⟨-, hbegin⟩ := Option.ite_none_right_eq_some.mp hstep
    exact inv_beginTransaction hs hbegin
  | bind t h tables succeed rebinding =>
    obtain ⟨⟨hthread, -⟩, hs'⟩ := Option.ite_none_right_eq_some.mp hstep
    cases hs'
    exact inv_bind hs hthread horderly
  | stopReferenced | markAsMigrated =>
    cases hstep
    exact hs.framed { hrefl with }
  | commitTransaction t h =>
    obtain ⟨-, hs'⟩ := Option.ite_none_right_eq_some.mp hstep
    cases hs'
    exact inv_commitTransaction hs horderly
  | rollbackTransaction t h =>
    obtain ⟨hthread, hs'⟩ := Option.ite_none_right_eq_some.mp hstep
    cases hs'
    exact inv_rollbackTransaction hs hthread
  | insertRow h n => exact inv_insertRow hs hstep
  | migrateRows n => exact hs.settled (settled_migrateRows hstep)

omit [DecidableEq T] [DecidableEq N] in
/-- At first every sequence is to be updated. -/
theorem Inv.init (autoincrement : N → Bool) (migratings sequence : Finset N) :
    Inv autoincrement ({ needUpdateSequence := autoincrement, migratings, sequence } :
      State H T N) where
  backed := fun n hauto hflag => absurd hauto (by simpa using hflag)
  created := fun _ hh => by cases hh

/-- **The flag agrees with the database in every state of an orderly run.** -/
theorem agrees_of_exec {migratings sequence : Finset N} {actions : List (Action H T N)}
    (horderly : Run.Meets step Orderly
      { needUpdateSequence := autoincrement, migratings, sequence } actions)
    (h : Run.exec step { needUpdateSequence := autoincrement, migratings, sequence } actions =
      some s) : Agrees autoincrement s :=
  (Run.inv_exec step_inv (Inv.init autoincrement migratings sequence) horderly h).agrees

end Invariant

/-- One handle binds a table in a transaction, another outside, and the first rolls back. -/
def boundByBoth : List (Action (Fin 2) (Fin 2) ℕ) :=
  [.beginTransaction 0 0, .bind 0 0 [7] true .done, .bind 1 1 [7] true .done,
    .rollbackTransaction 0 0]

/-- The other has the view already, binds the table in a transaction and rolls back. -/
def rollbackWithoutView : List (Action (Fin 2) (Fin 2) ℕ) :=
  boundByBoth ++ [.beginTransaction 1 1, .bind 1 1 [7] true .done, .rollbackTransaction 1 1]

/-- The flag says that the sequence is up to date, and there is no entry. -/
theorem not_agrees_rollbackWithoutView :
    ∃ s, Run.exec step { needUpdateSequence := fun _ => true, migratings := {7}, sequence := ∅ }
        rollbackWithoutView = some s ∧ s.transaction = none ∧ s.sequence = ∅ ∧
      ¬ Agrees (fun _ => true) s := by
  have hview : (Run.exec step
      ({ needUpdateSequence := fun _ => true, migratings := {7}, sequence := ∅ } :
        State (Fin 2) (Fin 2) ℕ) rollbackWithoutView).map
      (fun s => (s.transaction, s.sequence, s.needUpdateSequence 7)) = some (none, ∅, false) := by
    decide +kernel
  obtain ⟨s, hs, htriple⟩ := Option.map_eq_some_iff.mp hview
  have htransaction : s.transaction = none := congrArg Prod.fst htriple
  have hsequence : s.sequence = ∅ := congrArg (fun p => p.2.1) htriple
  refine ⟨s, hs, htransaction, hsequence, fun hagrees => ?_⟩
  rcases hagrees 7 rfl (congrArg (fun p => p.2.2) htriple) with hentry | ⟨x, hx, -⟩
  · rw [hsequence] at hentry
    exact absurd hentry (Finset.notMem_empty 7)
  · rw [htransaction] at hx
    cases hx

/-- The handle that creates the view commits the next time. -/
theorem agrees_boundByBoth :
    ∃ s, Run.exec step { needUpdateSequence := fun _ => true, migratings := {7}, sequence := ∅ }
        (boundByBoth ++ [.beginTransaction 0 0, .bind 0 0 [7] true .done, .commitTransaction 0 0]) =
          some s ∧ Agrees (fun _ => true) s := by
  obtain ⟨s, hs⟩ : ∃ s, Run.exec step
      ({ needUpdateSequence := fun _ => true, migratings := {7}, sequence := ∅ } :
        State (Fin 2) (Fin 2) ℕ)
      (boundByBoth ++ [.beginTransaction 0 0, .bind 0 0 [7] true .done, .commitTransaction 0 0]) =
        some s := Option.isSome_iff_exists.mp (by decide +kernel)
  exact ⟨s, hs, agrees_of_exec (by decide +kernel) hs⟩

end MigrationSequence

end Wcdb
