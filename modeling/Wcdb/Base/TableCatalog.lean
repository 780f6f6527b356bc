import Mathlib.Data.Finset.Basic
import Mathlib.Data.Finset.Union

/-!
# The tables of a database, as its handles create them

A handle prepares the creation of a table, which announces the table to those that keep books of it,
and creates it later, in a transaction of its own.
-/

namespace Wcdb

/-- The tables that exist for everybody, those created in transactions that are open, and those
whose creation was prepared. -/
structure TableCatalog (H N : Type) where
  committed : Finset N
  created : List (H × N) := []
  announced : List (H × N) := []

namespace TableCatalog

variable {H N : Type} [DecidableEq H] [DecidableEq N]

/-- The tables that exist for some handle. -/
def existing (c : TableCatalog H N) : Finset N := c.committed ∪ (c.created.map Prod.snd).toFinset

/-- The tables that a handle has created and not committed. -/
def createdBy (c : TableCatalog H N) (h : H) : Finset N :=
  ((c.created.filter fun table => table.1 = h).map Prod.snd).toFinset

/-- The tables that exist for a handle. -/
def visible (c : TableCatalog H N) (h : H) : Finset N := c.committed ∪ c.createdBy h

def announce (c : TableCatalog H N) (h : H) (table : N) : TableCatalog H N :=
  { c with announced := (h, table) :: c.announced }

inductive Action (H N : Type) where
  | create (h : H) (table : N)
  | commit (h : H)
  | rollback (h : H)
  deriving DecidableEq, Repr

def step (c : TableCatalog H N) : Action H N → Option (TableCatalog H N)
  | .create h table =>
      if (h, table) ∈ c.announced ∧ table ∉ c.existing then
        some { c with created := (h, table) :: c.created }
      else none
  | .commit h =>
      some { c with
        committed := c.committed ∪ c.createdBy h
        created := c.created.filter fun table => table.1 ≠ h }
  | .rollback h => some { c with created := c.created.filter fun table => table.1 ≠ h }

variable {c c' : TableCatalog H N} {a : Action H N} {h : H} {table : N}

omit [DecidableEq H] in
theorem mem_existing :
    table ∈ c.existing ↔ table ∈ c.committed ∨ ∃ h, (h, table) ∈ c.created := by
  simp [existing]

theorem mem_createdBy : table ∈ c.createdBy h ↔ (h, table) ∈ c.created := by
  simp [createdBy]

theorem mem_existing_of_visible (hvisible : table ∈ c.visible h) : table ∈ c.existing := by
  rcases Finset.mem_union.mp hvisible with hcommitted | hcreated
  · exact mem_existing.mpr (Or.inl hcommitted)
  · exact mem_existing.mpr (Or.inr ⟨h, mem_createdBy.mp hcreated⟩)

theorem step_announced (hstep : c.step a = some c') : c'.announced = c.announced := by
  cases a with
  | create h table =>
    obtain ⟨-, hc⟩ := Option.ite_none_right_eq_some.mp hstep
    cases hc
    rfl
  | commit h =>
    cases hstep
    rfl
  | rollback h =>
    cases hstep
    rfl

/-- Only a table that was announced comes into being. -/
theorem step_created (hstep : c.step a = some c') (hcreated : (h, table) ∈ c'.created) :
    (h, table) ∈ c.created ∨ (h, table) ∈ c.announced := by
  cases a with
  | create h' table' =>
    obtain ⟨hannounced, hc⟩ := Option.ite_none_right_eq_some.mp hstep
    cases hc
    rcases List.mem_cons.mp hcreated with heq | hmem
    · exact Or.inr (heq ▸ hannounced.1)
    · exact Or.inl hmem
  | commit | rollback =>
    cases hstep
    exact Or.inl (List.mem_of_mem_filter hcreated)

theorem step_existing (hstep : c.step a = some c') (hexisting : table ∈ c'.existing) :
    table ∈ c.existing ∨ ∃ h, (h, table) ∈ c.announced := by
  rcases mem_existing.mp hexisting with hcommitted | ⟨h, hcreated⟩
  · left
    cases a with
    | create h table =>
      obtain ⟨-, hc⟩ := Option.ite_none_right_eq_some.mp hstep
      cases hc
      exact mem_existing.mpr (Or.inl hcommitted)
    | commit h =>
      cases hstep
      exact mem_existing_of_visible hcommitted
    | rollback h =>
      cases hstep
      exact mem_existing.mpr (Or.inl hcommitted)
  · rcases step_created hstep hcreated with hcreated | hannounced
    · exact Or.inl (mem_existing.mpr (Or.inr ⟨h, hcreated⟩))
    · exact Or.inr ⟨h, hannounced⟩

end TableCatalog

end Wcdb
