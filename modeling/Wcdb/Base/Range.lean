import Mathlib.Data.List.Sort
import Mathlib.Order.Lattice
import Mathlib.Tactic.Common

/-!
# Ranges and the gaps between them

A `Range` has a signed location and a length. `Range.search` walks over disjoint ranges in the order
of their locations, and comes to the one that contains a location or to the **gap** around it: the
largest range that contains the location and none of the others meets (`search_eq`).
-/

namespace Wcdb

structure Range where
  location : ℤ := 0
  length : ℕ := 0
  deriving DecidableEq, Repr

namespace Range

def edge (r : Range) : ℤ := r.location + r.length

def contains (r : Range) (location : ℤ) : Bool := r.location ≤ location ∧ location < r.edge

def containsRange (r other : Range) : Bool := r.location ≤ other.location ∧ other.edge ≤ r.edge

/-- From a location to an edge; nothing if the edge lies before it. -/
def expandToEdge (location edge : ℤ) : Range := ⟨location, (edge - location).toNat⟩

def Disjoint (r s : Range) : Prop := r.edge ≤ s.location ∨ s.edge ≤ r.location

instance (r s : Range) : Decidable (Disjoint r s) := inferInstanceAs (Decidable (_ ∨ _))

@[simp]
theorem contains_iff {r : Range} {location : ℤ} :
    r.contains location = true ↔ r.location ≤ location ∧ location < r.edge := decide_eq_true_iff

@[simp]
theorem containsRange_iff {r other : Range} :
    r.containsRange other = true ↔ r.location ≤ other.location ∧ other.edge ≤ r.edge :=
  decide_eq_true_iff

theorem edge_expandToEdge {location edge : ℤ} (h : location ≤ edge) :
    (expandToEdge location edge).edge = edge := by
  change location + ((edge - location).toNat : ℤ) = edge
  omega

theorem Disjoint.symm {r s : Range} (h : Disjoint r s) : Disjoint s r := Or.symm h

/-- A range within one that is disjoint. -/
theorem Disjoint.of_containsRange {r s t : Range} (h : Disjoint r s) (ht : s.containsRange t) :
    Disjoint r t := by
  rw [containsRange_iff] at ht
  exact h.imp (fun hle => hle.trans ht.1) fun hle => ht.2.trans hle

theorem Disjoint.not_contains {r s : Range} (h : Disjoint r s) {location : ℤ}
    (hr : r.contains location) (hs : s.contains location) : False := by
  rw [contains_iff] at hr hs
  rcases h with h | h <;> omega

/-- The largest range between `low` and `edge` that contains the location and meets none of the
ranges. -/
structure IsGap (low edge : ℤ) (ranges : List Range) (location : ℤ) (g : Range) : Prop where
  contains : g.contains location
  lower : low ≤ g.location
  upper : g.edge ≤ edge
  free : ∀ r ∈ ranges, Disjoint r g
  maximal : ∀ h : Range, h.contains location → low ≤ h.location → h.edge ≤ edge →
    (∀ r ∈ ranges, Disjoint r h) → g.containsRange h

theorem IsGap.of_perm {low edge location : ℤ} {ranges ranges' : List Range} {g : Range}
    (h : IsGap low edge ranges location g) (hperm : ranges.Perm ranges') :
    IsGap low edge ranges' location g where
  contains := h.contains
  lower := h.lower
  upper := h.upper
  free := fun r hr => h.free r (hperm.mem_iff.mpr hr)
  maximal := fun s hs hlow hedge hfree =>
    h.maximal s hs hlow hedge fun r hr => hfree r (hperm.mem_iff.mp hr)

section Search

variable {ε : Type} (range : ε → Range)

/-- The first range whose edge lies behind the location contains it, or ends the gap around it. The
gap begins at the edge of the range before. -/
def search (location edge : ℤ) : ℤ → List ε → Range × Option ε
  | low, [] => (expandToEdge low edge, none)
  | low, e :: es =>
    if location < (range e).edge then
      if (range e).contains location then (range e, some e)
      else (expandToEdge low (range e).location, none)
    else search location edge (range e).edge es

/-- Ranges that are not empty and follow each other from `low` to `edge`. -/
structure Tiles (low edge : ℤ) (es : List ε) : Prop where
  sorted : es.Pairwise fun a b => (range a).edge ≤ (range b).location
  nonempty : ∀ e ∈ es, 0 < (range e).length
  lower : ∀ e ∈ es, low ≤ (range e).location
  upper : ∀ e ∈ es, (range e).edge ≤ edge

variable {range}

theorem Tiles.tail {low edge : ℤ} {e : ε} {es : List ε} (h : Tiles range low edge (e :: es)) :
    Tiles range (range e).edge edge es where
  sorted := (List.pairwise_cons.mp h.sorted).2
  nonempty := fun a ha => h.nonempty a (List.mem_cons_of_mem e ha)
  lower := (List.pairwise_cons.mp h.sorted).1
  upper := fun a ha => h.upper a (List.mem_cons_of_mem e ha)

/-- **The search finds** the range that contains the location, or the gap around it. -/
theorem search_eq {location low edge : ℤ} {es : List ε} (h : Tiles range low edge es)
    (hlow : low ≤ location) (hedge : location < edge) :
    (∃ e ∈ es, (range e).contains location ∧
        search range location edge low es = (range e, some e)) ∨
      ∃ g, IsGap low edge (es.map range) location g ∧
        search range location edge low es = (g, none) := by
  induction es generalizing low with
  | nil =>
    have hexpand := edge_expandToEdge (show low ≤ edge by omega)
    refine Or.inr ⟨_, ⟨?_, le_refl low, hexpand.le, by simp, ?_⟩, rfl⟩
    · rw [contains_iff, hexpand]
      exact ⟨hlow, hedge⟩
    · intro s _ hs hs' _
      rw [containsRange_iff, hexpand]
      exact ⟨hs, hs'⟩
  | cons e es ih =>
    have hpos := h.nonempty e List.mem_cons_self
    have helow := h.lower e List.mem_cons_self
    have heedge : (range e).edge = (range e).location + (range e).length := rfl
    rw [search]
    by_cases hbefore : location < (range e).edge
    · rw [if_pos hbefore]
      by_cases hcontains : (range e).contains location
      · rw [if_pos hcontains]
        exact Or.inl ⟨e, List.mem_cons_self, hcontains, rfl⟩
      · rw [if_neg hcontains]
        have hlt : location < (range e).location := by
          rw [contains_iff] at hcontains
          omega
        have hexpand := edge_expandToEdge helow
        have hupper := h.upper e List.mem_cons_self
        refine Or.inr ⟨_, ⟨?_, le_refl low, by omega, ?_, ?_⟩, rfl⟩
        · rw [contains_iff, hexpand]
          exact ⟨hlow, hlt⟩
        · -- the others follow `e`
          intro r hr
          obtain ⟨a, ha, rfl⟩ := List.mem_map.mp hr
          refine Or.inr ?_
          rw [hexpand]
          rcases List.mem_cons.mp ha with rfl | ha
          · exact le_refl _
          · have := h.tail.lower a ha
            omega
        · intro s hs hslow _ hfree
          rw [containsRange_iff, hexpand]
          rw [contains_iff] at hs
          refine ⟨hslow, ?_⟩
          rcases hfree _ (List.mem_map_of_mem List.mem_cons_self) with hle | hle <;> omega
    · rw [if_neg hbefore]
      rcases ih h.tail (by omega) with ⟨a, ha, hcontains, heq⟩ | ⟨g, hgap, heq⟩
      · exact Or.inl ⟨a, List.mem_cons_of_mem e ha, hcontains, heq⟩
      · refine Or.inr ⟨g, ⟨hgap.contains, ?_, hgap.upper, ?_, ?_⟩, heq⟩
        · have := hgap.lower
          omega
        · intro r hr
          rcases List.mem_map.mp hr with ⟨a, ha, rfl⟩
          rcases List.mem_cons.mp ha with rfl | ha
          · exact Or.inl hgap.lower
          · exact hgap.free _ (List.mem_map_of_mem ha)
        · -- a range around the location that `e` does not meet begins behind `e`
          intro s hs hslow hsedge hfree
          refine hgap.maximal s hs ?_ hsedge fun r hr => hfree r ?_
          · rw [contains_iff] at hs
            rcases hfree _ (List.mem_map_of_mem List.mem_cons_self) with hle | hle
            · exact hle
            · omega
          · obtain ⟨a, ha, rfl⟩ := List.mem_map.mp hr
            exact List.mem_map_of_mem (List.mem_cons_of_mem e ha)

/-! ### Ranges in any order -/

/-- Ranges that are not empty, do not meet and lie between `low` and `edge`. -/
structure Separate (range : ε → Range) (low edge : ℤ) (es : List ε) : Prop where
  disjoint : es.Pairwise fun a b => Disjoint (range a) (range b)
  nonempty : ∀ e ∈ es, 0 < (range e).length
  lower : ∀ e ∈ es, low ≤ (range e).location
  upper : ∀ e ∈ es, (range e).edge ≤ edge

theorem separate_nil (low edge : ℤ) : Separate range low edge ([] : List ε) :=
  ⟨.nil, by simp, by simp, by simp⟩

theorem Separate.of_perm {low edge : ℤ} {es es' : List ε} (h : Separate range low edge es)
    (hperm : es.Perm es') : Separate range low edge es' where
  disjoint := (hperm.pairwise_iff fun hab => hab.symm).mp h.disjoint
  nonempty := fun e he => h.nonempty e (hperm.mem_iff.mpr he)
  lower := fun e he => h.lower e (hperm.mem_iff.mpr he)
  upper := fun e he => h.upper e (hperm.mem_iff.mpr he)

theorem Separate.sublist {low edge : ℤ} {es es' : List ε} (h : Separate range low edge es)
    (hsub : es'.Sublist es) : Separate range low edge es' where
  disjoint := h.disjoint.sublist hsub
  nonempty := fun e he => h.nonempty e (hsub.subset he)
  lower := fun e he => h.lower e (hsub.subset he)
  upper := fun e he => h.upper e (hsub.subset he)

/-- A range within a gap is separate from the others. -/
theorem Separate.cons {low edge location : ℤ} {e : ε} {es : List ε} {g : Range}
    (h : Separate range low edge es) (hgap : IsGap low edge (es.map range) location g)
    (hwithin : g.containsRange (range e)) (hpos : 0 < (range e).length) :
    Separate range low edge (e :: es) := by
  have hbounds := containsRange_iff.mp hwithin
  refine ⟨List.pairwise_cons.mpr ⟨fun a ha => ?_, h.disjoint⟩, ?_, ?_, ?_⟩
  · exact ((hgap.free _ (List.mem_map_of_mem ha)).of_containsRange hwithin).symm
  all_goals
    intro a ha
    rcases List.mem_cons.mp ha with rfl | ha
  · exact hpos
  · exact h.nonempty a ha
  · exact hgap.lower.trans hbounds.1
  · exact h.lower a ha
  · exact hbounds.2.trans hgap.upper
  · exact h.upper a ha

/-- In the order of their locations, separate ranges follow each other. -/
theorem Separate.tiles {low edge : ℤ} {es : List ε} (h : Separate range low edge es) :
    Tiles range low edge
      (es.insertionSort fun a b => (range a).location ≤ (range b).location) := by
  have hperm := List.perm_insertionSort (fun a b => (range a).location ≤ (range b).location) es
  have hsort := h.of_perm hperm.symm
  have : Std.Total fun a b : ε => (range a).location ≤ (range b).location :=
    ⟨fun a b => le_total _ _⟩
  have : IsTrans ε fun a b => (range a).location ≤ (range b).location :=
    ⟨fun a b c => le_trans⟩
  have hsorted :=
    List.pairwise_insertionSort (fun a b => (range a).location ≤ (range b).location) es
  refine ⟨?_, hsort.nonempty, hsort.lower, hsort.upper⟩
  refine (hsorted.and hsort.disjoint).imp_of_mem fun {a b} _ hb hab => ?_
  have hpos := hsort.nonempty b hb
  rcases hab.2 with hle | hle
  · exact hle
  · have hedge : (range b).edge = (range b).location + (range b).length := rfl
    have := hab.1
    omega

end Search

end Range

end Wcdb
