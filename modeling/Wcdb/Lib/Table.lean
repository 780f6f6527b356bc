import Mathlib.Data.Multiset.Filter
import Mathlib.Data.List.Sort

/-!
# Tables of a relational store

A table is a list of rows sorted by key. The key is the rowid, an integer of 64 bits that no two
rows share; the other columns are an arbitrary type `ρ`. Sorting makes a table a canonical form of
its content, `Table.content`, so that two tables with one content are equal.

`Schema` holds the constraints: a check on the row and the unique indexes. `Schema.insertRow` is
`INSERT` of one row under each conflict clause, `Schema.updateRow` is `UPDATE` of one row, and
`Table.newRowid` chooses the key of a row that brings none.
-/

namespace Sql

variable {ρ κ : Type}

/-- Rows sorted by key. -/
structure Table (ρ : Type) where
  rows : List (ℤ × ρ)
  sorted : rows.Pairwise fun a b => a.1 < b.1

namespace Table

instance [DecidableEq ρ] : DecidableEq (Table ρ) := fun s t =>
  decidable_of_iff (s.rows = t.rows) (by cases s; cases t; simp)

instance : Membership (ℤ × ρ) (Table ρ) := ⟨fun t r => r ∈ t.rows⟩

theorem mem_def {t : Table ρ} {r : ℤ × ρ} : r ∈ t ↔ r ∈ t.rows := Iff.rfl

instance [DecidableEq ρ] (r : ℤ × ρ) (t : Table ρ) : Decidable (r ∈ t) :=
  inferInstanceAs (Decidable (r ∈ t.rows))

instance (t : Table ρ) (p : ℤ × ρ → Prop) [DecidablePred p] : Decidable (∀ r ∈ t, p r) :=
  inferInstanceAs (Decidable (∀ r ∈ t.rows, p r))

/-- The rows, without their order. -/
def content (t : Table ρ) : Multiset (ℤ × ρ) := t.rows

@[simp]
theorem mem_content {t : Table ρ} {r : ℤ × ρ} : r ∈ t.content ↔ r ∈ t := Iff.rfl

theorem eq_of_key {t : Table ρ} {a b : ℤ × ρ} (ha : a ∈ t) (hb : b ∈ t) (h : a.1 = b.1) :
    a = b := by
  have hnodup : (t.rows.map Prod.fst).Nodup :=
    List.pairwise_map.mpr (t.sorted.imp fun h => ne_of_lt h)
  exact List.inj_on_of_nodup_map hnodup ha hb h

theorem nodup_content (t : Table ρ) : t.content.Nodup := by
  refine Multiset.coe_nodup.mpr (t.sorted.imp fun h heq => ?_)
  rw [heq] at h
  exact lt_irrefl _ h

/-- A table is determined by its content. -/
theorem ext_content {s t : Table ρ} (h : s.content = t.content) : s = t := by
  have hperm : s.rows.Perm t.rows := Multiset.coe_eq_coe.mp h
  have hrows : s.rows = t.rows := by
    refine hperm.eq_of_pairwise ?_ s.sorted t.sorted
    intro a b _ _ hab hba
    exact absurd (lt_trans hab hba) (lt_irrefl _)
  cases s
  cases t
  cases hrows
  rfl

theorem ext_mem {s t : Table ρ} (h : ∀ r, r ∈ s ↔ r ∈ t) : s = t :=
  ext_content ((Multiset.Nodup.ext s.nodup_content t.nodup_content).mpr h)

/-- No rows. -/
def empty : Table ρ := ⟨[], List.Pairwise.nil⟩

/-- The rows that satisfy a condition. -/
def filter (t : Table ρ) (p : ℤ × ρ → Bool) : Table ρ :=
  ⟨t.rows.filter p, t.sorted.filter _⟩

@[simp]
theorem mem_filter {t : Table ρ} {p : ℤ × ρ → Bool} {r : ℤ × ρ} :
    r ∈ t.filter p ↔ r ∈ t ∧ p r = true := List.mem_filter

/-- Remove the row of a key. -/
def erase (t : Table ρ) (k : ℤ) : Table ρ := t.filter fun r => r.1 ≠ k

@[simp]
theorem mem_erase {t : Table ρ} {k : ℤ} {r : ℤ × ρ} : r ∈ t.erase k ↔ r ∈ t ∧ r.1 ≠ k := by
  simp [erase]

theorem filter_erase (t : Table ρ) (p : ℤ × ρ → Bool) (k : ℤ) :
    (t.erase k).filter p = (t.filter p).erase k :=
  ext_mem fun r => by
    rw [mem_filter, mem_erase, mem_erase, mem_filter]
    exact and_right_comm

/-- Removing the row with the largest key. -/
theorem rows_erase_last {t : Table ρ} {before : List (ℤ × ρ)} {r : ℤ × ρ}
    (h : t.rows = before ++ [r]) : (t.erase r.1).rows = before := by
  have hsorted := t.sorted
  rw [h, List.pairwise_append] at hsorted
  have hbefore : before.filter (fun a => decide (a.1 ≠ r.1)) = before := by
    refine List.filter_eq_self.mpr fun a ha => ?_
    simpa using ne_of_lt (hsorted.2.2 a ha r (List.mem_singleton.mpr rfl))
  rw [erase, filter]
  simp only [h, List.filter_append, hbefore]
  simp

/-- Put a row in its place, in the stead of the row of its key. -/
def put (t : Table ρ) (r : ℤ × ρ) : Table ρ where
  rows := t.rows.filter (fun a => a.1 < r.1) ++ r :: t.rows.filter fun a => r.1 < a.1
  sorted := by
    refine List.pairwise_append.mpr ⟨t.sorted.filter _, ?_, ?_⟩
    · refine List.pairwise_cons.mpr ⟨fun a ha => ?_, t.sorted.filter _⟩
      simpa using (List.mem_filter.mp ha).2
    · intro a ha b hb
      have hlt : a.1 < r.1 := by simpa using (List.mem_filter.mp ha).2
      rcases List.mem_cons.mp hb with rfl | hb
      · exact hlt
      · exact lt_trans hlt (by simpa using (List.mem_filter.mp hb).2)

@[simp]
theorem mem_put {t : Table ρ} {r a : ℤ × ρ} : a ∈ t.put r ↔ a = r ∨ a ∈ t ∧ a.1 ≠ r.1 := by
  simp only [mem_def, put, List.mem_append, List.mem_cons, List.mem_filter, decide_eq_true_eq]
  constructor
  · rintro (⟨ha, hlt⟩ | rfl | ⟨ha, hlt⟩)
    · exact Or.inr ⟨ha, ne_of_lt hlt⟩
    · exact Or.inl rfl
    · exact Or.inr ⟨ha, ne_of_gt hlt⟩
  · rintro (rfl | ⟨ha, hne⟩)
    · exact Or.inr (Or.inl rfl)
    · rcases lt_or_gt_of_ne hne with hlt | hlt
      · exact Or.inl ⟨ha, hlt⟩
      · exact Or.inr (Or.inr ⟨ha, hlt⟩)

theorem content_put {t : Table ρ} {r : ℤ × ρ} (h : ∀ a ∈ t, a.1 ≠ r.1) :
    (t.put r).content = r ::ₘ t.content := by
  have hr : r ∉ t.content := fun hr => h r hr rfl
  refine (Multiset.Nodup.ext (t.put r).nodup_content
    (Multiset.nodup_cons.mpr ⟨hr, t.nodup_content⟩)).mpr fun a => ?_
  rw [mem_content, mem_put, Multiset.mem_cons, mem_content]
  exact or_congr_right ⟨fun ha => ha.1, fun ha => ⟨ha, h a ha⟩⟩

theorem filter_put {t : Table ρ} {p : ℤ × ρ → Bool} {r : ℤ × ρ} (h : p r = true) :
    (t.put r).filter p = (t.filter p).put r :=
  ext_mem fun a => by
    rw [mem_filter, mem_put, mem_put, mem_filter]
    constructor
    · rintro ⟨rfl | ha, hp⟩
      · exact Or.inl rfl
      · exact Or.inr ⟨⟨ha.1, hp⟩, ha.2⟩
    · rintro (rfl | ha)
      · exact ⟨Or.inl rfl, h⟩
      · exact ⟨Or.inr ⟨ha.1.1, ha.2⟩, ha.1.2⟩

/-- Removing a row from the content removes its key. -/
theorem content_erase {t : Table ρ} {r : ℤ × ρ} (h : r ∈ t) :
    r ::ₘ (t.erase r.1).content = t.content := by
  have hr : r ∉ (t.erase r.1).content := fun hr => (mem_erase.mp hr).2 rfl
  refine (Multiset.Nodup.ext (Multiset.nodup_cons.mpr ⟨hr, (t.erase r.1).nodup_content⟩)
    t.nodup_content).mpr fun a => ?_
  rw [Multiset.mem_cons, mem_content, mem_erase, mem_content]
  constructor
  · rintro (rfl | ha)
    · exact h
    · exact ha.1
  · intro ha
    by_cases hk : a.1 = r.1
    · exact Or.inl (eq_of_key ha h hk)
    · exact Or.inr ⟨ha, hk⟩

theorem put_erase {t : Table ρ} {r : ℤ × ρ} (h : ∀ a ∈ t, a.1 ≠ r.1) :
    (t.put r).erase r.1 = t :=
  ext_mem fun a => by
    rw [mem_erase, mem_put]
    constructor
    · rintro ⟨rfl | ha, hne⟩
      · exact absurd rfl hne
      · exact ha.1
    · exact fun ha => ⟨Or.inr ⟨ha, h a ha⟩, h a ha⟩

/-- The row of a key. -/
def find (t : Table ρ) (k : ℤ) : Option (ℤ × ρ) := t.rows.find? fun r => r.1 = k

theorem find_eq_some {t : Table ρ} {k : ℤ} {r : ℤ × ρ} : t.find k = some r ↔ r ∈ t ∧ r.1 = k := by
  constructor
  · intro h
    exact ⟨List.mem_of_find?_eq_some h, by simpa using List.find?_some h⟩
  · rintro ⟨hr, rfl⟩
    cases h : t.find r.1 with
    | none => exact absurd (List.find?_eq_none.mp h r hr) (by simp)
    | some a =>
      have ha : a.1 = r.1 := by simpa using List.find?_some h
      rw [eq_of_key (List.mem_of_find?_eq_some h) hr ha]

theorem find_filter {t : Table ρ} {p : ℤ × ρ → Bool} {k : ℤ}
    (h : ∀ r ∈ t, r.1 = k → p r = true) : (t.filter p).find k = t.find k := by
  refine Option.ext fun r => ?_
  rw [find_eq_some, find_eq_some, mem_filter]
  exact ⟨fun hr => ⟨hr.1.1, hr.2⟩, fun hr => ⟨⟨hr.1, h r hr.1 hr.2⟩, hr.2⟩⟩

theorem find_eq_none {t : Table ρ} {k : ℤ} : t.find k = none ↔ ∀ r ∈ t, r.1 ≠ k := by
  simp [find, mem_def]

/-- The row with the largest key. -/
def last (t : Table ρ) : Option (ℤ × ρ) := t.rows.getLast?

theorem last_eq_none {t : Table ρ} : t.last = none ↔ ∀ r, r ∉ t := by
  rw [last, List.getLast?_eq_none_iff, List.eq_nil_iff_forall_not_mem]
  exact Iff.rfl

theorem last_eq_some {t : Table ρ} {r : ℤ × ρ} :
    t.last = some r ↔ r ∈ t ∧ ∀ a ∈ t, a.1 ≤ r.1 := by
  constructor
  · intro h
    obtain ⟨before, hrows⟩ := List.getLast?_eq_some_iff.mp h
    have hsorted := t.sorted
    rw [hrows, List.pairwise_append] at hsorted
    refine ⟨by rw [mem_def, hrows]; simp, fun a ha => ?_⟩
    rw [mem_def, hrows, List.mem_append, List.mem_singleton] at ha
    rcases ha with ha | rfl
    · exact le_of_lt (hsorted.2.2 a ha r (List.mem_singleton.mpr rfl))
    · exact le_refl _
  · rintro ⟨hr, hmax⟩
    cases h : t.last with
    | none => exact absurd hr (last_eq_none.mp h r)
    | some a =>
      obtain ⟨before, hrows⟩ := List.getLast?_eq_some_iff.mp h
      have ha : a ∈ t := by
        rw [mem_def, hrows]
        simp
      have hsorted := t.sorted
      rw [hrows, List.pairwise_append] at hsorted
      rw [mem_def, hrows, List.mem_append, List.mem_singleton] at hr
      rcases hr with hr | rfl
      · exact absurd (hsorted.2.2 r hr a (List.mem_singleton.mpr rfl)) (not_lt.mpr (hmax a ha))
      · rfl

/-! ### Keys in descending order -/

/-- The keys of the rows that satisfy a condition, the largest one first. -/
def keysDesc (t : Table ρ) (p : ℤ × ρ → Bool) : List ℤ := ((t.rows.filter p).map Prod.fst).reverse

@[simp]
theorem mem_keysDesc {t : Table ρ} {p : ℤ × ρ → Bool} {k : ℤ} :
    k ∈ t.keysDesc p ↔ ∃ r ∈ t, p r = true ∧ r.1 = k := by
  simp only [keysDesc, List.mem_reverse, List.mem_map, List.mem_filter, mem_def, and_assoc]

theorem keysDesc_pairwise (t : Table ρ) (p : ℤ × ρ → Bool) :
    (t.keysDesc p).Pairwise fun a b => b < a := by
  rw [keysDesc, List.pairwise_reverse, List.pairwise_map]
  exact t.sorted.filter _

/-- A descending list is determined by its members. -/
theorem eq_of_desc {as bs : List ℤ} (ha : as.Pairwise fun a b => b < a)
    (hb : bs.Pairwise fun a b => b < a) (h : ∀ k, k ∈ as ↔ k ∈ bs) : as = bs := by
  have hperm : as.Perm bs := (List.perm_ext_iff_of_nodup (ha.imp fun h => ne_of_gt h)
    (hb.imp fun h => ne_of_gt h)).mpr h
  refine hperm.eq_of_pairwise (fun a b _ _ hab hba => ?_) ha hb
  exact absurd (lt_trans hab hba) (lt_irrefl _)

/-- A new row that does not satisfy the condition takes its key out of the list. -/
theorem keysDesc_put {t : Table ρ} {p : ℤ × ρ → Bool} {r : ℤ × ρ} (h : p r = false) :
    (t.put r).keysDesc p = (t.keysDesc p).filter fun k => k ≠ r.1 := by
  refine eq_of_desc (keysDesc_pairwise _ _) ((keysDesc_pairwise _ _).filter _) fun k => ?_
  simp only [mem_keysDesc, List.mem_filter, decide_eq_true_eq]
  constructor
  · rintro ⟨a, ha, hp, rfl⟩
    rcases mem_put.mp ha with rfl | ⟨ha, hne⟩
    · rw [h] at hp
      cases hp
    · exact ⟨⟨a, ha, hp, rfl⟩, hne⟩
  · rintro ⟨⟨a, ha, hp, rfl⟩, hne⟩
    exact ⟨a, mem_put.mpr (Or.inr ⟨ha, hne⟩), hp, rfl⟩

end Table

end Sql
