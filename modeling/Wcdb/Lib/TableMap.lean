import Wcdb.Lib.Sql

/-!
# Tables whose rows have two forms

A table whose rows are kept in one form and read in another. `Table.map` reads every row, and
`Schema.comap` are constraints that see the rows as they are read. A statement on the rows as they
are kept that reads as a statement on the rows in the other form does the same:
`selected_map` and `updateOrDelete_map`.
-/

namespace Sql

variable {ρ σ κ : Type}

namespace Table

/-- Every row in another form, under its key. -/
def map (t : Table ρ) (f : ρ → σ) : Table σ where
  rows := t.rows.map (Prod.map id f)
  sorted := List.pairwise_map.mpr t.sorted

theorem mem_map {t : Table ρ} {f : ρ → σ} {r : ℤ × σ} :
    r ∈ t.map f ↔ ∃ a ∈ t, Prod.map id f a = r := List.mem_map

theorem content_map (t : Table ρ) (f : ρ → σ) :
    (t.map f).content = t.content.map (Prod.map id f) := rfl

theorem map_erase (t : Table ρ) (f : ρ → σ) (k : ℤ) : (t.erase k).map f = (t.map f).erase k :=
  ext_mem fun r => by
    rw [mem_map, mem_erase, mem_map]
    constructor
    · rintro ⟨a, ha, rfl⟩
      rw [mem_erase] at ha
      exact ⟨⟨a, ha.1, rfl⟩, ha.2⟩
    · rintro ⟨⟨a, ha, rfl⟩, hne⟩
      exact ⟨a, mem_erase.mpr ⟨ha, hne⟩, rfl⟩

theorem map_put (t : Table ρ) (f : ρ → σ) (r : ℤ × ρ) :
    (t.put r).map f = (t.map f).put (Prod.map id f r) :=
  ext_mem fun b => by
    rw [mem_map, mem_put, mem_map]
    constructor
    · rintro ⟨a, ha, rfl⟩
      rcases mem_put.mp ha with rfl | ⟨ha, hne⟩
      · exact Or.inl rfl
      · exact Or.inr ⟨⟨a, ha, rfl⟩, hne⟩
    · rintro (rfl | ⟨⟨a, ha, rfl⟩, hne⟩)
      · exact ⟨r, mem_put.mpr (Or.inl rfl), rfl⟩
      · exact ⟨a, mem_put.mpr (Or.inr ⟨ha, hne⟩), rfl⟩

/-- Another row under a key that reads the same. -/
theorem map_put_of_eq {t : Table ρ} {f : ρ → σ} {k : ℤ} {a b : ρ} (h : (k, a) ∈ t)
    (heq : f b = f a) : (t.put (k, b)).map f = t.map f := by
  refine ext_mem fun r => ?_
  rw [map_put, mem_put]
  constructor
  · rintro (rfl | hr)
    · exact mem_map.mpr ⟨(k, a), h, by simp [heq]⟩
    · exact hr.1
  · intro hr
    by_cases hk : r.1 = k
    · refine Or.inl (eq_of_key hr (mem_map.mpr ⟨(k, a), h, by simp [heq]⟩) hk)
    · exact Or.inr ⟨hr, hk⟩

end Table

/-- Constraints that see the rows in another form. -/
def Schema.comap (S : Schema σ κ) (f : ρ → σ) : Schema ρ κ where
  check := S.check ∘ f
  uniques := S.uniques.map (· ∘ f)

theorem Schema.comap_comap {τ : Type} (S : Schema τ κ) (g : σ → τ) (f : ρ → σ) :
    (S.comap g).comap f = S.comap (g ∘ f) := by
  simp [Schema.comap, Function.comp_assoc]

section Statements

variable [DecidableEq κ] {S : Schema σ κ} {f : ρ → σ}

theorem clash_comap (a b : ℤ × ρ) :
    (S.comap f).clash a b = S.clash (Prod.map id f a) (Prod.map id f b) := by
  simp [Schema.clash, Schema.comap, sameIndex, List.any_map, Function.comp_def]

theorem insertable_comap (t : Table ρ) (r : ℤ × ρ) :
    (S.comap f).insertable t r = S.insertable (t.map f) (Prod.map id f r) := by
  have hfree : (S.comap f).free t r = S.free (t.map f) (Prod.map id f r) := by
    simp only [Schema.free, Table.map, List.all_map, Function.comp_def, clash_comap]
  rw [Schema.insertable, Schema.insertable, hfree]
  rfl

/-- `UPDATE` of one row reads as `UPDATE` of one row. -/
theorem updateRow_comap (t : Table ρ) (old new : ℤ × ρ) :
    ((S.comap f).updateRow t old new).map (Table.map · f) =
      S.updateRow (t.map f) (Prod.map id f old) (Prod.map id f new) := by
  obtain ⟨k, a⟩ := old
  obtain ⟨k', b⟩ := new
  simp only [Schema.updateRow, insertable_comap, Table.map_erase, Prod.map_apply, id_eq]
  split_ifs with h
  · rw [Option.map_some, Table.map_put, Table.map_erase]
    rfl
  · rfl

variable {ι : Type} [LinearOrder ι]

/-- A statement in the other form. -/
def UpdateOrDelete.comap (stmt : UpdateOrDelete σ ι) (f : ρ → σ) (action : RowAction ρ) :
    UpdateOrDelete ρ ι where
  condition start current r :=
    stmt.condition (start.map (Prod.map id f)) (current.map (Prod.map id f)) (Prod.map id f r)
  orderBy := stmt.orderBy.map fun le a b => le (Prod.map id f a) (Prod.map id f b)
  limit := stmt.limit
  rank := stmt.rank ∘ Prod.map id f
  action := action

/-- The rows that a statement selects. -/
def UpdateOrDelete.selected (stmt : UpdateOrDelete ρ ι) (t : Table ρ) : List (ℤ × ρ) :=
  stmt.ordered (stmt.scanned t.content t)

/-- The only row of a table is selected if it satisfies the condition. -/
theorem selected_singleton {stmt : UpdateOrDelete ρ ι} (horder : stmt.orderBy = none)
    (hlimit : stmt.limit = none) {t : Table ρ} {r : ℤ × ρ} (ht : t.rows = [r])
    (hr : stmt.condition t.content t.content r = true) : stmt.selected t = [r] := by
  simp [UpdateOrDelete.selected, UpdateOrDelete.ordered, UpdateOrDelete.scanned, horder, hlimit, ht,
    hr]

theorem scanned_map (stmt : UpdateOrDelete σ ι) (f : ρ → σ) (action : RowAction ρ) (t : Table ρ) :
    stmt.scanned (t.map f).content (t.map f) =
      ((stmt.comap f action).scanned t.content t).map (Prod.map id f) := by
  have hrows : (t.map f).rows.filter (stmt.condition (t.map f).content (t.map f).content) =
      (t.rows.filter ((stmt.comap f action).condition t.content t.content)).map (Prod.map id f) :=
    List.filter_map
  rw [UpdateOrDelete.scanned, UpdateOrDelete.scanned, hrows]
  exact (List.map_mergeSort (f := Prod.map id f) fun _ _ _ _ => rfl).symm

omit [LinearOrder ι] in
theorem ordered_map (stmt : UpdateOrDelete σ ι) (f : ρ → σ) (action : RowAction ρ)
    (rows : List (ℤ × ρ)) :
    stmt.ordered (rows.map (Prod.map id f)) =
      ((stmt.comap f action).ordered rows).map (Prod.map id f) := by
  cases horder : stmt.orderBy with
  | none =>
    cases hlimit : stmt.limit with
    | none => simp [UpdateOrDelete.ordered, UpdateOrDelete.comap, horder, hlimit]
    | some n => simp [UpdateOrDelete.ordered, UpdateOrDelete.comap, horder, hlimit, List.map_take]
  | some le =>
    have hsorted : (rows.map (Prod.map id f)).mergeSort le =
        (rows.mergeSort fun a b => le (Prod.map id f a) (Prod.map id f b)).map (Prod.map id f) :=
      (List.map_mergeSort (f := Prod.map id f) fun _ _ _ _ => rfl).symm
    cases hlimit : stmt.limit with
    | none => simp [UpdateOrDelete.ordered, UpdateOrDelete.comap, horder, hlimit, hsorted]
    | some n =>
      simp [UpdateOrDelete.ordered, UpdateOrDelete.comap, horder, hlimit, hsorted, List.map_take]

/-- The same rows are selected, in the same order. -/
theorem selected_map (stmt : UpdateOrDelete σ ι) (f : ρ → σ) (action : RowAction ρ) (t : Table ρ) :
    stmt.selected (t.map f) = ((stmt.comap f action).selected t).map (Prod.map id f) := by
  rw [UpdateOrDelete.selected, UpdateOrDelete.selected, scanned_map stmt f action, ordered_map]

/-- Changing one row after the other reads as changing one row after the other. -/
theorem applyAll_map {g : Multiset (ℤ × ρ) → Multiset (ℤ × ρ) → ℤ × ρ → ℤ × ρ}
    {g' : Multiset (ℤ × σ) → Multiset (ℤ × σ) → ℤ × σ → ℤ × σ} {start : Multiset (ℤ × ρ)}
    (h : ∀ current r, Prod.map id f (g start current r) =
      g' (start.map (Prod.map id f)) (current.map (Prod.map id f)) (Prod.map id f r))
    (rows : List (ℤ × ρ)) (t : Table ρ) :
    ((RowAction.set g).applyAll (S.comap f) start rows t).map (Table.map · f) =
      (RowAction.set g').applyAll S (start.map (Prod.map id f)) (rows.map (Prod.map id f))
        (t.map f) := by
  induction rows generalizing t with
  | nil => rfl
  | cons r rows ih =>
    rw [List.map_cons, RowAction.applyAll, RowAction.applyAll, RowAction.apply, RowAction.apply,
      Table.content_map, ← h, ← updateRow_comap]
    cases (S.comap f).updateRow t r (g start t.content r) with
    | none => rfl
    | some t => exact ih t

/-- **An `UPDATE` in one form reads as the `UPDATE` in the other.** -/
theorem updateOrDelete_map (stmt : UpdateOrDelete σ ι)
    {g : Multiset (ℤ × ρ) → Multiset (ℤ × ρ) → ℤ × ρ → ℤ × ρ}
    {g' : Multiset (ℤ × σ) → Multiset (ℤ × σ) → ℤ × σ → ℤ × σ} (haction : stmt.action = .set g')
    (t : Table ρ) (h : ∀ current r, Prod.map id f (g t.content current r) =
      g' (t.content.map (Prod.map id f)) (current.map (Prod.map id f)) (Prod.map id f r)) :
    ((S.comap f).updateOrDelete (stmt.comap f (.set g)) t).map (Table.map · f) =
      S.updateOrDelete stmt (t.map f) := by
  have hselected := selected_map stmt f (.set g) t
  rw [UpdateOrDelete.selected, UpdateOrDelete.selected] at hselected
  rw [Schema.updateOrDelete, Schema.updateOrDelete, hselected, haction, Table.content_map]
  exact applyAll_map h _ _

end Statements

end Sql
