import Wcdb.Migration.MigratingStatement
import Mathlib.Data.Multiset.UnionInter

/-!
# A cursor over two tables that change

An `UPDATE` or `DELETE` on a table that is being migrated should act once on each row that matched
when it started, as it does on one table. It selects from the unioned view and changes the tables
while the select is open, so a row that moves ahead of the cursor is met again, a row may begin or
cease to satisfy the condition, and a key may belong to a row of the other table.

`Undisturbed` follows the rows that were selected at the start, on the tables as the statement on
one table would change them, and says that none of this happens. `actsOnce_of_undisturbed` is the
refinement: then the statement does what it does on one ordinary table that holds the content of the
view; and nothing less lets the two run in step.
-/

namespace Wcdb

open Sql

variable {ρ κ ι : Type}

/-! ### Views -/

section View

variable {info : MigrationInfo ρ κ} {s : Tables ρ} {one : Table ρ}

/-- One table holds the content of the view. -/
def HoldsView (info : MigrationInfo ρ κ) (one : Table ρ) (s : Tables ρ) : Prop :=
  one.content = s.unionedView info

theorem HoldsView.mem_iff (h : HoldsView info one s) {r : ℤ × ρ} :
    r ∈ one ↔ r ∈ s.target.table ∨ r ∈ s.filtered info := by
  rw [← Table.mem_content, h, Tables.unionedView, Multiset.mem_add, Table.mem_content,
    Table.mem_content]

/-- A target row is taken out of the view. -/
theorem HoldsView.erase_target (h : HoldsView info one s) {r : ℤ × ρ} (hr : r ∈ s.target.table) :
    (one.erase r.1).content = (s.target.table.erase r.1).content + (s.filtered info).content := by
  refine (Multiset.cons_inj_right r).mp ?_
  rw [Table.content_erase (h.mem_iff.mpr (Or.inl hr)), ← Multiset.cons_add, Table.content_erase hr]
  exact h

/-- A filtered source row is taken out of the view. -/
theorem HoldsView.erase_source (h : HoldsView info one s) {r : ℤ × ρ} (hr : r ∈ s.filtered info) :
    (one.erase r.1).content = s.target.table.content + ((s.filtered info).erase r.1).content := by
  refine (Multiset.cons_inj_right r).mp ?_
  rw [Table.content_erase (h.mem_iff.mpr (Or.inr hr)), ← Multiset.add_cons, Table.content_erase hr]
  exact h

/-- A row is free in two tables together if it is free in each. -/
theorem free_add [DecidableEq κ] {S : Schema ρ κ} {t a b : Table ρ} {r : ℤ × ρ}
    (h : t.content = a.content + b.content) :
    S.free t r = true ↔ S.free a r = true ∧ S.free b r = true := by
  have hmem : ∀ x, x ∈ t ↔ x ∈ a ∨ x ∈ b := by
    intro x
    rw [← Table.mem_content, h, Multiset.mem_add, Table.mem_content, Table.mem_content]
  simp only [free_iff, hmem, or_imp, forall_and]

end View

/-! ### The condition -/

section Condition

variable [DecidableEq κ] (info : MigrationInfo ρ κ)

/-- The key of a row of the view belongs to no other row of either table. -/
def Alone (s : Tables ρ) (r : ℤ × ρ) : Prop :=
  (s.target.table.find r.1 = some r ∧ s.source.table.find r.1 = none) ∨
    (s.target.table.find r.1 = none ∧ s.source.table.find r.1 = some r ∧
      info.filterCondition r = true)

/-- A new row in the stead of `r` is accepted by its own table only if the view accepts it. A row of
the source table stays in the filter, and is not refused for a row outside of it. -/
def Replaces (s : Tables ρ) (r new : ℤ × ρ) : Prop :=
  (r ∈ s.target.table → info.schema.insertable (s.target.table.erase r.1) new = true →
    info.schema.free (s.filtered info) new = true) ∧
  (r ∈ s.filtered info → info.schema.insertable ((s.filtered info).erase r.1) new = true →
    info.schema.free s.target.table new = true ∧ info.filterCondition new = true ∧
      ∀ a ∈ s.source.table, info.filterCondition a = false → info.schema.clash new a = false)

instance [DecidableEq ρ] (s : Tables ρ) (r new : ℤ × ρ) : Decidable (Replaces info s r new) :=
  inferInstanceAs (Decidable (_ ∧ _))

/-- Nothing stands in the way of modifying `r` as on one table. -/
def RowUndisturbed (action : RowAction ρ) (start : Multiset (ℤ × ρ)) (s : Tables ρ) (r : ℤ × ρ) :
    Prop :=
  Alone info s r ∧
    match action with
    | .delete => True
    | .set f =>
        let view := s.unionedView info
        f view view r = f start view r ∧ Replaces info s r (f start view r)

/-- What the statement does to a row on one table, done in the table that has the row. -/
def applyInView (action : RowAction ρ) (start : Multiset (ℤ × ρ)) (s : Tables ρ) (r : ℤ × ρ) :
    Option (Tables ρ) :=
  let view := s.unionedView info
  if (s.target.table.find r.1).isSome then
    (action.apply info.schema start view s.target.table r).map fun t =>
      { s with target := { s.target with table := t } }
  else
    (action.apply info.schema start view s.source.table r).map fun t =>
      { s with source := { s.source with table := t } }

variable [LinearOrder ι]

/-- **The condition**, for the rows that are still to be modified: the cursor delivers the next of
them, nothing stands in its way, and so on when it is modified; after the last one, the cursor
delivers nothing. -/
def Undisturbed (stmt : UpdateOrDelete ρ ι) (start : Multiset (ℤ × ρ)) :
    List (ℤ × ρ) → Tables ρ → Cursor ρ ι → Prop
  | [], s, cursor => nextRow stmt info start s cursor = none
  | r :: rows, s, cursor =>
      ∃ cursor', nextRow stmt info start s cursor = some (r, cursor') ∧
        RowUndisturbed info stmt.action start s r ∧
        ∀ s', applyInView info stmt.action start s r = some s' →
          Undisturbed stmt start rows s' cursor'

/-- The loop and the statement on one table run in step: each row that is selected is delivered, and
is modified once; then the view and the one table have the same content. -/
def RunsInStep (stmt : UpdateOrDelete ρ ι) (start : Multiset (ℤ × ρ)) :
    List (ℤ × ρ) → Table ρ → Tables ρ → Cursor ρ ι → Prop
  | [], _, s, cursor => nextRow stmt info start s cursor = none
  | r :: rows, one, s, cursor =>
      ∃ cursor' s', nextRow stmt info start s cursor = some (r, cursor') ∧
        writeBoth info stmt.action s r.1 = some (s', [r]) ∧
        ∀ one', stmt.action.apply info.schema start one.content one r = some one' →
          HoldsView info one' s' ∧ RunsInStep stmt start rows one' s' cursor'

/-- What an `UPDATE` or `DELETE` owes: with enough fuel it fails exactly if it fails on one table
that holds the content, and otherwise modifies each selected row once and leaves the content that
it leaves on one table. -/
def ActsOnce (stmt : UpdateOrDelete ρ ι) (plan : SelectPlan) (one : Table ρ)
    (s : Tables ρ) : Prop :=
  ∃ n, ∀ fuel, n ≤ fuel →
    match stmt.action.applyAll info.schema one.content (selected stmt info s) one with
    | none => stepUpdateOrDelete info stmt plan fuel s = some none
    | some one' => ∃ s' trace, stepUpdateOrDelete info stmt plan fuel s = some (some (s', trace)) ∧
        trace.Perm (selected stmt info s) ∧ HoldsView info one' s'

end Condition

/-! ### One row -/

section Row

variable [DecidableEq κ] {info : MigrationInfo ρ κ} {s : Tables ρ} {one : Table ρ} {r : ℤ × ρ}

theorem writeKey_of_none {S : Schema ρ κ} {action : RowAction ρ} {view : Multiset (ℤ × ρ)}
    {t : Table ρ} {k : ℤ} (h : t.find k = none) : writeKey S action view t k = some (t, []) := by
  rw [writeKey, h]

theorem writeKey_of_some {S : Schema ρ κ} {action : RowAction ρ} {view : Multiset (ℤ × ρ)}
    {t : Table ρ} (h : t.find r.1 = some r) :
    writeKey S action view t r.1 = (action.apply S view view t r).map fun t => (t, [r]) := by
  rw [writeKey, h]

/-- A row of the target table alone. -/
theorem writeBoth_target (action : RowAction ρ) (ht : s.target.table.find r.1 = some r)
    (hs : s.source.table.find r.1 = none) :
    writeBoth info action s r.1 =
      (action.apply info.schema (s.unionedView info) (s.unionedView info) s.target.table r).map
        fun t => ({ s with target := { s.target with table := t } }, [r]) := by
  simp only [writeBoth, writeKey_of_none hs, writeKey_of_some ht, Option.bind_eq_bind,
    Option.bind_some, Option.pure_def]
  cases action.apply info.schema (s.unionedView info) (s.unionedView info) s.target.table r <;> rfl

/-- A row of the source table alone. -/
theorem writeBoth_source (action : RowAction ρ) (ht : s.target.table.find r.1 = none)
    (hs : s.source.table.find r.1 = some r) :
    writeBoth info action s r.1 =
      (action.apply info.schema (s.unionedView info) (s.unionedView info) s.source.table r).map
        fun t => ({ s with source := { s.source with table := t } }, [r]) := by
  simp only [writeBoth, writeKey_of_none ht, writeKey_of_some hs, Option.bind_eq_bind,
    Option.pure_def]
  cases action.apply info.schema (s.unionedView info) (s.unionedView info) s.source.table r <;> rfl

/-- The view accepts a new row exactly if the target table does. -/
theorem insertable_erase_target (h : HoldsView info one s) (hr : r ∈ s.target.table) {new : ℤ × ρ}
    (hnew : Replaces info s r new) :
    info.schema.insertable (one.erase r.1) new =
      info.schema.insertable (s.target.table.erase r.1) new := by
  rw [Bool.eq_iff_iff, insertable_iff, free_add (h.erase_target hr), ← and_assoc, ← insertable_iff]
  exact and_iff_left_of_imp (hnew.1 hr)

/-- The view accepts a new row exactly if the source table does. -/
theorem insertable_erase_source (h : HoldsView info one s) (hr : r ∈ s.filtered info) {new : ℤ × ρ}
    (hnew : Replaces info s r new) :
    info.schema.insertable (one.erase r.1) new =
        info.schema.insertable ((s.filtered info).erase r.1) new ∧
      info.schema.insertable (s.source.table.erase r.1) new =
        info.schema.insertable ((s.filtered info).erase r.1) new := by
  constructor
  · rw [Bool.eq_iff_iff, insertable_iff, free_add (h.erase_source hr), and_left_comm,
      ← insertable_iff]
    exact and_iff_right_of_imp fun hins => (hnew.2 hr hins).1
  · cases hins : info.schema.insertable ((s.filtered info).erase r.1) new with
    | true =>
      rw [← hins, Tables.filtered, ← Table.filter_erase]
      refine (insertable_filter fun a ha hfilter => ?_).symm
      exact (hnew.2 hr hins).2.2 a (Table.mem_erase.mp ha).1 hfilter
    | false =>
      rw [← Bool.not_eq_true, insertable_iff] at hins ⊢
      refine fun hsource => hins (And.imp_right (free_of_subset fun a ha => ?_) hsource)
      rw [Table.mem_erase] at ha ⊢
      exact ⟨(Table.mem_filter.mp ha.1).1, ha.2⟩

/-- The view after a target row was replaced. -/
theorem HoldsView.replace_target (h : HoldsView info one s) (hr : r ∈ s.target.table) {new : ℤ × ρ}
    (hone : info.schema.insertable (one.erase r.1) new = true)
    (htarget : info.schema.insertable (s.target.table.erase r.1) new = true) :
    HoldsView info ((one.erase r.1).put new)
      { s with target := { s.target with table := (s.target.table.erase r.1).put new } } := by
  calc ((one.erase r.1).put new).content
      = new ::ₘ ((s.target.table.erase r.1).content + (s.filtered info).content) := by
        rw [Table.content_put (key_ne_of_free (insertable_iff.mp hone).2), h.erase_target hr]
    _ = ((s.target.table.erase r.1).put new).content + (s.filtered info).content := by
        rw [Table.content_put (key_ne_of_free (insertable_iff.mp htarget).2), Multiset.cons_add]

/-- The view after a filtered source row was replaced by another one. -/
theorem HoldsView.replace_source (h : HoldsView info one s) (hr : r ∈ s.filtered info) {new : ℤ × ρ}
    (hone : info.schema.insertable (one.erase r.1) new = true)
    (hfiltered : info.schema.insertable ((s.filtered info).erase r.1) new = true)
    (hnew : info.filterCondition new = true) :
    HoldsView info ((one.erase r.1).put new)
      { s with source := { s.source with table := (s.source.table.erase r.1).put new } } := by
  have htable : ((s.source.table.erase r.1).put new).filter info.filterCondition =
      ((s.filtered info).erase r.1).put new := by
    rw [Table.filter_put hnew, Table.filter_erase]
    rfl
  calc ((one.erase r.1).put new).content
      = new ::ₘ (s.target.table.content + ((s.filtered info).erase r.1).content) := by
        rw [Table.content_put (key_ne_of_free (insertable_iff.mp hone).2), h.erase_source hr]
    _ = s.target.table.content + (((s.filtered info).erase r.1).put new).content := by
        rw [Table.content_put (key_ne_of_free (insertable_iff.mp hfiltered).2), Multiset.add_cons]
    _ = s.target.table.content +
          (((s.source.table.erase r.1).put new).filter info.filterCondition).content := by
        rw [htable]

/-- **The two statements for a key do to the view what one statement does to one table.** -/
theorem writeBoth_refines {action : RowAction ρ}
    {start : Multiset (ℤ × ρ)} (h : HoldsView info one s)
    (hr : RowUndisturbed info action start s r) :
    match action.apply info.schema start one.content one r with
    | none => writeBoth info action s r.1 = none
    | some one' => ∃ s', writeBoth info action s r.1 = some (s', [r]) ∧ HoldsView info one' s' := by
  have hview : one.content = s.unionedView info := h
  obtain ⟨⟨ht, hs⟩ | ⟨ht, hs, hfilter⟩, haction⟩ := hr
  · rw [writeBoth_target action ht hs]
    have hmem := (Table.find_eq_some.mp ht).1
    cases action with
    | delete => exact ⟨_, rfl, h.erase_target hmem⟩
    | set f =>
      obtain ⟨hsame, hnew⟩ := haction
      have hins := insertable_erase_target h hmem hnew
      simp only [RowAction.apply, Schema.updateRow, hsame, hview, hins]
      split_ifs with hok
      · exact ⟨_, rfl, h.replace_target hmem (hins.trans hok.2.2) hok.2.2⟩
      · rfl
  · rw [writeBoth_source action ht hs]
    have hmem : r ∈ s.filtered info :=
      Table.mem_filter.mpr ⟨(Table.find_eq_some.mp hs).1, hfilter⟩
    cases action with
    | delete =>
      refine ⟨_, rfl, ?_⟩
      rw [HoldsView, Tables.unionedView, h.erase_source hmem, Tables.filtered, Tables.filtered,
        Table.filter_erase]
    | set f =>
      obtain ⟨hsame, hnew⟩ := haction
      obtain ⟨hins, hsource⟩ := insertable_erase_source h hmem hnew
      simp only [RowAction.apply, Schema.updateRow, hsame, hview, hins, hsource]
      split_ifs with hok
      · exact ⟨_, rfl, h.replace_source hmem (hins.trans hok.2.2) hok.2.2
          (hnew.2 hmem hok.2.2).2.1⟩
      · rfl

/-- A row that nothing stands in the way of is modified where it is. -/
theorem writeBoth_eq_applyInView {action : RowAction ρ} {start : Multiset (ℤ × ρ)}
    (hr : RowUndisturbed info action start s r) :
    writeBoth info action s r.1 = (applyInView info action start s r).map fun s' => (s', [r]) := by
  have hsame : ∀ t : Table ρ,
      action.apply info.schema (s.unionedView info) (s.unionedView info) t r =
        action.apply info.schema start (s.unionedView info) t r := by
    intro t
    cases action with
    | delete => rfl
    | set f => rw [RowAction.apply, RowAction.apply, hr.2.1]
  obtain ⟨ht, hs⟩ | ⟨ht, hs, -⟩ := hr.1
  · rw [writeBoth_target action ht hs, applyInView, if_pos (by rw [ht]; rfl), Option.map_map, hsame]
    rfl
  · rw [writeBoth_source action ht hs, applyInView, if_neg (by simp [ht]),
      Option.map_map, hsame]
    rfl

theorem applyInView_of_writeBoth {action : RowAction ρ} {start : Multiset (ℤ × ρ)}
    (hr : RowUndisturbed info action start s r) {s' : Tables ρ}
    (hwrite : writeBoth info action s r.1 = some (s', [r])) :
    applyInView info action start s r = some s' := by
  rw [writeBoth_eq_applyInView hr] at hwrite
  obtain ⟨s'', happly, heq⟩ := Option.map_eq_some_iff.mp hwrite
  cases heq
  exact happly

theorem hits_of_writeKey {S : Schema ρ κ} {action : RowAction ρ} {view : Multiset (ℤ × ρ)}
    {t t' : Table ρ} {k : ℤ} {hits : List (ℤ × ρ)}
    (h : writeKey S action view t k = some (t', hits)) : hits = (t.find k).toList := by
  rw [writeKey] at h
  split at h
  next hnone =>
    cases h
    rw [hnone]
    rfl
  next r hsome =>
    obtain ⟨t'', -, heq⟩ := Option.map_eq_some_iff.mp h
    cases heq
    rw [hsome]
    rfl

/-- A row of the view that is modified once, and no other with it, is the only one of its key. -/
theorem alone_of_writeBoth {action : RowAction ρ} (h : HoldsView info one s) (hr : r ∈ one)
    {s' : Tables ρ} (hwrite : writeBoth info action s r.1 = some (s', [r])) : Alone info s r := by
  obtain ⟨⟨source, hits⟩, hsource, hwrite⟩ := Option.bind_eq_some_iff.mp hwrite
  obtain ⟨⟨target, hits'⟩, htarget, hwrite⟩ := Option.bind_eq_some_iff.mp hwrite
  have hhits : (s.source.table.find r.1).toList ++ (s.target.table.find r.1).toList = [r] := by
    rw [← hits_of_writeKey hsource, ← hits_of_writeKey htarget]
    exact congrArg Prod.snd (Option.some.inj hwrite)
  have hlength := congrArg List.length hhits
  rcases h.mem_iff.mp hr with hmem | hmem
  · have hfind := Table.find_eq_some.mpr ⟨hmem, rfl⟩
    refine Or.inl ⟨hfind, Option.eq_none_iff_forall_not_mem.mpr fun a ha => ?_⟩
    rw [hfind, Option.mem_def.mp ha] at hlength
    cases hlength
  · obtain ⟨hmem, hfilter⟩ := Table.mem_filter.mp hmem
    have hfind := Table.find_eq_some.mpr ⟨hmem, rfl⟩
    refine Or.inr ⟨Option.eq_none_iff_forall_not_mem.mpr fun a ha => ?_, hfind, hfilter⟩
    rw [hfind, Option.mem_def.mp ha] at hlength
    cases hlength

/-- What `updateRow` says when it succeeds. -/
theorem updateRow_eq_some {S : Schema ρ κ} {t t' : Table ρ} {old new : ℤ × ρ}
    (h : S.updateRow t old new = some t') :
    S.insertable (t.erase old.1) new = true ∧ t' = (t.erase old.1).put new := by
  rw [Schema.updateRow] at h
  split_ifs at h with hok
  cases h
  exact ⟨hok.2.2, rfl⟩

/-- The content after a row was replaced. -/
theorem content_replace {S : Schema ρ κ} {t : Table ρ} {old new : ℤ × ρ}
    (h : S.insertable (t.erase old.1) new = true) :
    ((t.erase old.1).put new).content = new ::ₘ (t.erase old.1).content :=
  Table.content_put (key_ne_of_free (insertable_iff.mp h).2)

theorem filter_put_of_not {t : Table ρ} {p : ℤ × ρ → Bool} {new : ℤ × ρ} (h : p new = false)
    (hkey : ∀ a ∈ t, a.1 ≠ new.1) : (t.put new).filter p = t.filter p := by
  refine Table.ext_mem fun a => ?_
  rw [Table.mem_filter, Table.mem_filter, Table.mem_put]
  constructor
  · rintro ⟨rfl | ⟨ha, -⟩, hp⟩
    · rw [h] at hp
      cases hp
    · exact ⟨ha, hp⟩
  · rintro ⟨ha, hp⟩
    exact ⟨Or.inr ⟨ha, hkey a ha⟩, hp⟩

/-- **A row that is modified as on one table has nothing in its way.** -/
theorem rowUndisturbed_of_writeBoth {action : RowAction ρ} {start : Multiset (ℤ × ρ)}
    (h : HoldsView info one s) (hr : r ∈ one) {s' : Tables ρ}
    (hwrite : writeBoth info action s r.1 = some (s', [r])) {one' : Table ρ}
    (happly : action.apply info.schema start one.content one r = some one')
    (h' : HoldsView info one' s') : RowUndisturbed info action start s r := by
  have halone := alone_of_writeBoth h hr hwrite
  refine ⟨halone, ?_⟩
  cases action with
  | delete => trivial
  | set f =>
    have hview : one.content = s.unionedView info := h
    obtain ⟨hone, rfl⟩ := updateRow_eq_some happly
    rw [HoldsView, content_replace hone] at h'
    rw [hview] at hone h'
    obtain ⟨ht, hs⟩ | ⟨ht, hs, hfilter⟩ := halone
    · rw [writeBoth_target _ ht hs] at hwrite
      obtain ⟨t, happly', heq⟩ := Option.map_eq_some_iff.mp hwrite
      cases heq
      obtain ⟨hown, rfl⟩ := updateRow_eq_some happly'
      have hmem := (Table.find_eq_some.mp ht).1
      -- both tables got one row each
      have hsame : f start (s.unionedView info) r =
          f (s.unionedView info) (s.unionedView info) r := by
        refine (Multiset.cons_inj_left (one.erase r.1).content).mp (h'.trans ?_)
        rw [Tables.unionedView, content_replace hown, Multiset.cons_add, h.erase_target hmem]
        rfl
      refine ⟨hsame.symm, fun _ _ => ?_, fun hsource => ?_⟩
      · exact ((free_add (h.erase_target hmem)).mp (insertable_iff.mp hone).2).2
      · have hsource := (Table.mem_filter.mp hsource).1
        exact absurd rfl (Table.find_eq_none.mp hs r hsource)
    · rw [writeBoth_source _ ht hs] at hwrite
      obtain ⟨t, happly', heq⟩ := Option.map_eq_some_iff.mp hwrite
      cases heq
      obtain ⟨hown, rfl⟩ := updateRow_eq_some happly'
      have hsource := (Table.find_eq_some.mp hs).1
      have hmem : r ∈ s.filtered info := Table.mem_filter.mpr ⟨hsource, hfilter⟩
      have hrest := h.erase_source hmem
      replace h' : _ = s.target.table.content + (((s.source.table.erase r.1).put
        (f (s.unionedView info) (s.unionedView info) r)).filter info.filterCondition).content := h'
      cases hnew : info.filterCondition (f (s.unionedView info) (s.unionedView info) r) with
      | false =>
        -- the view loses a row, the one table does not
        rw [filter_put_of_not hnew (key_ne_of_free (insertable_iff.mp hown).2),
          Table.filter_erase] at h'
        exact absurd (h'.trans hrest.symm) (Multiset.lt_cons_self _ _).ne'
      | true =>
        have hown' : info.schema.insertable ((s.filtered info).erase r.1)
            (f (s.unionedView info) (s.unionedView info) r) = true := by
          refine insertable_iff.mpr (And.imp_right (free_of_subset fun a ha => ?_)
            (insertable_iff.mp hown))
          rw [Table.mem_erase] at ha ⊢
          exact ⟨(Table.mem_filter.mp ha.1).1, ha.2⟩
        have hsame : f start (s.unionedView info) r =
            f (s.unionedView info) (s.unionedView info) r := by
          rw [Table.filter_put hnew, Table.filter_erase] at h'
          refine (Multiset.cons_inj_left (one.erase r.1).content).mp (h'.trans ?_)
          rw [hrest, ← Multiset.add_cons, ← content_replace hown']
          rfl
        refine ⟨hsame.symm, fun htarget => ?_, fun _ _ => ⟨?_, ?_, fun a ha hout => ?_⟩⟩
        · exact absurd rfl (Table.find_eq_none.mp ht r htarget)
        · exact ((free_add hrest).mp (insertable_iff.mp hone).2).1
        · rwa [hsame]
        · refine free_iff.mp (hsame ▸ (insertable_iff.mp hown).2) a (Table.mem_erase.mpr ⟨ha, ?_⟩)
          rintro hkey
          rw [Table.eq_of_key ha hsource hkey, hfilter] at hout
          cases hout

end Row

/-! ### The loop -/

section Loop

variable [DecidableEq κ] [LinearOrder ι] {info : MigrationInfo ρ κ}

/-- **The loop does to the view what a statement does to one table**, row by row. -/
theorem stepLoop_refines {stmt : UpdateOrDelete ρ ι} {start : Multiset (ℤ × ρ)}
    {rows : List (ℤ × ρ)} {s : Tables ρ} {cursor : Cursor ρ ι} {one : Table ρ} {fuel : ℕ}
    (hfuel : rows.length < fuel) (h : HoldsView info one s)
    (hrows : Undisturbed info stmt start rows s cursor) :
    match stmt.action.applyAll info.schema start rows one with
    | none => stepLoop info stmt start fuel s cursor = some none
    | some one' => ∃ s', stepLoop info stmt start fuel s cursor = some (some (s', rows)) ∧
        HoldsView info one' s' := by
  induction rows generalizing s cursor one fuel with
  | nil =>
    cases fuel with
    | zero => exact absurd hfuel (Nat.not_lt_zero _)
    | succ fuel =>
      rw [Undisturbed] at hrows
      refine ⟨s, ?_, h⟩
      rw [stepLoop, hrows]
  | cons r rows ih =>
    cases fuel with
    | zero => exact absurd hfuel (Nat.not_lt_zero _)
    | succ fuel =>
      obtain ⟨cursor', hnext, hr, hrest⟩ := hrows
      have hone := writeBoth_refines h hr
      rw [RowAction.applyAll]
      cases happly : stmt.action.apply info.schema start one.content one r with
      | none =>
        rw [happly] at hone
        simp only [Option.bind_none, stepLoop, hnext, hone]
      | some one' =>
        rw [happly] at hone
        obtain ⟨s', hwrite, hone'⟩ := hone
        have hloop := ih (Nat.lt_of_succ_lt_succ hfuel) hone'
          (hrest s' (applyInView_of_writeBoth hr hwrite))
        simp only [Option.bind_some, stepLoop, hnext, hwrite]
        cases hall : stmt.action.applyAll info.schema start rows one' with
        | none =>
          rw [hall] at hloop
          simp [hloop]
        | some one'' =>
          rw [hall] at hloop
          obtain ⟨s'', hloop, hone''⟩ := hloop
          exact ⟨s'', by simp [hloop], hone''⟩

theorem mem_of_apply {action : RowAction ρ} {start current : Multiset (ℤ × ρ)} {t t' : Table ρ}
    {r a : ℤ × ρ} (happly : action.apply info.schema start current t r = some t') (ha : a ∈ t)
    (hkey : a.1 ≠ r.1) : a ∈ t' := by
  have herase : a ∈ t.erase r.1 := Table.mem_erase.mpr ⟨ha, hkey⟩
  cases action with
  | delete =>
    cases happly
    exact herase
  | set f =>
    obtain ⟨hok, rfl⟩ := updateRow_eq_some happly
    exact Table.mem_put.mpr
      (Or.inr ⟨herase, key_ne_of_free (insertable_iff.mp hok).2 a herase⟩)

/-- **The condition is exact** for a loop in step with a statement that succeeds on one table. -/
theorem runsInStep_iff {stmt : UpdateOrDelete ρ ι} {start : Multiset (ℤ × ρ)} {rows : List (ℤ × ρ)}
    {s : Tables ρ} {cursor : Cursor ρ ι} {one : Table ρ} (h : HoldsView info one s)
    (hrows : ∀ r ∈ rows, r ∈ one) (hkeys : rows.Pairwise fun a b => a.1 ≠ b.1)
    (hall : (stmt.action.applyAll info.schema start rows one).isSome) :
    RunsInStep info stmt start rows one s cursor ↔ Undisturbed info stmt start rows s cursor := by
  induction rows generalizing s cursor one with
  | nil => exact Iff.rfl
  | cons r rows ih =>
    obtain ⟨hkey, hkeys⟩ := List.pairwise_cons.mp hkeys
    have hr := hrows r List.mem_cons_self
    rw [RowAction.applyAll] at hall
    cases happly : stmt.action.apply info.schema start one.content one r with
    | none => simp [happly] at hall
    | some one' =>
      rw [happly] at hall
      have hrest : ∀ a ∈ rows, a ∈ one' := fun a ha =>
        mem_of_apply happly (hrows a (List.mem_cons_of_mem _ ha)) (hkey a ha).symm
      constructor
      · rintro ⟨cursor', s', hnext, hwrite, hstep⟩
        obtain ⟨h', hstep⟩ := hstep one' happly
        have hundisturbed := rowUndisturbed_of_writeBoth h hr hwrite happly h'
        refine ⟨cursor', hnext, hundisturbed, fun s'' happly' => ?_⟩
        rw [applyInView_of_writeBoth hundisturbed hwrite] at happly'
        cases happly'
        exact (ih h' hrest hkeys hall).mp hstep
      · rintro ⟨cursor', hnext, hundisturbed, hstep⟩
        have hwrite := writeBoth_refines h hundisturbed
        rw [happly] at hwrite
        obtain ⟨s', hwrite, h'⟩ := hwrite
        refine ⟨cursor', s', hnext, hwrite, fun one'' happly' => ?_⟩
        rw [happly] at happly'
        cases happly'
        exact ⟨h', (ih h' hrest hkeys hall).mpr
          (hstep s' (applyInView_of_writeBoth hundisturbed hwrite))⟩

end Loop

/-! ### Two statements -/

theorem pairwise_target : [((3 : ℤ), "a")].Pairwise fun r r' => r.1 < r'.1 :=
  List.pairwise_singleton _ _

/-- A row in each table. -/
def twoNames : Tables String where
  target := { table := ⟨[(3, "a")], pairwise_target⟩ }
  source := { table := ⟨[(1, "b")], by simp⟩ }

/-- The rows of `twoNames` in one table. -/
def twoNamesTable : Table String := ⟨[(1, "b"), (3, "a")], by simp⟩

theorem holdsView_twoNames : HoldsView namesInfo twoNamesTable twoNames := by
  rw [HoldsView]
  decide +kernel

/-- `UPDATE names SET name = name || '!'`. -/
def addMark : UpdateOrDelete String ℕ where
  condition := fun _ _ _ => true
  rank := fun _ => 0
  action := .set fun _ _ r => (r.1, r.2 ++ "!")

theorem selected_addMark : selected addMark namesInfo twoNames = [(3, "a"), (1, "b")] := by
  simp [selected, UpdateOrDelete.ordered, UpdateOrDelete.scanned, addMark, twoNames,
    Tables.filtered, Table.filter, namesInfo]

/-- `UPDATE names SET id = id + 10 WHERE id < 25`. -/
def moveAhead : UpdateOrDelete String ℕ where
  condition := fun _ _ r => decide (r.1 < 25)
  rank := fun _ => 0
  action := .set fun _ _ r => (r.1 + 10, r.2)

/-- The same with `ORDER BY id LIMIT 5`. -/
def moveAheadInOrder : UpdateOrDelete String ℕ :=
  { moveAhead with orderBy := some fun a b => decide (a.1 ≤ b.1), limit := some 5 }

/-- One row, in the target table. -/
def oneName : Tables String where
  target := { table := ⟨[(1, "a")], by simp⟩ }
  source := { table := .empty }

theorem selected_moveAhead : selected moveAhead namesInfo oneName = [(1, "a")] ∧
    selected moveAheadInOrder namesInfo oneName = [(1, "a")] := by
  simp [selected, UpdateOrDelete.ordered, UpdateOrDelete.scanned, moveAheadInOrder, moveAhead,
    oneName, Tables.filtered, Table.filter, Table.empty]

/-- A statement that modifies the one row three times. -/
theorem not_actsOnce_of_trace {stmt : UpdateOrDelete String ℕ} {plan : SelectPlan}
    (hselected : selected stmt namesInfo oneName = [(1, "a")])
    (htrace : ∀ n, ∃ s', stepUpdateOrDelete namesInfo stmt plan (n + 4) oneName =
      some (some (s', [(1, "a"), (11, "a"), (21, "a")]))) :
    ¬ActsOnce namesInfo stmt plan oneName.target.table oneName := by
  rintro ⟨n, h⟩
  have h := h (n + 4) (Nat.le_add_right n 4)
  obtain ⟨s', htrace⟩ := htrace n
  rw [hselected, htrace] at h
  split at h
  · cases h
  · obtain ⟨s'', trace, hstep, hperm, -⟩ := h
    cases hstep
    exact absurd hperm.length_eq (by decide)

end Wcdb
