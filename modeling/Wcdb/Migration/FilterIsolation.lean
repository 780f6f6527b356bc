import Wcdb.Migration.MigratingStatement
import Wcdb.Lib.Run

/-!
# Rows outside the filter

Several target tables may be migrated from one source table, each with a filter condition. The
source rows outside the filter then belong to **others**: no statement on the target table may
change them or fail because of them. The view and the migrating statements carry the filter, but
an `INSERT` is tried on the whole source table, and the statements for one key address a row of
the source table by its key alone.

`Isolated` is the condition under which a step leaves the rows of others alone, and
`foreign_of_isolated` says that it is enough for every run. The proof compares a step with the
same step on the tables **without** the rows of others (`Tables.purge`): both have the same
outcome and the rows of others play no part in it.
-/

namespace Wcdb

open Sql

variable {ρ κ ι : Type}

/-! ### Tables without the rows of others -/

section Purge

variable (info : MigrationInfo ρ κ) (s : Tables ρ)

/-- The source rows outside the filter. -/
def Tables.foreign : Table ρ := s.source.table.filter fun r => !info.filterCondition r

/-- The tables without the rows of others. -/
def Tables.purge : Tables ρ := { s with source := { s.source with table := s.filtered info } }

variable {info s}

theorem Tables.mem_filtered {r : ℤ × ρ} :
    r ∈ s.filtered info ↔ r ∈ s.source.table ∧ info.filterCondition r = true := Table.mem_filter

theorem Tables.mem_foreign {r : ℤ × ρ} :
    r ∈ s.foreign info ↔ r ∈ s.source.table ∧ info.filterCondition r = false := by
  rw [Tables.foreign, Table.mem_filter, Bool.not_eq_true']

@[simp]
theorem Tables.purge_target : (s.purge info).target = s.target := rfl

@[simp]
theorem Tables.filtered_purge : (s.purge info).filtered info = s.filtered info :=
  Table.ext_mem fun r => by
    rw [Tables.mem_filtered, Tables.purge, Tables.mem_filtered]
    exact ⟨fun h => h.1, fun h => ⟨h, h.2⟩⟩

@[simp]
theorem Tables.unionedView_purge : (s.purge info).unionedView info = s.unionedView info := by
  rw [Tables.unionedView, Tables.unionedView, Tables.filtered_purge, Tables.purge_target]

end Purge

/-! ### The statements for one key -/

section Write

variable [DecidableEq κ] {S : Schema ρ κ} {action : RowAction ρ} {view : Multiset (ℤ × ρ)}

/-- What an action may make of a row, on whatever content. -/
def Makes (action : RowAction ρ) (a x : ℤ × ρ) : Prop :=
  ∃ f, action = .set f ∧ ∃ view, x = f view view a

/-- The row that the action makes in a table. -/
theorem writeKey_cases {t t' : Table ρ} {k : ℤ} {hits : List (ℤ × ρ)}
    (h : writeKey S action view t k = some (t', hits)) :
    (∀ r ∈ t, r.1 ≠ k) ∧ t' = t ∨
      ∃ r ∈ t, r.1 = k ∧ (action = .delete ∧ t' = t.erase k ∨
        ∃ x, Makes action r x ∧ S.free (t.erase k) x = true ∧ t' = (t.erase k).put x) := by
  rw [writeKey] at h
  split at h
  next hfind =>
    cases h
    exact Or.inl ⟨Table.find_eq_none.mp hfind, rfl⟩
  next r hfind =>
    obtain ⟨hr, rfl⟩ := Table.find_eq_some.mp hfind
    obtain ⟨t'', happly, heq⟩ := Option.map_eq_some_iff.mp h
    cases heq
    refine Or.inr ⟨r, hr, rfl, ?_⟩
    cases action with
    | delete =>
      cases happly
      exact Or.inl ⟨rfl, rfl⟩
    | set f =>
      simp only [RowAction.apply, Schema.updateRow] at happly
      split_ifs at happly with hok
      cases happly
      exact Or.inr ⟨_, ⟨f, rfl, view, rfl⟩, (insertable_iff.mp hok.2.2).2, rfl⟩

/-- A row after the statement was there before, or was made of one. -/
theorem mem_of_writeKey {t t' : Table ρ} {k : ℤ} {hits : List (ℤ × ρ)}
    (h : writeKey S action view t k = some (t', hits)) {x : ℤ × ρ} (hx : x ∈ t') :
    x ∈ t ∨ ∃ r ∈ t, r.1 = k ∧ Makes action r x := by
  rcases writeKey_cases h with ⟨-, rfl⟩ | ⟨r, hr, hk, ⟨-, rfl⟩ | ⟨y, hy, -, rfl⟩⟩
  · exact Or.inl hx
  · exact Or.inl (Table.mem_erase.mp hx).1
  · rcases Table.mem_put.mp hx with rfl | ⟨hx, -⟩
    · exact Or.inr ⟨r, hr, hk, hy⟩
    · exact Or.inl (Table.mem_erase.mp hx).1

/-- What the statement for one key must be kept from: a row of others with that key, and a new
row that leaves the filter or clashes with a row of others. -/
def KeyIsolated (S : Schema ρ κ) (action : RowAction ρ) (p : ℤ × ρ → Bool) (t : Table ρ) (k : ℤ) :
    Prop :=
  ∀ a ∈ t, a.1 = k → p a = true ∧
    ∀ x, Makes action a x → p x = true ∧ ∀ b ∈ t, p b = false → S.clash x b = false

/-- The statement for one key does not see the rows of others. -/
theorem writeKey_filter {t : Table ρ} {k : ℤ} {p : ℤ × ρ → Bool}
    (h : KeyIsolated S action p t k) :
    writeKey S action view (t.filter p) k =
      (writeKey S action view t k).map fun out => (out.1.filter p, out.2) := by
  rw [writeKey, writeKey, Table.find_filter fun a ha hk => (h a ha hk).1]
  cases hfind : t.find k with
  | none => rfl
  | some r =>
    obtain ⟨hr, rfl⟩ := Table.find_eq_some.mp hfind
    cases action with
    | delete =>
      simp only [RowAction.apply, Option.map_some, Table.filter_erase]
    | set f =>
      obtain ⟨hp, hforeign⟩ := (h r hr rfl).2 (f view view r) ⟨f, rfl, view, rfl⟩
      have hins : S.insertable ((t.filter p).erase r.1) (f view view r) =
          S.insertable (t.erase r.1) (f view view r) := by
        rw [← Table.filter_erase]
        exact insertable_filter fun a ha hfilter => hforeign a (Table.mem_erase.mp ha).1 hfilter
      simp only [RowAction.apply, Schema.updateRow, hins]
      split_ifs
      · simp only [Option.map_some, Table.filter_put hp, Table.filter_erase]
      · rfl

/-- The statement for one key leaves the rows of others as they are. -/
theorem writeKey_foreign {t t' : Table ρ} {k : ℤ} {p : ℤ × ρ → Bool} {hits : List (ℤ × ρ)}
    (h : KeyIsolated S action p t k) (hwrite : writeKey S action view t k = some (t', hits)) :
    (t'.filter fun r => !p r) = t.filter fun r => !p r := by
  refine Table.ext_mem fun a => ?_
  simp only [Table.mem_filter, Bool.not_eq_true']
  rcases writeKey_cases hwrite with ⟨-, rfl⟩ | ⟨r, hr, hk, ⟨-, rfl⟩ | ⟨x, hx, hfree, rfl⟩⟩
  · exact Iff.rfl
  · rw [Table.mem_erase]
    refine ⟨fun ha => ⟨ha.1.1, ha.2⟩, fun ha => ⟨⟨ha.1, fun hk' => ?_⟩, ha.2⟩⟩
    exact Bool.noConfusion (ha.2.symm.trans (h a ha.1 hk').1)
  · rw [Table.mem_put, Table.mem_erase]
    constructor
    · rintro ⟨rfl | ha, hp⟩
      · exact Bool.noConfusion (hp.symm.trans ((h r hr hk).2 a hx).1)
      · exact ⟨ha.1.1, hp⟩
    · rintro ⟨ha, hp⟩
      have hne : a.1 ≠ k := fun hk' => Bool.noConfusion (hp.symm.trans (h a ha hk').1)
      exact ⟨Or.inr ⟨⟨ha, hne⟩, key_ne_of_free hfree a (Table.mem_erase.mpr ⟨ha, hne⟩)⟩, hp⟩

end Write

section Both

variable [DecidableEq κ] {info : MigrationInfo ρ κ} {action : RowAction ρ} {s : Tables ρ} {k : ℤ}

theorem writeBoth_cases {s' : Tables ρ} {hits : List (ℤ × ρ)}
    (h : writeBoth info action s k = some (s', hits)) :
    ∃ source target hits₁ hits₂ view,
      writeKey info.schema action (s.unionedView info) s.source.table k = some (source, hits₁) ∧
      writeKey info.schema action view s.target.table k = some (target, hits₂) ∧
      s' = ⟨{ s.target with table := target }, { s.source with table := source }⟩ := by
  obtain ⟨⟨source, hits₁⟩, hsource, h⟩ := Option.bind_eq_some_iff.mp h
  obtain ⟨⟨target, hits₂⟩, htarget, h⟩ := Option.bind_eq_some_iff.mp h
  cases h
  exact ⟨source, target, hits₁, hits₂, _, hsource, htarget, rfl⟩

/-- The two statements for one key do not see the rows of others. -/
theorem writeBoth_purge (h : KeyIsolated info.schema action info.filterCondition s.source.table k) :
    writeBoth info action (s.purge info) k =
      (writeBoth info action s k).map fun out => (out.1.purge info, out.2) := by
  have hsource : writeKey info.schema action (s.unionedView info) (s.purge info).source.table k =
      _ := writeKey_filter h
  simp only [writeBoth, Tables.unionedView_purge, hsource]
  cases writeKey info.schema action (s.unionedView info) s.source.table k with
  | none => rfl
  | some out =>
    obtain ⟨source, hits₁⟩ := out
    -- the view after the first statement is the same
    have hview : Tables.unionedView info
        ⟨s.target, ⟨source.filter info.filterCondition, (s.purge info).source.seq⟩⟩ =
        Tables.unionedView info ⟨s.target, ⟨source, s.source.seq⟩⟩ :=
      Tables.unionedView_purge (s := ⟨s.target, ⟨source, s.source.seq⟩⟩)
    simp only [Option.map_some, Option.bind_eq_bind, Option.bind_some, Tables.purge_target, hview]
    cases writeKey info.schema action
      (Tables.unionedView info ⟨s.target, ⟨source, s.source.seq⟩⟩) s.target.table k with
    | none => rfl
    | some out => rfl

end Both

/-! ### Update and delete -/

section Loop

variable (info : MigrationInfo ρ κ) (stmt : UpdateOrDelete ρ ι)

/-- The rows of the view in the source table or in the target table. -/
def Tables.side (s : Tables ρ) : Bool → Table ρ
  | true => s.filtered info
  | false => s.target.table

/-- The condition selects a row on some content. -/
def Selectable (start : Multiset (ℤ × ρ)) (a : ℤ × ρ) : Prop :=
  ∃ view, stmt.condition start view a = true

/-- The rows that a statement may come to modify: those of the view that the condition may select,
what is made of them if the condition may select that again, and the rows that share a key with
one of these. -/
inductive Reach (s : Tables ρ) : Bool → ℤ × ρ → Prop where
  | deliver {side : Bool} {a : ℤ × ρ} :
      a ∈ s.side info side → Selectable stmt (s.unionedView info) a → Reach s side a
  | image {side : Bool} {a x : ℤ × ρ} :
      Reach s side a → Makes stmt.action a x → Selectable stmt (s.unionedView info) x →
        Reach s side x
  | same {side side' : Bool} {a b : ℤ × ρ} :
      Reach s side' b → a ∈ s.side info side → a.1 = b.1 → Reach s side a
  | sameImage {side side' : Bool} {a b x : ℤ × ρ} :
      Reach s side' b → Reach s side a → Makes stmt.action a x → x.1 = b.1 → Reach s side x

variable [DecidableEq κ]

/-- No row that the statement may come to modify has the key of a row of others, and what is made
of a source row stays in the filter and clashes with no row of others. -/
structure WriteIsolated (s : Tables ρ) : Prop where
  keys : ∀ side a, Reach info stmt s side a → ∀ b ∈ s.foreign info, b.1 ≠ a.1
  images : ∀ a x, Reach info stmt s true a → Makes stmt.action a x →
    info.filterCondition x = true ∧ ∀ b ∈ s.foreign info, info.schema.clash x b = false

variable {info stmt}

/-- What holds during the statement: every row was there at the start, or was made of a row that the
statement may modify; the rows of others are those of the start. -/
structure During (info : MigrationInfo ρ κ) (stmt : UpdateOrDelete ρ ι) (s₀ s : Tables ρ) :
    Prop where
  rows : ∀ side, ∀ a ∈ s.side info side, a ∈ s₀.side info side ∨
    ∃ b, Reach info stmt s₀ side b ∧ Makes stmt.action b a
  foreign : s.foreign info = s₀.foreign info

omit [DecidableEq κ] in
theorem During.reach {s₀ s : Tables ρ} (h : During info stmt s₀ s) {side side' : Bool}
    {a b : ℤ × ρ} (hb : Reach info stmt s₀ side' b) (ha : a ∈ s.side info side)
    (hk : a.1 = b.1) : Reach info stmt s₀ side a := by
  rcases h.rows side a ha with ha | ⟨c, hc, hmakes⟩
  · exact .same hb ha hk
  · exact .sameImage hb hc hmakes hk

omit [DecidableEq κ] in
theorem During.reach_of_selectable {s₀ s : Tables ρ} (h : During info stmt s₀ s) {side : Bool}
    {a : ℤ × ρ} (ha : a ∈ s.side info side) (hsel : Selectable stmt (s₀.unionedView info) a) :
    Reach info stmt s₀ side a := by
  rcases h.rows side a ha with ha | ⟨c, hc, hmakes⟩
  · exact .deliver ha hsel
  · exact .image hc hmakes hsel

/-- The statements for a key that is reached are isolated. -/
theorem During.keyIsolated {s₀ s : Tables ρ} (h : During info stmt s₀ s)
    (hiso : WriteIsolated info stmt s₀) {side : Bool} {r : ℤ × ρ} (hr : Reach info stmt s₀ side r) :
    KeyIsolated info.schema stmt.action info.filterCondition s.source.table r.1 := by
  intro a ha hk
  have hfilter : info.filterCondition a = true := by
    by_contra hnot
    have hforeign : a ∈ s.foreign info := Tables.mem_foreign.mpr ⟨ha, by simpa using hnot⟩
    rw [h.foreign] at hforeign
    exact hiso.keys side r hr a hforeign hk
  have hreach : Reach info stmt s₀ true a :=
    h.reach hr (Tables.mem_filtered.mpr ⟨ha, hfilter⟩) hk
  refine ⟨hfilter, fun x hx => ?_⟩
  obtain ⟨hx, hclash⟩ := hiso.images a x hreach hx
  refine ⟨hx, fun b hb hnot => hclash b ?_⟩
  rw [← h.foreign]
  exact Tables.mem_foreign.mpr ⟨hb, hnot⟩

theorem During.writeBoth {s₀ s s' : Tables ρ} (h : During info stmt s₀ s)
    (hiso : WriteIsolated info stmt s₀) {side : Bool} {r : ℤ × ρ} (hr : Reach info stmt s₀ side r)
    {hits : List (ℤ × ρ)} (hwrite : writeBoth info stmt.action s r.1 = some (s', hits)) :
    During info stmt s₀ s' := by
  obtain ⟨source, target, hits₁, hits₂, view, hsource, htarget, rfl⟩ := writeBoth_cases hwrite
  refine ⟨?_, (writeKey_foreign (h.keyIsolated hiso hr) hsource).trans h.foreign⟩
  intro side' a ha
  cases side' with
  | false =>
    rcases mem_of_writeKey htarget ha with ha | ⟨b, hb, hk, hmakes⟩
    · exact h.rows false a ha
    · exact Or.inr ⟨b, h.reach hr hb hk, hmakes⟩
  | true =>
    obtain ⟨ha, hfilter⟩ := Tables.mem_filtered.mp ha
    rcases mem_of_writeKey hsource ha with ha | ⟨b, hb, hk, hmakes⟩
    · exact h.rows true a (Tables.mem_filtered.mpr ⟨ha, hfilter⟩)
    · have hb' := (h.keyIsolated hiso hr b hb hk).1
      exact Or.inr ⟨b, h.reach hr (Tables.mem_filtered.mpr ⟨hb, hb'⟩) hk, hmakes⟩

variable [LinearOrder ι]

omit [DecidableEq κ] in
theorem nextRow_purge (start : Multiset (ℤ × ρ)) (s : Tables ρ) (cursor : Cursor ρ ι) :
    nextRow stmt info start (s.purge info) cursor = nextRow stmt info start s cursor := by
  cases cursor with
  | sorted rows => cases rows <;> rfl
  | scan | merge =>
    simp only [nextRow, Tables.unionedView_purge, Tables.filtered_purge, Tables.purge_target]

omit [DecidableEq κ] in
theorem openSelect_purge (plan : SelectPlan) (s : Tables ρ) :
    openSelect stmt info plan (s.purge info) = openSelect stmt info plan s := by
  simp only [openSelect, selected, Tables.unionedView_purge, Tables.filtered_purge,
    Tables.purge_target]

theorem mem_of_firstAhead {start current : Multiset (ℤ × ρ)} {last : Option (ι ×ₗ ℤ)} {t : Table ρ}
    {r : ℤ × ρ} (h : firstAhead stmt start current last t = some r) :
    r ∈ t ∧ stmt.condition start current r = true := by
  obtain ⟨hr, hcond⟩ := List.mem_filter.mp (List.argmin_mem h)
  exact ⟨hr, (Bool.and_eq_true_iff.mp hcond).2⟩

omit [LinearOrder ι] in
theorem mem_of_ordered {rows : List (ℤ × ρ)} {r : ℤ × ρ} (h : r ∈ stmt.ordered rows) :
    r ∈ rows :=
  Multiset.mem_of_le (coe_ordered_le stmt rows) h

omit [DecidableEq κ] in
theorem reach_of_scanned {s : Tables ρ} {side : Bool} {r : ℤ × ρ}
    (h : r ∈ stmt.scanned (s.unionedView info) (s.side info side)) : Reach info stmt s side r := by
  obtain ⟨hr, hcond⟩ := List.mem_filter.mp (List.mem_mergeSort.mp h)
  exact .deliver hr ⟨_, hcond⟩

/-- The rows that one select of a merge still has to deliver are reached. -/
def SideReach (info : MigrationInfo ρ κ) (stmt : UpdateOrDelete ρ ι) (s₀ : Tables ρ) (side : Bool) :
    Side ρ ι → Prop
  | .scan _ => True
  | .sorted rows => ∀ r ∈ rows, Reach info stmt s₀ side r

def LaneReach (info : MigrationInfo ρ κ) (stmt : UpdateOrDelete ρ ι) (s₀ : Tables ρ) (side : Bool) :
    Lane ρ ι → Prop
  | .ask rest => SideReach info stmt s₀ side rest
  | .held r rest => Reach info stmt s₀ side r ∧ SideReach info stmt s₀ side rest
  | .done => True

/-- The rows that a cursor keeps are reached. -/
def CursorReach (info : MigrationInfo ρ κ) (stmt : UpdateOrDelete ρ ι) (s₀ : Tables ρ) :
    Cursor ρ ι → Prop
  | .sorted rows => ∀ r ∈ rows, ∃ side, Reach info stmt s₀ side r
  | .scan _ _ _ => True
  | .merge target source _ => LaneReach info stmt s₀ false target ∧
      LaneReach info stmt s₀ true source

omit [DecidableEq κ] in
theorem cursorReach_openSelect (plan : SelectPlan) (s : Tables ρ) :
    CursorReach info stmt s (openSelect stmt info plan s) := by
  have hside : ∀ side sort,
      SideReach info stmt s side (openSide stmt (s.unionedView info) (s.side info side) sort) := by
    intro side sort
    rw [openSide]
    split_ifs
    · exact fun r hr => reach_of_scanned (mem_of_ordered hr)
    · trivial
  unfold openSelect
  split
  · trivial
  · intro r hr
    rcases List.mem_append.mp (mem_of_ordered hr) with hr | hr
    · exact ⟨false, reach_of_scanned hr⟩
    · exact ⟨true, reach_of_scanned hr⟩
  · exact ⟨hside false _, hside true _⟩

omit [DecidableEq κ] in
theorem During.firstAhead {s₀ s : Tables ρ} (h : During info stmt s₀ s) {side : Bool}
    {last : Option (ι ×ₗ ℤ)} {r : ℤ × ρ}
    (hfirst : firstAhead stmt (s₀.unionedView info) (s.unionedView info) last (s.side info side) =
      some r) : Reach info stmt s₀ side r := by
  obtain ⟨hr, hcond⟩ := mem_of_firstAhead hfirst
  exact h.reach_of_selectable hr ⟨_, hcond⟩

omit [DecidableEq κ] in
theorem During.head {s₀ s : Tables ρ} (h : During info stmt s₀ s) (side : Bool) {lane : Lane ρ ι}
    (hlane : LaneReach info stmt s₀ side lane) {r : ℤ × ρ} {rest : Side ρ ι}
    (hhead : lane.head stmt (s₀.unionedView info) (s.unionedView info) (s.side info side) =
      some (r, rest)) :
    Reach info stmt s₀ side r ∧ SideReach info stmt s₀ side rest := by
  cases lane with
  | ask from' =>
    cases from' with
    | scan last =>
      obtain ⟨a, hfirst, heq⟩ := Option.map_eq_some_iff.mp hhead
      cases heq
      exact ⟨h.firstAhead hfirst, trivial⟩
    | sorted rows =>
      cases rows with
      | nil => cases hhead
      | cons a rows =>
        cases hhead
        exact ⟨hlane r List.mem_cons_self, fun r' hr' => hlane r' (List.mem_cons_of_mem _ hr')⟩
  | held a from' =>
    cases hhead
    exact hlane
  | done => cases hhead

omit [DecidableEq κ] in
/-- The cursor delivers rows that are reached. -/
theorem During.nextRow {s₀ s : Tables ρ} (h : During info stmt s₀ s) {cursor cursor' : Cursor ρ ι}
    (hcursor : CursorReach info stmt s₀ cursor) {r : ℤ × ρ}
    (hnext : nextRow stmt info (s₀.unionedView info) s cursor = some (r, cursor')) :
    (∃ side, Reach info stmt s₀ side r) ∧ CursorReach info stmt s₀ cursor' := by
  cases cursor with
  | sorted rows =>
    cases rows with
    | nil => cases hnext
    | cons r' rows =>
      cases hnext
      exact ⟨hcursor r List.mem_cons_self, fun r' hr' => hcursor r' (List.mem_cons_of_mem _ hr')⟩
  | scan inSource last left =>
    simp only [Wcdb.nextRow] at hnext
    split_ifs at hnext with hleft hsource
    · obtain ⟨a, hfirst, heq⟩ := Option.map_eq_some_iff.mp hnext
      cases heq
      exact ⟨⟨true, h.firstAhead hfirst⟩, trivial⟩
    · split at hnext
      next a hfirst =>
        cases hnext
        exact ⟨⟨false, h.firstAhead hfirst⟩, trivial⟩
      · obtain ⟨a, hfirst, heq⟩ := Option.map_eq_some_iff.mp hnext
        cases heq
        exact ⟨⟨true, h.firstAhead hfirst⟩, trivial⟩
  | merge target source left =>
    simp only [Wcdb.nextRow] at hnext
    split_ifs at hnext with hleft
    cases htarget : target.head stmt (s₀.unionedView info) (s.unionedView info) s.target.table with
    | none =>
      cases hsource : source.head stmt (s₀.unionedView info) (s.unionedView info)
          (s.filtered info) with
      | none => simp [htarget, hsource, mergeNext] at hnext
      | some b =>
        have hb := h.head true hcursor.2 hsource
        simp only [htarget, hsource, mergeNext] at hnext
        cases hnext
        exact ⟨⟨true, hb.1⟩, trivial, hb.2⟩
    | some a =>
      have ha := h.head false hcursor.1 htarget
      cases hsource : source.head stmt (s₀.unionedView info) (s.unionedView info)
          (s.filtered info) with
      | none =>
        simp only [htarget, hsource, mergeNext] at hnext
        cases hnext
        exact ⟨⟨false, ha.1⟩, ha.2, trivial⟩
      | some b =>
        have hb := h.head true hcursor.2 hsource
        simp only [htarget, hsource, mergeNext] at hnext
        split_ifs at hnext
        · cases hnext
          exact ⟨⟨false, ha.1⟩, ha.2, hb⟩
        · cases hnext
          exact ⟨⟨true, hb.1⟩, ha, hb.2⟩

/-- The outcome of a loop, without the rows of others. -/
def purgeOutcome (info : MigrationInfo ρ κ) (out : Option (Tables ρ × List (ℤ × ρ))) :
    Option (Tables ρ × List (ℤ × ρ)) := out.map fun out => (out.1.purge info, out.2)

/-- **The loop does not see the rows of others**, and leaves them as they are. -/
theorem stepLoop_purge {s₀ : Tables ρ} (hiso : WriteIsolated info stmt s₀) (fuel : ℕ) {s : Tables ρ}
    (h : During info stmt s₀ s) {cursor : Cursor ρ ι} (hcursor : CursorReach info stmt s₀ cursor) :
    stepLoop info stmt (s₀.unionedView info) fuel (s.purge info) cursor =
        (stepLoop info stmt (s₀.unionedView info) fuel s cursor).map (purgeOutcome info) ∧
      ∀ s' trace, stepLoop info stmt (s₀.unionedView info) fuel s cursor = some (some (s', trace)) →
        s'.foreign info = s₀.foreign info := by
  induction fuel generalizing s cursor with
  | zero => exact ⟨rfl, fun s' trace hstep => by cases hstep⟩
  | succ fuel ih =>
    simp only [stepLoop, nextRow_purge]
    cases hnext : Wcdb.nextRow stmt info (s₀.unionedView info) s cursor with
    | none =>
      refine ⟨rfl, fun s' trace hstep => ?_⟩
      cases hstep
      exact h.foreign
    | some out =>
      obtain ⟨r, cursor'⟩ := out
      obtain ⟨⟨side, hr⟩, hcursor'⟩ := h.nextRow hcursor hnext
      simp only [writeBoth_purge (h.keyIsolated hiso hr)]
      cases hwrite : Wcdb.writeBoth info stmt.action s r.1 with
      | none => exact ⟨rfl, fun s' trace hstep => by cases hstep⟩
      | some out =>
        obtain ⟨s₁, hits⟩ := out
        obtain ⟨hloop, hforeign⟩ := ih (h.writeBoth hiso hr hwrite) hcursor'
        simp only [Option.map_some, hloop]
        constructor
        · rw [Option.map_map, Option.map_map]
          congr 1
          funext out
          cases out <;> rfl
        · intro s' trace hstep
          obtain ⟨out, hout, hmap⟩ := Option.map_eq_some_iff.mp hstep
          obtain ⟨⟨s'', trace'⟩, rfl, heq⟩ := Option.map_eq_some_iff.mp hmap
          cases heq
          exact hforeign s'' trace' hout

end Loop

/-! ### Insert -/

section Insert

variable [DecidableEq κ]

/-- An `INSERT` without upsert clause, whose row as it is tried on the source table clashes with no
row of others; and if it brings no key, no row of others has the largest possible key. -/
structure InsertIsolated (info : MigrationInfo ρ κ) (stmt : InsertSTMT ρ) (s : Tables ρ) :
    Prop where
  plain : stmt.conflict.Plain
  full : stmt.primaryKey.key = none → ∀ b ∈ s.foreign info, b.1 < maxRowid
  free : ∀ k, s.source.keyFor info.autoincrement stmt.newRow = some k →
    ∀ b ∈ s.foreign info, info.schema.clash (k, stmt.data) b = false

variable {info : MigrationInfo ρ κ} {stmt : InsertSTMT ρ} {s : Tables ρ}

/-- Two keys for one row that no row of a table has, or that are equal. -/
def KeysAlike (t : Table ρ) (k k' : ℤ) : Prop :=
  k' = k ∨ (k ≤ maxRowid ∧ k' ≤ maxRowid) ∧ ∀ a ∈ t, a.1 < k ∧ a.1 < k'

theorem keyFor_purge (h : InsertIsolated info stmt s) :
    ((s.purge info).source.keyFor info.autoincrement stmt.newRow = none ∧
        s.source.keyFor info.autoincrement stmt.newRow = none) ∨
      ∃ k k', s.source.keyFor info.autoincrement stmt.newRow = some k ∧
        (s.purge info).source.keyFor info.autoincrement stmt.newRow = some k' ∧
        KeysAlike (s.filtered info) k k' := by
  have hcongr : (s.purge info).source.keyFor info.autoincrement stmt.newRow =
      s.source.keyFor info.autoincrement stmt.newRow ∨ ∃ k k',
        s.source.keyFor info.autoincrement stmt.newRow = some k ∧
        (s.purge info).source.keyFor info.autoincrement stmt.newRow = some k' ∧
        (k ≤ maxRowid ∧ ∀ r ∈ s.source.table, r.1 < k) ∧
        k' ≤ maxRowid ∧ ∀ r ∈ (s.purge info).source.table, r.1 < k' := by
    cases hkey : stmt.primaryKey.key with
    | some k =>
      left
      simp only [Store.keyFor, InsertSTMT.newRow, hkey]
    | none =>
      have hfull : (s.purge info).source.table.Full ↔ s.source.table.Full := by
        constructor
        · rintro ⟨r, hr, hle⟩
          exact ⟨r, (Tables.mem_filtered.mp hr).1, hle⟩
        · rintro ⟨r, hr, hle⟩
          refine ⟨r, Tables.mem_filtered.mpr ⟨hr, ?_⟩, hle⟩
          by_contra hnot
          have hlt := h.full hkey r (Tables.mem_foreign.mpr ⟨hr, by simpa using hnot⟩)
          exact absurd hle (not_le.mpr hlt)
      exact Store.keyFor_congr s.source (s.purge info).source rfl hfull info.autoincrement
        stmt.newRow
  rcases hcongr with heq | ⟨k, k', hk, hk', ⟨hmax, hlt⟩, hmax', hlt'⟩
  · cases hk : s.source.keyFor info.autoincrement stmt.newRow with
    | none => exact Or.inl ⟨heq.trans hk, rfl⟩
    | some k => exact Or.inr ⟨k, k, rfl, heq.trans hk, Or.inl rfl⟩
  · refine Or.inr ⟨k, k', hk, hk', Or.inr ⟨⟨hmax, hmax'⟩, fun a ha => ?_⟩⟩
    exact ⟨hlt a (Tables.mem_filtered.mp ha).1, hlt' a ha⟩

theorem KeysAlike.clash_eq {S : Schema ρ κ} {t : Table ρ} {k k' : ℤ} (h : KeysAlike t k k')
    (data : ρ) {a : ℤ × ρ} (ha : a ∈ t) : S.clash (k', data) a = S.clash (k, data) a := by
  rcases h with rfl | ⟨-, hlt⟩
  · rfl
  · obtain ⟨hk, hk'⟩ := hlt a ha
    simp [Schema.clash, ne_of_gt hk, ne_of_gt hk']

theorem KeysAlike.free_eq {S : Schema ρ κ} {t : Table ρ} {k k' : ℤ} (h : KeysAlike t k k')
    (data : ρ) : S.free t (k', data) = S.free t (k, data) := by
  rw [Bool.eq_iff_iff, free_iff, free_iff]
  exact forall₂_congr fun a ha => by rw [h.clash_eq data ha]

omit [DecidableEq κ] in
/-- The two keys under which the row is inserted into a target table without integer primary
key. -/
theorem keysAlike_maxId {t t' : Table ρ} {k k' : ℤ} (h : KeysAlike t' k k') :
    KeysAlike t (max (max 1 k) (selectMaxID (t.rows.map Prod.fst)))
      (max (max 1 k') (selectMaxID (t.rows.map Prod.fst))) := by
  rcases h with rfl | ⟨⟨hk, hk'⟩, -⟩
  · exact Or.inl rfl
  have hone : (1 : ℤ) ≤ maxRowid := by decide
  rw [selectMaxID]
  split
  next hnone =>
    have hrows : t.rows = [] := List.map_eq_nil_iff.mp (List.max?_eq_none_iff.mp hnone)
    refine Or.inr ⟨⟨by omega, by omega⟩, fun a ha => ?_⟩
    rw [Table.mem_def, hrows] at ha
    cases ha
  next m hm =>
    have hle : ∀ a ∈ t, a.1 ≤ m := fun a ha =>
      (List.max?_eq_some_iff.mp hm).2 a.1 (List.mem_map_of_mem ha)
    by_cases hfull : m < maxRowid
    · refine Or.inr ⟨⟨by omega, by omega⟩, fun a ha => ?_⟩
      have := hle a ha
      omega
    · -- the largest key is taken, and both keys are that one
      left
      omega

/-- Trying a row: it fails, is ignored, or removes the rows it clashes with. -/
theorem insert_tried (hc : stmt.conflict.Plain) {st st' : Store ρ} {outcome : Outcome} {k : ℤ}
    (h : st.insert info.schema info.autoincrement stmt.conflict stmt.newRow =
      some (st', outcome, k)) :
    st.keyFor info.autoincrement stmt.newRow = some k ∧
      (outcome = .ignored ∧ st'.table = st.table ∨ outcome = .inserted ∧
        st'.table.erase k = st.table.filter fun a => !info.schema.clash (k, stmt.data) a) := by
  rw [Store.insert] at h
  cases hkey : st.keyFor info.autoincrement stmt.newRow with
  | none => simp [hkey] at h
  | some k₁ =>
    rw [hkey] at h
    obtain ⟨⟨t, outcome₁⟩, hinsert, heq⟩ := Option.map_eq_some_iff.mp h
    cases heq
    refine ⟨rfl, (insertRow_cases hc hinsert).imp_right fun ht => ⟨ht.1, ?_⟩⟩
    rw [show t = _ from ht.2]
    refine Table.put_erase fun a ha hk => ?_
    have hclash := (Table.mem_filter.mp ha).2
    rw [clash_of_key hk.symm] at hclash
    cases hclash

theorem insert_outcome {st : Store ρ} {k : ℤ}
    (hkey : st.keyFor info.autoincrement stmt.newRow = some k) :
    (st.insert info.schema info.autoincrement stmt.conflict stmt.newRow).map (fun out => out.2.1) =
      (info.schema.insertRow stmt.conflict st.table (k, stmt.data)).map Prod.snd := by
  rw [Store.insert, hkey, Option.map_map]
  rfl

/-- The row is tried with the same outcome when the rows of others are not there. -/
theorem tried_outcome (h : InsertIsolated info stmt s) :
    ((s.purge info).source.insert info.schema info.autoincrement stmt.conflict stmt.newRow).map
        (fun out => out.2.1) =
      (s.source.insert info.schema info.autoincrement stmt.conflict stmt.newRow).map
        fun out => out.2.1 := by
  rcases keyFor_purge h with ⟨hnone', hnone⟩ | ⟨k, k', hk, hk', halike⟩
  · rw [Store.insert, Store.insert, hnone', hnone]
  · rw [insert_outcome hk, insert_outcome hk']
    refine insertRow_outcome h.plain ?_
    calc info.schema.free (s.filtered info) (k', stmt.data)
        = info.schema.free (s.filtered info) (k, stmt.data) := halike.free_eq stmt.data
      _ = info.schema.free s.source.table (k, stmt.data) :=
          free_filter fun a ha hnot => h.free k hk a (Tables.mem_foreign.mpr ⟨ha, hnot⟩)

/-- The row is inserted into the target table with the same outcome under either key. -/
theorem target_isSome (hc : stmt.conflict.Plain) (s₁ s₂ : Tables ρ)
    (htarget : s₂.target = s₁.target)
    (hfiltered : s₂.filtered info = s₁.filtered info) {t : Table ρ} {k k' : ℤ}
    (halike : KeysAlike t k k') :
    (s₂.target.insert info.schema info.autoincrement stmt.conflict
        (s₂.targetRow info stmt k')).isSome =
      (s₁.target.insert info.schema info.autoincrement stmt.conflict
        (s₁.targetRow info stmt k)).isSome := by
  have hexplicit : ∀ K K', KeysAlike s₁.target.table K K' →
      (s₁.target.insert info.schema info.autoincrement stmt.conflict
        { stmt.newRow with key := some K' }).isSome =
      (s₁.target.insert info.schema info.autoincrement stmt.conflict
        { stmt.newRow with key := some K }).isSome := by
    intro K K' hK
    have houtcome := insertRow_outcome hc (hK.free_eq (S := info.schema) stmt.newRow.data)
    simp only [Store.insert, Store.keyFor, Option.isSome_map]
    have := congrArg Option.isSome houtcome
    rwa [Option.isSome_map, Option.isSome_map] at this
  rw [htarget, Tables.targetRow, Tables.targetRow]
  split_ifs with hauto
  · rfl
  · refine hexplicit _ _ ?_
    rw [Tables.maxId, Tables.maxId, Tables.viewKeys, Tables.viewKeys, htarget, hfiltered]
    split_ifs with hipk
    · exact Or.inl rfl
    · exact keysAlike_maxId halike

/-- **An `INSERT` does not see the rows of others**, and leaves them as they are. -/
theorem stepInsert_purge (h : InsertIsolated info stmt s) (last : ℤ) :
    (stepInsert info stmt (s.purge info) last).1 = (stepInsert info stmt s last).1 ∧
      ((stepInsert info stmt s last).1 = true →
        (stepInsert info stmt s last).2.1.foreign info = s.foreign info) := by
  have hsame := tried_outcome h
  cases hsource : s.source.insert info.schema info.autoincrement stmt.conflict stmt.newRow with
  | none =>
    rw [hsource, Option.map_none, Option.map_eq_none_iff] at hsame
    simp [stepInsert, hsource, hsame]
  | some out =>
    obtain ⟨source, outcome, k⟩ := out
    rw [hsource, Option.map_some, Option.map_eq_some_iff] at hsame
    obtain ⟨⟨source', outcome', k'⟩, hpurge, heq⟩ := hsame
    cases heq
    obtain ⟨hk, htried⟩ := insert_tried h.plain hsource
    obtain ⟨hk', htried'⟩ := insert_tried h.plain hpurge
    simp only [stepInsert, hsource, hpurge]
    rcases htried with ⟨rfl, htable⟩ | ⟨rfl, htable⟩
    · refine ⟨rfl, fun _ => ?_⟩
      rw [if_pos rfl, Tables.foreign, Tables.foreign]
      simp only [htable]
    · have htable' := (htried'.resolve_left fun hi => by cases hi.1).2
      have halike : KeysAlike (s.filtered info) k k' := by
        rcases keyFor_purge h with ⟨-, hnone⟩ | ⟨j, j', hj, hj', halike⟩
        · rw [hk] at hnone
          cases hnone
        · cases hk.symm.trans hj
          cases hk'.symm.trans hj'
          exact halike
      -- the tables after the row was tried and removed
      let s₁ : Tables ρ := { s with source := { source with table := source.table.erase k } }
      let s₂ : Tables ρ :=
        { s.purge info with source := { source' with table := source'.table.erase k' } }
      have hfiltered : s₂.filtered info = s₁.filtered info := by
        refine Table.ext_mem fun a => ?_
        simp only [s₁, s₂, Tables.mem_filtered, htable, htable', Table.mem_filter]
        constructor
        · rintro ⟨⟨ha, hclash⟩, hp⟩
          rw [halike.clash_eq stmt.data ha] at hclash
          exact ⟨⟨(Tables.mem_filtered.mp ha).1, hclash⟩, hp⟩
        · rintro ⟨⟨ha, hclash⟩, hp⟩
          have hmem := Tables.mem_filtered.mpr ⟨ha, hp⟩
          rw [← halike.clash_eq stmt.data hmem] at hclash
          exact ⟨⟨hmem, hclash⟩, hp⟩
      have hforeign : s₁.foreign info = s.foreign info := by
        refine Table.ext_mem fun a => ?_
        simp only [s₁, Tables.mem_foreign, htable, Table.mem_filter]
        refine ⟨fun ha => ⟨ha.1.1, ha.2⟩, fun ha => ⟨⟨ha.1, ?_⟩, ha.2⟩⟩
        rw [h.free k hk a (Tables.mem_foreign.mpr ha)]
        rfl
      have htarget := target_isSome h.plain s₁ s₂ rfl hfiltered halike
      simp only [reduceCtorEq, if_false, if_true]
      cases h₁ : s₁.target.insert info.schema info.autoincrement stmt.conflict
          (s₁.targetRow info stmt k) with
      | none =>
        rw [h₁, Option.isSome_none, Option.isSome_eq_false_iff,
          Option.isNone_iff_eq_none] at htarget
        refine ⟨?_, fun hok => by cases hok⟩
        simp only [s₂] at htarget
        rw [htarget]
      | some out =>
        rw [h₁, Option.isSome_some, Option.isSome_iff_exists] at htarget
        obtain ⟨out', h₂⟩ := htarget
        refine ⟨?_, fun _ => hforeign⟩
        simp only [s₂] at h₂
        rw [h₂]

end Insert

/-! ### Migrating rows -/

section Migrate

variable [DecidableEq κ] (info : MigrationInfo ρ κ)

/-- A migrating step does not see the rows of others, and leaves them as they are. -/
theorem migrateRow_purge (e : RowEvent) (s : Tables ρ) :
    migrateRow info e (s.purge info) =
        ((migrateRow info e s).1, (migrateRow info e s).2.purge info) ∧
      (migrateRow info e s).2.foreign info = s.foreign info := by
  simp only [migrateRow, Tables.filtered_purge, Tables.purge_target]
  by_cases hfails : e.migrateFails = true
  · simp only [hfails, if_true, and_self]
  simp only [hfails, Bool.false_eq_true, if_false]
  cases hlast : (s.filtered info).last with
  | none => exact ⟨rfl, rfl⟩
  | some r =>
    have hr := Tables.mem_filtered.mp (Table.last_eq_some.mp hlast).1
    simp only
    split
    · exact ⟨rfl, rfl⟩
    next target outcome k _ =>
      split_ifs with hignored hremove
      · exact ⟨rfl, rfl⟩
      · exact ⟨rfl, rfl⟩
      · constructor
        · simp only [Tables.purge, Tables.filtered, Table.filter_erase]
        · refine Table.ext_mem fun a => ?_
          simp only [Tables.mem_foreign, Table.mem_erase]
          refine ⟨fun ha => ⟨ha.1.1, ha.2⟩, fun ha => ⟨⟨ha.1, fun hk => ?_⟩, ha.2⟩⟩
          rw [Table.eq_of_key ha.1 hr.1 hk, hr.2] at ha
          exact Bool.noConfusion ha.2

theorem migrateLoop_purge (row : ℕ → RowEvent) (n i : ℕ) (s : Tables ρ) :
    migrateLoop info row n i (s.purge info) =
        ((migrateLoop info row n i s).1, (migrateLoop info row n i s).2.purge info) ∧
      (migrateLoop info row n i s).2.foreign info = s.foreign info := by
  induction n generalizing i s with
  | zero =>
    rw [migrateLoop_of_stop (Or.inr (Or.inl rfl)), migrateLoop_of_stop (Or.inr (Or.inl rfl))]
    exact migrateRow_purge info (row i) s
  | succ n ih =>
    obtain ⟨hrow, hforeign⟩ := migrateRow_purge info (row i) s
    by_cases hgo : (row i).busy = false ∧ (migrateRow info (row i) s).1 = some false
    · rw [migrateLoop_of_next hgo.1 (by rw [hrow]; exact hgo.2), migrateLoop_of_next hgo.1 hgo.2,
        hrow, ← hforeign]
      exact ih (i + 1) _
    · have hstop : (row i).busy = true ∨ (migrateRow info (row i) s).1 ≠ some false := by
        rcases Bool.eq_false_or_eq_true (row i).busy with hbusy | hbusy
        · exact Or.inl hbusy
        · exact Or.inr fun hfalse => hgo ⟨hbusy, hfalse⟩
      rw [migrateLoop_of_stop (hstop.imp_right Or.inr), migrateLoop_of_stop]
      · exact ⟨hrow, hforeign⟩
      · rw [hrow]
        exact hstop.imp_right Or.inr

theorem migrateRows_purge (e : CallEvents) (s : Tables ρ) :
    migrateRows info e (s.purge info) =
        ((migrateRows info e s).1, (migrateRows info e s).2.purge info) ∧
      (migrateRows info e s).2.foreign info = s.foreign info := by
  obtain ⟨hloop, hforeign⟩ := migrateLoop_purge info e.row migrationBatchCount 0 s
  simp only [migrateRows, hloop]
  split_ifs
  · exact ⟨rfl, hforeign⟩
  · exact ⟨rfl, rfl⟩
  · exact ⟨rfl, rfl⟩

end Migrate

/-! ### Runs -/

section Run

variable [DecidableEq κ] [LinearOrder ι] (info : MigrationInfo ρ κ)

/-- **The condition on a step**, in the state in which it is taken. -/
def Isolated (s : Migrating ρ) : MigratingAction ρ ι → Prop
  | .insert stmt => s.migrated = false → InsertIsolated info stmt s.tables
  | .updateOrDelete stmt _ _ => s.migrated = false → WriteIsolated info stmt s.tables
  | .dropTable => True
  | .migrateRows _ => True

/-- The state without the rows of others. -/
def Migrating.purge (s : Migrating ρ) : Migrating ρ := { s with tables := s.tables.purge info }

/-- A step with its outcome, recorded with the state in which it is taken. -/
def recordStep (σ : Migrating ρ × List (Migrating ρ × MigratingAction ρ ι × Bool))
    (a : MigratingAction ρ ι) :
    Option (Migrating ρ × List (Migrating ρ × MigratingAction ρ ι × Bool)) :=
  (σ.1.step info a).map fun out => (out.2, σ.2 ++ [(σ.1, a, out.1)])

variable {info}

/-- An `UPDATE` or `DELETE` does not see the rows of others, and leaves them as they are. -/
theorem stepUpdateOrDelete_purge {stmt : UpdateOrDelete ρ ι} {s : Tables ρ}
    (h : WriteIsolated info stmt s) (plan : SelectPlan) (fuel : ℕ) :
    stepUpdateOrDelete info stmt plan fuel (s.purge info) =
        (stepUpdateOrDelete info stmt plan fuel s).map (purgeOutcome info) ∧
      ∀ s' trace, stepUpdateOrDelete info stmt plan fuel s = some (some (s', trace)) →
        s'.foreign info = s.foreign info := by
  rw [stepUpdateOrDelete, stepUpdateOrDelete, Tables.unionedView_purge, openSelect_purge]
  exact stepLoop_purge h fuel ⟨fun side a ha => Or.inl ha, rfl⟩ (cursorReach_openSelect plan s)

/-- **One step.** It leaves the rows of others as they are, and has the outcome that it has without
them. -/
theorem step_isolated {s s' : Migrating ρ} {a : MigratingAction ρ ι} {ok : Bool}
    (h : Isolated info s a) (hstep : s.step info a = some (ok, s')) :
    s'.tables.foreign info = s.tables.foreign info ∧
      ∃ t, (s.purge info).step info a = some (ok, t) := by
  cases a with
  | insert stmt =>
    cases hm : s.migrated with
    | true =>
      simp only [Migrating.step, hm, if_true] at hstep
      simp only [Migrating.step, Migrating.purge, hm, if_true, Tables.purge_target]
      split at hstep
      next hnone =>
        cases hstep
        exact ⟨rfl, _, rfl⟩
      next target outcome k hsome =>
        cases hstep
        exact ⟨rfl, _, rfl⟩
    | false =>
      obtain ⟨hok, hforeign⟩ := stepInsert_purge (h hm) s.lastInsertedRowID
      simp only [Migrating.step, hm, Bool.false_eq_true, if_false] at hstep
      cases hstep
      refine ⟨?_, _, by simp only [Migrating.step, Migrating.purge, hm, Bool.false_eq_true,
        if_false, hok]; rfl⟩
      simp only
      split_ifs with hsucceeds
      · exact hforeign hsucceeds
      · rfl
  | updateOrDelete stmt plan fuel =>
    cases hm : s.migrated with
    | true =>
      simp only [Migrating.step, hm, if_true] at hstep
      simp only [Migrating.step, Migrating.purge, hm, if_true, Tables.purge_target]
      split at hstep
      next hnone =>
        cases hstep
        exact ⟨rfl, _, rfl⟩
      next t hsome =>
        cases hstep
        exact ⟨rfl, _, rfl⟩
    | false =>
      obtain ⟨hpurge, hforeign⟩ := stepUpdateOrDelete_purge (h hm) plan fuel
      simp only [Migrating.step, hm, Bool.false_eq_true, if_false] at hstep
      simp only [Migrating.step, Migrating.purge, hm, Bool.false_eq_true, if_false, hpurge]
      obtain ⟨out, hout, heq⟩ := Option.map_eq_some_iff.mp hstep
      rw [hout]
      cases out with
      | none =>
        cases heq
        exact ⟨rfl, _, rfl⟩
      | some out =>
        cases heq
        exact ⟨hforeign out.1 out.2 hout, _, rfl⟩
  | dropTable =>
    have hdrop : (s.tables.dropTable info).foreign info = s.tables.foreign info := by
      refine Table.ext_mem fun a => ?_
      simp only [Tables.mem_foreign, Tables.dropTable, Table.mem_filter, Bool.not_eq_true']
      exact ⟨fun ha => ⟨ha.1.1, ha.2⟩, fun ha => ⟨ha, ha.2⟩⟩
    cases hm : s.migrated with
    | true =>
      simp only [Migrating.step, hm, if_true] at hstep
      cases hstep
      simp only [Migrating.step, Migrating.purge, hm, if_true]
      exact ⟨rfl, _, rfl⟩
    | false =>
      simp only [Migrating.step, hm, Bool.false_eq_true, if_false] at hstep
      cases hstep
      simp only [Migrating.step, Migrating.purge, hm, Bool.false_eq_true, if_false]
      exact ⟨hdrop, _, rfl⟩
  | migrateRows e =>
    cases hm : s.migrated with
    | true =>
      simp only [Migrating.step, hm, if_true] at hstep
      cases hstep
      simp only [Migrating.step, Migrating.purge, hm, if_true]
      exact ⟨trivial, _, rfl⟩
    | false =>
      obtain ⟨hpurge, hforeign⟩ := migrateRows_purge info e s.tables
      simp only [Migrating.step, hm, Bool.false_eq_true, if_false] at hstep
      cases hstep
      simp only [Migrating.step, Migrating.purge, hm, Bool.false_eq_true, if_false, hpurge]
      exact ⟨hforeign, _, rfl⟩

end Run

/-! ### Two target tables -/

/-- Messages with an integer primary key and a unique text. The rows that are marked are migrated to
this target table, the others to another one. -/
def markedInfo : MigrationInfo (Bool × String) String where
  schema := { check := fun _ => true, uniques := [fun message => some message.2] }
  filterCondition := fun r => r.2.1
  integerPrimaryKey := true
  autoincrement := false

/-- A row of the target table, a row to be migrated and a row of others. -/
def markedMessages : Migrating (Bool × String) where
  tables :=
    { target := { table := ⟨[(3, true, "a")], by simp⟩ }
      source := { table := ⟨[(1, true, "b"), (2, false, "x")], by simp⟩ } }

/-- An `INSERT` of a message. -/
def insertMarked (conflict : OnConflict (Bool × String)) (primaryKey : PrimaryKeyValue)
    (text : String) : MigratingAction (Bool × String) ℕ :=
  .insert { conflict, primaryKey, data := (true, text) }

end Wcdb
