import Wcdb.Lib.Table
import Mathlib.Data.Prod.Lex
import Mathlib.Algebra.Group.Int.Defs

/-!
# Statements on one table

The constraints of a table and what `INSERT`, `UPDATE` and `DELETE` of a row do under them, as
SQLite documents it. A statement that fails leaves everything as it was, so failure is `none`.

* `Schema.insertRow` inserts a row whose key is known. The conflict clause decides what happens
  when the row **clashes** with others: when they have its key, or its value in a unique index.
  The constraint that an upsert clause names is checked before all others.
* `Store.insert` also chooses the key: the one given, or the largest key plus one. A table with
  `AUTOINCREMENT` never uses a key again; the largest one so far is its row of `sqlite_sequence`.
* `Schema.updateRow` replaces one row. `Schema.updateOrDelete` is an `UPDATE` or a `DELETE` of the
  rows that satisfy a condition: SQLite first collects them, and then changes one after the other.
-/

namespace Sql

variable {ρ κ : Type}

/-- The constraints of a table: `NOT NULL` and `CHECK`, and the unique indexes. A row in which a
column of the index is null has no value there. -/
structure Schema (ρ κ : Type) where
  check : ρ → Bool
  uniques : List (ρ → Option κ)

/-- The constraint that an upsert clause names, or any of them. -/
inductive ConflictTarget where
  | any
  | key
  | index (i : ℕ)
  deriving DecidableEq, Repr

/-- The conflict clause of an `INSERT`. An upsert updates the row it hits, or does nothing when
`update` is `none`: `DO NOTHING`, or a condition that is false. -/
inductive OnConflict (ρ : Type) where
  | abort
  | replace
  | ignore
  | upsert (target : ConflictTarget) (update : ℤ × ρ → ℤ × ρ → Option (ℤ × ρ))

/-- What became of the row. -/
inductive Outcome where
  | inserted
  | updated
  | ignored
  deriving DecidableEq, Repr

/-- `MAX_ROWID`. -/
def maxRowid : ℤ := 2 ^ 63 - 1

section Rows

variable [DecidableEq κ] (S : Schema ρ κ)

/-- Two values of one unique index that are equal and not null. -/
def sameIndex (u : ρ → Option κ) (a b : ρ) : Bool := (u a).isSome && decide (u a = u b)

/-- Two rows that cannot be in one table. -/
def Schema.clash (a b : ℤ × ρ) : Bool :=
  decide (a.1 = b.1) || S.uniques.any fun u => sameIndex u a.2 b.2

/-- The row `old` violates the constraint that the upsert clause of `new` names. -/
def Schema.hits (target : ConflictTarget) (new old : ℤ × ρ) : Bool :=
  match target with
  | .any => S.clash new old
  | .key => decide (new.1 = old.1)
  | .index i => (S.uniques[i]?).any fun u => sameIndex u new.2 old.2

/-- No row of the table clashes with a row. -/
def Schema.free (t : Table ρ) (r : ℤ × ρ) : Bool := t.rows.all fun a => !S.clash r a

/-- A row can be added. -/
def Schema.insertable (t : Table ρ) (r : ℤ × ρ) : Bool := S.check r.2 && S.free t r

/-- `UPDATE` of one row. A key that is no integer of 64 bits is an error. -/
def Schema.updateRow (t : Table ρ) (old new : ℤ × ρ) : Option (Table ρ) :=
  if -maxRowid - 1 ≤ new.1 ∧ new.1 ≤ maxRowid ∧ S.insertable (t.erase old.1) new then
    some ((t.erase old.1).put new)
  else none

/-- `INSERT` of one row. -/
def Schema.insertRow (c : OnConflict ρ) (t : Table ρ) (r : ℤ × ρ) : Option (Table ρ × Outcome) :=
  if S.check r.2 then
    match c with
    | .abort => if S.free t r then some (t.put r, .inserted) else none
    | .ignore => if S.free t r then some (t.put r, .inserted) else some (t, .ignored)
    | .replace => some ((t.filter fun a => !S.clash r a).put r, .inserted)
    | .upsert target update =>
        match t.rows.find? (S.hits target r) with
        | some old =>
            match update old r with
            | none => some (t, .ignored)
            | some new => (S.updateRow t old new).map fun t => (t, .updated)
        | none => if S.free t r then some (t.put r, .inserted) else none
  else
    match c with
    | .ignore => some (t, .ignored)
    | _ => none

variable {S}

theorem clash_of_key {a b : ℤ × ρ} (h : a.1 = b.1) : S.clash a b = true := by
  simp [Schema.clash, h]

theorem free_iff {t : Table ρ} {r : ℤ × ρ} :
    S.free t r = true ↔ ∀ a ∈ t, S.clash r a = false := by
  simp [Schema.free, Table.mem_def]

theorem key_ne_of_free {t : Table ρ} {r : ℤ × ρ} (h : S.free t r = true) : ∀ a ∈ t, a.1 ≠ r.1 := by
  intro a ha heq
  have hclash := free_iff.mp h a ha
  rw [clash_of_key heq.symm] at hclash
  cases hclash

theorem free_of_subset {s t : Table ρ} {r : ℤ × ρ} (hsub : ∀ a ∈ s, a ∈ t)
    (h : S.free t r = true) : S.free s r = true :=
  free_iff.mpr fun a ha => free_iff.mp h a (hsub a ha)

/-- Rows that do not clash play no part. -/
theorem free_filter {t : Table ρ} {p : ℤ × ρ → Bool} {r : ℤ × ρ}
    (h : ∀ a ∈ t, p a = false → S.clash r a = false) : S.free (t.filter p) r = S.free t r := by
  rw [Bool.eq_iff_iff, free_iff, free_iff]
  constructor
  · intro hfree a ha
    cases hp : p a with
    | false => exact h a ha hp
    | true => exact hfree a (Table.mem_filter.mpr ⟨ha, hp⟩)
  · exact fun hfree a ha => hfree a (Table.mem_filter.mp ha).1

theorem insertable_iff {t : Table ρ} {r : ℤ × ρ} :
    S.insertable t r = true ↔ S.check r.2 = true ∧ S.free t r = true := by
  simp [Schema.insertable]

theorem insertable_filter {t : Table ρ} {p : ℤ × ρ → Bool} {r : ℤ × ρ}
    (h : ∀ a ∈ t, p a = false → S.clash r a = false) :
    S.insertable (t.filter p) r = S.insertable t r := by
  rw [Schema.insertable, Schema.insertable, free_filter h]

/-- `INSERT OR IGNORE` inserts a row that can be added, and nothing else. -/
theorem insertRow_ignore (t : Table ρ) (r : ℤ × ρ) :
    S.insertRow .ignore t r =
      if S.insertable t r then some (t.put r, .inserted) else some (t, .ignored) := by
  simp only [Schema.insertRow, Schema.insertable]
  by_cases hcheck : S.check r.2 = true <;> simp [hcheck]

/-- A conflict clause that is no upsert. -/
def OnConflict.Plain : OnConflict ρ → Prop
  | .upsert _ _ => False
  | _ => True

/-- Without upsert, a row is ignored, or inserted in the stead of the rows it clashes with. -/
theorem insertRow_cases {c : OnConflict ρ} (hc : c.Plain) {t t' : Table ρ} {r : ℤ × ρ}
    {outcome : Outcome} (h : S.insertRow c t r = some (t', outcome)) :
    outcome = .ignored ∧ t' = t ∨
      outcome = .inserted ∧ t' = (t.filter fun a => !S.clash r a).put r := by
  have hfilter : S.free t r = true → (t.filter fun a => !S.clash r a) = t := by
    intro hfree
    refine Table.ext_mem fun a => ?_
    rw [Table.mem_filter, Bool.not_eq_true']
    exact ⟨fun ha => ha.1, fun ha => ⟨ha, free_iff.mp hfree a ha⟩⟩
  cases c with
  | upsert _ _ => exact hc.elim
  | abort =>
    simp only [Schema.insertRow] at h
    split_ifs at h with hcheck hfree
    cases h
    exact Or.inr ⟨rfl, by rw [hfilter hfree]⟩
  | replace =>
    simp only [Schema.insertRow] at h
    split_ifs at h with hcheck
    cases h
    exact Or.inr ⟨rfl, rfl⟩
  | ignore =>
    rw [insertRow_ignore] at h
    split_ifs at h with hins
    · cases h
      exact Or.inr ⟨rfl, by rw [hfilter (insertable_iff.mp hins).2]⟩
    · cases h
      exact Or.inl ⟨rfl, rfl⟩

/-- Without upsert, the outcome depends on the data and on whether the row is free. -/
theorem insertRow_outcome {c : OnConflict ρ} (hc : c.Plain) {t t' : Table ρ} {k k' : ℤ} {data : ρ}
    (hfree : S.free t (k, data) = S.free t' (k', data)) :
    (S.insertRow c t (k, data)).map Prod.snd = (S.insertRow c t' (k', data)).map Prod.snd := by
  cases c with
  | upsert _ _ => exact hc.elim
  | abort | ignore =>
    simp only [Schema.insertRow, hfree]
    split_ifs <;> rfl
  | replace =>
    simp only [Schema.insertRow]
    split_ifs <;> rfl

end Rows

/-! ### Choosing a key -/

/-- The key of a row that brings none. When the largest key is taken, an unused key is tried at
random; `random` is the one found, if any. -/
def Table.newRowid (t : Table ρ) (random : Option ℤ) : Option ℤ :=
  match t.last with
  | none => some 1
  | some r => if r.1 < maxRowid then some (r.1 + 1) else random

/-- The key of a row that brings none, in a table with `AUTOINCREMENT`. -/
def Table.nextRowid (t : Table ρ) (seq : ℤ) : Option ℤ :=
  match t.last with
  | none => if seq < maxRowid then some (max 1 (seq + 1)) else none
  | some r => if r.1 < maxRowid ∧ seq < maxRowid then some (max (r.1 + 1) (seq + 1)) else none

/-- The largest key is taken. -/
def Table.Full (t : Table ρ) : Prop := ∃ r ∈ t, maxRowid ≤ r.1

theorem Table.lt_of_not_full {t : Table ρ} (h : ¬t.Full) : ∀ r ∈ t, r.1 < maxRowid :=
  fun r hr => not_le.mp fun hle => h ⟨r, hr, hle⟩

theorem Table.newRowid_of_full {t : Table ρ} (h : t.Full) (random : Option ℤ) :
    t.newRowid random = random := by
  obtain ⟨r, hr, hle⟩ := h
  rw [newRowid]
  split
  next hlast => exact absurd hr (last_eq_none.mp hlast r)
  next m hlast => exact if_neg (not_lt.mpr (le_trans hle ((last_eq_some.mp hlast).2 r hr)))

/-- A key that is chosen is larger than every key of the table. -/
theorem Table.newRowid_of_not_full {t : Table ρ} (h : ¬t.Full) (random : Option ℤ) :
    ∃ k, t.newRowid random = some k ∧ k ≤ maxRowid ∧ ∀ r ∈ t, r.1 < k := by
  rw [newRowid]
  split
  next hlast => exact ⟨1, rfl, by decide, fun r hr => absurd hr (last_eq_none.mp hlast r)⟩
  next m hlast =>
    obtain ⟨hm, hmax⟩ := last_eq_some.mp hlast
    have hlt := lt_of_not_full h m hm
    exact ⟨m.1 + 1, if_pos hlt, hlt, fun r hr => Int.lt_add_one_of_le (hmax r hr)⟩

theorem Table.nextRowid_of_full {t : Table ρ} {seq : ℤ} (h : t.Full ∨ maxRowid ≤ seq) :
    t.nextRowid seq = none := by
  rw [nextRowid]
  split
  next hlast =>
    refine if_neg (not_lt.mpr (h.resolve_left ?_))
    rintro ⟨r, hr, -⟩
    exact last_eq_none.mp hlast r hr
  next m hlast =>
    refine if_neg fun hlt => ?_
    rcases h with ⟨r, hr, hle⟩ | hle
    · exact not_lt.mpr (le_trans hle ((last_eq_some.mp hlast).2 r hr)) hlt.1
    · exact not_lt.mpr hle hlt.2

theorem Table.nextRowid_of_not_full {t : Table ρ} {seq : ℤ} (h : ¬t.Full) (hseq : seq < maxRowid) :
    ∃ k, t.nextRowid seq = some k ∧ k ≤ maxRowid ∧ seq < k ∧ ∀ r ∈ t, r.1 < k := by
  rw [nextRowid]
  split
  next hlast =>
    exact ⟨_, if_pos hseq, max_le (by decide) hseq, by omega,
      fun r hr => absurd hr (last_eq_none.mp hlast r)⟩
  next m hlast =>
    obtain ⟨hm, hmax⟩ := last_eq_some.mp hlast
    have hlt := lt_of_not_full h m hm
    exact ⟨_, if_pos ⟨hlt, hseq⟩, max_le hlt hseq, by omega,
      fun r hr => by have := hmax r hr; omega⟩

/-- A table with its row of `sqlite_sequence`, if it has one. -/
structure Store (ρ : Type) where
  table : Table ρ
  seq : Option ℤ := none

/-- A row to be inserted: its key, if it brings one, and its data. -/
structure NewRow (ρ : Type) where
  key : Option ℤ
  data : ρ
  random : Option ℤ := none

/-- The key that a new row gets. -/
def Store.keyFor (autoincrement : Bool) (st : Store ρ) (new : NewRow ρ) : Option ℤ :=
  match new.key with
  | some k => some k
  | none =>
      if autoincrement then st.table.nextRowid (st.seq.getD 0) else st.table.newRowid new.random

/-- Two stores that differ in rows below the largest key give keys that are equal, or both larger
than every key there. -/
theorem Store.keyFor_congr (st st' : Store ρ) (hseq : st'.seq = st.seq)
    (hfull : st'.table.Full ↔ st.table.Full) (autoincrement : Bool) (new : NewRow ρ) :
    st'.keyFor autoincrement new = st.keyFor autoincrement new ∨
      ∃ k k', st.keyFor autoincrement new = some k ∧ st'.keyFor autoincrement new = some k' ∧
        (k ≤ maxRowid ∧ ∀ r ∈ st.table, r.1 < k) ∧ k' ≤ maxRowid ∧ ∀ r ∈ st'.table, r.1 < k' := by
  rw [keyFor, keyFor]
  cases new.key with
  | some k => exact Or.inl rfl
  | none =>
    simp only [hseq]
    split_ifs with hauto
    · by_cases h : st.table.Full ∨ maxRowid ≤ st.seq.getD 0
      · left
        rw [Table.nextRowid_of_full h, Table.nextRowid_of_full (h.imp_left hfull.mpr)]
      · push Not at h
        obtain ⟨k, hk, hmax, -, hlt⟩ := Table.nextRowid_of_not_full h.1 h.2
        obtain ⟨k', hk', hmax', -, hlt'⟩ :=
          Table.nextRowid_of_not_full (fun hf => h.1 (hfull.mp hf)) h.2
        exact Or.inr ⟨k, k', hk, hk', ⟨hmax, hlt⟩, hmax', hlt'⟩
    · by_cases h : st.table.Full
      · left
        rw [Table.newRowid_of_full h, Table.newRowid_of_full (hfull.mpr h)]
      · obtain ⟨k, hk, hmax, hlt⟩ := Table.newRowid_of_not_full h new.random
        obtain ⟨k', hk', hmax', hlt'⟩ :=
          Table.newRowid_of_not_full (fun hf => h (hfull.mp hf)) new.random
        exact Or.inr ⟨k, k', hk, hk', ⟨hmax, hlt⟩, hmax', hlt'⟩

/-- The row of `sqlite_sequence` after an `INSERT` of a key, be it ignored or not. -/
def Store.seqAfter (autoincrement : Bool) (st : Store ρ) (k : ℤ) : Option ℤ :=
  if autoincrement then some (max (st.seq.getD 0) k) else st.seq

/-- `INSERT` of one row, with the key it got. -/
def Store.insert [DecidableEq κ] (S : Schema ρ κ) (autoincrement : Bool) (c : OnConflict ρ)
    (st : Store ρ) (new : NewRow ρ) : Option (Store ρ × Outcome × ℤ) :=
  match st.keyFor autoincrement new with
  | none => none
  | some k =>
      (S.insertRow c st.table (k, new.data)).map fun (t, outcome) =>
        (⟨t, st.seqAfter autoincrement k⟩, outcome, k)

/-! ### Update and delete -/

/-- What is done to a row. A `SET` list reads the row, the content at the start of the statement,
where a subquery that does not depend on the row is evaluated, and the current content. -/
inductive RowAction (ρ : Type) where
  | set (f : Multiset (ℤ × ρ) → Multiset (ℤ × ρ) → ℤ × ρ → ℤ × ρ)
  | delete

/-- An `UPDATE` or a `DELETE`. The condition reads the row and the content, as a `SET` list does.
`rank` is the value of the index by which a table is scanned, in the direction of the scan. -/
structure UpdateOrDelete (ρ ι : Type) where
  condition : Multiset (ℤ × ρ) → Multiset (ℤ × ρ) → ℤ × ρ → Bool
  orderBy : Option (ℤ × ρ → ℤ × ρ → Bool) := none
  limit : Option ℕ := none
  rank : ℤ × ρ → ι
  action : RowAction ρ

section Update

variable {ι : Type} [LinearOrder ι] (stmt : UpdateOrDelete ρ ι)

omit stmt in
/-- The order of positions, through instances that can be computed with. -/
instance positionOrder : Preorder (ι ×ₗ ℤ) :=
  (@Prod.Lex.instLinearOrder ι ℤ _ Int.instLinearOrder).toPreorder

/-- The position of a row in the scan of its table. -/
def UpdateOrDelete.position (r : ℤ × ρ) : ι ×ₗ ℤ := toLex (stmt.rank r, r.1)

/-- The rows of a table that satisfy the condition on some content, in the order of the scan. -/
def UpdateOrDelete.scanned (content : Multiset (ℤ × ρ)) (t : Table ρ) : List (ℤ × ρ) :=
  (t.rows.filter (stmt.condition content content)).mergeSort fun a b =>
    decide (stmt.position a ≤ stmt.position b)

omit [LinearOrder ι] in
/-- `ORDER BY` and `LIMIT` on the rows scanned. -/
def UpdateOrDelete.ordered (rows : List (ℤ × ρ)) : List (ℤ × ρ) :=
  let rows := match stmt.orderBy with
    | none => rows
    | some le => rows.mergeSort le
  match stmt.limit with
  | none => rows
  | some n => rows.take n

variable [DecidableEq κ] (S : Schema ρ κ)

/-- Do something to one row of a table. -/
def RowAction.apply (start current : Multiset (ℤ × ρ)) (t : Table ρ) (r : ℤ × ρ) :
    RowAction ρ → Option (Table ρ)
  | .set f => S.updateRow t r (f start current r)
  | .delete => some (t.erase r.1)

/-- Do it to one row after the other. -/
def RowAction.applyAll (action : RowAction ρ) (start : Multiset (ℤ × ρ)) :
    List (ℤ × ρ) → Table ρ → Option (Table ρ)
  | [], t => some t
  | r :: rows, t => (action.apply S start t.content t r).bind (action.applyAll start rows)

/-- An `UPDATE` or a `DELETE` on one table. -/
def Schema.updateOrDelete (t : Table ρ) : Option (Table ρ) :=
  stmt.action.applyAll S t.content (stmt.ordered (stmt.scanned t.content t)) t

end Update

end Sql
