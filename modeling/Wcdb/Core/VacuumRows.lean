import Mathlib.Algebra.Order.Ring.Int
import Wcdb.Lib.Table

/-!
# Copying the rows of a table in a vacuum

`copyNormalTable` copies the rows of a table in batches of ascending rowid. A batch starts one above
the last rowid that the connection inserted, and the copying ends when a batch changed nothing. The
arithmetic on rowids is that of `int64_t`, in which an overflow is undefined.

`copyNormalTable_copies_iff`: whatever fails on the way, the copying does not overflow and copies
every row, exactly if the largest rowid has a successor and the distance from the smallest rowid to
it can be represented; for a table without rows, if the last inserted rowid has a successor.
-/

namespace Wcdb.VacuumRows

open Sql

variable {ρ : Type}

def maxRowid : ℤ := 9223372036854775807

def minRowid : ℤ := -9223372036854775808

/-- An `int64_t`. -/
abbrev Rowid := { z : ℤ // minRowid ≤ z ∧ z ≤ maxRowid }

/-- The result of an operation on `int64_t` can be represented. -/
def InRange (z : ℤ) : Prop := minRowid ≤ z ∧ z ≤ maxRowid

instance (z : ℤ) : Decidable (InRange z) := inferInstanceAs (Decidable (_ ∧ _))

/-- A table with rowids of 64 bits. -/
structure Original (ρ : Type) extends Table ρ where
  inRange : ∀ r ∈ rows, InRange r.1

/-- `SELECT max(rowid)`, where `NULL` is read as 0. -/
def Original.max (t : Original ρ) : ℤ := (t.last.map Prod.fst).getD 0

/-- `SELECT min(rowid)`. -/
def Original.min (t : Original ρ) : ℤ := (t.rows.head?.map Prod.fst).getD 0

/-! ### The code -/

/-- The new table, and what `sqlite3_last_insert_rowid` and `sqlite3_changes` say. -/
structure Connection (ρ : Type) where
  table : Table ρ
  lastInsertedRowID : ℤ
  changes : ℕ

def vacuumBatchCount : ℕ := 1000

/-- `SELECT … WHERE rowid >= ? ORDER BY rowid ASC LIMIT 1000`. -/
def selected (original : Table ρ) (from' : ℤ) : List (ℤ × ρ) :=
  (original.rows.filter fun r => from' ≤ r.1).take vacuumBatchCount

/-- `INSERT INTO … SELECT …`; a rowid that is taken makes it fail. -/
def insert (original : Table ρ) (from' : ℤ) (c : Connection ρ) : Option (Connection ρ) :=
  let rows := selected original from'
  if ∃ r ∈ rows, ∃ a ∈ c.table, a.1 = r.1 then none
  else some {
    table := rows.foldl Table.put c.table
    lastInsertedRowID := (rows.getLast?.map Prod.fst).getD c.lastInsertedRowID
    changes := rows.length }

/-- What happens to a batch: whether its statement fails, and whether the progress is refused. -/
structure BatchEvent where
  fails : Bool := false
  cancelled : Bool := false
  deriving DecidableEq, Repr

/-- What happens to a table: whether the statements before the batches succeed, and each batch. -/
structure CopyEvents where
  prepares : Bool := true
  batch : ℕ → BatchEvent := fun _ => {}

inductive Outcome where
  | returned (result : Bool)
  | overflowed
  deriving DecidableEq, Repr

/-- The progress of a batch, `(last - cur + 1) / (max - min + 1)`, does not overflow. -/
def ProgressInRange (original : Original ρ) (curMinRowid last : ℤ) : Prop :=
  InRange (last - curMinRowid) ∧ InRange (last - curMinRowid + 1) ∧
    InRange (original.max - original.min) ∧ InRange (original.max - original.min + 1)

instance (original : Original ρ) (curMinRowid last : ℤ) :
    Decidable (ProgressInRange original curMinRowid last) :=
  inferInstanceAs (Decidable (_ ∧ _))

/-- The rows that are not below a rowid. -/
def remaining (original : Table ρ) (from' : ℤ) : List (ℤ × ρ) :=
  original.rows.filter fun r => from' ≤ r.1

theorem selected_eq_take (original : Table ρ) (from' : ℤ) :
    selected original from' = (remaining original from').take vacuumBatchCount := rfl

theorem remaining_sorted (original : Table ρ) (from' : ℤ) :
    (remaining original from').Pairwise fun a b => a.1 < b.1 := original.sorted.filter _

theorem remaining_remaining {original : Table ρ} {a b : ℤ} (h : a ≤ b) :
    (remaining original a).filter (fun r => b ≤ r.1) = remaining original b := by
  rw [remaining, remaining, List.filter_filter]
  refine List.filter_congr fun r _ => ?_
  simpa using h.trans

/-- The last row of a batch is one of the rows that remain. -/
theorem mem_of_selected {original : Table ρ} {from' : ℤ} {r : ℤ × ρ}
    (h : r ∈ selected original from') : r ∈ original ∧ from' ≤ r.1 := by
  obtain ⟨hmem, hfrom⟩ := List.mem_filter.mp (List.mem_of_mem_take h)
  exact ⟨hmem, by simpa using hfrom⟩

/-- A batch that selects rows leaves fewer of them. -/
theorem remaining_length_lt {original : Table ρ} {from' : ℤ} {r : ℤ × ρ}
    (h : (selected original from').getLast? = some r) :
    (remaining original (r.1 + 1)).length < (remaining original from').length := by
  have hmem : r ∈ selected original from' := List.mem_of_getLast? h
  have hfrom := (mem_of_selected hmem).2
  rw [← remaining_remaining (a := from') (by omega), List.length_filter_lt_length_iff_exists]
  exact ⟨r, List.mem_of_mem_take hmem, by simp⟩

/-- A batch that inserts rows ends with the last one it selects. -/
theorem insert_changes {original : Table ρ} {from' : ℤ} {c c' : Connection ρ}
    (h : insert original from' c = some c') (hchanges : 0 < c'.changes) :
    ∃ r, (selected original from').getLast? = some r ∧ c'.lastInsertedRowID = r.1 := by
  rw [insert] at h
  split_ifs at h
  obtain rfl := Option.some.inj h
  cases hlast : (selected original from').getLast? with
  | none =>
    rw [List.getLast?_eq_none_iff.mp hlast] at hchanges
    exact absurd hchanges (lt_irrefl 0)
  | some r => exact ⟨r, rfl, rfl⟩

/-- The loop of `copyNormalTable`, from a batch on. -/
def copyLoop (original : Original ρ) (events : ℕ → BatchEvent) (i : ℕ) (curMinRowid : ℤ)
    (c : Connection ρ) : Outcome × Connection ρ :=
  if (events i).fails then (.returned false, c)
  else
    match hinsert : insert original.toTable curMinRowid c with
    | none => (.returned false, c)
    | some c' =>
        if ¬ProgressInRange original curMinRowid c'.lastInsertedRowID then (.overflowed, c')
        else if (events i).cancelled then (.returned false, c')
        else if ¬InRange (c'.lastInsertedRowID + 1) then (.overflowed, c')
        else if hchanges : 0 < c'.changes then
          copyLoop original events (i + 1) (c'.lastInsertedRowID + 1) c'
        else (.returned true, c')
termination_by (remaining original.toTable curMinRowid).length
decreasing_by
  obtain ⟨r, hlast, hrowid⟩ := insert_changes hinsert hchanges
  rw [hrowid]
  exact remaining_length_lt hlast

/-- `copyNormalTable`, on a connection that has inserted `last` before; the new table is empty. -/
def copyNormalTable (original : Original ρ) (events : CopyEvents) (last : ℤ) :
    Outcome × Connection ρ :=
  let c : Connection ρ := { table := Table.empty, lastInsertedRowID := last, changes := 0 }
  if events.prepares then copyLoop original events.batch 0 original.min c else (.returned false, c)

/-- Whatever fails on the way, the copying does not overflow, and when it succeeds the new table has
the rows of the original. -/
def Copies (original : Original ρ) (last : ℤ) : Prop :=
  ∀ events : CopyEvents, (copyNormalTable original events last).1 ≠ .overflowed ∧
    ((copyNormalTable original events last).1 = .returned true →
      (copyNormalTable original events last).2.table = original.toTable)

/-- The rowids that the copying computes can be represented. -/
def Representable (original : Original ρ) (last : ℤ) : Prop :=
  (original.rows = [] ∧ last < maxRowid) ∨
    (original.rows ≠ [] ∧ original.max < maxRowid ∧ original.max - original.min < maxRowid)

/-! ### One batch -/

theorem copyLoop_of_insert {original : Original ρ} {events : ℕ → BatchEvent} {i : ℕ}
    {curMinRowid : ℤ} {c c' : Connection ρ} (hfails : (events i).fails = false)
    (hinsert : insert original.toTable curMinRowid c = some c') :
    copyLoop original events i curMinRowid c =
      if ¬ProgressInRange original curMinRowid c'.lastInsertedRowID then (.overflowed, c')
      else if (events i).cancelled then (.returned false, c')
      else if ¬InRange (c'.lastInsertedRowID + 1) then (.overflowed, c')
      else if 0 < c'.changes then
        copyLoop original events (i + 1) (c'.lastInsertedRowID + 1) c'
      else (.returned true, c') := by
  rw [copyLoop, if_neg (by rw [hfails]; simp)]
  split
  · rename_i hnone
    rw [hinsert] at hnone
    cases hnone
  · rename_i c'' hsome
    obtain rfl : c' = c'' := Option.some.inj (hinsert.symm.trans hsome)
    simp only [dite_eq_ite]

theorem mem_foldl_put {rows : List (ℤ × ρ)} {t : Table ρ} {a : ℤ × ρ}
    (hfresh : ∀ r ∈ rows, ∀ b ∈ t, b.1 ≠ r.1) (hrows : rows.Pairwise fun a b => a.1 < b.1) :
    a ∈ rows.foldl Table.put t ↔ a ∈ t ∨ a ∈ rows := by
  induction rows generalizing t with
  | nil => simp
  | cons r rows ih =>
    obtain ⟨hhead, htail⟩ := List.pairwise_cons.mp hrows
    have hput : ∀ r' ∈ rows, ∀ b ∈ t.put r, b.1 ≠ r'.1 := fun r' hr' b hb => by
      rcases Table.mem_put.mp hb with rfl | ⟨hb, -⟩
      · exact ne_of_lt (hhead r' hr')
      · exact hfresh r' (List.mem_cons_of_mem _ hr') b hb
    rw [List.foldl_cons, ih hput htail, Table.mem_put, List.mem_cons]
    constructor
    · rintro ((rfl | ⟨ha, -⟩) | ha)
      · exact Or.inr (Or.inl rfl)
      · exact Or.inl ha
      · exact Or.inr (Or.inr ha)
    · rintro (ha | rfl | ha)
      · exact Or.inl (Or.inr ⟨ha, hfresh r List.mem_cons_self a ha⟩)
      · exact Or.inl (Or.inl rfl)
      · exact Or.inr ha

section Batch

variable {original : Original ρ} {curMinRowid : ℤ} {c c' : Connection ρ} {r : ℤ × ρ}

theorem selected_sorted (original : Table ρ) (from' : ℤ) :
    (selected original from').Pairwise fun a b => a.1 < b.1 :=
  (remaining_sorted original from').sublist (List.take_sublist _ _)

/-- A batch without rows: nothing is left. -/
theorem selected_eq_nil {original : Table ρ} {from' : ℤ} (h : selected original from' = []) :
    ∀ r ∈ original, r.1 < from' := by
  rw [selected_eq_take, List.take_eq_nil_iff] at h
  have hnil := h.resolve_left (by decide)
  intro r hr
  by_contra hge
  have hmem : r ∈ remaining original from' :=
    List.mem_filter.mpr ⟨hr, by simpa using hge⟩
  rw [hnil] at hmem
  exact absurd hmem List.not_mem_nil

/-- The rows of a batch are those up to the last of them. -/
theorem mem_selected_iff {original : Table ρ} {from' : ℤ} {last a : ℤ × ρ}
    (hlast : (selected original from').getLast? = some last) :
    a ∈ selected original from' ↔ a ∈ original ∧ from' ≤ a.1 ∧ a.1 ≤ last.1 := by
  have hsplit : remaining original from' =
      selected original from' ++ (remaining original from').drop vacuumBatchCount :=
    (List.take_append_drop _ _).symm
  obtain ⟨before, hbefore⟩ := List.getLast?_eq_some_iff.mp hlast
  constructor
  · intro ha
    obtain ⟨hmem, hfrom⟩ := mem_of_selected ha
    refine ⟨hmem, hfrom, ?_⟩
    have hsorted := selected_sorted original from'
    rw [hbefore, List.pairwise_append] at hsorted
    rcases List.mem_append.mp (hbefore ▸ ha) with hin | hin
    · exact le_of_lt (hsorted.2.2 a hin last (List.mem_singleton.mpr rfl))
    · exact le_of_eq (by rw [List.mem_singleton.mp hin])
  · rintro ⟨hmem, hfrom, hle⟩
    have hremains : a ∈ remaining original from' :=
      List.mem_filter.mpr ⟨hmem, by simpa using hfrom⟩
    rw [hsplit] at hremains
    refine (List.mem_append.mp hremains).resolve_right fun hdrop => ?_
    have hsorted := remaining_sorted original from'
    rw [hsplit, List.pairwise_append] at hsorted
    exact absurd (hsorted.2.2 last (List.mem_of_getLast? hlast) a hdrop) (not_lt.mpr hle)

/-- The copying stands at a rowid: the rows below it are copied, and it is one above the last
inserted rowid or there is a row left. -/
structure Reached (original : Original ρ) (curMinRowid : ℤ) (c : Connection ρ) : Prop where
  min_le : original.min ≤ curMinRowid
  le_max : curMinRowid ≤ original.max + 1
  table : ∀ r, r ∈ c.table ↔ r ∈ original.toTable ∧ r.1 < curMinRowid
  last : c.lastInsertedRowID + 1 = curMinRowid ∨ selected original.toTable curMinRowid ≠ []

theorem Original.le_max (h : r ∈ original.toTable) : r.1 ≤ original.max := by
  rw [Original.max]
  cases hlast : original.last with
  | none => exact absurd h (Table.last_eq_none.mp hlast r)
  | some a => exact (Table.last_eq_some.mp hlast).2 r h

theorem Original.min_le (h : r ∈ original.toTable) : original.min ≤ r.1 := by
  have hsorted := original.sorted
  rw [Original.min]
  cases hrows : original.rows with
  | nil => exact absurd (hrows ▸ h : r ∈ ([] : List (ℤ × ρ))) List.not_mem_nil
  | cons a rows =>
    rw [hrows] at hsorted
    rcases List.mem_cons.mp (hrows ▸ h : r ∈ a :: rows) with rfl | hmem
    · exact le_refl _
    · exact le_of_lt ((List.pairwise_cons.mp hsorted).1 r hmem)

theorem Original.exists_max (h : original.rows ≠ []) :
    ∃ r ∈ original.toTable, r.1 = original.max := by
  rw [Original.max]
  cases hlast : original.last with
  | none => exact absurd (List.getLast?_eq_none_iff.mp hlast) h
  | some a => exact ⟨a, (Table.last_eq_some.mp hlast).1, rfl⟩

theorem Original.exists_min (h : original.rows ≠ []) :
    ∃ r ∈ original.toTable, r.1 = original.min := by
  rw [Original.min]
  cases hrows : original.rows with
  | nil => exact absurd hrows h
  | cons a rows => exact ⟨a, Table.mem_def.mpr (hrows ▸ List.mem_cons_self), rfl⟩

/-- A batch that selects nothing changes nothing. -/
theorem Reached.insert_nil (hnil : selected original.toTable curMinRowid = []) :
    insert original.toTable curMinRowid c = some { c with changes := 0 } := by
  simp [insert, hnil]

/-- A batch that selects rows takes the copying above the last of them. -/
theorem Reached.insert_rows (h : Reached original curMinRowid c)
    (hlast : (selected original.toTable curMinRowid).getLast? = some r) :
    ∃ c', insert original.toTable curMinRowid c = some c' ∧ c'.lastInsertedRowID = r.1 ∧
      0 < c'.changes ∧ Reached original (r.1 + 1) c' := by
  have hfresh : ∀ a ∈ selected original.toTable curMinRowid, ∀ b ∈ c.table, b.1 ≠ a.1 :=
    fun a ha b hb => by
      have hbelow := ((h.table b).mp hb).2
      have habove := (mem_of_selected ha).2
      omega
  have hmem : r ∈ selected original.toTable curMinRowid := List.mem_of_getLast? hlast
  have hne := List.ne_nil_of_mem hmem
  refine ⟨_, if_neg ?_, ?_, List.length_pos_of_mem hmem, ?_⟩
  · rintro ⟨a, ha, b, hb, heq⟩
    exact hfresh a ha b hb heq
  · simp [hlast]
  · refine ⟨h.min_le.trans ?_, ?_, fun a => ?_, Or.inl (by simp [hlast])⟩
    · have := (mem_of_selected hmem).2
      omega
    · have := original.le_max (mem_of_selected hmem).1
      omega
    · rw [mem_foldl_put hfresh (selected_sorted _ _), h.table, mem_selected_iff hlast]
      have := (mem_of_selected hmem).2
      constructor
      · rintro (⟨ha, hlt⟩ | ⟨ha, -, hle⟩)
        · exact ⟨ha, by omega⟩
        · exact ⟨ha, by omega⟩
      · rintro ⟨ha, hlt⟩
        by_cases hbelow : a.1 < curMinRowid
        · exact Or.inl ⟨ha, hbelow⟩
        · exact Or.inr ⟨ha, by omega, by omega⟩

end Batch

/-! ### The loop -/

section Loop

variable {original : Original ρ} {events : ℕ → BatchEvent} {i : ℕ} {curMinRowid : ℤ}
  {c : Connection ρ}

/-- When a batch selects nothing, every row is copied. -/
theorem Reached.complete (h : Reached original curMinRowid c)
    (hnil : selected original.toTable curMinRowid = []) : c.table = original.toTable :=
  Table.ext_mem fun r => by
    rw [h.table]
    exact ⟨fun hr => hr.1, fun hr => ⟨hr, selected_eq_nil hnil r hr⟩⟩

/-- The loop stays in range and ends with every row copied. -/
theorem copyLoop_copies (hrows : original.rows ≠ []) (hmax : original.max < maxRowid)
    (hspan : original.max - original.min < maxRowid) (h : Reached original curMinRowid c) :
    (copyLoop original events i curMinRowid c).1 ≠ .overflowed ∧
      ((copyLoop original events i curMinRowid c).1 = .returned true →
        (copyLoop original events i curMinRowid c).2.table = original.toTable) := by
  have hmaxRowid : maxRowid = 9223372036854775807 := rfl
  have hminRowid : minRowid = -9223372036854775808 := rfl
  obtain ⟨top, htop, hmaxEq⟩ := original.exists_max hrows
  obtain ⟨bottom, hbottom, hminEq⟩ := original.exists_min hrows
  have hspan0 : original.min ≤ original.max := hmaxEq ▸ original.min_le htop
  have hlow : minRowid ≤ original.min := hminEq ▸ (original.inRange bottom hbottom).1
  -- the rows that remain become fewer with every batch that selects some
  induction hn : (remaining original.toTable curMinRowid).length using Nat.strong_induction_on
    generalizing i curMinRowid c with
  | _ n ih =>
    by_cases hfails : (events i).fails = true
    · rw [copyLoop, if_pos hfails]
      simp
    rw [Bool.not_eq_true] at hfails
    cases hlast : (selected original.toTable curMinRowid).getLast? with
    | none =>
      have hnil := List.getLast?_eq_none_iff.mp hlast
      have hcur : c.lastInsertedRowID + 1 = curMinRowid := h.last.resolve_right fun hne => hne hnil
      have hprogress : ProgressInRange original curMinRowid c.lastInsertedRowID := by
        have hle := h.min_le
        simp only [ProgressInRange, InRange]
        omega
      have hnext : InRange (c.lastInsertedRowID + 1) := by
        have hle := h.min_le
        have hle' := h.le_max
        simp only [InRange]
        omega
      rw [copyLoop_of_insert hfails (Reached.insert_nil hnil), if_neg (not_not.mpr hprogress),
        if_neg (not_not.mpr hnext), if_neg (lt_irrefl 0)]
      split_ifs
      · simp
      · exact ⟨by simp, fun _ => h.complete hnil⟩
    | some r =>
      obtain ⟨c', hinsert, hrowid, hchanges, hreached⟩ := h.insert_rows hlast
      have hfrom := mem_of_selected (List.mem_of_getLast? hlast)
      have hle := original.le_max hfrom.1
      have hprogress : ProgressInRange original curMinRowid c'.lastInsertedRowID := by
        have hmin := h.min_le
        simp only [ProgressInRange, InRange]
        omega
      have hnext : InRange (c'.lastInsertedRowID + 1) := by
        have hmin := h.min_le
        simp only [InRange]
        omega
      rw [copyLoop_of_insert hfails hinsert, if_neg (not_not.mpr hprogress),
        if_neg (not_not.mpr hnext), if_pos hchanges]
      split_ifs
      · simp
      · rw [hrowid]
        exact ih _ (hn ▸ remaining_length_lt hlast) hreached rfl

/-- If nothing fails and the largest rowid has no successor, the loop comes to overflow. -/
theorem copyLoop_overflows (hmax : original.max = maxRowid)
    (hevents : ∀ i, events i = {}) (h : Reached original curMinRowid c)
    (hcur : selected original.toTable curMinRowid ≠ []) :
    (copyLoop original events i curMinRowid c).1 = .overflowed := by
  induction hn : (remaining original.toTable curMinRowid).length using Nat.strong_induction_on
    generalizing i curMinRowid c with
  | _ n ih =>
    have hfails : (events i).fails = false := by rw [hevents]
    have hcancelled : (events i).cancelled = false := by rw [hevents]
    cases hlast : (selected original.toTable curMinRowid).getLast? with
    | none => exact absurd (List.getLast?_eq_none_iff.mp hlast) hcur
    | some r =>
      obtain ⟨c', hinsert, hrowid, hchanges, hreached⟩ := h.insert_rows hlast
      rw [copyLoop_of_insert hfails hinsert, hcancelled, if_neg Bool.false_ne_true,
        if_pos hchanges, hrowid]
      split_ifs with hprogress hnext
      -- a successor that can be represented is not above the largest rowid
      · refine ih _ (hn ▸ remaining_length_lt hlast) hreached (fun hnil => ?_) rfl
        obtain ⟨top, htop, htopEq⟩ := original.exists_max fun hrows => by
          have hin := (mem_of_selected (List.mem_of_getLast? hlast)).1
          rw [Table.mem_def, hrows] at hin
          exact absurd hin List.not_mem_nil
        have hlt := selected_eq_nil hnil top htop
        simp only [InRange] at hnext
        omega
      · rfl
      · rfl

end Loop

/-- The first batch selects a row, if there is one. -/
theorem Original.reached_min {original : Original ρ} (hrows : original.rows ≠ []) (last : ℤ) :
    Reached original original.min
      { table := Table.empty, lastInsertedRowID := last, changes := 0 } ∧
    selected original.toTable original.min ≠ [] := by
  obtain ⟨bottom, hbottom, heq⟩ := original.exists_min hrows
  have hselected : selected original.toTable original.min ≠ [] := fun hnil =>
    absurd (selected_eq_nil hnil bottom hbottom) (by omega)
  refine ⟨⟨le_refl _, ?_, fun r => ?_, Or.inr hselected⟩, hselected⟩
  · have := original.le_max hbottom
    omega
  · refine iff_of_false (fun hr => absurd hr List.not_mem_nil) fun hr => ?_
    have := original.min_le hr.1
    omega

section Whole

variable {original : Original ρ} {last : ℤ}

/-- On a table without rows the loop runs once, and only its arithmetic matters. -/
theorem copyLoop_nil (hrows : original.rows = []) {events : ℕ → BatchEvent}
    (hfails : (events 0).fails = false) :
    copyLoop original events 0 original.min
      { table := Table.empty, lastInsertedRowID := last, changes := 0 } =
    if ¬(InRange last ∧ InRange (last + 1)) then
      (.overflowed, { table := Table.empty, lastInsertedRowID := last, changes := 0 })
    else if (events 0).cancelled then
      (.returned false, { table := Table.empty, lastInsertedRowID := last, changes := 0 })
    else (.returned true, { table := Table.empty, lastInsertedRowID := last, changes := 0 }) := by
  have hselected : selected original.toTable original.min = [] := by simp [selected, hrows]
  have hmin : original.min = 0 := by simp [Original.min, hrows]
  have hmax : original.max = 0 := by simp [Original.max, Table.last, hrows]
  have hprogress : ProgressInRange original original.min last ↔
      InRange last ∧ InRange (last + 1) := by
    rw [ProgressInRange, hmin, hmax, sub_zero, ← and_assoc]
    exact and_iff_left (by decide)
  rw [copyLoop_of_insert hfails (Reached.insert_nil hselected), if_neg (lt_irrefl 0 : ¬0 < 0)]
  simp only [hprogress]
  by_cases h : InRange last ∧ InRange (last + 1)
  · simp [h]
  · simp [h]

theorem Copies.representable (h : Copies original last) :
    Representable original last := by
  have hmaxRowid : maxRowid = 9223372036854775807 := rfl
  have hrun := (h {}).1
  rw [copyNormalTable, if_pos rfl] at hrun
  by_cases hrows : original.rows = []
  · refine Or.inl ⟨hrows, ?_⟩
    by_contra hnot
    refine hrun ?_
    rw [copyLoop_nil hrows rfl, if_pos]
    simp only [InRange]
    omega
  · obtain ⟨hreached, hselected⟩ := original.reached_min hrows last
    refine Or.inr ⟨hrows, ?_, ?_⟩
    · obtain ⟨top, htop, htopEq⟩ := original.exists_max hrows
      refine lt_of_le_of_ne (htopEq ▸ (original.inRange top htop).2) fun hmax => ?_
      exact hrun (copyLoop_overflows hmax (fun _ => rfl) hreached hselected)
    · by_contra hspan
      obtain ⟨r, hr⟩ : ∃ r, (selected original.toTable original.min).getLast? = some r :=
        Option.ne_none_iff_exists'.mp fun hnone => hselected (List.getLast?_eq_none_iff.mp hnone)
      obtain ⟨c', hinsert, -⟩ := hreached.insert_rows hr
      refine hrun ?_
      rw [copyLoop_of_insert rfl hinsert, if_pos]
      simp only [ProgressInRange, InRange]
      omega

theorem Representable.copies (hlast : InRange last) (h : Representable original last) :
    Copies original last := by
  intro events
  rw [copyNormalTable]
  by_cases hprepares : events.prepares = true
  · rw [if_pos hprepares]
    rcases h with ⟨hrows, hlt⟩ | ⟨hrows, hmax, hspan⟩
    · by_cases hfails : (events.batch 0).fails = true
      · rw [copyLoop, if_pos hfails]
        simp
      · have hnext : InRange last ∧ InRange (last + 1) := by
          simp only [InRange] at hlast ⊢
          omega
        have htable : Table.empty = original.toTable := Table.ext_mem fun r => by
          rw [Table.mem_def, Table.mem_def, hrows]
          exact Iff.rfl
        rw [copyLoop_nil hrows (by simpa using hfails), if_neg (not_not.mpr hnext)]
        split_ifs
        · simp
        · exact ⟨by simp, fun _ => htable⟩
    · exact copyLoop_copies hrows hmax hspan (original.reached_min hrows last).1
  · rw [if_neg hprepares]
    simp

end Whole

end Wcdb.VacuumRows
