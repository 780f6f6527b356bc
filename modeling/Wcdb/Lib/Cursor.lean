import Wcdb.Lib.TableMap
import Mathlib.Data.List.MinMax

/-!
# A cursor on a table that changes

A select that stays open while the table is written. It looks for the next row that lies ahead and
satisfies the condition now. Only where the scan does not have the order of an `ORDER BY` already,
the rows are sorted before the first one is delivered.

`UpdateOrDelete.loop` runs a program for each row delivered. `Undisturbed` says, of a statement on
one table that is carried out row by row, that the cursor would deliver exactly the rows which the
statement selects. `loop_refines` is the rule: a program that does to the content of its state what
the statement does to the row then does to it what the whole statement does.
-/

namespace Sql

variable {ρ κ ι σ : Type}

/-- A weaker relation between two results. -/
theorem rel_of_imp {α β : Type} {R Q : α → β → Prop} (h : ∀ a b, R a b → Q a b) {a : Option α}
    {b : Option β} (hrel : Option.Rel R a b) : Option.Rel Q a b := by
  cases hrel with
  | some hab => exact .some (h _ _ hab)
  | none => exact .none

/-- Where an open select stands. -/
inductive Scan (ρ ι : Type) where
  /-- After a row, with so many rows still to be delivered. -/
  | index (last : Option (ι ×ₗ ℤ)) (left : Option ℕ)
  /-- In the list of sorted rows. -/
  | sorted (rows : List (ℤ × ρ))

namespace UpdateOrDelete

variable [LinearOrder ι] (stmt : UpdateOrDelete ρ ι)

/-- The select before its first step. `sorter` says that SQLite sorts the rows for `ORDER BY`. -/
def openScan (sorter : Bool) (t : Table ρ) : Scan ρ ι :=
  if stmt.orderBy.isSome && sorter then .sorted (stmt.selected t) else .index none stmt.limit

/-- A row lies ahead of the cursor and satisfies the condition. -/
def ahead (start current : Multiset (ℤ × ρ)) (last : Option (ι ×ₗ ℤ)) (r : ℤ × ρ) : Bool :=
  (last.all fun p => decide (p < stmt.position r)) && stmt.condition start current r

/-- A step of the select: the row delivered, and the cursor after it. -/
def nextRow (start : Multiset (ℤ × ρ)) (t : Table ρ) :
    Scan ρ ι → Option ((ℤ × ρ) × Scan ρ ι)
  | .sorted [] => none
  | .sorted (r :: rows) => some (r, .sorted rows)
  | .index last left =>
      if left = some 0 then none
      else
        ((t.rows.filter (stmt.ahead start t.content last)).argmin stmt.position).map fun r =>
          (r, .index (some (stmt.position r)) (left.map fun n => n - 1))

/-- Run a program for each row delivered: `some none` when it fails, `none` when `fuel` does not
suffice. -/
def loop (content : σ → Table ρ) (body : σ → ℤ × ρ → Option σ) (start : Multiset (ℤ × ρ)) :
    ℕ → σ → Scan ρ ι → Option (Option σ)
  | 0, _, _ => none
  | fuel + 1, s, scan =>
      match stmt.nextRow start (content s) scan with
      | none => some (some s)
      | some (r, scan) =>
          match body s r with
          | none => some none
          | some s => loop content body start fuel s scan

/-- The loop depends on the rows that are delivered. -/
theorem loop_congr {stmt stmt' : UpdateOrDelete ρ ι} (h : stmt.nextRow = stmt'.nextRow)
    (content : σ → Table ρ) (body : σ → ℤ × ρ → Option σ) (start : Multiset (ℤ × ρ)) (fuel : ℕ)
    (s : σ) (scan : Scan ρ ι) :
    stmt.loop content body start fuel s scan = stmt'.loop content body start fuel s scan := by
  induction fuel generalizing s scan with
  | zero => rfl
  | succ fuel ih => simp only [loop, h, ih]

variable [DecidableEq κ] (S : Schema ρ κ)

/-- The cursor delivers one row after the other while the statement changes them, each of them in
a table in which `ok` holds of it, and nothing after the last one. -/
def Undisturbed (ok : Table ρ → ℤ × ρ → Prop) (start : Multiset (ℤ × ρ)) :
    List (ℤ × ρ) → Table ρ → Scan ρ ι → Prop
  | [], t, scan => stmt.nextRow start t scan = none
  | r :: rows, t, scan =>
      ∃ scan', stmt.nextRow start t scan = some (r, scan') ∧ ok t r ∧
        ∀ t', stmt.action.apply S start t.content t r = some t' →
          Undisturbed ok start rows t' scan'

variable {stmt S}

/-- **The rule for a loop over a cursor.** -/
theorem loop_refines (content : σ → Table ρ) (body : σ → ℤ × ρ → Option σ)
    (ok : Table ρ → ℤ × ρ → Prop) {start : Multiset (ℤ × ρ)} (I : σ → Prop) {rows : List (ℤ × ρ)}
    (hbody : ∀ s, ∀ r ∈ rows, I s → ok (content s) r →
      Option.Rel (fun s' t => content s' = t ∧ I s') (body s r)
        (stmt.action.apply S start (content s).content (content s) r))
    {fuel : ℕ} (hfuel : rows.length < fuel) {s : σ} (hs : I s) {scan : Scan ρ ι}
    (hrows : stmt.Undisturbed S ok start rows (content s) scan) :
    ∃ out, stmt.loop content body start fuel s scan = some out ∧
      Option.Rel (fun s' t => content s' = t ∧ I s') out
        (stmt.action.applyAll S start rows (content s)) := by
  induction rows generalizing s scan fuel with
  | nil =>
    cases fuel with
    | zero => exact absurd hfuel (Nat.not_lt_zero _)
    | succ fuel =>
      rw [Undisturbed] at hrows
      exact ⟨some s, by rw [loop, hrows], .some ⟨rfl, hs⟩⟩
  | cons r rows ih =>
    cases fuel with
    | zero => exact absurd hfuel (Nat.not_lt_zero _)
    | succ fuel =>
      obtain ⟨scan', hnext, hok, hrest⟩ := hrows
      have hstep := hbody s r List.mem_cons_self hs hok
      rw [RowAction.applyAll, loop, hnext]
      generalize hout : body s r = out at hstep
      cases happly : stmt.action.apply S start (content s).content (content s) r with
      | none =>
        rw [happly] at hstep
        cases hstep
        exact ⟨none, by simp only [hout], .none⟩
      | some t =>
        rw [happly] at hstep
        cases hstep with
        | some h =>
          obtain ⟨rfl, hs'⟩ := h
          simp only [Option.bind_some, hout]
          exact ih (fun s r hr => hbody s r (List.mem_cons_of_mem _ hr))
            (Nat.lt_of_succ_lt_succ hfuel) hs' (hrest _ happly)

end UpdateOrDelete

end Sql
