import Mathlib.Data.List.Basic

/-!
# A database with one transaction and a stack of named savepoints

`Database N σ` is a database of contents `σ` as one connection sees it: the committed content
and, inside a transaction, the content so far together with the stack of savepoints, each a name
of `N` and the content at the time it was set. Names need not be distinct: a command that names a
savepoint means the **most recent** one of that name. `ROLLBACK TO` keeps the savepoint it goes
back to, `RELEASE` drops it with all the later ones.

`Levels` is the invariant of a client that nests transactions by numbering its savepoints and
that leaves the savepoint of a level on the stack when it rolls the level back: under the live
savepoint of each level there may be any number of **stale** entries of the same name.
-/

namespace Savepoint

/-- An open transaction; the most recent savepoint comes first. `explicit` is false when a
savepoint opened it. -/
structure Transaction (N σ : Type) where
  content : σ
  savepoints : List (N × σ)
  explicit : Bool
  deriving DecidableEq, Repr

structure Database (N σ : Type) where
  committed : σ
  transaction : Option (Transaction N σ)
  deriving DecidableEq, Repr

inductive Command (N σ : Type) where
  | begin
  | savepoint (name : N)
  | release (name : N)
  | rollbackTo (name : N)
  | commit
  | rollback
  | write (f : σ → σ)

/-- Why a command is refused. -/
inductive Refusal where
  | transactionWithinTransaction
  | noSuchSavepoint
  | noTransaction
  deriving DecidableEq, Repr

variable {N σ : Type}

/-- The content the connection sees. -/
def Database.content (d : Database N σ) : σ :=
  match d.transaction with
  | none => d.committed
  | some t => t.content

variable [DecidableEq N]

/-- The stack from the most recent savepoint of this name on. -/
def seek (name : N) : List (N × σ) → List (N × σ)
  | [] => []
  | e :: es => if e.1 = name then e :: es else seek name es

/-- What the database does with a command that meets no fault. -/
def Database.exec (d : Database N σ) : Command N σ → Except Refusal (Database N σ)
  | .begin =>
      match d.transaction with
      | none => .ok { d with transaction := some ⟨d.committed, [], true⟩ }
      | some _ => .error .transactionWithinTransaction
  | .savepoint name =>
      match d.transaction with
      | none => .ok { d with transaction := some ⟨d.committed, [(name, d.committed)], false⟩ }
      | some t =>
          .ok { d with transaction := some { t with savepoints := (name, t.content) ::
            t.savepoints } }
  | .release name =>
      match d.transaction with
      | none => .error .noSuchSavepoint
      | some t =>
          match seek name t.savepoints with
          | [] => .error .noSuchSavepoint
          | [_] =>
              -- the savepoint that opened the transaction commits it
              if t.explicit then .ok { d with transaction := some { t with savepoints := [] } }
              else .ok ⟨t.content, none⟩
          | _ :: rest => .ok { d with transaction := some { t with savepoints := rest } }
  | .rollbackTo name =>
      match d.transaction with
      | none => .error .noSuchSavepoint
      | some t =>
          match seek name t.savepoints with
          | [] => .error .noSuchSavepoint
          | e :: rest =>
              .ok { d with transaction := some { t with content := e.2, savepoints := e :: rest } }
  | .commit =>
      match d.transaction with
      | none => .error .noTransaction
      | some t => .ok ⟨t.content, none⟩
  | .rollback =>
      match d.transaction with
      | none => .error .noTransaction
      | some _ => .ok { d with transaction := none }
  | .write f =>
      match d.transaction with
      | none => .ok { d with committed := f d.committed }
      | some t => .ok { d with transaction := some { t with content := f t.content } }

/-! ### Numbered levels -/

section Levels

variable (name : ℕ → N)

/-- The savepoint stack of `saved.length` open levels, of which `saved` lists the contents at
their begins, innermost first. The outermost level has no savepoint of its own. On top there may
be stale entries of the level that would be opened next. -/
def Levels : List σ → List (N × σ) → Prop
  | [], _ => False
  | [_], stack => ∀ e ∈ stack, e.1 = name 2
  | s :: s' :: saved, stack =>
      ∃ stale rest, stack = stale ++ (name (saved.length + 2), s) :: rest ∧
        (∀ e ∈ stale, e.1 = name (saved.length + 3)) ∧ Levels (s' :: saved) rest

variable {name} {s s' : σ} {saved : List σ} {stack : List (N × σ)}

omit [DecidableEq N] in
theorem levels_nil (s : σ) : Levels name [s] ([] : List (N × σ)) := by
  intro e he
  cases he

omit [DecidableEq N] in
/-- Opening a level. -/
theorem Levels.push (h : Levels name (s :: saved) stack) (c : σ) :
    Levels name (c :: s :: saved) ((name (saved.length + 2), c) :: stack) :=
  ⟨[], stack, rfl, by simp, h⟩

omit [DecidableEq N] in
/-- The savepoint of a level that was rolled back stays as a stale entry. -/
theorem Levels.stale (h : Levels name (s :: saved) stack) (c : σ) :
    Levels name (s :: saved) ((name (saved.length + 2), c) :: stack) := by
  cases saved with
  | nil =>
    intro e he
    rcases List.mem_cons.mp he with rfl | he
    · rfl
    · exact h e he
  | cons s' saved =>
    obtain ⟨stale, rest, rfl, hstale, hrest⟩ := h
    refine ⟨(name (saved.length + 3), c) :: stale, rest, rfl, ?_, hrest⟩
    intro e he
    rcases List.mem_cons.mp he with rfl | he
    · rfl
    · exact hstale e he

theorem seek_append {n : N} {stale rest : List (N × σ)} (h : ∀ e ∈ stale, e.1 ≠ n) :
    seek n (stale ++ rest) = seek n rest := by
  induction stale with
  | nil => rfl
  | cons e stale ih =>
    rw [List.cons_append, seek, if_neg (h e List.mem_cons_self),
      ih fun x hx => h x (List.mem_cons_of_mem e hx)]

/-- **The name of a level finds its live savepoint**, under any stale entries. -/
theorem Levels.seek (hname : Function.Injective name)
    (h : Levels name (s :: s' :: saved) stack) :
    ∃ rest, Savepoint.seek (name (saved.length + 2)) stack =
        (name (saved.length + 2), s) :: rest ∧ Levels name (s' :: saved) rest := by
  obtain ⟨stale, rest, rfl, hstale, hrest⟩ := h
  refine ⟨rest, ?_, hrest⟩
  rw [seek_append, Savepoint.seek, if_pos rfl]
  intro e he hn
  have : saved.length + 3 = saved.length + 2 := hname ((hstale e he).symm.trans hn)
  omega

variable {d : Database N σ} {t : Transaction N σ}

/-- Ending a level by `RELEASE` keeps the content. -/
theorem Database.exec_release (hname : Function.Injective name) (ht : d.transaction = some t)
    (hexplicit : t.explicit = true) (h : Levels name (s :: s' :: saved) t.savepoints) :
    ∃ rest, d.exec (.release (name (saved.length + 2))) =
        .ok { d with transaction := some { t with savepoints := rest } } ∧
      Levels name (s' :: saved) rest := by
  obtain ⟨rest, hseek, hrest⟩ := h.seek hname
  refine ⟨rest, ?_, hrest⟩
  cases rest <;> simp [Database.exec, ht, hseek, hexplicit]

/-- Ending a level by `ROLLBACK TO` brings back the content at its begin. -/
theorem Database.exec_rollbackTo (hname : Function.Injective name) (ht : d.transaction = some t)
    (h : Levels name (s :: s' :: saved) t.savepoints) :
    ∃ rest, d.exec (.rollbackTo (name (saved.length + 2))) =
        .ok { d with transaction := some { t with content := s, savepoints := rest } } ∧
      Levels name (s' :: saved) rest := by
  obtain ⟨rest, hseek, hrest⟩ := h.seek hname
  refine ⟨(name (saved.length + 2), s) :: rest, ?_, hrest.stale s⟩
  simp [Database.exec, ht, hseek]

end Levels

end Savepoint
