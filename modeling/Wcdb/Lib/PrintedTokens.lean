import Wcdb.Lib.SqlLexer

/-!
# The tokens of what is printed in pieces

A printer streams a text piece by piece. `Reads ps Q y` says that the pieces `ps` keep their tokens
before the text `y` exactly when `Q` holds; then the rest of the tokens are those of `y`.

Pieces are put together from three kinds: a `Lead` goes before any text, such as a keyword with a
blank after it; a `Body` is closed by a blank, a bracket, a comma or the end; a `Trail` starts with
one of these.
-/

namespace SqlLexer

open SqlText (Text text isDigit inWord)

variable {ps qs : List Text} {p w y : Text} {c : UInt8} {Q R : Prop}

/-- The pieces `ps` keep their tokens before `y` exactly when `Q` holds. -/
def Reads (ps : List Text) (Q : Prop) (y : Text) : Prop :=
  ∀ x, lex (ps.flatten ++ y) = ps.flatMap lex ++ x ↔ Q ∧ lex y = x

theorem Reads.nil (y : Text) : Reads [] True y := fun x => by simp

theorem Reads.congr (h : Reads ps Q y) (hQ : Q ↔ R) : Reads ps R y := fun x => by rw [h x, hQ]

theorem Reads.append (h : Reads ps Q (qs.flatten ++ y)) (h' : Reads qs R y) :
    Reads (ps ++ qs) (Q ∧ R) y := by
  intro x
  rw [List.flatten_append, List.flatMap_append, List.append_assoc, List.append_assoc, h, h',
    and_assoc]

/-- The pieces of a whole text. -/
theorem Reads.lex_iff (h : Reads ps Q []) : lex ps.flatten = ps.flatMap lex ↔ Q := by
  simpa [show lex [] = [] from rfl] using h []

/-- A piece keeps its tokens unless the last of them goes on with the next byte. -/
theorem reads_piece (hp : clean p = true)
    (hy : ∀ c ∈ y.head?, joins c = true ∨ runsOn p c = false) :
    Reads [p] (y.head?.any (runsOn p) = false) y := by
  intro x
  rw [List.flatten_singleton, List.flatMap_singleton]
  cases hend : y.head?.any (runsOn p) with
  | false => rw [lex_append hp hend]; simp
  | true =>
    cases y with
    | nil => cases hend
    | cons c y =>
      have hjoins := (hy c rfl).resolve_right (by simpa using hend)
      simpa using lex_append_ne hp hjoins hend y x

/-! ### Leads, bodies and trails -/

/-- A text that is empty or begins with a blank, a closing bracket or a comma. -/
def Closed (y : Text) : Prop := y.head?.all ends = true

/-- The pieces do not make a text begin with a vertical tab, which a blank would take in. -/
def Proper (ps : List Text) : Prop :=
  ∀ y : Text, y.head? ≠ some 11 → (ps.flatten ++ y).head? ≠ some 11

structure Lead (ps : List Text) : Prop where
  proper : Proper ps
  reads : ∀ y, y.head? ≠ some 11 → Reads ps True y

structure Body (ps : List Text) (Q : Prop) : Prop where
  proper : Proper ps
  reads : ∀ y, Closed y → Reads ps Q y

structure Trail (ps : List Text) (Q : Prop) : Prop where
  proper : Proper ps
  closed : ∀ y, Closed y → Closed (ps.flatten ++ y)
  reads : ∀ y, Closed y → Reads ps Q y

theorem Closed.head (hy : Closed y) : y.head? ≠ some 11 := by
  intro h
  rw [Closed, h] at hy
  cases hy

theorem Closed.runsOn (hy : Closed y) (p : Text) : y.head?.any (SqlLexer.runsOn p) = false := by
  cases y with
  | nil => rfl
  | cons c y => exact runsOn_of_ends p (by simpa [Closed] using hy)

/-- No whole token begins with a vertical tab. -/
theorem clean_head (hp : clean p = true) : p.head? ≠ some 11 := by
  cases p with
  | nil => exact fun h => nomatch h
  | cons b z =>
    rintro h
    cases h
    exact (clean_cons hp rfl).2.1 rfl

theorem head_append_ne (hp : p.head? ≠ some c) (hy : y.head? ≠ some c) :
    (p ++ y).head? ≠ some c := by
  cases p with
  | nil => exact hy
  | cons b z => exact hp

theorem Reads.clean (hp : clean p = true) (hend : y.head?.any (SqlLexer.runsOn p) = false) :
    Reads [p] True y := by
  refine (reads_piece hp fun c hc => Or.inr ?_).congr (iff_true_intro hend)
  rw [Option.mem_def] at hc
  rwa [hc, Option.any_some] at hend

theorem Proper.nil : Proper [] := fun _ hy => hy

theorem Proper.piece (hp : p.head? ≠ some 11) : Proper [p] := fun _ hy => by
  rw [List.flatten_singleton]
  exact head_append_ne hp hy

theorem Proper.append (h : Proper ps) (h' : Proper qs) : Proper (ps ++ qs) := fun y hy => by
  rw [List.flatten_append, List.append_assoc]
  exact h _ (h' y hy)

theorem Body.clean (hp : clean p = true) : Body [p] True where
  proper := Proper.piece (clean_head hp)
  reads _ hy := Reads.clean hp (hy.runsOn p)

theorem Body.nil : Body [] True where
  proper := Proper.nil
  reads y _ := Reads.nil y

theorem Lead.nil : Lead [] where
  proper := Proper.nil
  reads y _ := Reads.nil y

theorem Trail.nil : Trail [] True where
  proper := Proper.nil
  closed _ hy := hy
  reads y _ := Reads.nil y

theorem Lead.append (h : Lead ps) (h' : Lead qs) : Lead (ps ++ qs) where
  proper := h.proper.append h'.proper
  reads y hy :=
    ((h.reads _ (h'.proper y hy)).append (h'.reads y hy)).congr (iff_of_eq (and_true True))

theorem Lead.alone (h : Lead ps) : Body ps True := ⟨h.proper, fun y hy => h.reads y hy.head⟩

theorem Lead.body (h : Lead ps) (h' : Body qs Q) : Body (ps ++ qs) Q where
  proper := h.proper.append h'.proper
  reads y hy :=
    ((h.reads _ (h'.proper y hy.head)).append (h'.reads y hy)).congr (iff_of_eq (true_and Q))

theorem Body.trail (h : Body ps Q) (h' : Trail qs R) : Body (ps ++ qs) (Q ∧ R) where
  proper := h.proper.append h'.proper
  reads y hy := (h.reads _ (h'.closed y hy)).append (h'.reads y hy)

theorem Trail.append (h : Trail ps Q) (h' : Trail qs R) : Trail (ps ++ qs) (Q ∧ R) where
  proper := h.proper.append h'.proper
  closed y hy := by
    rw [List.flatten_append, List.append_assoc]
    exact h.closed _ (h'.closed y hy)
  reads y hy := (h.reads _ (h'.closed y hy)).append (h'.reads y hy)

/-- Before a trail that keeps its tokens. -/
theorem Body.follow (h : Body ps Q) (h' : Trail qs True) : Body (ps ++ qs) Q :=
  ⟨h.proper.append h'.proper, fun y hy =>
    ((h.trail h').reads y hy).congr (iff_of_eq (and_true Q))⟩

theorem Body.congr (h : Body ps Q) (hQ : Q ↔ R) : Body ps R where
  proper := h.proper
  reads y hy := (h.reads y hy).congr hQ

theorem Trail.congr (h : Trail ps Q) (hQ : Q ↔ R) : Trail ps R where
  proper := h.proper
  closed := h.closed
  reads y hy := (h.reads y hy).congr hQ

/-- A piece that goes before any text: it ends in a blank, or in a mark such as a bracket. -/
def opens (w : Text) : Bool :=
  clean w && (tokens w).getLast?.any fun t => t.kind == .space || t.kind == .mark

theorem opens_clean (hw : opens w = true) : SqlLexer.clean w = true :=
  (Bool.and_eq_true _ _ ▸ hw).1

theorem Lead.piece (hw : opens w = true) : Lead [w] where
  proper := Proper.piece (clean_head (opens_clean hw))
  reads y hy := by
    rw [opens, Bool.and_eq_true] at hw
    refine Reads.clean hw.1 ?_
    cases y with
    | nil => rfl
    | cons c y =>
      have hc : c ≠ 11 := fun h => hy (congrArg some h)
      rw [List.head?_cons, Option.any_some, SqlLexer.runsOn]
      cases hlast : (tokens w).getLast? with
      | none => rfl
      | some t =>
        rw [hlast, Option.any_some, Bool.or_eq_true, beq_iff_eq, beq_iff_eq] at hw
        rw [Option.any_some]
        rcases hw.2 with h | h <;> rw [h]
        · exact beq_eq_false_iff_ne.mpr hc
        · rfl

/-- What begins with a blank, a closing bracket or a comma closes the text before it. -/
theorem closed_cons (hends : w.head?.any ends = true) (qs : List Text) (y : Text) :
    Closed ((w :: qs).flatten ++ y) := by
  cases w with
  | nil => cases hends
  | cons b w => exact hends

/-- A trail is opened by a piece such as ` WHERE `. -/
theorem Trail.cons (hw : opens w = true) (hends : w.head?.any ends = true) (h : Body qs Q) :
    Trail (w :: qs) Q where
  proper := ((Lead.piece hw).body h).proper
  closed := fun y _ => closed_cons hends qs y
  reads := ((Lead.piece hw).body h).reads

/-- A closing bracket. -/
theorem Trail.piece (hw : clean w = true) (hends : w.head?.any ends = true) : Trail [w] True where
  proper := Proper.piece (clean_head hw)
  closed := fun y _ => closed_cons hends [] y
  reads _ hy := Reads.clean hw (hy.runsOn w)

/-- A body with a blank after it. -/
theorem Body.lead (h : Body ps Q) (hQ : Q) (hw : opens w = true) (hends : w.head?.any ends = true) :
    Lead (ps ++ [w]) where
  proper := h.proper.append (Lead.piece hw).proper
  reads y hy := ((h.reads _ (closed_cons hends [] y)).append ((Lead.piece hw).reads y hy)).congr
    (iff_true_intro ⟨hQ, trivial⟩)

theorem Lead.ite {b : Prop} [Decidable b] (h : b → Lead ps) : Lead (if b then ps else []) := by
  split_ifs with hb
  · exact h hb
  · exact Lead.nil

theorem Trail.ite {b : Prop} [Decidable b] (h : ¬ b → Trail ps True) :
    Trail (if b then [] else ps) True := by
  split_ifs with hb
  · exact Trail.nil
  · exact h hb

theorem Trail.elim {α : Type} {f : α → List Text} (h : ∀ a, Trail (f a) True) (o : Option α) :
    Trail (o.elim [] f) True := by
  cases o with
  | none => exact Trail.nil
  | some a => exact h a

theorem Trail.flatMap {α : Type} {f : α → List Text} (h : ∀ a, Trail (f a) True) (as : List α) :
    Trail (as.flatMap f) True := by
  induction as with
  | nil => exact Trail.nil
  | cons a as ih => exact ((h a).append ih).congr (iff_of_eq (and_true True))

/-! ### Lists and brackets -/

/-- Pieces with commas between them. -/
def separated : List (List Text) → List Text
  | [] => []
  | [l] => l
  | l :: m :: ls => l ++ text ", " :: separated (m :: ls)

def bracketed (l : List Text) : List Text := text "(" :: (l ++ [text ")"])

theorem Body.bracketed (h : Body ps Q) : Body (bracketed ps) Q :=
  (Lead.piece (by decide)).body (h.follow (Trail.piece (by decide) (by decide)))

/-- A keyword or a name right before a bracket. -/
theorem Body.call (hw : SqlLexer.clean w = true) (h40 : SqlLexer.runsOn w 40 = false)
    (h : Body ps Q) : Body (w :: SqlLexer.bracketed ps) Q where
  proper := (Proper.piece (clean_head hw)).append h.bracketed.proper
  reads y hy :=
    ((Reads.clean (y := (SqlLexer.bracketed ps).flatten ++ y) hw h40).append
      (h.bracketed.reads y hy)).congr (iff_of_eq (true_and Q))

theorem Body.separated {α : Type} {f : α → List Text} {P : α → Prop} (h : ∀ a, Body (f a) (P a))
    (as : List α) : Body (separated (as.map f)) (∀ a ∈ as, P a) := by
  induction as with
  | nil => exact Body.nil.congr (by simp)
  | cons a as ih =>
    cases as with
    | nil => exact (h a).congr (by simp)
    | cons b as =>
      exact ((h a).trail (Trail.cons (by decide) (by decide) ih)).congr (by simp)

theorem Body.list {α : Type} {f : α → Text} (h : ∀ a, SqlLexer.clean (f a) = true) (as : List α) :
    Body (SqlLexer.separated (as.map fun a => [f a])) True :=
  (Body.separated (fun a => Body.clean (h a)) as).congr (by simp)

/-- The last of a list goes on with what follows the list, and nothing else in it does. -/
theorem reads_list {α : Type} {f : α → Text} (h : ∀ a, clean (f a) = true) {as : List α}
    (has : as ≠ []) (hc : joins c = true) (y : Text) :
    Reads (separated (as.map fun a => [f a])) (runsOn (f (as.getLast has)) c = false) (c :: y) := by
  have hhead : (c :: y).head? ≠ some 11 := fun h => ne_of_joins hc rfl (Option.some.inj h)
  induction as with
  | nil => exact absurd rfl has
  | cons a as ih =>
    cases as with
    | nil =>
      refine (reads_piece (h a) fun d hd => Or.inl ?_).congr (by simp)
      cases hd
      exact hc
    | cons b as =>
      have hrest := ih (List.cons_ne_nil b as)
      have hcomma := ((Lead.piece (w := text ", ") (by decide)).reads _
        ((Body.list h (b :: as)).proper _ hhead)).append hrest
      have hfirst : Reads [f a] True
          ((text ", " :: separated ((b :: as).map fun a => [f a])).flatten ++ c :: y) :=
        Reads.clean (h a) (runsOn_of_ends _ (by decide))
      exact (hfirst.append hcomma).congr (by simp)

end SqlLexer
