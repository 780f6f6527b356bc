import Wcdb.Core.UpdateBindings

/-!
# What the parameters of a migrating statement hold

An `INSERT`, `UPDATE` or `DELETE` on a table that is being migrated becomes several statements.
`bindX` of `MigratingStatementDecorator` binds each of them that has the index, and every
statement but the main one is cleared by `clearBindings()`: for the main statement it calls
`Super::reset()` where `Super::clearBindings()` is meant. What was bound before stays in the main
statement, and only there. SQLite refuses every binding of a statement that was stepped and not
reset.

`bindings_reach` puts this together with the compressing `UPDATE`: the condition on the calls under
which every generated statement finds in its parameters what was bound last.
-/

namespace Wcdb.MigratingBindings

open UpdateBindings (Bound dropContent selectedRow setContent setContentCalls setContent_meets
  setContent_separate)

/-! ### The statements -/

/-- A statement as it is written, with its parameters. -/
inductive STMT where
  | insert (parameters : List ℕ)
  /-- The assigned expressions of an `UPDATE`, none in a `DELETE`; and the common table
  expressions, the condition, the ordering terms and the limit, which move to the select. -/
  | updateOrDelete (assigned moved : List ℕ)
  deriving DecidableEq, Repr

def STMT.parameters : STMT → List ℕ
  | .insert parameters => parameters
  | .updateOrDelete assigned moved => assigned ++ moved

/-- `m_rowidBindIndex`. -/
def STMT.rowidBindIndex (stmt : STMT) : ℕ := stmt.parameters.foldl max 0 + 1

/-- A generated statement: the parameters that it has from the original one, and the one that the
decorator binds itself. -/
structure Generated where
  original : List ℕ
  own : Option ℕ := none
  apart : ∀ k ∈ original, own ≠ some k

/-- `getBindParameterCount()`. -/
def Generated.bindParameterCount (g : Generated) : ℕ := (g.original ++ g.own.toList).foldl max 0

/-- How an `INSERT` chooses the key of the row in the target table. -/
structure KeyChoice where
  autoincrement : Bool
  selectsMaxID : Bool
  deriving DecidableEq, Repr

theorem ne_rowidBindIndex {stmt : STMT} {k : ℕ} (hk : k ∈ stmt.parameters) :
    some stmt.rowidBindIndex ≠ some k := by
  have hle := (le_foldl_max stmt.parameters 0).2 k hk
  rw [STMT.rowidBindIndex, ne_eq, Option.some.injEq]
  omega

/-- A statement in which every parameter is from the original one. -/
def Generated.plain (original : List ℕ) : Generated := ⟨original, none, fun _ _ h => nomatch h⟩

section Generate

variable (choice : KeyChoice)

/-- A statement with the parameter of the rowid. -/
def withRowid (stmt : STMT) (original : List ℕ) (h : ∀ k ∈ original, k ∈ stmt.parameters) :
    Generated where
  original
  own := some stmt.rowidBindIndex
  apart k hk := ne_rowidBindIndex (h k hk)

/-- The last statement. -/
def mainStatement : (stmt : STMT) → Generated
  | .insert parameters =>
      if choice.autoincrement then .plain parameters
      else withRowid (.insert parameters) parameters fun _ => id
  | .updateOrDelete assigned moved =>
      withRowid (.updateOrDelete assigned moved) assigned fun _ => List.mem_append_left _

/-- `m_additionalStatements`. -/
def additionalStatements : (stmt : STMT) → List Generated
  | .insert parameters =>
      .plain parameters ::
        -- delete the row from the source table
        { original := [], own := some 1, apart := fun _ h => absurd h List.not_mem_nil } ::
          if choice.autoincrement = false ∧ choice.selectsMaxID then
            [.plain []]
          else []
  | .updateOrDelete assigned moved =>
      [.plain moved,
        withRowid (.updateOrDelete assigned moved) assigned fun _ => List.mem_append_left _]

end Generate

/-! ### The calls -/

/-- A generated statement that is prepared, with what its parameters hold, and whether it was
stepped since it was reset. -/
structure Prepared where
  statement : Generated
  params : ℕ → Bound
  stepped : Bool := false

namespace Prepared

variable (p : Prepared)

def clearBindings : Prepared := { p with params := fun _ => .value .null }

def reset : Prepared := { p with stepped := false }

/-- `bindX`, if the statement has the index. -/
def bind (index : ℕ) (b : Bound) : Prepared :=
  if index ≤ p.statement.bindParameterCount ∧ p.stepped = false then
    { p with params := Function.update p.params index b }
  else p

/-- The binding that a step makes itself. -/
def bindOwn (n : Option ℤ) : Prepared :=
  match p.statement.own, n with
  | some k, some n => { p with params := Function.update p.params k (.value (.integer n)) }
  | _, _ => p

/-- A step, which may leave the statement stepped or not. -/
def step (n : Option ℤ) (stepped : Bool) : Prepared := { p.bindOwn n with stepped }

end Prepared

/-- The statements between two calls, and what was bound to each index since the last
`clearBindings()`. -/
structure State where
  main : Prepared
  additional : List Prepared
  last : ℕ → Bound

/-- After `prepare`. -/
def State.fresh (choice : KeyChoice) (stmt : STMT) : State where
  main := { statement := mainStatement choice stmt, params := fun _ => .value .null }
  additional := (additionalStatements choice stmt).map fun g =>
    { statement := g, params := fun _ => .value .null }
  last := fun _ => .value .null

/-- A call. A step carries the rowid or key that it binds last in the main statement and in each
additional one, if any, and whether it leaves them stepped. -/
inductive Call where
  | bind (index : ℕ) (b : Bound)
  | clearBindings
  | reset
  | step (main : Option ℤ × Bool) (additional : ℕ → Option ℤ × Bool)

def bind (index : ℕ) (b : Bound) (σ : State) : State where
  main := σ.main.bind index b
  additional := σ.additional.map fun p => p.bind index b
  last := Function.update σ.last index b

/-- The main statement is reset, not cleared. -/
def clearBindings (σ : State) : State where
  main := σ.main.reset
  additional := σ.additional.map Prepared.clearBindings
  last := fun _ => .value .null

def reset (σ : State) : State :=
  { σ with main := σ.main.reset, additional := σ.additional.map Prepared.reset }

def step (main : Option ℤ × Bool) (additional : ℕ → Option ℤ × Bool) (σ : State) : State :=
  { σ with
    main := σ.main.step main.1 main.2
    additional := σ.additional.mapIdx fun i p => p.step (additional i).1 (additional i).2 }

/-- One call. The index zero is refused by SQLite, and that of the rowid by an assertion. -/
def call (stmt : STMT) (σ : State) : Call → Option State
  | .bind index b =>
      if index = 0 then none
      else if index = stmt.rowidBindIndex then some σ
      else some (bind index b σ)
  | .clearBindings => some (clearBindings σ)
  | .reset => some (reset σ)
  | .step main additional => some (step main additional σ)

/-! ### The property -/

/-- A statement holds what was bound last. -/
def Prepared.Holds (last : ℕ → Bound) (p : Prepared) : Prop :=
  ∀ k ∈ p.statement.original, p.params k = last k

/-- **What a step finds**: every statement holds what was bound last. -/
structure Reaches (σ : State) : Prop where
  main : σ.main.Holds σ.last
  additional : ∀ p ∈ σ.additional, p.Holds σ.last

/-- **The condition on a call**: nothing is bound in a statement that was stepped and not reset, and
nothing is cleared unless the main statement holds nothing. -/
def Call.Sound (σ : State) : Call → Prop
  | .bind index _ =>
      ∀ p ∈ σ.main :: σ.additional, p.stepped = true → index ∉ p.statement.original
  | .clearBindings => ∀ k ∈ σ.main.statement.original, σ.main.params k = .value .null
  | _ => True

section Run

variable {choice : KeyChoice} {stmt : STMT} {σ τ : State} {last : ℕ → Bound} {p : Prepared}

theorem Prepared.Holds.bind (h : p.Holds last) {index : ℕ}
    (hready : p.stepped = true → index ∉ p.statement.original) (b : Bound) :
    (p.bind index b).Holds (Function.update last index b) := by
  rw [Prepared.bind]
  split_ifs with hindex
  · intro k hk
    change Function.update p.params index b k = _
    by_cases hki : k = index
    · rw [hki, Function.update_self, Function.update_self]
    · rw [Function.update_of_ne hki, Function.update_of_ne hki, h k hk]
  · intro k hk
    -- an index that the statement does not have
    have hle := (le_foldl_max (p.statement.original ++ p.statement.own.toList) 0).2 k
      (List.mem_append_left _ hk)
    have hki : k ≠ index := by
      rintro rfl
      exact hindex ⟨hle, Bool.eq_false_iff.mpr fun hstepped => hready hstepped hk⟩
    rw [Function.update_of_ne hki, h k hk]

theorem Prepared.Holds.bindOwn (h : p.Holds last) (n : Option ℤ) : (p.bindOwn n).Holds last := by
  obtain ⟨g, params⟩ := p
  cases hown : g.own with
  | none => simpa [Prepared.bindOwn, hown] using h
  | some k =>
    cases n with
    | none => simpa [Prepared.bindOwn, hown] using h
    | some n =>
      simp only [Prepared.bindOwn, hown]
      intro q hq
      have hne : q ≠ k := by
        rintro rfl
        exact g.apart q hq hown
      exact (Function.update_of_ne hne ..).trans (h q hq)

/-- A statement that was never stepped takes every binding. -/
theorem sound_bind (h : ∀ p ∈ σ.main :: σ.additional, p.stepped = false) (index : ℕ) (b : Bound) :
    Call.Sound σ (.bind index b) :=
  fun p hp hstepped => absurd hstepped (Bool.eq_false_iff.mp (h p hp))

theorem reaches_fresh : Reaches (.fresh choice stmt) := by
  refine ⟨fun _ _ => rfl, fun p hp => ?_⟩
  obtain ⟨g, -, rfl⟩ := List.mem_map.mp hp
  exact fun _ _ => rfl

/-- **Every call keeps what the statements hold.** -/
theorem reaches_call {c : Call} (h : Reaches σ) (hok : c.Sound σ) (hcall : call stmt σ c = some τ) :
    Reaches τ := by
  cases c with
  | bind index b =>
    simp only [call] at hcall
    split_ifs at hcall
    · cases hcall
      exact h
    · cases hcall
      refine ⟨h.main.bind (hok _ List.mem_cons_self) b, fun p hp => ?_⟩
      obtain ⟨q, hq, rfl⟩ := List.mem_map.mp hp
      exact (h.additional q hq).bind (hok q (List.mem_cons_of_mem _ hq)) b
  | clearBindings =>
    cases hcall
    refine ⟨hok, fun p hp => ?_⟩
    obtain ⟨q, -, rfl⟩ := List.mem_map.mp hp
    exact fun _ _ => rfl
  | reset =>
    cases hcall
    refine ⟨h.main, fun p hp => ?_⟩
    obtain ⟨q, hq, rfl⟩ := List.mem_map.mp hp
    exact h.additional q hq
  | step main additional =>
    cases hcall
    refine ⟨h.main.bindOwn main.1, fun p hp => ?_⟩
    obtain ⟨i, hi, rfl⟩ := List.mem_mapIdx.mp hp
    exact (h.additional _ (List.getElem_mem hi)).bindOwn (additional i).1

theorem reaches_of_meets {calls : List Call}
    (hok : Run.Meets (call stmt) Call.Sound (.fresh choice stmt) calls)
    (hexec : Run.exec (call stmt) (.fresh choice stmt) calls = some σ) : Reaches σ := by
  refine Run.inv_exec (I := Reaches) ?_ reaches_fresh hok hexec
  intro σ' c τ h hc hcall
  exact reaches_call h hc hcall

end Run

/-! ### Both decorators -/

/-- **Bindings reach every generated statement**, in every run whose calls meet the condition: for
every `UPDATE` on a compressing table whose contents have parameters of their own, and for every
`INSERT`, `UPDATE` or `DELETE` on a migrating table. -/
theorem bindings_reach {z : Zstd} (hz : z.Lawful) :
    (∀ u : UpdateBindings.Update, u.main.Separate →
      ∀ (calls : List UpdateBindings.Call) (can : Bool) (rows : List (ℤ × (ℕ → Value))),
        Run.Meets (UpdateBindings.call z u) (UpdateBindings.Call.Sound z u) .fresh
          (calls ++ [.step can rows]) →
        ∀ σ, Run.exec (UpdateBindings.call z u) .fresh calls = some σ →
          σ.main.compressFail = false → UpdateBindings.Reaches z u σ can rows) ∧
    ∀ (choice : KeyChoice) (stmt : STMT) (calls : List Call),
      Run.Meets (call stmt) Call.Sound (.fresh choice stmt) calls →
      ∀ σ, Run.exec (call stmt) (.fresh choice stmt) calls = some σ → Reaches σ := by
  refine ⟨?_, ?_⟩
  · intro u hs calls can rows hok σ hexec hfail
    exact UpdateBindings.reaches_of_meets hz hs hok hexec hfail
  · intro choice stmt calls hok σ hexec
    exact reaches_of_meets hok hexec

/-! ### One statement of each kind -/

/-- `UPDATE message SET talker = ?1 WHERE id = ?2`. -/
def setTalker : STMT := .updateOrDelete [1] [2]

/-- Both halves at concrete runs: the content reaches the row that is written, and the parameters
of a statement that is not cleared hold what was bound. -/
theorem bindings_reach_setContent :
    (∃ σ, UpdateBindings.Reaches runLength setContent σ true [selectedRow] ∧
      σ.rowSelection 2 = .value (.integer 7)) ∧
    ∃ σ, Run.exec (call setTalker) (.fresh ⟨false, false⟩ setTalker)
      [.bind 1 (.value (.integer 7)), .bind 2 (.value (.integer 8))] = some σ ∧ Reaches σ := by
  obtain ⟨hcompressing, hmigrating⟩ := bindings_reach runLength_lawful
  refine ⟨⟨_, hcompressing setContent setContent_separate setContentCalls true [selectedRow]
    (setContent_meets rfl) _ rfl rfl, rfl⟩, _, rfl, ?_⟩
  refine hmigrating ⟨false, false⟩ setTalker
    [.bind 1 (.value (.integer 7)), .bind 2 (.value (.integer 8))]
    ⟨sound_bind (by decide) 1 _, fun σ hσ => ⟨?_, fun _ _ => trivial⟩⟩ _ rfl
  obtain rfl : bind 1 (.value (.integer 7)) _ = σ := Option.some.inj hσ
  exact sound_bind (by decide) 2 _

/-- A `NULL` for the second parameter replaces what is bound to the first one of the row selection;
and the main statement of a migrating `UPDATE` is not cleared. -/
theorem not_bindings_reach :
    (¬∀ (z : Zstd), z.Lawful → ∀ (u : UpdateBindings.Update) (calls : List UpdateBindings.Call)
      (can : Bool) (rows : List (ℤ × (ℕ → Value))) (σ : UpdateBindings.State),
      Run.exec (UpdateBindings.call z u) .fresh calls = some σ → σ.main.compressFail = false →
        UpdateBindings.Reaches z u σ can rows) ∧
    ¬∀ (choice : KeyChoice) (stmt : STMT) (calls : List Call) (σ : State),
      Run.exec (call stmt) (.fresh choice stmt) calls = some σ → Reaches σ := by
  refine ⟨fun hall => ?_, fun hall => ?_⟩
  · have hreaches := hall runLength runLength_lawful dropContent
      [.bind true 1 (.integer 7), .bind true 2 .null] true [] _ rfl rfl
    have hfirst := hreaches.rowSelection 1 (by decide)
    cases hfirst
  · have hreaches := hall ⟨false, false⟩ setTalker
      [.bind 1 (.value (.integer 7)), .clearBindings] _ rfl
    have hfirst := hreaches.main 1 (by decide)
    cases hfirst

end Wcdb.MigratingBindings
