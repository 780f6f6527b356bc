import Mathlib.Data.List.Basic

/-!
# The syntax of a SELECT

A statement of WINQ is a tree of identifiers, and `iterate` visits it with an iterator that is told
when an identifier begins and ends. What the iterators of the decorators do depends on the
identifiers around the one that is visited, and so does the way SQLite resolves a name. Both are a
`Visitor` here: how the state changes on the way down the tree, and what becomes of the names.

`Holds` says that a condition is met at every identifier, in the state in which it is visited.
`visit_eq_iff` compares two visitors, one of which knows the state of the other: they agree on a
tree just if they agree on each name in it. For visitors whose states are only related there are two
steps: `holds_of_visit_eq` gets from the trees what relates the states closely, and
`visit_eq_iff_of_related` compares the trees with it. `visit_comp` is for a visitor of a tree that
another one has made.
-/

namespace Wcdb.Winq

/-- `Syntax::Column`, where it is an expression. The wildcard has the name `*`. -/
structure ColumnName where
  schema : String := ""
  table : String := ""
  name : String
  deriving DecidableEq, Repr

/-- `Syntax::TableOrSubquery` with `Switch::Table`, and the table of `IN`. -/
structure TableName where
  schema : String := ""
  table : String
  asName : String := ""
  indexed : Bool := false
  deriving DecidableEq, Repr

/-- The identifiers of a SELECT, with names of columns in `γ` and names of tables in `τ`. -/
inductive Identifier (γ τ : Type) where
  | column (c : γ)
  /-- `n` is the number of a question sign, if it has one. -/
  | bindParameter (questionSign : Bool) (n : Int)
  /-- Any other expression: literals, operators, functions, `EXISTS`, subqueries. -/
  | expression (operands : List (Identifier γ τ))
  | collate (operand : Identifier γ τ)
  | inTable (operand : Identifier γ τ) (t : τ)
  | resultColumn (e : Identifier γ τ) (asName : String)
  | table (t : τ)
  | function (name : String) (args : List (Identifier γ τ)) (asName : String)
  | subquery (query : Identifier γ τ) (asName : String)
  | tables (items : List (Identifier γ τ))
  /-- Its tables and its constraints. -/
  | joinClause (items : List (Identifier γ τ))
  /-- A select core: the `FROM` clause is a list of tables, or one join clause. -/
  | core (results sources conditions groups : List (Identifier γ τ))
  | values (rows : List (Identifier γ τ))
  | commonTable (name : String) (columns : List String) (query : Identifier γ τ)
  | select (commonTables cores ordering limit : List (Identifier γ τ))

namespace Identifier

variable {γ τ : Type} (p : Bool → Int → Bool)

/-- The name of a column or a table. -/
def isName : Identifier γ τ → Bool
  | .column _ | .table _ | .inTable _ _ => true
  | _ => false

mutual

/-- A condition holds of all bind parameters. -/
def allParameters : Identifier γ τ → Bool
  | .column _ => true
  | .bindParameter questionSign n => p questionSign n
  | .expression operands => allParametersOf operands
  | .collate operand => allParameters operand
  | .inTable operand _ => allParameters operand
  | .resultColumn e _ => allParameters e
  | .table _ => true
  | .function _ args _ => allParametersOf args
  | .subquery query _ => allParameters query
  | .tables items => allParametersOf items
  | .joinClause items => allParametersOf items
  | .core results sources conditions groups =>
      allParametersOf results && allParametersOf sources && allParametersOf conditions &&
        allParametersOf groups
  | .values rows => allParametersOf rows
  | .commonTable _ _ query => allParameters query
  | .select commonTables cores ordering limit =>
      allParametersOf commonTables && allParametersOf cores && allParametersOf ordering &&
        allParametersOf limit

def allParametersOf : List (Identifier γ τ) → Bool
  | [] => true
  | i :: is => allParameters i && allParametersOf is

end

end Identifier

/-- A way to go down the tree with a state in `σ`. -/
structure Visitor (σ γ τ γ' τ' : Type) where
  column : σ → γ → γ'
  table : σ → τ → τ'
  inTable : σ → τ → τ'
  /-- The alias of a result column after the visit. -/
  asName : σ → Identifier γ τ → String → String := fun _ _ asName => asName
  operand : σ → σ := id
  subquery : σ → σ := id
  values : σ → σ := id
  results : σ → List (Identifier γ τ) → List (Identifier γ τ) → σ := fun s _ _ => s
  sources : σ → List (Identifier γ τ) → List (Identifier γ τ) → σ := fun s _ _ => s
  conditions : σ → List (Identifier γ τ) → List (Identifier γ τ) → σ := fun s _ _ => s
  groups : σ → List (Identifier γ τ) → List (Identifier γ τ) → σ := fun s _ _ => s
  commonTables : σ → List (Identifier γ τ) → List (Identifier γ τ) → σ := fun s _ _ => s
  cores : σ → List (Identifier γ τ) → List (Identifier γ τ) → σ := fun s _ _ => s
  ordering : σ → List (Identifier γ τ) → List (Identifier γ τ) → σ := fun s _ _ => s
  limit : σ → List (Identifier γ τ) → List (Identifier γ τ) → σ := fun s _ _ => s

variable {σ γ τ γ' τ' : Type}

namespace Visitor

variable (V : Visitor σ γ τ γ' τ')

mutual

/-- Visit an identifier. -/
def visit (s : σ) : Identifier γ τ → Identifier γ' τ'
  | .column c => .column (V.column s c)
  | .bindParameter questionSign n => .bindParameter questionSign n
  | .expression operands => .expression (visitAll (V.operand s) operands)
  | .collate operand => .collate (visit s operand)
  | .inTable operand t => .inTable (visit (V.operand s) operand) (V.inTable s t)
  | .resultColumn e asName => .resultColumn (visit s e) (V.asName s e asName)
  | .table t => .table (V.table s t)
  | .function name args asName => .function name (visitAll s args) asName
  | .subquery query asName => .subquery (visit (V.subquery s) query) asName
  | .tables items => .tables (visitAll s items)
  | .joinClause items => .joinClause (visitAll s items)
  | .core results sources conditions groups =>
      .core (visitAll (V.results s results sources) results)
        (visitAll (V.sources s results sources) sources)
        (visitAll (V.conditions s results sources) conditions)
        (visitAll (V.groups s results sources) groups)
  | .values rows => .values (visitAll (V.values s) rows)
  | .commonTable name columns query => .commonTable name columns (visit s query)
  | .select commonTables cores ordering limit =>
      .select (visitAll (V.commonTables s commonTables cores) commonTables)
        (visitAll (V.cores s commonTables cores) cores)
        (visitAll (V.ordering s commonTables cores) ordering)
        (visitAll (V.limit s commonTables cores) limit)

/-- Visit the identifiers of a list. -/
def visitAll (s : σ) : List (Identifier γ τ) → List (Identifier γ' τ')
  | [] => []
  | i :: is => visit s i :: visitAll s is

end

mutual

/-- A condition holds at every identifier, in the state in which it is visited. -/
def Holds (p : σ → Identifier γ τ → Prop) (s : σ) : Identifier γ τ → Prop
  | .column c => p s (.column c)
  | .bindParameter questionSign n => p s (.bindParameter questionSign n)
  | .expression operands => p s (.expression operands) ∧ HoldsAll p (V.operand s) operands
  | .collate operand => p s (.collate operand) ∧ Holds p s operand
  | .inTable operand t => p s (.inTable operand t) ∧ Holds p (V.operand s) operand
  | .resultColumn e asName => p s (.resultColumn e asName) ∧ Holds p s e
  | .table t => p s (.table t)
  | .function name args asName => p s (.function name args asName) ∧ HoldsAll p s args
  | .subquery query asName => p s (.subquery query asName) ∧ Holds p (V.subquery s) query
  | .tables items => p s (.tables items) ∧ HoldsAll p s items
  | .joinClause items => p s (.joinClause items) ∧ HoldsAll p s items
  | .core results sources conditions groups =>
      p s (.core results sources conditions groups) ∧
        HoldsAll p (V.results s results sources) results ∧
        HoldsAll p (V.sources s results sources) sources ∧
        HoldsAll p (V.conditions s results sources) conditions ∧
        HoldsAll p (V.groups s results sources) groups
  | .values rows => p s (.values rows) ∧ HoldsAll p (V.values s) rows
  | .commonTable name columns query => p s (.commonTable name columns query) ∧ Holds p s query
  | .select commonTables cores ordering limit =>
      p s (.select commonTables cores ordering limit) ∧
        HoldsAll p (V.commonTables s commonTables cores) commonTables ∧
        HoldsAll p (V.cores s commonTables cores) cores ∧
        HoldsAll p (V.ordering s commonTables cores) ordering ∧
        HoldsAll p (V.limit s commonTables cores) limit

/-- The condition holds in a list. -/
def HoldsAll (p : σ → Identifier γ τ → Prop) (s : σ) : List (Identifier γ τ) → Prop
  | [] => True
  | i :: is => Holds p s i ∧ HoldsAll p s is

end

theorem holdsAll_iff_forall {p : σ → Identifier γ τ → Prop} {s : σ} {is : List (Identifier γ τ)} :
    V.HoldsAll p s is ↔ ∀ i ∈ is, V.Holds p s i := by
  induction is with
  | nil => simp [HoldsAll]
  | cons i is ih => simp [HoldsAll, ih]

/-! ### Two visitors -/

section Parallel

variable {ρ : Type} {V} {W : Visitor ρ γ τ γ' τ'} {f : σ → ρ}

/-- The states of the second visitor are determined by those of the first. -/
structure Parallel (V : Visitor σ γ τ γ' τ') (W : Visitor ρ γ τ γ' τ') (f : σ → ρ) : Prop where
  operand : ∀ s, W.operand (f s) = f (V.operand s)
  subquery : ∀ s, W.subquery (f s) = f (V.subquery s)
  values : ∀ s, W.values (f s) = f (V.values s)
  results : ∀ s is js, W.results (f s) is js = f (V.results s is js)
  sources : ∀ s is js, W.sources (f s) is js = f (V.sources s is js)
  conditions : ∀ s is js, W.conditions (f s) is js = f (V.conditions s is js)
  groups : ∀ s is js, W.groups (f s) is js = f (V.groups s is js)
  commonTables : ∀ s is js, W.commonTables (f s) is js = f (V.commonTables s is js)
  cores : ∀ s is js, W.cores (f s) is js = f (V.cores s is js)
  ordering : ∀ s is js, W.ordering (f s) is js = f (V.ordering s is js)
  limit : ∀ s is js, W.limit (f s) is js = f (V.limit s is js)

/-- The visitors agree on the names of one identifier, and on the column under an alias. -/
def SameNames (V : Visitor σ γ τ γ' τ') (W : Visitor ρ γ τ γ' τ') (f : σ → ρ) (s : σ) :
    Identifier γ τ → Prop
  | .column c => V.column s c = W.column (f s) c
  | .table t => V.table s t = W.table (f s) t
  | .inTable _ t => V.inTable s t = W.inTable (f s) t
  | .resultColumn (.column c) a =>
      V.column s c = W.column (f s) c ∧ V.asName s (.column c) a = W.asName (f s) (.column c) a
  | .resultColumn e a => V.asName s e a = W.asName (f s) e a
  | _ => True

mutual

/-- **Visitors agree on a tree just if they agree on its names.** -/
theorem visit_eq_iff (h : Parallel V W f) (s : σ) :
    ∀ i : Identifier γ τ, V.visit s i = W.visit (f s) i ↔ V.Holds (SameNames V W f) s i
  | .column c => by simp [visit, Holds, SameNames]
  | .bindParameter _ _ => by simp [visit, Holds, SameNames]
  | .expression operands => by
    simp [visit, Holds, SameNames, h.operand, visitAll_eq_iff h]
  | .collate operand => by simp [visit, Holds, SameNames, visit_eq_iff h]
  | .inTable operand t => by
    simp [visit, Holds, SameNames, h.operand, visit_eq_iff h, and_comm]
  | .resultColumn e a => by
    rw [visit, visit, Identifier.resultColumn.injEq, visit_eq_iff h, Holds, and_comm]
    cases e
    case column c =>
      simp only [Holds, SameNames]
      exact ⟨fun ⟨hname, hcolumn⟩ => ⟨⟨hcolumn, hname⟩, hcolumn⟩, fun ⟨⟨_, hname⟩, hcolumn⟩ =>
        ⟨hname, hcolumn⟩⟩
    all_goals exact Iff.rfl
  | .table t => by simp [visit, Holds, SameNames]
  | .function _ args _ => by simp [visit, Holds, SameNames, visitAll_eq_iff h]
  | .subquery query _ => by simp [visit, Holds, SameNames, h.subquery, visit_eq_iff h]
  | .tables items => by simp [visit, Holds, SameNames, visitAll_eq_iff h]
  | .joinClause items => by simp [visit, Holds, SameNames, visitAll_eq_iff h]
  | .core results sources conditions groups => by
    simp [visit, Holds, SameNames, h.results, h.sources, h.conditions, h.groups,
      visitAll_eq_iff h]
  | .values rows => by simp [visit, Holds, SameNames, h.values, visitAll_eq_iff h]
  | .commonTable _ _ query => by simp [visit, Holds, SameNames, visit_eq_iff h]
  | .select commonTables cores ordering limit => by
    simp [visit, Holds, SameNames, h.commonTables, h.cores, h.ordering, h.limit,
      visitAll_eq_iff h]

theorem visitAll_eq_iff (h : Parallel V W f) (s : σ) :
    ∀ is : List (Identifier γ τ),
      V.visitAll s is = W.visitAll (f s) is ↔ V.HoldsAll (SameNames V W f) s is
  | [] => by simp [visitAll, HoldsAll]
  | i :: is => by simp [visitAll, HoldsAll, visit_eq_iff h, visitAll_eq_iff h]

end

mutual

/-- A condition may be replaced by a weaker one. -/
theorem holds_mono {p q : σ → Identifier γ τ → Prop} (h : ∀ s i, p s i → q s i) (s : σ) :
    ∀ i : Identifier γ τ, V.Holds p s i → V.Holds q s i
  | .column c => h s (.column c)
  | .bindParameter questionSign n => h s (.bindParameter questionSign n)
  | .expression operands => And.imp (h s _) (holdsAll_mono h _ operands)
  | .collate operand => And.imp (h s _) (holds_mono h _ operand)
  | .inTable operand _ => And.imp (h s _) (holds_mono h _ operand)
  | .resultColumn e _ => And.imp (h s _) (holds_mono h _ e)
  | .table t => h s (.table t)
  | .function _ args _ => And.imp (h s _) (holdsAll_mono h _ args)
  | .subquery query _ => And.imp (h s _) (holds_mono h _ query)
  | .tables items => And.imp (h s _) (holdsAll_mono h _ items)
  | .joinClause items => And.imp (h s _) (holdsAll_mono h _ items)
  | .core results sources conditions groups =>
    And.imp (h s _) <| And.imp (holdsAll_mono h _ results) <| And.imp (holdsAll_mono h _ sources) <|
      And.imp (holdsAll_mono h _ conditions) (holdsAll_mono h _ groups)
  | .values rows => And.imp (h s _) (holdsAll_mono h _ rows)
  | .commonTable _ _ query => And.imp (h s _) (holds_mono h _ query)
  | .select commonTables cores ordering limit =>
    And.imp (h s _) <| And.imp (holdsAll_mono h _ commonTables) <|
      And.imp (holdsAll_mono h _ cores) <| And.imp (holdsAll_mono h _ ordering)
        (holdsAll_mono h _ limit)

theorem holdsAll_mono {p q : σ → Identifier γ τ → Prop} (h : ∀ s i, p s i → q s i) (s : σ) :
    ∀ is : List (Identifier γ τ), V.HoldsAll p s is → V.HoldsAll q s is
  | [] => id
  | i :: is => And.imp (holds_mono h s i) (holdsAll_mono h s is)

end

/-- A condition may be replaced by an equivalent one. -/
theorem holds_iff {p q : σ → Identifier γ τ → Prop} (h : ∀ s i, p s i ↔ q s i) (s : σ)
    (i : Identifier γ τ) : V.Holds p s i ↔ V.Holds q s i :=
  ⟨holds_mono (fun s i => (h s i).mp) s i, holds_mono (fun s i => (h s i).mpr) s i⟩

end Parallel

section Related

variable {ρ : Type} {V} {W : Visitor ρ γ τ γ' τ'} {R : σ → ρ → Prop}
  {p q : σ → Identifier γ τ → Prop}

/-- A relation between the states of two visitors is kept where their trees agree, and a condition
on the names follows. The sources of a core and the common tables and the cores of a statement are
what the states of the other parts depend on. -/
structure Reflects (V : Visitor σ γ τ γ' τ') (W : Visitor ρ γ τ γ' τ') (R : σ → ρ → Prop)
    (q : σ → Identifier γ τ → Prop) : Prop where
  column : ∀ s r c, R s r → V.column s c = W.column r c → q s (.column c)
  table : ∀ s r t, R s r → V.table s t = W.table r t → q s (.table t)
  inTable : ∀ s r e t, R s r → V.inTable s t = W.inTable r t → q s (.inTable e t)
  other : ∀ s i, i.isName = false → q s i
  operand : ∀ s r, R s r → R (V.operand s) (W.operand r)
  subquery : ∀ s r, R s r → R (V.subquery s) (W.subquery r)
  values : ∀ s r, R s r → R (V.values s) (W.values r)
  core : ∀ s r results sources, R s r →
    V.visitAll (V.sources s results sources) sources =
      W.visitAll (W.sources r results sources) sources →
      R (V.results s results sources) (W.results r results sources) ∧
      R (V.sources s results sources) (W.sources r results sources) ∧
      R (V.conditions s results sources) (W.conditions r results sources) ∧
      R (V.groups s results sources) (W.groups r results sources)
  select : ∀ s r commonTables cores, R s r →
    V.visitAll (V.cores s commonTables cores) cores =
      W.visitAll (W.cores r commonTables cores) cores →
      R (V.commonTables s commonTables cores) (W.commonTables r commonTables cores) ∧
      R (V.cores s commonTables cores) (W.cores r commonTables cores) ∧
      R (V.ordering s commonTables cores) (W.ordering r commonTables cores) ∧
      R (V.limit s commonTables cores) (W.limit r commonTables cores)

mutual

/-- What holds in a tree that two visitors agree on. -/
theorem holds_of_visit_eq (h : Reflects V W R q) {s : σ} {r : ρ} (hR : R s r) :
    ∀ i : Identifier γ τ, V.visit s i = W.visit r i → V.Holds q s i
  | .column c, heq => h.column s r c hR (by simpa [visit] using heq)
  | .bindParameter _ _, _ => h.other s _ rfl
  | .expression operands, heq =>
    ⟨h.other s _ rfl,
      holdsAll_of_visitAll_eq h (h.operand s r hR) operands (by simpa [visit] using heq)⟩
  | .collate operand, heq =>
    ⟨h.other s _ rfl, holds_of_visit_eq h hR operand (by simpa [visit] using heq)⟩
  | .inTable operand t, heq => by
    simp only [visit, Identifier.inTable.injEq] at heq
    exact ⟨h.inTable s r operand t hR heq.2,
      holds_of_visit_eq h (h.operand s r hR) operand heq.1⟩
  | .resultColumn e _, heq => by
    simp only [visit, Identifier.resultColumn.injEq] at heq
    exact ⟨h.other s _ rfl, holds_of_visit_eq h hR e heq.1⟩
  | .table t, heq => h.table s r t hR (by simpa [visit] using heq)
  | .function _ args _, heq =>
    ⟨h.other s _ rfl, holdsAll_of_visitAll_eq h hR args (by simpa [visit] using heq)⟩
  | .subquery query _, heq =>
    ⟨h.other s _ rfl, holds_of_visit_eq h (h.subquery s r hR) query (by simpa [visit] using heq)⟩
  | .tables items, heq =>
    ⟨h.other s _ rfl, holdsAll_of_visitAll_eq h hR items (by simpa [visit] using heq)⟩
  | .joinClause items, heq =>
    ⟨h.other s _ rfl, holdsAll_of_visitAll_eq h hR items (by simpa [visit] using heq)⟩
  | .core results sources conditions groups, heq => by
    simp only [visit, Identifier.core.injEq] at heq
    obtain ⟨hr₁, hr₂, hr₃, hr₄⟩ := h.core s r results sources hR heq.2.1
    exact ⟨h.other s _ rfl, holdsAll_of_visitAll_eq h hr₁ results heq.1,
      holdsAll_of_visitAll_eq h hr₂ sources heq.2.1,
      holdsAll_of_visitAll_eq h hr₃ conditions heq.2.2.1,
      holdsAll_of_visitAll_eq h hr₄ groups heq.2.2.2⟩
  | .values rows, heq =>
    ⟨h.other s _ rfl, holdsAll_of_visitAll_eq h (h.values s r hR) rows (by simpa [visit] using heq)⟩
  | .commonTable _ _ query, heq =>
    ⟨h.other s _ rfl, holds_of_visit_eq h hR query (by simpa [visit] using heq)⟩
  | .select commonTables cores ordering limit, heq => by
    simp only [visit, Identifier.select.injEq] at heq
    obtain ⟨hr₁, hr₂, hr₃, hr₄⟩ := h.select s r commonTables cores hR heq.2.1
    exact ⟨h.other s _ rfl, holdsAll_of_visitAll_eq h hr₁ commonTables heq.1,
      holdsAll_of_visitAll_eq h hr₂ cores heq.2.1,
      holdsAll_of_visitAll_eq h hr₃ ordering heq.2.2.1,
      holdsAll_of_visitAll_eq h hr₄ limit heq.2.2.2⟩

theorem holdsAll_of_visitAll_eq (h : Reflects V W R q) {s : σ} {r : ρ} (hR : R s r) :
    ∀ is : List (Identifier γ τ), V.visitAll s is = W.visitAll r is → V.HoldsAll q s is
  | [], _ => trivial
  | i :: is, heq => by
    simp only [visitAll, List.cons.injEq] at heq
    exact ⟨holds_of_visit_eq h hR i heq.1, holdsAll_of_visitAll_eq h hR is heq.2⟩

end

/-- Where `q` holds, two visitors keep a relation between their states, and agree on a name just if
`p` holds of it. -/
structure Related (V : Visitor σ γ τ γ' τ') (W : Visitor ρ γ τ γ' τ') (R : σ → ρ → Prop)
    (q p : σ → Identifier γ τ → Prop) : Prop where
  column : ∀ s r c, R s r → q s (.column c) → (V.column s c = W.column r c ↔ p s (.column c))
  table : ∀ s r t, R s r → q s (.table t) → (V.table s t = W.table r t ↔ p s (.table t))
  inTable : ∀ s r e t, R s r → q s (.inTable e t) →
    (V.inTable s t = W.inTable r t ↔ p s (.inTable e t))
  asName : ∀ s r e a, V.asName s e a = W.asName r e a
  other : ∀ s i, i.isName = false → p s i
  operand : ∀ s r, R s r → R (V.operand s) (W.operand r)
  subquery : ∀ s r, R s r → R (V.subquery s) (W.subquery r)
  values : ∀ s r, R s r → R (V.values s) (W.values r)
  core : ∀ s r results sources conditions groups, R s r →
    V.Holds q s (.core results sources conditions groups) →
      R (V.results s results sources) (W.results r results sources) ∧
      R (V.sources s results sources) (W.sources r results sources) ∧
      R (V.conditions s results sources) (W.conditions r results sources) ∧
      R (V.groups s results sources) (W.groups r results sources)
  select : ∀ s r commonTables cores ordering limit, R s r →
    V.Holds q s (.select commonTables cores ordering limit) →
      R (V.commonTables s commonTables cores) (W.commonTables r commonTables cores) ∧
      R (V.cores s commonTables cores) (W.cores r commonTables cores) ∧
      R (V.ordering s commonTables cores) (W.ordering r commonTables cores) ∧
      R (V.limit s commonTables cores) (W.limit r commonTables cores)

mutual

/-- **Related visitors agree on a tree just if `p` holds in it.** -/
theorem visit_eq_iff_of_related (h : Related V W R q p) {s : σ} {r : ρ} (hR : R s r) :
    ∀ i : Identifier γ τ, V.Holds q s i → (V.visit s i = W.visit r i ↔ V.Holds p s i)
  | .column c, hq => by simp [visit, Holds, h.column s r c hR hq]
  | .bindParameter questionSign n, _ => by
    simp [visit, Holds, h.other s (.bindParameter questionSign n) rfl]
  | .expression operands, hq => by
    simp [visit, Holds, h.other s (.expression operands) rfl,
      visitAll_eq_iff_of_related h (h.operand s r hR) operands hq.2]
  | .collate operand, hq => by
    simp [visit, Holds, h.other s (.collate operand) rfl, visit_eq_iff_of_related h hR operand hq.2]
  | .inTable operand t, hq => by
    simp [visit, Holds, h.inTable s r operand t hR hq.1, and_comm,
      visit_eq_iff_of_related h (h.operand s r hR) operand hq.2]
  | .resultColumn e asName, hq => by
    simp [visit, Holds, h.other s (.resultColumn e asName) rfl,
      h.asName s r, visit_eq_iff_of_related h hR e hq.2]
  | .table t, hq => by simp [visit, Holds, h.table s r t hR hq]
  | .function name args asName, hq => by
    simp [visit, Holds, h.other s (.function name args asName) rfl,
      visitAll_eq_iff_of_related h hR args hq.2]
  | .subquery query asName, hq => by
    simp [visit, Holds, h.other s (.subquery query asName) rfl,
      visit_eq_iff_of_related h (h.subquery s r hR) query hq.2]
  | .tables items, hq => by
    simp [visit, Holds, h.other s (.tables items) rfl, visitAll_eq_iff_of_related h hR items hq.2]
  | .joinClause items, hq => by
    simp [visit, Holds, h.other s (.joinClause items) rfl,
      visitAll_eq_iff_of_related h hR items hq.2]
  | .core results sources conditions groups, hq => by
    obtain ⟨hr₁, hr₂, hr₃, hr₄⟩ := h.core s r results sources conditions groups hR hq
    obtain ⟨-, h₁, h₂, h₃, h₄⟩ := hq
    simp [visit, Holds, h.other s (.core results sources conditions groups) rfl,
      visitAll_eq_iff_of_related h hr₁ results h₁,
      visitAll_eq_iff_of_related h hr₂ sources h₂,
      visitAll_eq_iff_of_related h hr₃ conditions h₃, visitAll_eq_iff_of_related h hr₄ groups h₄]
  | .values rows, hq => by
    simp [visit, Holds, h.other s (.values rows) rfl,
      visitAll_eq_iff_of_related h (h.values s r hR) rows hq.2]
  | .commonTable name columns query, hq => by
    simp [visit, Holds, h.other s (.commonTable name columns query) rfl,
      visit_eq_iff_of_related h hR query hq.2]
  | .select commonTables cores ordering limit, hq => by
    obtain ⟨hr₁, hr₂, hr₃, hr₄⟩ := h.select s r commonTables cores ordering limit hR hq
    obtain ⟨-, h₁, h₂, h₃, h₄⟩ := hq
    simp [visit, Holds, h.other s (.select commonTables cores ordering limit) rfl,
      visitAll_eq_iff_of_related h hr₁ commonTables h₁,
      visitAll_eq_iff_of_related h hr₂ cores h₂, visitAll_eq_iff_of_related h hr₃ ordering h₃,
      visitAll_eq_iff_of_related h hr₄ limit h₄]

theorem visitAll_eq_iff_of_related (h : Related V W R q p) {s : σ} {r : ρ} (hR : R s r) :
    ∀ is : List (Identifier γ τ), V.HoldsAll q s is →
      (V.visitAll s is = W.visitAll r is ↔ V.HoldsAll p s is)
  | [], _ => by simp [visitAll, HoldsAll]
  | i :: is, hq => by
    simp [visitAll, HoldsAll, visit_eq_iff_of_related h hR i hq.1,
      visitAll_eq_iff_of_related h hR is hq.2]

end

end Related

/-! ### One visitor after another -/

section Comp

variable {ρ γ'' τ'' : Type} (W : Visitor ρ γ' τ' γ'' τ'') (U : Visitor Unit γ τ γ' τ')

/-- Visit the tree that a visitor without state makes. -/
def comp : Visitor ρ γ τ γ'' τ'' where
  column r c := W.column r (U.column () c)
  table r t := W.table r (U.table () t)
  inTable r t := W.inTable r (U.inTable () t)
  asName r e a := W.asName r (U.visit () e) (U.asName () e a)
  operand := W.operand
  subquery := W.subquery
  values := W.values
  results r is js := W.results r (U.visitAll () is) (U.visitAll () js)
  sources r is js := W.sources r (U.visitAll () is) (U.visitAll () js)
  conditions r is js := W.conditions r (U.visitAll () is) (U.visitAll () js)
  groups r is js := W.groups r (U.visitAll () is) (U.visitAll () js)
  commonTables r is js := W.commonTables r (U.visitAll () is) (U.visitAll () js)
  cores r is js := W.cores r (U.visitAll () is) (U.visitAll () js)
  ordering r is js := W.ordering r (U.visitAll () is) (U.visitAll () js)
  limit r is js := W.limit r (U.visitAll () is) (U.visitAll () js)

mutual

theorem visit_comp (r : ρ) : ∀ i : Identifier γ τ,
    (W.comp U).visit r i = W.visit r (U.visit () i)
  | .column _ => by
    rw [visit, visit, visit]
    rfl
  | .bindParameter _ _ => by rw [visit, visit, visit]
  | .expression operands => by
    rw [visit, visit, visit, visitAll_comp]
    rfl
  | .collate operand => by rw [visit, visit, visit, visit_comp]
  | .inTable operand _ => by
    rw [visit, visit, visit, visit_comp]
    rfl
  | .resultColumn e _ => by
    rw [visit, visit, visit, visit_comp]
    rfl
  | .table _ => by
    rw [visit, visit, visit]
    rfl
  | .function _ args _ => by rw [visit, visit, visit, visitAll_comp]
  | .subquery query _ => by
    rw [visit, visit, visit, visit_comp]
    rfl
  | .tables items => by rw [visit, visit, visit, visitAll_comp]
  | .joinClause items => by rw [visit, visit, visit, visitAll_comp]
  | .core results sources conditions groups => by
    rw [visit, visit, visit, visitAll_comp _ results, visitAll_comp _ sources,
      visitAll_comp _ conditions, visitAll_comp _ groups]
    rfl
  | .values rows => by
    rw [visit, visit, visit, visitAll_comp]
    rfl
  | .commonTable _ _ query => by rw [visit, visit, visit, visit_comp]
  | .select commonTables cores ordering limit => by
    rw [visit, visit, visit, visitAll_comp _ commonTables, visitAll_comp _ cores,
      visitAll_comp _ ordering, visitAll_comp _ limit]
    rfl

theorem visitAll_comp (r : ρ) : ∀ is : List (Identifier γ τ),
    (W.comp U).visitAll r is = W.visitAll r (U.visitAll () is)
  | [] => by simp only [visitAll]
  | i :: is => by simp only [visitAll, visit_comp, visitAll_comp]

end

end Comp

theorem visitAll_eq_map (s : σ) (is : List (Identifier γ τ)) :
    V.visitAll s is = is.map (V.visit s) := by
  induction is with
  | nil => rw [visitAll, List.map_nil]
  | cons i is ih => rw [visitAll, List.map_cons, ih]

end Visitor

end Wcdb.Winq
