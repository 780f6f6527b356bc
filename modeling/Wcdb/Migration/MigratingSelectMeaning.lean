import Wcdb.Migration.MigratingSelect
import Mathlib.Data.List.Forall2

/-!
# What a SELECT means after it is processed

A statement reads the same after `process`, in the database with the unioned views, as before in a
database in which the migrating tables hold the rows of the views, just if it is `Faithful`
(`process_faithful`). From two trees that agree it follows that the tables and the wildcards are
faithful: the entries of the `FROM` clauses are known by their names then (`Outlined`). With that
the columns of the entries and the tables of the `WITH` clauses are followed through the tree, and
`Carried` relates the name contexts before and after.
-/

namespace Wcdb

open Winq

namespace UnionedCatalog

variable {db : UnionedCatalog}

/-! ### The tree after `process` -/

theorem rewritten_shape {e e' : Source} (h : e.shape = e'.shape) :
    (db.rewritten e).shape = (db.rewritten e').shape := by
  rw [rewritten, rewritten, isMigrating_congr h]
  split_ifs
  · simp only [Source.shape, Prod.mk.injEq] at h ⊢
    simp only [h, and_self]
  · exact h

theorem called_congr {e e' : Source} (h : e.shape = e'.shape) (c : ColumnName) :
    db.called c e = db.called c e' := by
  rw [← matches_fallbackColumn, ← matches_fallbackColumn, Source.matches_congr (rewritten_shape h)]

@[simp]
theorem fallbackVisitor_asName (i : Select) (asName : String) :
    db.fallbackVisitor.asName () i asName = asName := rfl

variable (db) in
/-- The condition without the names of columns. -/
def FaithfulSources (s : Context) : Select → Prop
  | .column c => c.name = "*" → db.FaithfulWildcard s c
  | .table t => db.FaithfulTable s.withs t
  | .inTable _ t => db.FaithfulTable s.withs t ∧ db.meansMigrating s.withs t = false
  | _ => True

theorem FaithfulAt.sources {s : Context} {i : Select} (h : db.FaithfulAt s i) :
    db.FaithfulSources s i := by
  cases i with
  | column c =>
    intro hname
    rwa [FaithfulAt, if_pos hname] at h
  | _ => exact h

/-- The names of a result column. -/
theorem resultNames_fallback {s : Context} {scope : Scope} {sources : List Source}
    (hscope : s.scopes.head? = some scope)
    (hshape : sources.map Source.shape = scope.sources.map Source.shape) {i : Select}
    (hi : db.meaningVisitor.Holds db.FaithfulSources s i) :
    resultNames (sources.map db.rewritten) (db.fallbackVisitor.visit () i) =
      resultNames sources i := by
  cases i
  case resultColumn e asName =>
    cases e
    case column c =>
      have hc : c.name = "*" → db.FaithfulWildcard s c := hi.2
      by_cases hstar : c.name = "*"
      · have hkept : ∀ e ∈ sources, (db.rewritten e).matches (db.fallbackColumn c) = e.matches c ∧
            (e.matches c = true → db.rewritten e = e) := by
          intro e he
          obtain ⟨e', he', hee'⟩ :=
            List.mem_map.mp (hshape ▸ List.mem_map_of_mem he : e.shape ∈ scope.sources.map _)
          obtain ⟨hcalled, hnot⟩ := hc hstar scope hscope e' he'
          rw [matches_fallbackColumn, called_congr hee'.symm, Source.matches_congr hee'.symm]
          exact ⟨hcalled, fun h => rewritten_of_not ((isMigrating_congr hee'.symm).trans (hnot h))⟩
        have hfilter : (sources.map db.rewritten).filter (·.matches (db.fallbackColumn c)) =
            sources.filter (·.matches c) := by
          rw [List.filter_map]
          calc (sources.filter ((·.matches (db.fallbackColumn c)) ∘ db.rewritten)).map db.rewritten
            _ = (sources.filter (·.matches c)).map db.rewritten :=
                congrArg _ (List.filter_congr fun e he => (hkept e he).1)
            _ = (sources.filter (·.matches c)).map id := by
                refine List.map_congr_left fun e he => ?_
                exact (hkept e (List.mem_filter.mp he).1).2 (List.mem_filter.mp he).2
            _ = sources.filter (·.matches c) := List.map_id _
        change resultNames _ (.resultColumn (.column (db.fallbackColumn c)) asName) = _
        simp only [resultNames, fallbackColumn_name, hfilter]
      · change resultNames _ (.resultColumn (.column (db.fallbackColumn c)) asName) = _
        simp [resultNames, hstar]
    all_goals simp [Visitor.visit, resultNames]
  all_goals simp [Visitor.visit, resultNames]

theorem declaredWith_fallback (commonTables : List Select) :
    declaredWith (db.fallbackVisitor.visitAll () commonTables) = declaredWith commonTables := by
  induction commonTables with
  | nil => rw [Visitor.visitAll]
  | cons i is ih => cases i <;> simp [Visitor.visitAll, Visitor.visit, declaredWith, ih]

theorem length_visitAll (is : List Select) :
    (db.fallbackVisitor.visitAll () is).length = is.length := by
  rw [Visitor.visitAll_eq_map, List.length_map]

/-- The tables of a `WITH` clause, if those of their queries are as before. -/
theorem extendWith_fallback {withs : List With} {commonTables : List Select}
    (h : ∀ w : With, w.map Prod.fst = (declaredWith commonTables).map Prod.fst →
      withOf db.toCatalog (w :: withs) (db.fallbackVisitor.visitAll () commonTables) =
        withOf db.toCatalog (w :: withs) commonTables) :
    extendWith db.toCatalog withs (db.fallbackVisitor.visitAll () commonTables) =
      extendWith db.toCatalog withs commonTables := by
  rw [extendWith, extendWith, declaredWith_fallback, length_visitAll]
  congr 1
  generalize commonTables.length = n
  induction n with
  | zero => rfl
  | succ n ih =>
    rw [Function.iterate_succ_apply', Function.iterate_succ_apply', ih]
    exact h _ (iterate_withOf_names _ _ _ _)

theorem sameWith_cons {withs withs' : List With} {w : With} {commonTables : List Select}
    (h : SameWith withs withs') (hw : w.map Prod.fst = (declaredWith commonTables).map Prod.fst) :
    SameWith (w :: withs) (extendWith db.toCatalog withs' commonTables) := by
  simp only [SameWith, extendWith, List.map_cons, iterate_withOf_names, hw]
  rw [h]

mutual

/-- The entries of a `FROM` clause after `process`. -/
theorem sourcesOf_fallback : ∀ (i : Select) {s : Context} {withs : List With},
    db.meaningVisitor.Holds db.FaithfulSources s i → SameWith withs s.withs →
      sourcesOf db.toCatalog withs (db.fallbackVisitor.visit () i) =
        (sourcesOf db.toCatalog withs i).map db.rewritten
  | .table t, s, withs, hi, hw => by
    have ht : db.FaithfulTable s.withs t := hi
    have hmeans : db.binds t.schema t.table = db.meansMigrating withs t := by
      rw [ht.binds, meansMigrating, meansMigrating,
        isMigrating_congr (tableSource_shape db.toCatalog hw t)]
    rw [Visitor.visit, sourcesOf, sourcesOf, List.map_singleton]
    exact congrArg (· :: []) (tableSource_fallbackTable hmeans)
  | .function name args asName, _, _, _, _ => by
    rw [Visitor.visit, sourcesOf, sourcesOf, List.map_singleton, rewritten_of_not]
    rfl
  | .subquery query asName, s, withs, hi, hw => by
    rw [Visitor.visit, sourcesOf, sourcesOf, List.map_singleton, rewritten_of_not]
    · rw [outputs_fallback query hi.2 hw]
    · rfl
  | .tables items, s, withs, hi, hw => by
    rw [Visitor.visit, sourcesOf, sourcesOf, sourcesOfAll_fallback items hi.2 hw]
  | .joinClause items, s, withs, hi, hw => by
    rw [Visitor.visit, sourcesOf, sourcesOf, sourcesOfAll_fallback items hi.2 hw]
  | .column _, _, _, _, _ | .bindParameter _ _, _, _, _, _ | .expression _, _, _, _, _
  | .collate _, _, _, _, _ | .inTable _ _, _, _, _, _ | .resultColumn _ _, _, _, _, _
  | .core _ _ _ _, _, _, _, _ | .values _, _, _, _, _ | .commonTable _ _ _, _, _, _, _
  | .select _ _ _ _, _, _, _, _ => by simp [Visitor.visit, sourcesOf]

theorem sourcesOfAll_fallback : ∀ (is : List Select) {s : Context} {withs : List With},
    db.meaningVisitor.HoldsAll db.FaithfulSources s is → SameWith withs s.withs →
      sourcesOfAll db.toCatalog withs (db.fallbackVisitor.visitAll () is) =
        (sourcesOfAll db.toCatalog withs is).map db.rewritten
  | [], _, _, _, _ => by simp [Visitor.visitAll, sourcesOfAll]
  | i :: is, s, withs, hi, hw => by
    rw [Visitor.visitAll, sourcesOfAll, sourcesOfAll, List.map_append,
      sourcesOf_fallback i hi.1 hw, sourcesOfAll_fallback is hi.2 hw]

/-- The names of the result columns after `process`. -/
theorem outputs_fallback : ∀ (i : Select) {s : Context} {withs : List With},
    db.meaningVisitor.Holds db.FaithfulSources s i → SameWith withs s.withs →
      outputs db.toCatalog withs (db.fallbackVisitor.visit () i) = outputs db.toCatalog withs i
  | .core results sources conditions groups, s, withs, hi, hw => by
    obtain ⟨-, hresults, hsources, -⟩ := hi
    have hfrom := sourcesOfAll_fallback sources hsources hw
    have hnames : ∀ i ∈ results,
        resultNames ((sourcesOfAll db.toCatalog withs sources).map db.rewritten)
          (db.fallbackVisitor.visit () i) =
            resultNames (sourcesOfAll db.toCatalog withs sources) i := by
      intro i hmem
      have hi := (Visitor.holdsAll_iff_forall _).mp hresults i hmem
      exact resultNames_fallback rfl (sourcesOfAll_shape db.toCatalog hw sources) hi
    have hvisit : outputs db.toCatalog withs
        (db.fallbackVisitor.visit () (.core results sources conditions groups)) =
          (db.fallbackVisitor.visitAll () results).flatMap (resultNames
            (sourcesOfAll db.toCatalog withs (db.fallbackVisitor.visitAll () sources))) := by
      rw [Visitor.visit, outputs]
    rw [hvisit, outputs, hfrom, Visitor.visitAll_eq_map, List.flatMap_map]
    exact List.flatMap_congr hnames
  | .values [], _, _, _, _ => by simp [Visitor.visit, Visitor.visitAll, outputs]
  | .values (row :: rows), _, _, _, _ => by
    cases row
    case expression operands =>
      rw [Visitor.visit, Visitor.visitAll, Visitor.visit, outputs, outputs,
        Visitor.visitAll_eq_map]
      apply List.ext_getElem <;> simp
    all_goals simp [Visitor.visit, Visitor.visitAll, outputs]
  | .select commonTables [] ordering limit, s, withs, hi, hw => by
    simp [Visitor.visit, Visitor.visitAll, outputs]
  | .select commonTables (core :: cores) ordering limit, s, withs, hi, hw => by
    obtain ⟨-, hcommon, hcores, -⟩ := hi
    have hclause := extendWith_fallback fun w hnames =>
      withOf_fallback commonTables hcommon (sameWith_cons hw hnames)
    rw [Visitor.visit, Visitor.visitAll, outputs, outputs]
    change outputs db.toCatalog (extendWith db.toCatalog withs
      (db.fallbackVisitor.visitAll () commonTables)) (db.fallbackVisitor.visit () core) =
        outputs db.toCatalog (extendWith db.toCatalog withs commonTables) core
    rw [hclause]
    exact outputs_fallback core hcores.1 (extendWith_sameWith db.toCatalog hw commonTables)
  | .column _, _, _, _, _ | .bindParameter _ _, _, _, _, _ | .expression _, _, _, _, _
  | .collate _, _, _, _, _ | .inTable _ _, _, _, _, _ | .resultColumn _ _, _, _, _, _
  | .table _, _, _, _, _ | .function _ _ _, _, _, _, _ | .subquery _ _, _, _, _, _
  | .tables _, _, _, _, _ | .joinClause _, _, _, _, _ | .commonTable _ _ _, _, _, _, _ => by
    simp [Visitor.visit, outputs]

/-- The tables of a `WITH` clause after `process`. -/
theorem withOf_fallback : ∀ (is : List Select) {s : Context} {withs : List With},
    db.meaningVisitor.HoldsAll db.FaithfulSources s is → SameWith withs s.withs →
      withOf db.toCatalog withs (db.fallbackVisitor.visitAll () is) = withOf db.toCatalog withs is
  | [], _, _, _, _ => by simp [Visitor.visitAll, withOf]
  | .commonTable name columns query :: is, s, withs, hi, hw => by
    rw [Visitor.visitAll, Visitor.visit, withOf, withOf, outputs_fallback query hi.1.2 hw,
      withOf_fallback is hi.2 hw]
  | .column _ :: is, s, withs, hi, hw | .bindParameter _ _ :: is, s, withs, hi, hw
  | .expression _ :: is, s, withs, hi, hw | .collate _ :: is, s, withs, hi, hw
  | .inTable _ _ :: is, s, withs, hi, hw | .resultColumn _ _ :: is, s, withs, hi, hw
  | .table _ :: is, s, withs, hi, hw | .function _ _ _ :: is, s, withs, hi, hw
  | .subquery _ _ :: is, s, withs, hi, hw | .tables _ :: is, s, withs, hi, hw
  | .joinClause _ :: is, s, withs, hi, hw | .core _ _ _ _ :: is, s, withs, hi, hw
  | .values _ :: is, s, withs, hi, hw | .select _ _ _ _ :: is, s, withs, hi, hw => by
    simp [Visitor.visitAll, Visitor.visit, withOf, withOf_fallback is hi.2 hw]

end

mutual

/-- The migrating tables of a `FROM` clause are as their views say. -/
theorem genuine_sourcesOf : ∀ (i : Select) {s : Context},
    db.meaningVisitor.Holds db.FaithfulSources s i → ∀ e ∈ sourcesOf db.toCatalog s.withs i,
      db.isMigrating e = true → db.Genuine e
  | .table t, s, hi => by
    intro e he hmigrating
    have ht : db.FaithfulTable s.withs t := hi
    rw [sourcesOf, List.mem_singleton] at he
    subst he
    exact genuine_tableSource ht.binds hmigrating
  | .function name args asName, s, hi => by
    intro e he hmigrating
    rw [sourcesOf, List.mem_singleton] at he
    subst he
    cases hmigrating
  | .subquery query asName, s, hi => by
    intro e he hmigrating
    rw [sourcesOf, List.mem_singleton] at he
    subst he
    cases hmigrating
  | .tables items, s, hi => by
    rw [sourcesOf]
    exact genuine_sourcesOfAll items hi.2
  | .joinClause items, s, hi => by
    rw [sourcesOf]
    exact genuine_sourcesOfAll items hi.2
  | .column _, _, _ | .bindParameter _ _, _, _ | .expression _, _, _ | .collate _, _, _
  | .inTable _ _, _, _ | .resultColumn _ _, _, _ | .core _ _ _ _, _, _ | .values _, _, _
  | .commonTable _ _ _, _, _ | .select _ _ _ _, _, _ => by simp [sourcesOf]

theorem genuine_sourcesOfAll : ∀ (is : List Select) {s : Context},
    db.meaningVisitor.HoldsAll db.FaithfulSources s is → ∀ e ∈ sourcesOfAll db.toCatalog s.withs is,
      db.isMigrating e = true → db.Genuine e
  | [], _, _ => by simp [sourcesOfAll]
  | i :: is, s, hi => by
    intro e he
    rw [sourcesOfAll] at he
    rcases List.mem_append.mp he with he | he
    · exact genuine_sourcesOf i hi.1 e he
    · exact genuine_sourcesOfAll is hi.2 e he

end

/-! ### The statement after `process` -/

theorem asNamesOf_fallback (results : List Select) :
    asNamesOf (db.fallbackVisitor.visitAll () results) = asNamesOf results := by
  rw [asNamesOf, asNamesOf, Visitor.visitAll_eq_map, List.map_map]
  refine List.map_congr_left fun i _ => ?_
  cases i <;> simp [Visitor.visit]

/-- The name context of a core after `process`. -/
theorem coreScope_fallback {s : Context} {results sources : List Select} {aliases : Bool}
    (h : db.meaningVisitor.HoldsAll db.FaithfulSources s sources) :
    coreScope db.toCatalog s.withs (db.fallbackVisitor.visitAll () results)
        (db.fallbackVisitor.visitAll () sources) aliases =
      db.rewrittenScope (coreScope db.toCatalog s.withs results sources aliases) := by
  rw [coreScope, coreScope, rewrittenScope, sourcesOfAll_fallback sources h rfl,
    asNamesOf_fallback]

/-- The name contexts on the way down the statement and those after `process`. -/
structure Carried (db : UnionedCatalog) (s r : Context) : Prop where
  current : r.current = s.current.map db.rewrittenScope
  enclosing : r.enclosing = s.enclosing.map db.rewrittenScope
  outer : r.outer = s.outer.map db.rewrittenScope
  withs : r.withs = s.withs
  isTerm : r.isTerm = s.isTerm
  around : r.around = s.around.map (List.map (db.fallbackVisitor.visitAll ()))
  genuine : ∀ scope ∈ s.scopes ++ s.outer, ∀ e ∈ scope.sources, db.isMigrating e = true →
    db.Genuine e

theorem Carried.eq {s r : Context} (h : db.Carried s r) : r = db.rewrittenContext s := by
  obtain ⟨current, enclosing, outer, withs, isTerm, around⟩ := r
  obtain ⟨rfl, rfl, rfl, rfl, rfl, rfl, -⟩ := h
  rfl

theorem Carried.scopes {s r : Context} (h : db.Carried s r) :
    r.scopes = s.scopes.map db.rewrittenScope := by
  rw [h.eq, scopes_rewrittenContext]

theorem Carried.genuine_scopes {s r : Context} (h : db.Carried s r) :
    ∀ scope ∈ s.scopes, ∀ e ∈ scope.sources, db.isMigrating e = true → db.Genuine e :=
  fun scope hscope => h.genuine scope (List.mem_append_left _ hscope)

variable (db) in
/-- The statement after `process`, resolved, as a visitor of the statement before. -/
def processedVisitor :
    Visitor Context ColumnName TableName Resolution (TableMeaning × List String) :=
  (resolveVisitor db.toCatalog).comp db.fallbackVisitor

/-- The name contexts of a core. -/
theorem Carried.core {s r : Context} (h : db.Carried s r) {results sources : List Select}
    (hsources : db.meaningVisitor.HoldsAll db.FaithfulSources
      (db.meaningVisitor.sources s results sources) sources) :
    db.Carried (db.meaningVisitor.results s results sources)
        (db.processedVisitor.results r results sources) ∧
      db.Carried (db.meaningVisitor.sources s results sources)
        (db.processedVisitor.sources r results sources) ∧
      db.Carried (db.meaningVisitor.conditions s results sources)
        (db.processedVisitor.conditions r results sources) ∧
      db.Carried (db.meaningVisitor.groups s results sources)
        (db.processedVisitor.groups r results sources) := by
  have hscope : ∀ aliases, some (coreScope db.toCatalog r.withs
      (db.fallbackVisitor.visitAll () results) (db.fallbackVisitor.visitAll () sources) aliases) =
        (some (coreScope db.toCatalog s.withs results sources aliases)).map db.rewrittenScope := by
    intro aliases
    rw [h.withs, Option.map_some]
    exact congrArg some
      (coreScope_fallback (s := db.meaningVisitor.sources s results sources) hsources)
  have haround : [db.fallbackVisitor.visitAll () sources] :: r.around =
      ([sources] :: s.around).map (List.map (db.fallbackVisitor.visitAll ())) := by
    rw [List.map_cons, h.around]
    rfl
  have hgenuine : ∀ aliases, ∀ scope : Scope,
      scope = coreScope db.toCatalog s.withs results sources aliases ∨ scope ∈ s.scopes →
        ∀ e ∈ scope.sources, db.isMigrating e = true → db.Genuine e := by
    rintro aliases scope (rfl | hin)
    · exact genuine_sourcesOfAll sources (s := db.meaningVisitor.sources s results sources) hsources
    · exact h.genuine_scopes scope hin
  refine ⟨⟨hscope false, h.scopes, rfl, h.withs, rfl, haround, fun scope hin => ?_⟩,
    ⟨hscope true, h.scopes, h.scopes, h.withs, rfl, haround, fun scope hin => ?_⟩,
    ⟨hscope true, h.scopes, rfl, h.withs, rfl, haround, fun scope hin => ?_⟩,
    ⟨hscope true, rfl, rfl, h.withs, rfl, haround, fun scope hin => ?_⟩⟩
  · have hin : scope ∈ (coreScope db.toCatalog s.withs results sources false :: s.scopes) ++ [] :=
      hin
    exact hgenuine false scope (by simpa using hin)
  · have hin : scope ∈ (coreScope db.toCatalog s.withs results sources true :: s.scopes) ++
        s.scopes := hin
    exact hgenuine true scope (by simpa [or_assoc] using hin)
  · have hin : scope ∈ (coreScope db.toCatalog s.withs results sources true :: s.scopes) ++ [] :=
      hin
    exact hgenuine true scope (by simpa using hin)
  · have hin : scope ∈ [coreScope db.toCatalog s.withs results sources true] ++ [] := hin
    exact hgenuine true scope (Or.inl (by simpa using hin))

/-- The tables of a `WITH` clause after `process`. -/
theorem Carried.extendWith {s r : Context} (h : db.Carried s r) {commonTables cores : List Select}
    (hcommon : db.meaningVisitor.HoldsAll db.FaithfulSources
      (db.meaningVisitor.commonTables s commonTables cores) commonTables) :
    Winq.extendWith db.toCatalog r.withs (db.fallbackVisitor.visitAll () commonTables) =
      Winq.extendWith db.toCatalog s.withs commonTables := by
  rw [h.withs]
  refine extendWith_fallback fun w hnames => withOf_fallback commonTables hcommon ?_
  exact sameWith_cons rfl hnames

/-- The name context of the terms of `ORDER BY`. -/
theorem orderingScope_fallback {s : Context} {i : Select}
    (hi : db.meaningVisitor.Holds db.FaithfulSources s i) :
    orderingScope db.toCatalog s.withs (db.fallbackVisitor.visit () i) =
        db.rewrittenScope (orderingScope db.toCatalog s.withs i) ∧
      ∀ e ∈ (orderingScope db.toCatalog s.withs i).sources, db.isMigrating e = true →
        db.Genuine e := by
  cases i
  case core results sources conditions groups =>
    obtain ⟨-, -, hsources, -⟩ := hi
    constructor
    · rw [Visitor.visit]
      exact coreScope_fallback (s := db.meaningVisitor.sources s results sources) hsources
    · exact genuine_sourcesOfAll sources (s := db.meaningVisitor.sources s results sources) hsources
  all_goals exact ⟨by rw [Visitor.visit]; rfl, by simp [orderingScope]⟩

/-- The name contexts of a select statement. -/
theorem Carried.select {s r : Context} (h : db.Carried s r)
    {commonTables cores ordering limit : List Select}
    (hi : db.meaningVisitor.Holds db.FaithfulSources s
      (.select commonTables cores ordering limit)) :
    db.Carried (db.meaningVisitor.commonTables s commonTables cores)
        (db.processedVisitor.commonTables r commonTables cores) ∧
      db.Carried (db.meaningVisitor.cores s commonTables cores)
        (db.processedVisitor.cores r commonTables cores) ∧
      db.Carried (db.meaningVisitor.ordering s commonTables cores)
        (db.processedVisitor.ordering r commonTables cores) ∧
      db.Carried (db.meaningVisitor.limit s commonTables cores)
        (db.processedVisitor.limit r commonTables cores) := by
  obtain ⟨-, hcommon, hcores, -⟩ := hi
  have hwiths := h.extendWith hcommon
  have haround : (db.fallbackVisitor.visitAll () cores).map tableOrSubqueries :: r.around =
      (cores.map tableOrSubqueries :: s.around).map
        (List.map (db.fallbackVisitor.visitAll ())) := by
    rw [List.map_cons, h.around, Visitor.visitAll_eq_map, List.map_map, List.map_map]
    congr 1
    refine List.map_congr_left fun i _ => ?_
    cases i <;> simp [Visitor.visit, Visitor.visitAll, tableOrSubqueries]
  have hordering : ∀ i ∈ cores,
      orderingScope db.toCatalog (Winq.extendWith db.toCatalog s.withs commonTables)
          (db.fallbackVisitor.visit () i) =
        db.rewrittenScope (orderingScope db.toCatalog
          (Winq.extendWith db.toCatalog s.withs commonTables) i) ∧
      ∀ e ∈ (orderingScope db.toCatalog
          (Winq.extendWith db.toCatalog s.withs commonTables) i).sources,
        db.isMigrating e = true → db.Genuine e := fun i hmem =>
    orderingScope_fallback (s := db.meaningVisitor.cores s commonTables cores)
      ((Visitor.holdsAll_iff_forall _).mp hcores i hmem)
  have hscopes : (db.fallbackVisitor.visitAll () cores).map (orderingScope db.toCatalog
      (Winq.extendWith db.toCatalog r.withs (db.fallbackVisitor.visitAll () commonTables))) =
        (cores.map (orderingScope db.toCatalog
          (Winq.extendWith db.toCatalog s.withs commonTables))).map db.rewrittenScope := by
    rw [hwiths, Visitor.visitAll_eq_map, List.map_map, List.map_map]
    exact List.map_congr_left fun i hmem => (hordering i hmem).1
  refine ⟨⟨rfl, h.scopes, rfl, hwiths, rfl, congrArg ([] :: ·) haround, fun scope hin => ?_⟩,
    ⟨rfl, h.scopes, rfl, hwiths, rfl, haround, fun scope hin => ?_⟩,
    ⟨?_, ?_, rfl, hwiths, rfl, haround, fun scope hin => ?_⟩,
    ⟨rfl, rfl, rfl, hwiths, rfl, haround, fun scope hin => ?_⟩⟩
  · have hin : scope ∈ s.scopes ++ [] := hin
    exact h.genuine_scopes scope (by simpa using hin)
  · have hin : scope ∈ s.scopes ++ [] := hin
    exact h.genuine_scopes scope (by simpa using hin)
  · exact (congrArg List.head? hscopes).trans List.head?_map
  · exact (congrArg List.tail hscopes).trans List.map_tail.symm
  · have hin : scope ∈ ((cores.map (orderingScope db.toCatalog
        (Winq.extendWith db.toCatalog s.withs commonTables))).head?.toList ++
          (cores.map (orderingScope db.toCatalog
            (Winq.extendWith db.toCatalog s.withs commonTables))).tail) ++ [] := hin
    obtain ⟨i, hmem, rfl⟩ : ∃ i ∈ cores, orderingScope db.toCatalog
        (Winq.extendWith db.toCatalog s.withs commonTables) i = scope := by
      cases cores with
      | nil => simp at hin
      | cons core cores => simpa [eq_comm] using hin
    exact (hordering i hmem).2
  · have hin : scope ∈ ([] : List Scope) := hin
    cases hin

/-- `process` carries the names over. -/
theorem related_processedVisitor :
    Visitor.Related db.meaningVisitor db.processedVisitor db.Carried db.FaithfulSources
      db.FaithfulAt where
  column s r c h hc := by
    have hresolve := @resolve_iff db s c
    rw [← h.eq] at hresolve
    rw [FaithfulAt]
    split_ifs with hname
    · have hwildcard := resolve_wildcard hname (hc hname)
      rw [← h.eq] at hwildcard
      exact iff_of_true hwildcard (hc hname)
    · exact hresolve hname h.genuine_scopes
  table s r t h _ := by
    have hshape : SameWith s.withs r.withs := by rw [h.withs]; rfl
    refine Iff.trans ?_ (tableMeaning_fallbackTable hshape)
    exact ⟨congrArg Prod.fst, congrArg (·, [])⟩
  inTable s r e t h ht := by
    have hbinds : db.binds t.schema t.table = false := ht.1.binds.trans ht.2
    have hsame : db.migratingMeaning s.withs t = tableMeaning db.toCatalog s.withs t := by
      rw [migratingMeaning, ht.2, if_neg Bool.false_ne_true]
    refine iff_of_true ?_ ht
    change (db.migratingMeaning s.withs t, _) = (tableMeaning _ r.withs (db.fallbackTable t),
      (tableSource _ r.withs (db.fallbackTable t)).columns)
    rw [fallbackTable_of_not_binds hbinds, h.withs, hsame]
  asName _ _ _ _ := rfl
  other s i hi := by cases i <;> trivial
  operand s r h := ⟨h.current, h.enclosing, h.outer, h.withs, rfl, h.around, h.genuine⟩
  subquery s r h := by
    refine ⟨rfl, h.outer, rfl, h.withs, rfl, h.around, fun scope hin => ?_⟩
    have hin : scope ∈ s.outer ++ [] := hin
    exact h.genuine scope (List.mem_append_right _ (by simpa using hin))
  values s r h := by
    refine ⟨rfl, h.scopes, rfl, h.withs, rfl, ?_, fun scope hin => ?_⟩
    · exact congrArg ([] :: ·) h.around
    · have hin : scope ∈ (({} : Scope) :: s.scopes) ++ [] := hin
      rcases List.mem_cons.mp (by simpa using hin) with rfl | hin
      · simp
      · exact h.genuine_scopes scope hin
  core s r _ _ _ _ h hi := h.core hi.2.2.1
  select s r _ _ _ _ h hi := h.select hi

/-! ### What follows from the trees -/

variable (db) in
/-- An entry before and after `process`, as far as the names of the tables tell. -/
def Alike (e e' : Source) : Prop :=
  e'.shape = (db.rewritten e).shape ∧ (db.isMigrating e = true → e'.columns ≠ e.columns)

theorem alike_of_not {e e' : Source} (hnot : db.isMigrating e = false) (h : e'.shape = e.shape) :
    db.Alike e e' :=
  ⟨by rw [rewritten_of_not hnot, h], fun hmigrating => by rw [hnot] at hmigrating; cases hmigrating⟩

theorem alike_tableSource {withs withs' : List With} (hw : SameWith withs withs') {t : TableName}
    (h : db.FaithfulTable withs t) : db.Alike (tableSource db.toCatalog withs t)
      (tableSource db.toCatalog withs' (db.fallbackTable t)) := by
  refine ⟨?_, fun hmigrating => ?_⟩
  · rw [← tableSource_fallbackTable h.binds]
    exact (tableSource_shape db.toCatalog hw _).symm
  · have hbinds : db.binds t.schema t.table = true := h.binds.trans hmigrating
    have hwiths : tableSource db.toCatalog withs' (db.fallbackTable t) =
        tableSource db.toCatalog withs (db.fallbackTable t) := by
      rw [fallbackTable_of_binds hbinds]
      simp [tableSource]
    rw [hwiths, tableSource_fallbackTable h.binds, columns_rewritten]
    exact (genuine_tableSource h.binds hmigrating).columnsOf_ne

mutual

/-- The entries of a `FROM` clause that is the same after `process`. -/
theorem alike_sourcesOf : ∀ (i : Select) {s r : Context}, SameWith s.withs r.withs →
    db.meaningVisitor.visit s i = db.processedVisitor.visit r i →
      List.Forall₂ db.Alike (sourcesOf db.toCatalog s.withs i)
        (sourcesOf db.toCatalog r.withs (db.fallbackVisitor.visit () i))
  | .table t, s, r, hw, heq => by
    rw [Visitor.visit, Visitor.visit, Identifier.table.injEq] at heq
    rw [Visitor.visit, sourcesOf, sourcesOf]
    exact .cons (alike_tableSource hw
      ((tableMeaning_fallbackTable hw).mp (congrArg Prod.fst heq))) .nil
  | .function _ _ _, _, _, _, _ => by
    rw [Visitor.visit, sourcesOf, sourcesOf]
    exact .cons (alike_of_not rfl rfl) .nil
  | .subquery _ _, _, _, _, _ => by
    rw [Visitor.visit, sourcesOf, sourcesOf]
    exact .cons (alike_of_not rfl rfl) .nil
  | .tables items, s, r, hw, heq => by
    rw [Visitor.visit, Visitor.visit, Identifier.tables.injEq] at heq
    rw [Visitor.visit, sourcesOf, sourcesOf]
    exact alike_sourcesOfAll items hw heq
  | .joinClause items, s, r, hw, heq => by
    rw [Visitor.visit, Visitor.visit, Identifier.joinClause.injEq] at heq
    rw [Visitor.visit, sourcesOf, sourcesOf]
    exact alike_sourcesOfAll items hw heq
  | .column _, _, _, _, _ | .bindParameter _ _, _, _, _, _ | .expression _, _, _, _, _
  | .collate _, _, _, _, _ | .inTable _ _, _, _, _, _ | .resultColumn _ _, _, _, _, _
  | .core _ _ _ _, _, _, _, _ | .values _, _, _, _, _ | .commonTable _ _ _, _, _, _, _
  | .select _ _ _ _, _, _, _, _ => by simp [Visitor.visit, sourcesOf]

theorem alike_sourcesOfAll : ∀ (is : List Select) {s r : Context}, SameWith s.withs r.withs →
    db.meaningVisitor.visitAll s is = db.processedVisitor.visitAll r is →
      List.Forall₂ db.Alike (sourcesOfAll db.toCatalog s.withs is)
        (sourcesOfAll db.toCatalog r.withs (db.fallbackVisitor.visitAll () is))
  | [], _, _, _, _ => by simp [Visitor.visitAll, sourcesOfAll]
  | i :: is, s, r, hw, heq => by
    rw [Visitor.visitAll, Visitor.visitAll, List.cons.injEq] at heq
    rw [Visitor.visitAll, sourcesOfAll, sourcesOfAll]
    exact List.rel_append (alike_sourcesOf i hw heq.1) (alike_sourcesOfAll is hw heq.2)

end

/-- The name contexts before and after `process`, as far as the names of the tables tell. -/
structure Outlined (db : UnionedCatalog) (s r : Context) : Prop where
  withs : SameWith s.withs r.withs
  scopes : List.Forall₂ (fun scope scope' => List.Forall₂ db.Alike scope.sources scope'.sources)
    s.scopes r.scopes
  outer : List.Forall₂ (fun scope scope' => List.Forall₂ db.Alike scope.sources scope'.sources)
    s.outer r.outer

theorem mem_wildcard {sources : List Source} {c : ColumnName} {index : ℕ} {columns : List String} :
    (index, columns) ∈ (sources.zipIdx.filter fun s => s.1.matches c).map (fun s =>
      (s.2, s.1.columns)) ↔
        ∃ e, sources[index]? = some e ∧ e.matches c = true ∧ e.columns = columns := by
  constructor
  · intro h
    obtain ⟨⟨e, i⟩, he, heq⟩ := List.mem_map.mp h
    obtain ⟨hin, hmatch⟩ := List.mem_filter.mp he
    cases heq
    exact ⟨e, List.mk_mem_zipIdx_iff_getElem?.mp hin, hmatch, rfl⟩
  · rintro ⟨e, he, hmatch, rfl⟩
    refine List.mem_map.mpr ⟨(e, index), List.mem_filter.mpr ⟨?_, hmatch⟩, rfl⟩
    exact List.mk_mem_zipIdx_iff_getElem?.mpr he

/-- A wildcard that stands for the same columns. -/
theorem Outlined.faithfulWildcard {s r : Context} (h : db.Outlined s r) {c : ColumnName}
    (hname : c.name = "*") (heq : db.columnMeaning s c = r.resolve (db.fallbackColumn c)) :
    db.FaithfulWildcard s c := by
  intro scope hscope e he
  obtain ⟨rest, hs⟩ := List.head?_eq_some_iff.mp hscope
  obtain ⟨scope', rest', halike, -, hr⟩ := List.forall₂_cons_left_iff.mp (hs ▸ h.scopes)
  rw [columnMeaning, Context.resolve, Context.resolve, fallbackColumn_name, if_pos hname,
    if_pos hname, hs, hr] at heq
  have hlist := Resolution.wildcard.inj heq
  obtain ⟨index, hindex⟩ := List.mem_iff_getElem?.mp he
  obtain ⟨e', hindex', hshape, hcolumns⟩ :
      ∃ e', scope'.sources[index]? = some e' ∧ db.Alike e e' := by
    obtain ⟨hlt, rfl⟩ := List.getElem?_eq_some_iff.mp hindex
    have hlt' : index < scope'.sources.length := halike.length_eq ▸ hlt
    exact ⟨scope'.sources[index], List.getElem?_eq_getElem hlt', halike.get hlt hlt'⟩
  have hforth (hmatch : e.matches c = true) :
      e'.matches (db.fallbackColumn c) = true ∧ e'.columns = e.columns := by
    have hmem := mem_wildcard.mpr ⟨e, hindex, hmatch, rfl⟩
    rw [hlist] at hmem
    obtain ⟨e'', hindex'', hmatch', heq'⟩ := mem_wildcard.mp hmem
    obtain rfl := Option.some.inj (hindex'.symm.trans hindex'')
    exact ⟨hmatch', heq'⟩
  have hback (hmatch : e'.matches (db.fallbackColumn c) = true) : e.matches c = true := by
    have hmem := mem_wildcard.mpr ⟨e', hindex', hmatch, rfl⟩
    rw [← hlist] at hmem
    obtain ⟨e'', hindex'', hmatch', -⟩ := mem_wildcard.mp hmem
    obtain rfl := Option.some.inj (hindex.symm.trans hindex'')
    exact hmatch'
  refine ⟨?_, fun hmatch => ?_⟩
  · rw [← matches_fallbackColumn, ← Source.matches_congr hshape, Bool.eq_iff_iff]
    exact ⟨hback, fun hmatch => (hforth hmatch).1⟩
  · rw [← Bool.not_eq_true]
    exact fun hmigrating => hcolumns hmigrating (hforth hmatch).2

/-- The name context of the terms of `ORDER BY`. -/
theorem alike_orderingScope {s r : Context} (hw : SameWith s.withs r.withs) {i : Select}
    (heq : db.meaningVisitor.visit s i = db.processedVisitor.visit r i) :
    List.Forall₂ db.Alike (orderingScope db.toCatalog s.withs i).sources
      (orderingScope db.toCatalog r.withs (db.fallbackVisitor.visit () i)).sources := by
  cases i
  case core results sources conditions groups =>
    rw [Visitor.visit, Visitor.visit, Identifier.core.injEq] at heq
    rw [Visitor.visit]
    exact alike_sourcesOfAll sources (s := db.meaningVisitor.sources s results sources)
      (r := db.processedVisitor.sources r results sources) hw heq.2.1
  all_goals
    rw [Visitor.visit]
    exact .nil

/-- **The trees tell** which tables and wildcards are faithful. -/
theorem reflects_processedVisitor :
    Visitor.Reflects db.meaningVisitor db.processedVisitor db.Outlined db.FaithfulSources where
  column s r c h heq hname := h.faithfulWildcard hname heq
  table s r t h heq := (tableMeaning_fallbackTable h.withs).mp (congrArg Prod.fst heq)
  inTable s r e t h heq := by
    have ht := (tableMeaning_fallbackTable h.withs).mp (congrArg Prod.fst heq)
    refine ⟨ht, ?_⟩
    rw [← Bool.not_eq_true]
    exact fun hmeans => (alike_tableSource h.withs ht).2 hmeans (congrArg Prod.snd heq).symm
  other s i hi := by cases i <;> trivial
  operand s r h := ⟨h.withs, h.scopes, h.outer⟩
  subquery s r h := ⟨h.withs, h.outer, .nil⟩
  values s r h := ⟨h.withs, .cons .nil h.scopes, .nil⟩
  core s r results sources h hsources := by
    have halike := alike_sourcesOfAll sources (s := db.meaningVisitor.sources s results sources)
      (r := db.processedVisitor.sources r results sources) h.withs hsources
    exact ⟨⟨h.withs, .cons halike h.scopes, .nil⟩, ⟨h.withs, .cons halike h.scopes, h.scopes⟩,
      ⟨h.withs, .cons halike h.scopes, .nil⟩, ⟨h.withs, .cons halike .nil, .nil⟩⟩
  select s r commonTables cores h hcores := by
    have hwiths : SameWith (extendWith db.toCatalog s.withs commonTables)
        (extendWith db.toCatalog r.withs (db.fallbackVisitor.visitAll () commonTables)) := by
      simp only [SameWith, extendWith, List.map_cons, iterate_withOf_names]
      rw [declaredWith_fallback, h.withs]
    have hordering : List.Forall₂
        (fun scope scope' : Scope => List.Forall₂ db.Alike scope.sources scope'.sources)
        (cores.map (orderingScope db.toCatalog (extendWith db.toCatalog s.withs commonTables)))
        ((db.fallbackVisitor.visitAll () cores).map (orderingScope db.toCatalog
          (extendWith db.toCatalog r.withs (db.fallbackVisitor.visitAll () commonTables)))) := by
      rw [Visitor.visitAll_eq_map _ _ cores, List.map_map, List.forall₂_map_left_iff,
        List.forall₂_map_right_iff, List.forall₂_same]
      intro i hi
      rw [Visitor.visitAll_eq_map, Visitor.visitAll_eq_map] at hcores
      exact alike_orderingScope (s := db.meaningVisitor.cores s commonTables cores)
        (r := db.processedVisitor.cores r commonTables cores) hwiths
        (List.map_inj_left.mp hcores i hi)
    have hall (scopes : List Scope) : scopes.head?.toList ++ scopes.tail = scopes := by
      cases scopes <;> rfl
    rw [← hall (cores.map _),
      ← hall (List.map _ (db.fallbackVisitor.visitAll () cores))] at hordering
    exact ⟨⟨hwiths, h.scopes, .nil⟩, ⟨hwiths, h.scopes, .nil⟩, ⟨hwiths, hordering, .nil⟩,
      ⟨hwiths, .nil, .nil⟩⟩

/-- The migrating table `message`, its unioned view and the table `contact`. -/
def locateMessage (schema name : String) : Option Base :=
  if same schema "temp" then
    if same name (unionedView "message") then
      some { schema := "temp", columns := ["content", "id", "rowid"], stored := false }
    else none
  else if schema = "" || same schema "main" then
    if same name "message" then some { schema := "main", columns := ["id", "content"] }
    else if same name "contact" then some { schema := "main", columns := ["name"] }
    else none
  else none

theorem locateMessage_schema (schema name : String) (base : Base)
    (h : locateMessage schema name = some base) (hschema : schema ≠ "") :
    same base.schema schema = true := by
  unfold locateMessage at h
  split_ifs at h with htemp _ hmain
  all_goals obtain rfl := Option.some.inj h
  · exact same_comm _ _ ▸ htemp
  all_goals
    simp only [hschema, decide_false, Bool.false_or] at hmain
    exact same_comm _ _ ▸ hmain

theorem message_ne : ∀ m ∈ ["message"], m ≠ "" := by decide

theorem locateMessage_view : ∀ m ∈ ["message"], ∃ base,
    locateMessage "temp" (unionedView m) = some base ∧ base.schema = "temp" ∧
      base.stored = false ∧
      ∀ schema table, locateMessage schema m = some table → table.schema = "main" →
        table.stored = true ∧ ∃ rowid, IsViewRowid table.columns rowid ∧ ∀ name,
          base.columns.any (same name) = (table.columns.any (same name) || same name rowid) := by
  intro m hm
  obtain rfl := List.mem_singleton.mp hm
  refine ⟨{ schema := "temp", columns := ["content", "id", "rowid"], stored := false },
    by decide +kernel, rfl, rfl, fun schema table h hmain => ?_⟩
  have hview : same "message" (unionedView "message") = false := by decide +kernel
  simp only [locateMessage, hview, same_refl, Bool.false_eq_true, if_false, if_true] at h
  split_ifs at h
  obtain rfl := Option.some.inj h
  refine ⟨rfl, "rowid", ⟨by decide +kernel, by decide +kernel⟩, fun name => ?_⟩
  simp [Bool.or_assoc, Bool.or_left_comm]

/-- The catalog of these tables. -/
def unionedMessage : UnionedCatalog where
  locate := locateMessage
  locate_schema := locateMessage_schema
  migrating := ["message"]
  migrating_ne := message_ne
  view := locateMessage_view

/-- `SELECT message.name FROM ...`. -/
def readColumn (name : String) (t : TableName) : Select :=
  .select [] [.core [.resultColumn (.column { table := "message", name }) ""] [.table t] [] []]
    [] []

end UnionedCatalog

end Wcdb
