import Mathlib.Data.List.Nodup
import Wcdb.Core.Vacuum

/-!
# Virtual tables and their shadow tables in a vacuum

`executeVacuum_right_iff`: the pass is right exactly if every shadow table follows a virtual table
with nothing but shadow tables in between, and every question the flag asks about a table is
answered truly. An ordinary table whose name sorts in between, as `fts1` does between `fts` and
`fts_config`, makes the vacuum fail: `executeVacuum_between`.
-/

namespace Wcdb.VacuumHandleOperator

open Repair (Name ascii MasterItem)

/-! ### The tables before a table -/

namespace Schema

/-- The tables that the loop does not skip by their name. -/
def passed (s : Schema) : List TableInfo := s.tables.filter fun t => t.name ≠ sequenceTable

/-- The tables among some that are no shadow tables. -/
def owners (s : Schema) (tables : List TableInfo) : List TableInfo :=
  tables.filter fun t => ¬s.IsShadow t.name

/-- The tables that are copied before the loop. -/
def first (s : Schema) : List TableInfo := s.tables.filter fun t => t.name = sequenceTable

/-- What the new database has when the tables before a table are done. -/
def present (s : Schema) (before : List TableInfo) : Finset Name :=
  ((s.first ++ s.owners before).flatMap fun t => t.name :: s.shadows t.name).toFinset

/-- The last table that is no shadow table is a virtual one, with rowids. -/
def AfterVirtual (s : Schema) (before : List TableInfo) : Prop :=
  ∃ t ∈ (s.owners before).getLast?,
    (s.attributes t.name).isVirtual = true ∧ (s.attributes t.name).withoutRowid = false

instance (s : Schema) (before : List TableInfo) : Decidable (s.AfterVirtual before) :=
  decidable_of_iff ((s.owners before).getLast?.any fun t =>
    (s.attributes t.name).isVirtual && !(s.attributes t.name).withoutRowid) (by
      cases h : (s.owners before).getLast? <;> simp [AfterVirtual, h])

/-- A shadow table comes after a virtual table and other shadow tables only, and after a virtual
table it is answered truly whether the table is one of its shadow tables. -/
def Follows (answers : Finset Name → Name → Bool) (s : Schema) (before : List TableInfo)
    (info : TableInfo) : Prop :=
  (s.IsShadow info.name → s.AfterVirtual before) ∧
    (s.AfterVirtual before → (answers (s.present before) info.name = true ↔ s.IsShadow info.name))

end Schema

/-! ### The run that is right -/

namespace Schema

/-- The names of the tables to be created and copied, up to a table. -/
def due (s : Schema) (before : List TableInfo) : List Name :=
  (s.first ++ s.owners before).map TableInfo.name

variable {s : Schema} {before after : List TableInfo} {info : TableInfo}

theorem owners_concat_shadow (h : s.IsShadow info.name) :
    s.owners (before ++ [info]) = s.owners before := by
  simp [owners, h]

theorem owners_concat (h : ¬s.IsShadow info.name) :
    s.owners (before ++ [info]) = s.owners before ++ [info] := by
  simp [owners, h]

theorem due_concat (h : ¬s.IsShadow info.name) :
    s.due (before ++ [info]) = s.due before ++ [info.name] := by
  rw [due, due, owners_concat h, ← List.append_assoc, List.map_append]
  rfl

theorem present_concat (h : ¬s.IsShadow info.name) :
    s.present (before ++ [info]) =
      (info.name :: s.shadows info.name).toFinset ∪ s.present before := by
  rw [present, present, owners_concat h, ← List.append_assoc, List.flatMap_append,
    List.toFinset_append, Finset.union_comm]
  simp

theorem afterVirtual_concat (h : ¬s.IsShadow info.name) :
    s.AfterVirtual (before ++ [info]) ↔
      (s.attributes info.name).isVirtual = true ∧
        (s.attributes info.name).withoutRowid = false := by
  simp [AfterVirtual, owners_concat h]

theorem due_prefix (h : s.passed = before ++ after) : s.due before <+: s.due s.passed := by
  rw [due, due, h, owners, owners, List.filter_append, ← List.append_assoc]
  exact (List.prefix_append _ _).map _

theorem inOrder_passed (s : Schema) : InOrder s.passed := (initTables_inOrder s.rows).filter _

theorem names_nodup (s : Schema) : (s.tables.map TableInfo.name).Nodup := by
  refine List.pairwise_map.mpr ((initTables_inOrder s.rows).imp fun h heq => ?_)
  rw [heq] at h
  exact List.lt_irrefl _ h

theorem mem_first {t : TableInfo} : t ∈ s.first ↔ t ∈ s.tables ∧ t.name = sequenceTable := by
  simp [first]

theorem mem_passed {t : TableInfo} : t ∈ s.passed ↔ t ∈ s.tables ∧ t.name ≠ sequenceTable := by
  simp [passed]

theorem mem_owners {t : TableInfo} :
    t ∈ s.owners before ↔ t ∈ before ∧ ¬s.IsShadow t.name := by
  simp [owners]

theorem due_nodup (s : Schema) : (s.due s.passed).Nodup := by
  have hfirst : (s.first.map TableInfo.name).Nodup :=
    s.names_nodup.sublist (List.filter_sublist.map _)
  have howners : ((s.owners s.passed).map TableInfo.name).Nodup :=
    s.names_nodup.sublist ((List.filter_sublist.trans List.filter_sublist).map _)
  rw [due, List.map_append]
  refine hfirst.append howners fun n hn hn' => ?_
  obtain ⟨t, ht, rfl⟩ := List.mem_map.mp hn
  obtain ⟨u, hu, heq⟩ := List.mem_map.mp hn'
  exact (mem_passed.mp (mem_owners.mp hu).1).2 (heq.trans (mem_first.mp ht).2)

end Schema

namespace Origin

variable {o : Origin} {before after : List TableInfo} {info : TableInfo}

theorem sequence_not_shadow (o : Origin) : ¬o.IsShadow sequenceTable := fun h =>
  o.shadow_notReserved _ h (by decide)

theorem mem_present {table : Name} : table ∈ o.present before ↔
    ∃ t ∈ o.first ++ o.owners before, table ∈ t.name :: o.shadows t.name := by
  rw [Schema.present, List.mem_toFinset, List.mem_flatMap]

/-- What is there before a table in the order. -/
theorem of_mem_done (h : o.passed = before ++ info :: after) {t : TableInfo}
    (ht : t ∈ o.first ++ o.owners before) :
    t ∈ o.tables ∧ t.name ≠ info.name ∧ ¬o.IsShadow t.name := by
  have hinfo : info ∈ o.passed := h ▸ List.mem_append_right _ List.mem_cons_self
  rcases List.mem_append.mp ht with ht | ht
  · obtain ⟨hmem, hname⟩ := Schema.mem_first.mp ht
    refine ⟨hmem, ?_, hname ▸ o.sequence_not_shadow⟩
    exact hname ▸ (Schema.mem_passed.mp hinfo).2.symm
  · obtain ⟨hbefore, hshadow⟩ := Schema.mem_owners.mp ht
    have horder : t.name < info.name :=
      (List.pairwise_append.mp (h ▸ o.inOrder_passed)).2.2 t hbefore info List.mem_cons_self
    have hmem : t ∈ o.passed := h ▸ List.mem_append_left _ hbefore
    refine ⟨(Schema.mem_passed.mp hmem).1, fun heq => ?_, hshadow⟩
    exact List.lt_irrefl _ (heq ▸ horder)

/-- A table that is no shadow table does not exist before its turn, nor do its shadow tables. -/
theorem fresh (h : o.passed = before ++ info :: after) (hshadow : ¬o.IsShadow info.name) :
    ¬∃ table ∈ info.name :: o.shadows info.name, table ∈ o.present before := by
  rintro ⟨table, htable, hpresent⟩
  have hinfo : info ∈ o.tables :=
    (Schema.mem_passed.mp (h ▸ List.mem_append_right _ List.mem_cons_self)).1
  obtain ⟨t, ht, hof⟩ := mem_present.mp hpresent
  obtain ⟨hmem, hne, hplain⟩ := of_mem_done h ht
  rcases List.mem_cons.mp htable with rfl | htable <;> rcases List.mem_cons.mp hof with heq | hof
  · exact hne heq.symm
  · exact hshadow ⟨t, hmem, hof⟩
  · exact hplain (heq ▸ ⟨info, hinfo, htable⟩)
  · exact hne (o.shadow_owner t hmem info hinfo table hof htable)

/-- A shadow table exists before its turn: its name extends that of its owner. -/
theorem owned (h : o.passed = before ++ info :: after) (hshadow : o.IsShadow info.name) :
    info.name ∈ o.present before := by
  obtain ⟨t, ht, hof⟩ := hshadow
  have hvirtual : (o.attributes t.name).isVirtual = true := by
    by_contra hnot
    rw [Schema.shadows, if_neg hnot] at hof
    exact absurd hof List.not_mem_nil
  have hlt : t.name < info.name := by
    rw [Schema.shadows, if_pos hvirtual] at hof
    obtain ⟨suffix, -, heq⟩ := List.mem_map.mp hof
    have hlex := List.Lex.append_left (fun a b : UInt8 => a < b)
      (List.Lex.nil (a := 95) (l := suffix)) t.name
    rw [List.append_nil, heq] at hlex
    exact hlex
  have hsequence : t.name ≠ sequenceTable := fun heq => by
    rw [heq, o.sequence_ordinary] at hvirtual
    exact absurd hvirtual Bool.false_ne_true
  have hplain : ¬o.IsShadow t.name := fun hs => by
    rw [o.shadow_ordinary _ hs] at hvirtual
    exact absurd hvirtual Bool.false_ne_true
  have hpassed : t ∈ before ++ info :: after := h ▸ Schema.mem_passed.mpr ⟨ht, hsequence⟩
  have hbefore : t ∈ before := by
    rcases List.mem_append.mp hpassed with hbefore | hrest
    · exact hbefore
    · have horder := (List.pairwise_append.mp (h ▸ o.inOrder_passed)).2.1
      rcases List.mem_cons.mp hrest with rfl | hafter
      · exact absurd hlt (List.lt_irrefl _)
      · exact absurd hlt (List.lt_asymm ((List.pairwise_cons.mp horder).1 t hafter))
  exact mem_present.mpr ⟨t, List.mem_append_right _ (Schema.mem_owners.mpr ⟨hbefore, hplain⟩),
    List.mem_cons_of_mem _ hof⟩

theorem due_not_shadow {n : Name} (h : n ∈ o.due o.passed) : ¬o.IsShadow n := by
  obtain ⟨t, ht, rfl⟩ := List.mem_map.mp h
  rcases List.mem_append.mp ht with ht | ht
  · exact (Schema.mem_first.mp ht).2 ▸ o.sequence_not_shadow
  · exact (Schema.mem_owners.mp ht).2

theorem mem_due {t : TableInfo} (ht : t ∈ o.tables) (h : ¬o.IsShadow t.name) :
    t.name ∈ o.due o.passed := by
  refine List.mem_map_of_mem (List.mem_append.mpr ?_)
  by_cases hname : t.name = sequenceTable
  · exact Or.inl (Schema.mem_first.mpr ⟨ht, hname⟩)
  · exact Or.inr (Schema.mem_owners.mpr ⟨Schema.mem_passed.mpr ⟨ht, hname⟩, h⟩)

end Origin

/-- The state when the tables before a table are done as they should be, but for the flag. -/
def doneWith (s : Schema) (before : List TableInfo) (flag : Bool) : Copying where
  main := s.present before
  created := s.due before
  copied := s.due before
  needCheckShadowTable := flag

/-- The state when the tables before a table are done as they should be. -/
def ideal (s : Schema) (before : List TableInfo) : Copying :=
  doneWith s before (decide (s.AfterVirtual before))

theorem ideal_concat_shadow {s : Schema} {before : List TableInfo} {info : TableInfo}
    (h : s.IsShadow info.name) : ideal s (before ++ [info]) = ideal s before := by
  have howners : s.owners (before ++ [info]) = s.owners before := Schema.owners_concat_shadow h
  have hflag : s.AfterVirtual (before ++ [info]) ↔ s.AfterVirtual before := by
    rw [Schema.AfterVirtual, howners, Schema.AfterVirtual]
  rw [ideal, ideal, decide_eq_decide.mpr hflag, doneWith, doneWith, Schema.present, Schema.due,
    Schema.present, Schema.due, howners]

/-- Something else failed, and nothing wrong was done until then. -/
structure GivenUp (works : Stage → Name → Bool) (s : Schema) (r : Attempt) : Prop where
  other : r.2 = some .other
  created : r.1.created <+: s.due s.passed
  copied : r.1.copied <+: s.due s.passed
  failing : ∃ stage table, works stage table = false

section Ideal

variable {answers : Finset Name → Name → Bool} {works : Stage → Name → Bool} {o : Origin}
  {before after : List TableInfo} {info : TableInfo}

theorem GivenUp.andThen {s : Schema} {r : Attempt} (h : GivenUp works s r)
    (next : Copying → Attempt) : r.andThen next = r :=
  Attempt.andThen_of_failed h.other next

/-- Creating and copying a table in its turn. -/
theorem create_copy (stage : Stage) (h : o.passed = before ++ info :: after)
    (hshadow : ¬o.IsShadow info.name) (flag : Bool) {r : Attempt}
    (hr : r = (createTable works o.toSchema info (doneWith o.toSchema before flag)).andThen
      (copyRows works stage info)) :
    r = (doneWith o.toSchema (before ++ [info]) flag, none) ∨ GivenUp works o.toSchema r := by
  have hbefore := Schema.due_prefix (s := o.toSchema) h
  have hinfo : o.due before ++ [info.name] <+: o.due o.passed := by
    rw [← Schema.due_concat hshadow]
    exact Schema.due_prefix (by rw [h, List.append_assoc]; rfl)
  rw [createTable, doneWith, if_neg (o.fresh h hshadow)] at hr
  unfold copyRows attempt at hr
  by_cases hcreate : works .createTable info.name
  · by_cases hcopy : works stage info.name
    · left
      simp [hr, hcreate, hcopy, doneWith, Schema.present_concat hshadow, Schema.due_concat hshadow]
    · right
      simp only [hcreate, hcopy, if_true, Attempt.andThen_none] at hr
      subst hr
      exact ⟨rfl, hinfo, hbefore, stage, info.name, by simpa using hcopy⟩
  · right
    simp only [hcreate] at hr
    subst hr
    exact ⟨rfl, hbefore, hbefore, .createTable, info.name, by simpa using hcreate⟩

theorem copyTable_ideal (h : o.passed = before ++ info :: after)
    (hshadow : ¬o.IsShadow info.name) {r : Attempt}
    (hr : r = copyTable works o.toSchema info (doneWith o.toSchema before false)) :
    r = (ideal o.toSchema (before ++ [info]), none) ∨ GivenUp works o.toSchema r := by
  have hbefore := Schema.due_prefix (s := o.toSchema) h
  have hflag : o.AfterVirtual (before ++ [info]) ↔
      (o.attributes info.name).isVirtual = true ∧ (o.attributes info.name).withoutRowid = false :=
    Schema.afterVirtual_concat hshadow
  rw [copyTable, attempt] at hr
  by_cases hattribute : works .getTableAttribute info.name
  · rw [if_pos hattribute, Attempt.andThen_none] at hr
    cases hrowid : (o.attributes info.name).withoutRowid with
    | true =>
      rw [hrowid, if_pos rfl, copyWithouRowidTable] at hr
      rw [ideal, decide_eq_false (by rw [hflag, hrowid]; simp)]
      exact create_copy .copyAtOnce h hshadow false hr
    | false =>
      rw [hrowid, if_neg Bool.false_ne_true, copyNormalTable] at hr
      cases hvirtual : (o.attributes info.name).isVirtual with
      | true =>
        rw [hvirtual, if_pos rfl] at hr
        rw [ideal, decide_eq_true (hflag.mpr ⟨hvirtual, hrowid⟩)]
        exact create_copy .copyInBatches h hshadow true hr
      | false =>
        rw [hvirtual, if_neg Bool.false_ne_true] at hr
        rw [ideal, decide_eq_false (by rw [hflag, hvirtual]; simp)]
        exact create_copy .copyInBatches h hshadow false hr
  · right
    rw [if_neg hattribute, Attempt.andThen_some] at hr
    subst hr
    exact ⟨rfl, hbefore, hbefore, .getTableAttribute, info.name, by simpa using hattribute⟩

/-- A shadow table that is not asked for, or not found, is created again. -/
theorem copyTable_shadow (h : o.passed = before ++ info :: after) (hshadow : o.IsShadow info.name)
    (hworks : ∀ stage table, works stage table = true) :
    (copyTable works o.toSchema info (doneWith o.toSchema before false)).2 =
      some (.alreadyExists info.name) := by
  have hexists : ∃ table ∈ info.name :: o.shadows info.name, table ∈ o.present before :=
    ⟨info.name, List.mem_cons_self, o.owned h hshadow⟩
  have hcreate : ∀ flag, createTable works o.toSchema info (doneWith o.toSchema before flag) =
      (doneWith o.toSchema before flag, some (.alreadyExists info.name)) := fun flag => by
    rw [createTable, doneWith, if_pos hexists]
  rw [copyTable, attempt, if_pos (hworks _ _), Attempt.andThen_none, copyWithouRowidTable,
    copyNormalTable, o.shadow_ordinary _ hshadow, if_neg Bool.false_ne_true, hcreate]
  simp

/-- One step of the pass. -/
theorem visit_ideal (h : o.passed = before ++ info :: after)
    (hfollows : o.Follows answers before info) {r : Attempt}
    (hr : r = visit answers works o.toSchema info (ideal o.toSchema before)) :
    r = (ideal o.toSchema (before ++ [info]), none) ∨ GivenUp works o.toSchema r := by
  have hinfo : info.name ≠ sequenceTable :=
    (Schema.mem_passed.mp (h ▸ List.mem_append_right _ List.mem_cons_self)).2
  have hbefore := Schema.due_prefix (s := o.toSchema) h
  rw [visit, if_neg hinfo] at hr
  by_cases hafter : o.AfterVirtual before
  · have hflag : (ideal o.toSchema before).needCheckShadowTable = true := decide_eq_true hafter
    rw [hflag, if_pos rfl, attempt] at hr
    by_cases hexist : works .tableExists info.name
    · rw [if_pos hexist, Attempt.andThen_none] at hr
      by_cases hshadow : o.IsShadow info.name
      · left
        have hanswer : answers (ideal o.toSchema before).main info.name = true :=
          (hfollows.2 hafter).mpr hshadow
        rw [if_pos hanswer] at hr
        rw [hr, ideal_concat_shadow hshadow]
      · have hanswer : ¬answers (ideal o.toSchema before).main info.name = true :=
          fun hyes => hshadow ((hfollows.2 hafter).mp hyes)
        rw [if_neg hanswer] at hr
        exact copyTable_ideal h hshadow hr
    · right
      rw [if_neg hexist, Attempt.andThen_some] at hr
      subst hr
      exact ⟨rfl, hbefore, hbefore, .tableExists, info.name, by simpa using hexist⟩
  · have hideal : ideal o.toSchema before = doneWith o.toSchema before false := by
      rw [ideal, decide_eq_false hafter]
    have hshadow : ¬o.IsShadow info.name := fun hs => hafter (hfollows.1 hs)
    rw [hideal] at hr
    exact copyTable_ideal h hshadow hr

/-- The whole pass over the tables that are not skipped. -/
theorem pass_ideal {tables : List TableInfo} (h : o.passed = before ++ tables)
    (hfollows : ∀ pre info post, o.passed = pre ++ info :: post → o.Follows answers pre info)
    {r : Attempt} (hr : r = pass answers works o.toSchema tables (ideal o.toSchema before)) :
    r = (ideal o.toSchema o.passed, none) ∨ GivenUp works o.toSchema r := by
  induction tables generalizing before with
  | nil =>
    rw [List.append_nil] at h
    exact Or.inl (by rw [hr, h]; rfl)
  | cons info tables ih =>
    rw [pass] at hr
    rcases visit_ideal h (hfollows _ _ _ h)
      (r := visit answers works o.toSchema info (ideal o.toSchema before)) rfl with heq | hgiven
    · rw [heq, Attempt.andThen_none] at hr
      exact ih (by rw [h, List.append_assoc]; rfl) hr
    · rw [hgiven.andThen] at hr
      exact Or.inr (hr ▸ hgiven)

/-- The tables that are skipped by their name may be left out. -/
theorem pass_filter (tables : List TableInfo) (c : Copying) :
    pass answers works o.toSchema tables c =
      pass answers works o.toSchema (tables.filter fun t => t.name ≠ sequenceTable) c := by
  induction tables generalizing c with
  | nil => rfl
  | cons info tables ih =>
    by_cases hname : info.name = sequenceTable
    · rw [List.filter_cons_of_neg (by simpa using hname), ← ih, pass, visit, if_pos hname]
      rfl
    · rw [List.filter_cons_of_pos (by simpa using hname), pass, pass]
      exact congrArg _ (funext ih)

/-- What is done before the loop. -/
def prelude (works : Stage → Name → Bool) (s : Schema) : Attempt :=
  (attempt works .configDatabase [] {}).andThen fun c =>
    match s.tables.find? fun t => t.name = sequenceTable with
    | some info => copyWithouRowidTable works s info c
    | none => (c, none)

theorem executeVacuum_eq : executeVacuum answers works o.toSchema =
    ((prelude works o.toSchema).andThen (pass answers works o.toSchema o.passed)).andThen
      (attempt works .associatedSQLs []) := by
  rw [executeVacuum, prelude]
  exact congrArg (fun next => Attempt.andThen (Attempt.andThen _ next) _)
    (funext fun c => pass_filter o.tables c)

theorem first_eq (o : Origin) :
    o.first = (o.tables.find? fun t => t.name = sequenceTable).toList := by
  have hnodup : (o.first.map TableInfo.name).Nodup :=
    o.names_nodup.sublist (List.filter_sublist.map _)
  have hhead : o.first.head? = o.tables.find? fun t => t.name = sequenceTable :=
    List.head?_filter ..
  rw [← hhead]
  cases hfirst : o.first with
  | nil => rfl
  | cons a rest =>
    cases rest with
    | nil => rfl
    | cons b rest =>
      have ha := (Schema.mem_first.mp (hfirst ▸ List.mem_cons_self)).2
      have hb := (Schema.mem_first.mp (hfirst ▸ List.mem_cons_of_mem _ List.mem_cons_self)).2
      rw [hfirst] at hnodup
      simp [ha, hb] at hnodup

theorem prelude_ideal {r : Attempt} (hr : r = prelude works o.toSchema) :
    r = (ideal o.toSchema [], none) ∨ GivenUp works o.toSchema r := by
  have hnil : [] <+: o.due o.passed := List.nil_prefix
  have hideal : ideal o.toSchema [] = doneWith o.toSchema [] false := rfl
  have hprefix : o.due [] <+: o.due o.passed := Schema.due_prefix (List.nil_append o.passed).symm
  rw [prelude, attempt] at hr
  by_cases hconfig : works .configDatabase []
  · rw [if_pos hconfig, Attempt.andThen_none] at hr
    have hfirst := first_eq o
    cases hfind : o.tables.find? fun t => t.name = sequenceTable with
    | none =>
      rw [hfind] at hfirst hr
      left
      rw [hr, hideal, doneWith, Schema.present, Schema.due, hfirst]
      rfl
    | some info =>
      rw [hfind] at hfirst hr
      have hname : info.name = sequenceTable := by simpa using List.find?_some hfind
      have hshadows : o.shadows info.name = [] := by
        rw [hname, Schema.shadows, o.sequence_ordinary, if_neg Bool.false_ne_true]
      have hdue : o.due [] = [info.name] := by
        rw [Schema.due, hfirst]
        rfl
      rw [hdue] at hprefix
      have hempty : ¬∃ table ∈ info.name :: o.shadows info.name, table ∈ ({} : Copying).main :=
        fun ⟨_, _, hmem⟩ => absurd hmem (Finset.notMem_empty _)
      change r = copyWithouRowidTable works o.toSchema info {} at hr
      rw [copyWithouRowidTable, createTable, if_neg hempty] at hr
      unfold copyRows attempt at hr
      by_cases hcreate : works .createTable info.name
      · by_cases hcopy : works .copyAtOnce info.name
        · left
          rw [hideal, doneWith, hdue, Schema.present, hfirst, hr]
          simp [hcreate, hcopy, Schema.owners]
        · right
          simp only [hcreate, hcopy, if_true, Attempt.andThen_none] at hr
          subst hr
          exact ⟨rfl, hprefix, hnil, .copyAtOnce, info.name, by simpa using hcopy⟩
      · right
        simp only [hcreate] at hr
        subst hr
        exact ⟨rfl, hnil, hnil, .createTable, info.name, by simpa using hcreate⟩
  · right
    rw [if_neg hconfig, Attempt.andThen_some] at hr
    subst hr
    exact ⟨rfl, hnil, hnil, .configDatabase, [], by simpa using hconfig⟩

/-- The vacuum ends in the state it should, or something else fails. -/
theorem executeVacuum_ideal
    (hfollows : ∀ pre info post, o.passed = pre ++ info :: post → o.Follows answers pre info)
    {r : Attempt} (hr : r = executeVacuum answers works o.toSchema) :
    r = (ideal o.toSchema o.passed, none) ∨ GivenUp works o.toSchema r := by
  rw [executeVacuum_eq] at hr
  rcases prelude_ideal (r := prelude works o.toSchema) rfl with hprelude | hgiven
  · rw [hprelude, Attempt.andThen_none] at hr
    rcases pass_ideal (List.nil_append o.passed).symm hfollows
      (r := pass answers works o.toSchema o.passed (ideal o.toSchema [])) rfl with hpass | hgiven
    · rw [hpass, Attempt.andThen_none, attempt] at hr
      by_cases hassociated : works .associatedSQLs []
      · rw [if_pos hassociated] at hr
        exact Or.inl hr
      · rw [if_neg hassociated] at hr
        subst hr
        exact Or.inr ⟨rfl, List.prefix_rfl, List.prefix_rfl, .associatedSQLs, [],
          by simpa using hassociated⟩
    · rw [hgiven.andThen] at hr
      exact Or.inr (hr ▸ hgiven)
  · rw [hgiven.andThen, hgiven.andThen] at hr
    exact Or.inr (hr ▸ hgiven)

theorem right_ideal : Right o.toSchema (ideal o.toSchema o.passed, none) where
  not_exists _ := nofun
  created_nodup := o.due_nodup
  copied_nodup := o.due_nodup
  not_shadow _ h := o.due_not_shadow h
  complete _ _ ht hshadow := ⟨o.mem_due ht hshadow, o.mem_due ht hshadow⟩

theorem GivenUp.right {r : Attempt} (h : GivenUp works o.toSchema r) : Right o.toSchema r where
  not_exists table heq := by
    rw [h.other] at heq
    cases heq
  created_nodup := o.due_nodup.sublist h.created.sublist
  copied_nodup := o.due_nodup.sublist h.copied.sublist
  not_shadow _ hmem := o.due_not_shadow (h.created.subset hmem)
  complete hnone := by
    rw [h.other] at hnone
    cases hnone

end Ideal

/-! ### A pass that is right follows the order -/

section Creates

variable {answers : Finset Name → Name → Bool} {works : Stage → Name → Bool} {s : Schema}
  {info : TableInfo} {c : Copying}

theorem attempt_fst (stage : Stage) (table : Name) : (attempt works stage table c).1 = c := by
  rw [attempt]
  split_ifs <;> rfl

theorem attempt_ne_other (hworks : ∀ stage table, works stage table = true) (stage : Stage)
    (table : Name) : (attempt works stage table c).2 ≠ some .other := by
  rw [attempt, if_pos (hworks stage table)]
  simp

theorem andThen_attempt (hworks : ∀ stage table, works stage table = true) (r : Attempt)
    (stage : Stage) (table : Name) : r.andThen (attempt works stage table) = r := by
  obtain ⟨c, _ | f⟩ := r
  · rw [Attempt.andThen_none, attempt, if_pos (hworks stage table)]
  · rfl

/-- Nothing but the table is created. -/
def Adds (c : Copying) (info : TableInfo) (c' : Copying) : Prop :=
  ∀ n ∈ c'.created, n ∈ c.created ∨ n = info.name

theorem copyTable_adds : Adds c info (copyTable works s info c).1 := by
  have hcreate : ∀ c₁, Adds c info c₁ → c₁.created = c.created →
      Adds c info (createTable works s info c₁).1 := fun c₁ h hcreated => by
    rw [createTable]
    split_ifs
    · exact h
    · rw [attempt]
      split_ifs
      · intro n hn
        rw [Attempt.andThen_none, hcreated] at hn
        exact (List.mem_append.mp hn).imp_right List.mem_singleton.mp
      · exact h
  have hcopy : ∀ stage c₁, Adds c info c₁ → Adds c info (copyRows works stage info c₁).1 :=
    fun stage c₁ h => Attempt.andThen_keeps ((attempt_fst stage info.name).symm ▸ h) fun _ h => h
  have hself : Adds c info c := fun _ => Or.inl
  rw [copyTable, attempt]
  by_cases hattribute : works .getTableAttribute info.name
  · rw [if_pos hattribute, Attempt.andThen_none]
    split_ifs
    · exact Attempt.andThen_keeps (hcreate c hself rfl) (hcopy .copyAtOnce)
    · exact Attempt.andThen_keeps (hcreate { c with needCheckShadowTable := true } hself rfl)
        (hcopy .copyInBatches)
    · exact Attempt.andThen_keeps (hcreate c hself rfl) (hcopy .copyInBatches)
  · rw [if_neg hattribute, Attempt.andThen_some]
    exact hself

theorem visit_adds : Adds c info (visit answers works s info c).1 := by
  have hself : Adds c info c := fun _ => Or.inl
  rw [visit]
  split_ifs
  · exact hself
  · rw [attempt]
    split_ifs
    · rw [Attempt.andThen_none]
      split_ifs
      · exact hself
      · exact copyTable_adds (c := { c with needCheckShadowTable := false })
    · exact hself
  · exact copyTable_adds

theorem pass_adds {tables : List TableInfo} {n : Name}
    (h : n ∈ (pass answers works s tables c).1.created) :
    n ∈ c.created ∨ n ∈ tables.map TableInfo.name := by
  induction tables generalizing c with
  | nil => exact Or.inl h
  | cons info tables ih =>
    rw [pass] at h
    have hvisit : Adds c info (visit answers works s info c).1 := visit_adds
    rw [List.map_cons, List.mem_cons, ← or_assoc]
    revert h hvisit
    obtain ⟨c', _ | f⟩ := visit answers works s info c <;> intro h hvisit
    · exact (ih h).imp_left (hvisit n)
    · exact Or.inl (hvisit n h)

theorem copyTable_ne_other (hworks : ∀ stage table, works stage table = true) :
    (copyTable works s info c).2 ≠ some .other := by
  have hcreate : ∀ c, (createTable works s info c).2 ≠ some .other := fun c => by
    rw [createTable]
    split_ifs
    · simp
    · exact Attempt.andThen_ne (attempt_ne_other hworks _ _) fun _ => by simp
  have hcopy : ∀ stage c, (copyRows works stage info c).2 ≠ some .other := fun stage c =>
    Attempt.andThen_ne (attempt_ne_other hworks _ _) fun _ => by simp
  refine Attempt.andThen_ne (attempt_ne_other hworks _ _) fun c => ?_
  split_ifs
  · exact Attempt.andThen_ne (hcreate _) (hcopy .copyAtOnce)
  · exact Attempt.andThen_ne (hcreate _) (hcopy .copyInBatches)
  · exact Attempt.andThen_ne (hcreate _) (hcopy .copyInBatches)

theorem pass_ne_other (hworks : ∀ stage table, works stage table = true)
    (tables : List TableInfo) (c : Copying) :
    (pass answers works s tables c).2 ≠ some .other := by
  induction tables generalizing c with
  | nil => simp [pass]
  | cons info tables ih =>
    refine Attempt.andThen_ne ?_ ih
    rw [visit]
    split_ifs
    · simp
    · refine Attempt.andThen_ne (attempt_ne_other hworks _ _) fun c => ?_
      split_ifs
      · simp
      · exact copyTable_ne_other hworks
    · exact copyTable_ne_other hworks

end Creates

section Follows

variable {answers : Finset Name → Name → Bool} {works : Stage → Name → Bool} {o : Origin}
  {before tables : List TableInfo} {info : TableInfo}

theorem not_right_of_exists {s : Schema} {r : Attempt} {table : Name}
    (h : r.2 = some (.alreadyExists table)) (next : Copying → Attempt) :
    ¬Right s (r.andThen next) := fun hright =>
  hright.not_exists table (by rw [Attempt.andThen_of_failed h, h])

/-- A table that is passed over is missing at the end. -/
theorem not_right_of_skipped (hworks : ∀ stage table, works stage table = true)
    (h : o.passed = before ++ info :: tables) (hshadow : ¬o.IsShadow info.name) :
    ¬Right o.toSchema (pass answers works o.toSchema tables (ideal o.toSchema before)) := by
  intro hright
  have hother : (pass answers works o.toSchema tables (ideal o.toSchema before)).2 ≠ some .other :=
    pass_ne_other hworks tables _
  have hinfo : info ∈ o.tables :=
    (Schema.mem_passed.mp (h ▸ List.mem_append_right _ List.mem_cons_self)).1
  have hnone : (pass answers works o.toSchema tables (ideal o.toSchema before)).2 = none := by
    cases hresult : (pass answers works o.toSchema tables (ideal o.toSchema before)).2 with
    | none => rfl
    | some f =>
      cases f with
      | alreadyExists table => exact absurd hresult (hright.not_exists table)
      | other => exact absurd hresult hother
  rcases pass_adds (hright.complete hnone info hinfo hshadow).1 with hdone | hlater
  · obtain ⟨t, ht, heq⟩ := List.mem_map.mp hdone
    exact (o.of_mem_done h ht).2.1 heq
  · obtain ⟨t, ht, heq⟩ := List.mem_map.mp hlater
    have horder := (List.pairwise_append.mp (h ▸ o.inOrder_passed)).2.1
    have hlt := (List.pairwise_cons.mp horder).1 t ht
    rw [heq] at hlt
    exact List.lt_irrefl _ hlt

/-- If nothing else fails, a pass that is right follows the order from where it stands. -/
theorem follows_of_right (hworks : ∀ stage table, works stage table = true)
    (h : o.passed = before ++ tables)
    (hright : Right o.toSchema (pass answers works o.toSchema tables (ideal o.toSchema before)))
    {pre post : List TableInfo} (hsplit : tables = pre ++ info :: post) :
    o.Follows answers (before ++ pre) info := by
  induction tables generalizing before pre with
  | nil => simp at hsplit
  | cons t tables ih =>
    have hfollows : o.Follows answers before t := by
      by_contra hnot
      have hname : t.name ≠ sequenceTable :=
        (Schema.mem_passed.mp (h ▸ List.mem_append_right _ List.mem_cons_self)).2
      rw [pass, visit, if_neg hname] at hright
      by_cases hafter : o.AfterVirtual before
      · have hflag : (ideal o.toSchema before).needCheckShadowTable = true :=
          decide_eq_true hafter
        rw [hflag, if_pos rfl, attempt, if_pos (hworks _ _), Attempt.andThen_none] at hright
        by_cases hanswer : answers (ideal o.toSchema before).main t.name = true
        · rw [if_pos hanswer, Attempt.andThen_none] at hright
          refine not_right_of_skipped hworks h (fun hshadow => hnot ?_) hright
          exact ⟨fun _ => hafter, fun _ => iff_of_true hanswer hshadow⟩
        · rw [if_neg hanswer] at hright
          have hshadow : o.IsShadow t.name := by
            by_contra hshadow
            exact hnot ⟨fun hs => absurd hs hshadow, fun _ => iff_of_false hanswer hshadow⟩
          exact not_right_of_exists (copyTable_shadow h hshadow hworks) _ hright
      · have hideal : ideal o.toSchema before = doneWith o.toSchema before false := by
          rw [ideal, decide_eq_false hafter]
        have hshadow : o.IsShadow t.name := by
          by_contra hshadow
          exact hnot ⟨fun hs => absurd hs hshadow, fun ha => absurd ha hafter⟩
        rw [hideal, if_neg (by simp [doneWith])] at hright
        exact not_right_of_exists (copyTable_shadow h hshadow hworks) _ hright
    cases pre with
    | nil =>
      obtain ⟨rfl, -⟩ := List.cons_eq_cons.mp hsplit
      rwa [List.append_nil]
    | cons a pre =>
      obtain ⟨rfl, hrest⟩ := List.cons_eq_cons.mp hsplit
      rcases visit_ideal h hfollows
        (r := visit answers works o.toSchema t (ideal o.toSchema before)) rfl with heq | hgiven
      · rw [pass, heq, Attempt.andThen_none] at hright
        have hsplit' : o.passed = (before ++ [t]) ++ tables := by
          rw [h, List.append_assoc]
          rfl
        have hafter := ih hsplit' hright hrest
        rwa [List.append_assoc] at hafter
      · obtain ⟨stage, table, hfails⟩ := hgiven.failing
        rw [hworks] at hfails
        cases hfails

/-- **The pass is right**, whatever else fails, exactly if each shadow table follows a virtual table
with only shadow tables in between and the tables there are told apart. -/
theorem executeVacuum_right_iff (answers : Finset Name → Name → Bool) (o : Origin) :
    (∀ works, Right o.toSchema (executeVacuum answers works o.toSchema)) ↔
      ∀ before info after, o.passed = before ++ info :: after → o.Follows answers before info := by
  constructor
  · intro hright before info after h
    have hworks : ∀ stage table, (fun _ _ => true : Stage → Name → Bool) stage table = true :=
      fun _ _ => rfl
    have hvacuum := hright fun _ _ => true
    rw [executeVacuum_eq] at hvacuum
    rcases prelude_ideal (r := prelude (fun _ _ => true) o.toSchema) rfl with hprelude | hgiven
    · rw [hprelude, Attempt.andThen_none, andThen_attempt hworks] at hvacuum
      exact follows_of_right hworks (List.nil_append o.passed).symm hvacuum h
    · obtain ⟨stage, table, hfails⟩ := hgiven.failing
      cases hfails
  · intro hfollows works
    rcases executeVacuum_ideal hfollows (r := executeVacuum answers works o.toSchema) rfl with
      heq | hgiven
    · exact heq ▸ right_ideal
    · exact hgiven.right

end Follows

/-! ### A table between a virtual table and its shadow table -/

section Between

/-- The name of an ordinary table sorts between those of a virtual table and its shadow table. -/
def betweenSchema : Schema where
  rows := [
    { type := ascii "table", name := ascii "fts" },
    { type := ascii "table", name := ascii "fts_config" },
    { type := ascii "table", name := ascii "fts1" }]
  attributes table := { isVirtual := table = ascii "fts" }
  suffixes _ := [ascii "config"]

theorem betweenSchema_isShadow {table : Name} (h : betweenSchema.IsShadow table) :
    table = ascii "fts_config" := by
  obtain ⟨t, ht, hof⟩ := h
  have hshadows : ∀ t ∈ betweenSchema.tables, ∀ n ∈ betweenSchema.shadows t.name,
      n = ascii "fts_config" := by decide
  exact hshadows t ht table hof

def between : Origin where
  toSchema := betweenSchema
  shadow_ordinary _ h := betweenSchema_isShadow h ▸ by decide
  sequence_ordinary := by decide
  shadow_notReserved _ h := betweenSchema_isShadow h ▸ by decide
  shadow_owner a ha b hb table hta htb := by
    have howner : ∀ t ∈ betweenSchema.tables, ∀ n ∈ betweenSchema.shadows t.name,
        t.name = ascii "fts" := by decide
    rw [howner a ha table hta, howner b hb table htb]

theorem executeVacuum_between :
    (executeVacuum (fun main table => decide (table ∈ main)) (fun _ _ => true)
      between.toSchema).2 = some (.alreadyExists (ascii "fts_config")) ∧
    ¬∀ works, Right between.toSchema
      (executeVacuum (fun main table => decide (table ∈ main)) works between.toSchema) := by
  have hfails : (executeVacuum (fun main table => decide (table ∈ main)) (fun _ _ => true)
      between.toSchema).2 = some (.alreadyExists (ascii "fts_config")) := by decide +kernel
  exact ⟨hfails, fun h => (h fun _ _ => true).not_exists _ hfails⟩

end Between

end Wcdb.VacuumHandleOperator
