import Wcdb.Winq.Clauses

/-!
# The tokens of printed clauses

Each clause is a body: what it prints keeps the tokens of its pieces before a blank, a closing
bracket or a comma. Where this depends on the components, the condition is called `Apart`.

* `WindowDef.body`: a frame right after the ordering terms has no blank before it, so that `ROWS`
  becomes a part of their last word.
* `InsertSTMT.body`: names are printed as they are, so that a schema `1` makes a float of the dot
  after it.
* `Clause.unfused_iff`: a clause has the tokens of its pieces exactly if it is `Apart`, and strings
  are read back.
-/

namespace Wcdb.Clauses

open SqlText (Text text isDigit)
open SqlLexer

theorem Body.listed (parts : List Part) : Body (listed parts) True := Body.list Part.clean parts

theorem Body.part (p : Part) : Body [p.text] True := Body.clean p.clean

theorem Trail.space {qs : List Text} {Q : Prop} (h : Body qs Q) : Trail (space :: qs) Q :=
  Trail.cons (by decide) (by decide) h

theorem Trail.optional {word : Text} (hw : opens word = true) (hends : word.head?.any ends = true)
    (part : Option Part) : Trail (optional word part) True :=
  Trail.elim (fun p => Trail.cons hw hends (Body.part p)) part

theorem trail_optional_where (part : Option Part) : Trail (optional (text " WHERE ") part) True :=
  Trail.optional (by decide) (by decide) part

/-! ### Frames and windows -/

namespace FrameSpec

theorem Switch.clean (s : Switch) : clean s.description = true := by
  cases s <;> decide

theorem FirstEvent.body (e : FirstEvent) : Body e.pieces True := by
  cases e with
  | unboundedPreceding | currentRow => exact Body.clean (by decide)
  | preceding p | following p =>
    exact (Body.part p).follow (Trail.space (Body.clean (by decide)))

theorem SecondEvent.body (e : SecondEvent) : Body e.pieces True := by
  cases e with
  | unboundedFollowing | currentRow => exact Body.clean (by decide)
  | preceding p | following p =>
    exact (Body.part p).follow (Trail.space (Body.clean (by decide)))

theorem body (f : FrameSpec) : Body f.describle.1 True := by
  have hswitcher : Lead [f.switcher.description, space] :=
    (Body.clean f.switcher.clean).lead trivial (by decide) (by decide)
  have hbetween : Lead (if f.between = true then [text "BETWEEN "] else []) :=
    Lead.ite fun _ => Lead.piece (by decide)
  have hfirst : Body (f.firstEvent.elim [] FirstEvent.pieces) True := by
    cases f.firstEvent with
    | none => exact Body.nil
    | some e => exact e.body
  have hsecond : Body (f.secondEvent.elim [] SecondEvent.pieces) True := by
    cases f.secondEvent with
    | none => exact Body.nil
    | some e => exact e.body
  have hand : Trail (if f.between = true then
      text " AND " :: f.secondEvent.elim [] SecondEvent.pieces else []) True := by
    split_ifs
    · exact Trail.cons (by decide) (by decide) hsecond
    · exact Trail.nil
  exact ((hswitcher.append hbetween).body hfirst).follow hand

end FrameSpec

/-- Whether the last token of a text is of one of the kinds. -/
def endsIn (kinds : List Kind) (p : Text) : Bool := (tokens p).getLast?.any fun t => t.kind ∈ kinds

theorem runsOn_eq_endsIn {kinds : List Kind} {c : UInt8} (hc : joins c = true)
    (hdigit : isDigit c = false)
    (h : ∀ k b, k ∉ [.operator, .string, .identifier] → continues k b c = decide (k ∈ kinds))
    (hkinds : ∀ k ∈ [Kind.operator, .string, .identifier], k ∉ kinds) (p : Text) :
    runsOn p c = endsIn kinds p := by
  rw [runsOn, endsIn]
  congr 1
  funext t
  by_cases hk : t.kind ∈ [.operator, .string, .identifier]
  · rw [decide_eq_false (hkinds _ hk)]
    simp only [List.mem_cons, List.not_mem_nil, or_false] at hk
    rcases hk with hk | hk | hk <;> rw [hk]
    · exact operator_stops (fun _ => hdigit) hc
    · exact quote_stops hc
    · exact quote_stops hc
  · exact h _ _ hk

/-- Words, numbers and named parameters go on with the `R` of `RANGE` and `ROWS`. -/
theorem runsOn_letter (p : Text) : runsOn p 82 = endsIn [.word, .integer, .float, .variable] p := by
  refine runsOn_eq_endsIn rfl rfl (fun k b hk => ?_) (by decide) p
  cases k <;> first | rfl | exact absurd hk (by decide)

/-- A whole number goes on with a dot. -/
theorem runsOn_dot (p : Text) : runsOn p 46 = endsIn [.integer] p := by
  refine runsOn_eq_endsIn rfl rfl (fun k b hk => ?_) (by decide) p
  cases k <;> first | rfl | exact absurd hk (by decide)

/-- A named parameter goes on with a bracket. -/
theorem runsOn_bracket (p : Text) : runsOn p 40 = endsIn [.variable] p := by
  refine runsOn_eq_endsIn rfl rfl (fun k b hk => ?_) (by decide) p
  cases k <;> first | rfl | exact absurd hk (by decide)

namespace WindowDef

variable (w : WindowDef)

/-- Where a frame follows the ordering terms and no expression stands before them, the last of them
ends neither in a word nor in a number. -/
def Apart : Prop :=
  w.expressions = [] → w.frameSpec.isSome = true →
    ∀ t ∈ w.orderingTerms.getLast?, endsIn [.word, .integer, .float, .variable] t.text = false

/-- A frame begins with an `R`. -/
theorem frame_head (f : FrameSpec) (y : Text) : ∃ z, f.describle.1.flatten ++ y = 82 :: z := by
  cases h : f.switcher <;> exact ⟨_, by rw [FrameSpec.describle, h]; rfl⟩

/-- The ordering terms with a frame right after them. -/
theorem body_of_frame {terms : List Part} (hterms : terms ≠ []) (f : FrameSpec) :
    Body (listed terms ++ f.describle.1)
      (endsIn [.word, .integer, .float, .variable] (terms.getLast hterms).text = false) := by
  refine ⟨(Body.listed terms).proper.append f.body.proper, fun y hy => ?_⟩
  obtain ⟨z, hz⟩ := frame_head f y
  have hlist := reads_list Part.clean hterms (show joins 82 = true from rfl) z
  rw [← hz, runsOn_letter] at hlist
  exact (hlist.append (f.body.reads y hy)).congr (iff_of_eq (and_true _))

theorem body_of_partition (hw : w.expressions ≠ []) : Body w.describle.1 True := by
  have hpartition : Body ([text "("] ++ text "PARTITION BY " :: listed w.expressions) True :=
    (Lead.piece (by decide)).body ((Lead.piece (by decide)).body (Body.listed _))
  have horder : Trail (if w.orderingTerms = [] then []
      else [space] ++ text "ORDER BY " :: listed w.orderingTerms) True :=
    Trail.ite fun _ => Trail.space ((Lead.piece (by decide)).body (Body.listed _))
  have hframe : Trail (w.frameSpec.elim [] fun f => [space] ++ f.describle.1) True :=
    Trail.elim (fun f => Trail.space f.body) _
  rw [describle]
  simp only [if_neg hw]
  exact ((hpartition.follow horder).follow hframe).follow (Trail.piece (by decide) (by decide))

theorem body : Body w.describle.1 w.Apart := by
  by_cases hw : w.expressions = []
  · have hopen : Lead [text "("] := Lead.piece (by decide)
    have horder : Lead [text "ORDER BY "] := Lead.piece (by decide)
    have hclose : Trail [text ")"] True := Trail.piece (by decide) (by decide)
    rw [describle, Apart]
    simp only [hw, if_true, List.nil_append, List.append_nil, forall_const]
    cases hframe : w.frameSpec with
    | none =>
      refine Body.congr (Q := True) ?_ (by simp)
      split_ifs
      · exact (hopen.body Body.nil).follow hclose
      · simpa using (hopen.body (horder.body (Body.listed _))).follow hclose
    | some f =>
      cases hterms : w.orderingTerms with
      | nil => exact ((hopen.body f.body).follow hclose).congr (by simp)
      | cons t ts =>
        have hbody := body_of_frame (List.cons_ne_nil t ts) f
        have hlast : (t :: ts).getLast? = some ((t :: ts).getLast (List.cons_ne_nil t ts)) :=
          List.getLast?_eq_some_getLast _
        rw [hlast]
        simpa using (hopen.body (horder.body hbody)).follow hclose
  · exact (w.body_of_partition hw).congr (iff_of_true trivial fun h => absurd h hw)

end WindowDef

/-! ### Joins and selects -/

namespace JoinClause

theorem trail_joined (j : JoinOperator × Part × Option Part) : Trail (joined j) True := by
  obtain ⟨operator, table, constraint⟩ := j
  have htable : Trail [space, table.text] True := Trail.space (Body.part table)
  have hconstraint : Trail (constraint.elim [] fun c => [space, c.text]) True :=
    Trail.elim (fun c => Trail.space (Body.part c)) constraint
  by_cases hwith : operator = .with
  · subst hwith
    exact ((Trail.cons (w := text ",") (by decide) (by decide)
      (Body.nil.follow htable)).append hconstraint).congr (iff_of_eq (and_true True))
  · have hoperator : clean operator.description = true := by cases operator <;> decide
    have hjoined : Trail (space :: ([operator.description] ++ [space, table.text])) True :=
      Trail.space ((Body.clean hoperator).follow htable)
    rw [joined, if_neg hwith]
    exact (hjoined.append hconstraint).congr (iff_of_eq (and_true True))

theorem body (j : JoinClause) : Body j.describle.1 True := by
  rw [describle]
  cases j.tableOrSubqueries with
  | nil => exact Body.nil
  | cons first rest =>
    dsimp only
    split_ifs
    · exact Body.part first
    · exact Body.part first
    · exact (Body.part first).follow (Trail.flatMap trail_joined _)

end JoinClause

theorem body_rows (valuesList : List (List Part)) :
    Body (text "VALUES" :: rows valuesList) True := by
  have hwhole : clean (text "VALUES") = true := by decide
  have hrow (values : List Part) : Body (bracketed (listed values)) True :=
    (Body.listed values).bracketed
  cases valuesList with
  | nil => exact Body.clean hwhole
  | cons values valuesList =>
    have hfirst : Body (text "VALUES" :: bracketed (listed values)) True :=
      (Body.listed values).call hwhole (by decide)
    cases valuesList with
    | nil => exact hfirst
    | cons values' valuesList =>
      have hrows := (Body.separated hrow (values' :: valuesList)).congr (R := True) (by simp)
      exact hfirst.follow (Trail.cons (by decide) (by decide) hrows)

namespace SelectCore

variable (s : SelectCore)

/-- The windows that are printed keep their tokens. -/
def Apart : Prop :=
  match s.switcher with
  | .select => s.windows.length = s.windowDefs.length →
      ∀ w ∈ s.windows.zip s.windowDefs, w.2.Apart
  | .values => True

theorem trail_source : Trail s.source True := by
  rw [source]
  cases s.tableOrSubqueries with
  | nil =>
    cases s.joinClause with
    | none => exact Trail.nil
    | some j => exact Trail.cons (by decide) (by decide) j.body
  | cons t ts => exact Trail.cons (by decide) (by decide) (Body.listed _)

theorem trail_grouped : Trail s.grouped True :=
  Trail.ite fun _ => Trail.cons (by decide) (by decide)
    ((Body.listed _).follow (Trail.optional (by decide) (by decide) _))

theorem body_windowed (w : Part × WindowDef) : Body (windowed w) w.2.Apart :=
  ((Body.part w.1).lead trivial (by decide) (by decide)).body w.2.body

theorem body : Body s.describle.1 s.Apart := by
  rw [describle, Apart]
  cases s.switcher with
  | values => exact body_rows s.valuesList
  | select =>
    have hdistinct : Lead (if s.distinct = true then [text "DISTINCT "] else []) :=
      Lead.ite fun _ => Lead.piece (by decide)
    have hcolumns := ((Lead.piece (w := text "SELECT ") (by decide)).append hdistinct).body
      (Body.listed s.resultColumns)
    have hpieces := ((hcolumns.follow s.trail_source).follow
      (trail_optional_where s.condition)).follow s.trail_grouped
    by_cases hnil : s.windows = []
    · simp only [if_pos hnil]
      exact hpieces.congr (by simp [hnil])
    · simp only [if_neg hnil]
      by_cases hlength : s.windows.length = s.windowDefs.length
      · have hwindows := Body.separated body_windowed (s.windows.zip s.windowDefs)
        simp only [hlength, ne_eq, not_true_eq_false, if_false]
        exact (hpieces.trail (Trail.cons (by decide) (by decide) hwindows)).congr (by simp)
      · simp only [ne_eq, hlength, not_false_eq_true, if_true]
        exact hpieces.congr (by simp)

end SelectCore

/-! ### Upserts and statements -/

theorem body_assigned (a : List Part × Part) : Body (assigned a) True := by
  have hvalue : Trail [text " = ", a.2.text] True :=
    Trail.cons (by decide) (by decide) (Body.part a.2)
  rw [assigned]
  split_ifs
  · exact (Body.listed a.1).bracketed.follow hvalue
  · exact (Body.listed a.1).follow hvalue

theorem body_assignments (l : List (List Part × Part)) : Body (separated (l.map assigned)) True :=
  (Body.separated body_assigned l).congr (by simp)

theorem UpsertClause.body (u : UpsertClause) : Body u.describle.1 True := by
  have htarget : Body ([text "ON CONFLICT"] ++ if u.indexedColumns = [] then [] else
      bracketed (listed u.indexedColumns) ++ optional (text " WHERE ") u.condition) True := by
    split_ifs
    · exact Body.clean (by decide)
    · exact ((Body.listed u.indexedColumns).call (by decide) (by decide)).follow
        (trail_optional_where u.condition)
  have hdo := htarget.lead (w := text " DO ") trivial (by decide) (by decide)
  rw [describle]
  cases u.switcher with
  | nothing => exact hdo.body (Body.clean (by decide))
  | update =>
    by_cases hlength : u.columnsList.length = u.expressions.length
    · simp only [hlength, ne_eq, not_true_eq_false, if_false]
      exact ((hdo.append (Lead.piece (by decide))).body (body_assignments _)).follow
        (trail_optional_where u.updateCondition)
    · simp only [ne_eq, hlength, not_false_eq_true, if_true]
      exact hdo.alone

theorem lead_with (recursive : Bool) (commonTableExpressions : List Part) :
    Lead (withClause recursive commonTableExpressions) := by
  have hrecursive : Lead (if recursive = true then [text "RECURSIVE "] else []) :=
    Lead.ite fun _ => Lead.piece (by decide)
  rw [withClause]
  by_cases h : commonTableExpressions = []
  · rw [if_pos h]
    exact Lead.nil
  · rw [if_neg h]
    exact (((Lead.piece (by decide)).append hrecursive).body
      (Body.listed commonTableExpressions)).lead trivial (by decide) (by decide)

theorem lead_conflict (conflictAction : Option ConflictAction) :
    Lead (onConflict conflictAction) := by
  cases conflictAction with
  | none => exact Lead.nil
  | some action =>
    have haction : clean action.description = true := by cases action <;> decide
    exact (Body.clean haction).lead trivial (by decide) (by decide)

theorem UpdateSTMT.body (s : UpdateSTMT) (skipSchema : Bool) :
    Body (s.describle skipSchema).1 True := by
  have hupdate := ((lead_with s.recursive s.commonTableExpressions).append
    (Lead.piece (w := text "UPDATE ") (by decide))).append (lead_conflict s.conflictAction)
  have hset := (hupdate.body (Body.part (s.table skipSchema))).lead (w := text " SET ") trivial
    (by decide) (by decide)
  have horder : Trail (if s.orderingTerms = [] then []
      else text " ORDER BY " :: listed s.orderingTerms) True :=
    Trail.ite fun _ => Trail.cons (by decide) (by decide) (Body.listed _)
  have hparameter : Trail s.limitParameter.pieces True := by
    cases s.limitParameter with
    | notSet => exact Trail.nil
    | offset p => exact Trail.cons (by decide) (by decide) (Body.part p)
    | «end» p => exact Trail.cons (by decide) (by decide) (Body.part p)
  have hlimit : Trail (s.limit.elim [] fun limit =>
      [text " LIMIT ", limit.text] ++ s.limitParameter.pieces) True :=
    Trail.elim (fun limit => Trail.cons (by decide) (by decide)
      ((Body.part limit).follow hparameter)) s.limit
  rw [describle]
  by_cases hnil : s.columnsList = []
  · simp only [if_pos hnil]
    exact hset.alone
  · simp only [if_neg hnil]
    by_cases hlength : s.columnsList.length = s.expressions.length
    · simp only [hlength, ne_eq, not_true_eq_false, if_false]
      exact (((hset.body (body_assignments _)).follow (trail_optional_where s.condition)).follow
        horder).follow hlimit
    · simp only [ne_eq, hlength, not_false_eq_true, if_true]
      exact hset.alone

namespace InsertSTMT

variable (s : InsertSTMT)

/-- The name before the list of columns. -/
def lastName : Part := if s.aliasName.text = [] then s.table else s.aliasName

/-- A schema that is printed is no number, the table after it begins with no digit, and the name
before a list of columns is no named parameter. -/
def Apart (skipSchema : Bool) : Prop :=
  (skipSchema = false → s.schema.text ≠ [] →
    endsIn [.integer] s.schema.text = false ∧ s.table.text.head?.any isDigit = false) ∧
  (s.columns ≠ [] → endsIn [.variable] s.lastName.text = false)

/-- What follows the names. -/
def rest : List Text :=
  (if s.columns = [] then [] else bracketed (listed s.columns)) ++ ([space] ++ s.rows.pieces ++
    s.upsertClause.elim [] fun upsert => space :: upsert.describle.1)

/-- What follows the schema. -/
def named : List Text :=
  [s.table.text] ++
    ((if s.aliasName.text = [] then [] else [text " AS ", s.aliasName.text]) ++ s.rest)

theorem Rows.body (r : Rows) : Body r.pieces True := by
  cases r with
  | values expressionsValues => exact body_rows expressionsValues
  | select statement => exact Body.part statement
  | default => exact Body.clean (by decide)

theorem body_rest : Body s.rest True := by
  have hrows : Trail ([space] ++ s.rows.pieces) True := Trail.space s.rows.body
  have hupsert : Trail (s.upsertClause.elim [] fun upsert => space :: upsert.describle.1) True :=
    Trail.elim (fun upsert => Trail.space upsert.body) s.upsertClause
  have hfollow := (hrows.append hupsert).congr (iff_of_eq (and_true True))
  rw [rest]
  split_ifs
  · exact Body.nil.follow hfollow
  · exact (Body.listed s.columns).bracketed.follow hfollow

theorem rest_head (y : Text) :
    (s.rest.flatten ++ y).head? = some (if s.columns = [] then 32 else 40) := by
  rw [rest]
  split_ifs <;> rfl

/-- A name before the columns. -/
theorem body_name (n : Part) :
    Body ([n.text] ++ s.rest) (s.columns ≠ [] → endsIn [.variable] n.text = false) := by
  refine ⟨(Body.part n).proper.append s.body_rest.proper, fun y hy => ?_⟩
  have hhead := s.rest_head y
  have hname : Reads [n.text] (s.columns ≠ [] → endsIn [.variable] n.text = false)
      (s.rest.flatten ++ y) := by
    refine (reads_piece n.clean fun c hc => ?_).congr ?_
    · rw [hhead] at hc
      cases hc
      split_ifs
      · exact .inr (runsOn_of_ends _ rfl)
      · exact .inl rfl
    · rw [hhead, Option.any_some]
      split_ifs with hnil
      · exact iff_of_true (runsOn_of_ends _ rfl) fun h => absurd hnil h
      · rw [runsOn_bracket]
        exact ⟨fun h _ => h, fun h => h hnil⟩
  exact (hname.append (s.body_rest.reads y hy)).congr (iff_of_eq (and_true _))

theorem body_named :
    Body s.named (s.columns ≠ [] → endsIn [.variable] s.lastName.text = false) := by
  rw [named, lastName]
  split_ifs
  · exact s.body_name s.table
  · exact ((Body.part s.table).trail (Trail.cons (by decide) (by decide)
      (s.body_name s.aliasName))).congr (iff_of_eq (true_and _))

theorem named_head (y : Text) :
    (s.named.flatten ++ y).head?.any isDigit = s.table.text.head?.any isDigit := by
  have hrest := s.rest_head y
  rw [named, List.flatten_append, List.append_assoc, List.flatten_singleton]
  refine any_head_append fun _ => ?_
  split_ifs
  · rw [List.nil_append, hrest]
    split_ifs <;> rfl
  · rfl

/-- The names after a schema. -/
theorem body_schema : Body ([s.schema.text, text "."] ++ s.named)
    ((endsIn [.integer] s.schema.text = false ∧ s.table.text.head?.any isDigit = false) ∧
      (s.columns ≠ [] → endsIn [.variable] s.lastName.text = false)) := by
  have hdot : clean (text ".") = true := by decide
  refine ⟨(Body.part s.schema).proper.append
    ((Proper.piece (clean_head hdot)).append s.body_named.proper), fun y hy => ?_⟩
  have hschema := reads_piece (y := 46 :: (s.named.flatten ++ y)) s.schema.clean
    fun c hc => Or.inl (by cases hc; rfl)
  rw [List.head?_cons, Option.any_some, runsOn_dot] at hschema
  have htable :
      Reads [text "."] (s.table.text.head?.any isDigit = false) (s.named.flatten ++ y) := by
    rw [← s.named_head y]
    refine reads_piece hdot fun c _ => ?_
    cases hc : isDigit c with
    | true => exact .inl (by simp [joins, SqlText.inWord, hc])
    | false => exact .inr hc
  exact (hschema.append (htable.append (s.body_named.reads y hy))).congr and_assoc.symm

theorem body (skipSchema : Bool) : Body (s.describle skipSchema).1 (s.Apart skipSchema) := by
  have hinto := ((lead_with s.recursive s.commonTableExpressions).append
    (Lead.piece (w := text "INSERT ") (by decide))).append (lead_conflict s.conflictAction)
  have hlead := hinto.append (Lead.piece (w := text "INTO ") (by decide))
  have hpieces : (s.describle skipSchema).1 = withClause s.recursive s.commonTableExpressions ++
      [text "INSERT "] ++ onConflict s.conflictAction ++ [text "INTO "] ++
        ((if skipSchema = false ∧ s.schema.text ≠ [] then [s.schema.text, text "."] else []) ++
          s.named) := by
    simp only [describle, named, rest, List.append_assoc]
  rw [hpieces]
  refine hlead.body ?_
  by_cases h : skipSchema = false ∧ s.schema.text ≠ []
  · rw [if_pos h]
    exact s.body_schema.congr (by simp [Apart, h])
  · rw [if_neg h]
    exact s.body_named.congr
      ⟨fun hname => ⟨fun hskip hne => absurd ⟨hskip, hne⟩ h, hname⟩, And.right⟩

end InsertSTMT

/-! ### Literals -/

theorem digits_cons (n : ℕ) : ∃ b z, digits n = b :: z ∧ ∀ d ∈ digits n, isDigit d = true := by
  rw [digits]
  split_ifs with hn
  · exact ⟨48, [], rfl, fun d hd => List.mem_singleton.mp hd ▸ rfl⟩
  · obtain ⟨b, z, h⟩ := List.exists_cons_of_ne_nil (SqlText.decimal_ne_nil hn)
    exact ⟨b, z, h, fun d hd => SqlText.isDigit_of_mem_decimal hd⟩

theorem lex_digits_eq (n : ℕ) : lex (digits n) = [⟨.integer, digits n⟩] := by
  obtain ⟨b, z, h, hdigit⟩ := digits_cons n
  rw [h] at hdigit ⊢
  exact lex_digits hdigit

theorem LiteralValue.lex_describle (v : LiteralValue) : lex v.describle = v.tokens := by
  cases v with
  | string s => exact lex_string (unquote_doubled 39 s)
  | integer n =>
    rw [describle, tokens, lex_append, lex_digits_eq]
    · congr 1
      split_ifs <;> decide
    · split_ifs <;> decide
    · obtain ⟨b, z, h, hdigit⟩ := digits_cons n.natAbs
      have hb : b ≠ 45 := by
        rintro rfl
        cases hdigit 45 (h ▸ List.mem_cons_self)
      rw [h, List.head?_cons, Option.any_some]
      split_ifs
      · exact beq_eq_false_iff_ne.mpr hb
      · rfl
  | unsignedInteger n => exact lex_digits_eq n
  | bool b => cases b <;> decide
  | null | currentTime | currentDate | currentTimestamp => decide

/-- A string is read back from its literal. -/
theorem LiteralValue.unquote_describle (s : Text) :
    SqlText.unquote 39 (LiteralValue.string s).describle.tail = some (s, []) :=
  unquote_doubled 39 s

/-! ### All clauses -/

/-- What is printed. A statement may leave out its schema. -/
inductive Clause where
  | windowDef (w : WindowDef)
  | frameSpec (f : FrameSpec)
  | joinClause (j : JoinClause)
  | selectCore (s : SelectCore)
  | upsertClause (u : UpsertClause)
  | insertSTMT (skipSchema : Bool) (s : InsertSTMT)
  | updateSTMT (skipSchema : Bool) (s : UpdateSTMT)
  | literalValue (v : LiteralValue)

namespace Clause

/-- The pieces of a clause. Those of a literal are one token each. -/
def pieces : Clause → List Text
  | windowDef w => w.describle.1
  | frameSpec f => f.describle.1
  | joinClause j => j.describle.1
  | selectCore s => s.describle.1
  | upsertClause u => u.describle.1
  | insertSTMT skipSchema s => (s.describle skipSchema).1
  | updateSTMT skipSchema s => (s.describle skipSchema).1
  | literalValue v => [v.describle]

/-- The text of a clause. -/
def printed (c : Clause) : Text := c.pieces.flatten

/-- The tokens of the components and of the keywords between them. -/
def tokens : Clause → List Token
  | literalValue v => v.tokens
  | c => c.pieces.flatMap lex

/-- **The lexer finds the tokens of the components and the keywords**, and strings are read back. -/
def Unfused (c : Clause) : Prop :=
  lex c.printed = c.tokens ∧
    ∀ s, c = literalValue (.string s) → SqlText.unquote 39 c.printed.tail = some (s, [])

def Apart : Clause → Prop
  | windowDef w => w.Apart
  | selectCore s => s.Apart
  | insertSTMT skipSchema s => s.Apart skipSchema
  | _ => True

/-- A clause is read as its components and keywords exactly if these are apart. -/
theorem unfused_iff (c : Clause) : c.Unfused ↔ c.Apart := by
  have hbody {ps : List Text} {Q : Prop} (h : Body ps Q) : lex ps.flatten = ps.flatMap lex ↔ Q :=
    (h.reads [] rfl).lex_iff
  cases c with
  | windowDef w => exact (and_iff_left fun s h => nomatch h).trans (hbody w.body)
  | frameSpec f => exact (and_iff_left fun s h => nomatch h).trans (hbody f.body)
  | joinClause j => exact (and_iff_left fun s h => nomatch h).trans (hbody j.body)
  | selectCore s => exact (and_iff_left fun s h => nomatch h).trans (hbody s.body)
  | upsertClause u => exact (and_iff_left fun s h => nomatch h).trans (hbody u.body)
  | insertSTMT skipSchema s =>
    exact (and_iff_left fun s h => nomatch h).trans (hbody (s.body skipSchema))
  | updateSTMT skipSchema s =>
    exact (and_iff_left fun s h => nomatch h).trans (hbody (s.body skipSchema))
  | literalValue v =>
    have hprinted : printed (literalValue v) = v.describle := by simp [printed, pieces]
    refine iff_of_true ⟨?_, fun s h => ?_⟩ trivial
    · rw [hprinted]
      exact v.lex_describle
    · rw [hprinted]
      cases h
      exact LiteralValue.unquote_describle s

/-- Windows ordered by `a` over the rows up to the current one. -/
def orderedRows : Clause :=
  windowDef ⟨[], [⟨text "a", by decide⟩], some ⟨.rows, false, some .currentRow, none⟩⟩

theorem not_unfused :
    orderedRows.printed = text "(ORDER BY aROWS CURRENT ROW)" ∧ ¬ orderedRows.Unfused := by
  refine ⟨by decide, ?_⟩
  rintro ⟨h, -⟩
  exact absurd h (by decide)

end Clause

end Wcdb.Clauses
