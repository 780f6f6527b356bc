import Wcdb.Core.CompressingStatementReuse

/-!
# What the parameters of a compressing `UPDATE` hold

An `UPDATE` that cannot be compressed directly is run as two statements. The **row selection**
takes the condition, the ordering terms and the limit of the `UPDATE`; the **main statement** keeps
the rest and is run once for each selected row. `bindX` binds the main statement and forwards the
value to the row selection, but

* an index of a content or a match value is not forwarded;
* `bindNull` forwards a `NULL` for index 1, whatever the index is;
* a content that waits for its match value is kept outside both statements, and what is kept
  survives `clearBindings()`;
* SQLite refuses every binding of a statement that was stepped and not reset.

`Call.Sound` is the condition on one call under which none of this shows, and
`reaches_of_sound` says that a step of a run of such calls finds in every parameter what was bound
to it last.
-/

namespace Wcdb.UpdateBindings

/-! ### The statements -/

/-- What a parameter holds; a pointer is no value. -/
inductive Bound where
  | value (v : Value)
  | pointer (p : ℕ)
  deriving DecidableEq, Repr

/-- An `UPDATE`, with the parameters of its clauses. -/
structure UpdateSTMT where
  columnsList : List (List String)
  expressions : List Expression
  /-- Parameters within assigned expressions that are more than a parameter. -/
  nested : List ℕ
  commonTableExpressions : List ℕ
  condition : List ℕ
  orderingTerms : List ℕ
  limit : List ℕ
  assigns : columnsList ≠ [] ∧ expressions ≠ []

namespace UpdateSTMT

variable (stmt : UpdateSTMT)

/-- The clauses that the row selection takes. -/
def moved : List ℕ := stmt.condition ++ stmt.orderingTerms ++ stmt.limit

/-- The statement as `processUpdate` reads it. -/
def write : WriteSTMT where
  isInsert := false
  columnsList := stmt.columnsList
  expressions := stmt.expressions
  otherParameters := stmt.nested ++ stmt.commonTableExpressions ++ stmt.moved

end UpdateSTMT

/-- The items of assigned expressions, with their positions. -/
def items (exps : List Expression) : List ((ℕ × ℕ) × Operand) :=
  exps.zipIdx.flatMap fun (e, i) =>
    match e with
    | .item o => [((i, 0), o)]
    | .expressions is => is.zipIdx.map fun (o, j) => ((i, j), o)

/-- An `UPDATE` that was prepared. -/
structure Update where
  stmt : UpdateSTMT
  columnInfos : List CompressionColumnInfo
  main : Wcdb.Statement
  prepared : prepare stmt.write columnInfos = some main

namespace Update

variable (u : Update)

/-- There is a row selection. -/
def selects : Bool := u.main.mode ≠ .direct

/-- The parameters of the row selection. -/
def rowSelectionParameters : List ℕ := if u.selects then u.stmt.moved else []

/-- `m_additionalStatements.front().getBindParameterCount()`. -/
def rowSelectionCount : ℕ := u.rowSelectionParameters.foldl max 0

/-- The parameters of the main statement outside the contents of its compressing columns. -/
def plainParameters : List ℕ :=
  ((items u.stmt.expressions).filter fun item =>
      some item.1 ∉ u.main.infos.map BindInfo.columnParaIndex).flatMap (fun item =>
        item.2.parameters) ++
    u.stmt.nested ++ u.stmt.commonTableExpressions ++ if u.selects then [] else u.stmt.moved

/-- `rowidIndex`. -/
def rowidIndex : ℕ := u.main.bindParameterCount

end Update

/-! ### The calls -/

/-- The statements between two calls, and whether the row selection was stepped since it was reset.
`last` and `missed` are history: what was bound to each index since the last `clearBindings()`, and
the bind infos whose content was bound without reaching the main statement, or was replaced there by
what is kept. -/
structure State where
  main : BindState
  mainPointers : ℕ → Option ℕ
  rowSelection : ℕ → Bound
  rowSelectionStepped : Bool
  last : ℕ → Bound
  missed : ℕ → Bool

/-- After `prepare`. -/
def State.fresh : State :=
  ⟨.fresh, fun _ => none, fun _ => .value .null, false, fun _ => .value .null, fun _ => false⟩

/-- What a parameter of the main statement holds. -/
def held (pointers : ℕ → Option ℕ) (s : BindState) (k : ℕ) : Bound :=
  match pointers k with
  | some p => .pointer p
  | none => .value (s.params k)

/-- A call. `can` is `canCompressNewData()`. A step carries the rows that it selects: their rowids,
and the selected match value of each bind info. -/
inductive Call where
  | bind (can : Bool) (index : ℕ) (v : Value)
  | bindPointer (index p : ℕ)
  | clearBindings
  | reset
  | step (can : Bool) (rows : List (ℤ × (ℕ → Value)))

variable (z : Zstd) (u : Update)

/-- The forwarding to the row selection at the end of each `bindX`. -/
def forward (rowSelection : ℕ → Bound) (index : ℕ) (b : Bound) : ℕ → Bound :=
  if u.selects ∧ index ≤ u.rowSelectionCount then
    -- `bindNull()` leaves out its argument, which is 1 by default
    Function.update rowSelection (if b = .value .null then 1 else index) b
  else rowSelection

/-- How a binding changes `missed`. -/
def missedAfter (σ : State) (index : ℕ) (v : Value) : ℕ → Bool :=
  match u.main.infoAt index with
  | none => σ.missed
  | some (i, info) =>
      let kept := σ.main.bindedValue i
      if index ≠ info.matchColumnBindIndex then
        Function.update σ.missed i (v.isData ∧ kept = .null ∧ info.matchColumnBindIndex ≠ 0 ∧
          info.matchColumnBindIndex ≠ selectedMatchValueBindIndex)
      else if kept = .null then σ.missed
      else Function.update σ.missed i (.value kept.restored ≠ σ.last info.columnBindIndex)

/-- `bindInteger`, `bindDouble`, `bindText`, `bindText16`, `bindBLOB` and `bindNull`, of statements
that are ready. -/
def bind (can : Bool) (index : ℕ) (v : Value) (σ : State) : State where
  main := bindValue z u.main can σ.main (index, v)
  mainPointers :=
    if u.main.infoAt index = none then Function.update σ.mainPointers index none else σ.mainPointers
  rowSelection :=
    if u.main.infoAt index = none then forward u σ.rowSelection index (.value v) else σ.rowSelection
  rowSelectionStepped := σ.rowSelectionStepped
  last := Function.update σ.last index (.value v)
  missed := missedAfter u σ index v

/-- `bindPointer`. The parameter itself is null. -/
def bindPointer (index p : ℕ) (σ : State) : State :=
  { σ with
    main := bindPlain u.main σ.main index .null
    mainPointers := Function.update σ.mainPointers index (some p)
    rowSelection := forward u σ.rowSelection index (.pointer p)
    last := Function.update σ.last index (.pointer p) }

/-- What becomes of a binding that leads to `τ` if the statements are ready: SQLite refuses it for
a statement that was stepped and not reset, which the decorator does not hear of. -/
def taken (σ τ : State) : State :=
  { τ with
    main := if σ.main.stepped then { τ.main with params := σ.main.params } else τ.main
    mainPointers := if σ.main.stepped then σ.mainPointers else τ.mainPointers
    rowSelection := if σ.rowSelectionStepped then σ.rowSelection else τ.rowSelection }

def clearBindings (σ : State) : State where
  main := { σ.main with params := fun _ => .null, compressFail := false }
  mainPointers := fun _ => none
  rowSelection := fun _ => .value .null
  rowSelectionStepped := σ.rowSelectionStepped
  last := fun _ => .value .null
  missed := fun _ => false

def reset (σ : State) : State :=
  { σ with
    main := { σ.main with compressFail := false, stepped := false }
    rowSelectionStepped := false }

/-- One pass of the loop in `stepUpdate`, from `Super::reset()` up to `Super::step()`. -/
def stepRow (can : Bool) (row : ℤ × (ℕ → Value)) (s : BindState) : BindState :=
  let s := s.bind u.rowidIndex (.integer row.1)
  if u.main.mode = .selectMatch then bindSelected z can row.2 u.main.infos.zipIdx s else s

/-- The main statement whenever it is run by `stepUpdate`, and at its end. -/
def stepRows (can : Bool) : List (ℤ × (ℕ → Value)) → BindState → List BindState × BindState
  | [], s => ([], s)
  | row :: rows, s =>
      let s := stepRow z u can row s
      let (ran, s') := stepRows can rows s
      (s :: ran, s')

/-- The main statement whenever it is run by `step()`. -/
def runs (can : Bool) (rows : List (ℤ × (ℕ → Value))) (s : BindState) : List BindState :=
  if u.selects then (stepRows z u can rows s).1 else [s]

/-- One call. Indexes that the `UPDATE` does not have are refused by SQLite, and a pointer for an
index of a compressing column by an assertion. -/
def call (σ : State) : Call → Option State
  | .bind can index v =>
      if 0 < index ∧ index ≤ u.main.maxBindIndex then some (taken σ (bind z u can index v σ))
      else none
  | .bindPointer index p =>
      if 0 < index ∧ index ≤ u.main.maxBindIndex ∧ u.main.infoAt index = none then
        some (taken σ (bindPointer u index p σ))
      else none
  | .clearBindings => some (clearBindings σ)
  | .reset => some (reset σ)
  | .step can rows =>
      if σ.main.compressFail then some σ
      else if u.selects then
        some { σ with
          main := { (stepRows z u can rows σ.main).2 with
            stepped := σ.main.stepped || !rows.isEmpty }
          rowSelectionStepped := true }
      else some { σ with main := { σ.main with stepped := true } }

/-! ### The property -/

/-- **What a step finds**: each parameter of the row selection and of the main statement holds what
was bound to it last. The parameter of a compressing content holds it in the form that the type of
its column says. -/
structure Reaches (σ : State) (can : Bool) (rows : List (ℤ × (ℕ → Value))) : Prop where
  rowSelection : ∀ k ∈ u.rowSelectionParameters, σ.rowSelection k = σ.last k
  parameters : ∀ s ∈ runs z u can rows σ.main, ∀ k ∈ u.plainParameters,
    held σ.mainPointers s k = σ.last k
  contents : ∀ s ∈ runs z u can rows σ.main, ∀ (i : ℕ) (info : BindInfo),
    u.main.infos[i]? = some info →
      ∃ v, σ.last info.columnBindIndex = .value v ∧ (s.cell i info).Reads z v

/-! ### The condition -/

/-- Data that is not shortened is bound as it is. -/
def Stays (can : Bool) (compressedType : CompressedType) (dictId : ℕ) (v : Value) : Prop :=
  ∀ cell, encodeCell z can compressedType dictId v.isText v.blobValue = some cell →
    cell.1 = v.restored

/-- Data that is compressed has its dictionary, and its parameter occurs nowhere else in the main
statement. -/
def Encodes (can : Bool) (compressedType : CompressedType) (dictId : ℕ) (info : BindInfo)
    (v : Value) : Prop :=
  Stays z can compressedType dictId v ∨
    DictFits compressedType dictId ∧ info.columnBindIndex ∉ u.plainParameters

/-- Binding the content of a compressing column. -/
def ContentSound (σ : State) (can : Bool) (i : ℕ) (info : BindInfo) (v : Value) : Prop :=
  let kept := σ.main.bindedValue i
  v.isData = true →
    if info.matchColumnBindIndex = 0 then
      Encodes z u can (ownDictionary info.columnInfo).1 (ownDictionary info.columnInfo).2 info v
    else kept ≠ .null →
      Encodes z u can .zstdDict (info.columnInfo.getMatchDictId kept.intValue) info v

/-- Binding the match value of a compressing column, which completes a content that is kept. -/
def MatchSound (σ : State) (can : Bool) (i : ℕ) (info : BindInfo) (n : ℤ) : Prop :=
  let kept := σ.main.bindedValue i
  kept ≠ .null → .value kept.restored = σ.last info.columnBindIndex →
    Encodes z u can .zstdDict (info.columnInfo.getMatchDictId n) info kept

/-- Binding a value. -/
def BindSound (σ : State) (can : Bool) (index : ℕ) (v : Value) : Prop :=
  match u.main.infoAt index with
  | none =>
      -- a `NULL` that goes to the first parameter of the row selection belongs there, or both that
      -- one and its own hold `NULL` already
      v = .null → index ≠ 1 → index ≤ u.rowSelectionCount →
        ∀ k ∈ u.rowSelectionParameters, k = 1 ∨ k = index → σ.rowSelection k = .value .null
  | some (i, info) =>
      (index ∈ u.rowSelectionParameters → σ.rowSelection index = .value v) ∧
        if index = info.matchColumnBindIndex then
          ∀ n, v = .integer n → MatchSound z u σ can i info n
        else ContentSound z u σ can i info v

/-- A content that is completed for each row is the one that was bound last. -/
def SelectedSound (σ : State) (can : Bool) (rows : List (ℤ × (ℕ → Value))) (i : ℕ)
    (info : BindInfo) : Prop :=
  let kept := σ.main.bindedValue i
  Selects σ.main i info → .value kept.restored = σ.last info.columnBindIndex ∧
    ∀ row ∈ rows,
      let dictId := info.columnInfo.getMatchDictId (row.2 i).intValue
      Encodes z u can .zstdDict dictId info kept ∧
        (encodeCell z can .zstdDict dictId kept.isText kept.blobValue).isSome = true

/-- No statement was stepped since it was prepared or reset. -/
def State.Unstepped (σ : State) : Prop := σ.main.stepped = false ∧ σ.rowSelectionStepped = false

/-- **The condition on a call**, in the state in which it is made. -/
def Call.Sound (σ : State) : Call → Prop
  | .bind can index v => σ.Unstepped ∧ BindSound z u σ can index v
  | .bindPointer _ _ => σ.Unstepped
  | .clearBindings => True
  | .reset => σ.main.compressFail = false
  | .step can rows =>
      -- the main statement is not run
      σ.main.compressFail = true ∨ u.selects = true ∧ rows = [] ∨
        ∀ (i : ℕ) (info : BindInfo), u.main.infos[i]? = some info →
          σ.missed i = false ∧ SelectedSound z u σ can rows i info

/-! ### The row selection -/

section RowSelection

variable {u}

theorem selects_of_mem {k : ℕ} (hk : k ∈ u.rowSelectionParameters) : u.selects = true := by
  by_contra h
  rw [Update.rowSelectionParameters, if_neg h] at hk
  exact absurd hk List.not_mem_nil

theorem le_rowSelectionCount {k : ℕ} (hk : k ∈ u.rowSelectionParameters) :
    k ≤ u.rowSelectionCount :=
  (le_foldl_max _ 0).2 k hk

/-- What is forwarded reaches its parameter, unless a `NULL` is misdirected. -/
theorem forward_eq_last {σ : State}
    (h : ∀ k ∈ u.rowSelectionParameters, σ.rowSelection k = σ.last k)
    {index : ℕ} {b : Bound}
    (hnull : b = .value .null → index ≠ 1 → index ≤ u.rowSelectionCount →
      ∀ k ∈ u.rowSelectionParameters, k = 1 ∨ k = index → σ.rowSelection k = .value .null) :
    ∀ k ∈ u.rowSelectionParameters,
      forward u σ.rowSelection index b k = Function.update σ.last index b k := by
  intro k hk
  have hk' := le_rowSelectionCount hk
  have hlast := h k hk
  rw [forward]
  split_ifs with hforward hb
  · -- the first parameter is set to `NULL`, and it may be another one than `index`
    by_cases hone : index = 1
    · rw [hone]
      by_cases hkone : k = 1
      · rw [hkone, Function.update_self, Function.update_self]
      · rw [Function.update_of_ne hkone, Function.update_of_ne hkone, hlast]
    · have hboth := hnull hb hone hforward.2 k hk
      by_cases hkone : k = 1
      · rw [hkone, Function.update_self, Function.update_of_ne (Ne.symm hone), ← hkone, ← hlast, hb,
          hboth (Or.inl hkone)]
      · rw [Function.update_of_ne hkone]
        by_cases hkindex : k = index
        · rw [hboth (Or.inr hkindex), hkindex, Function.update_self, hb]
        · rw [Function.update_of_ne hkindex, hlast]
  · by_cases hkindex : k = index
    · rw [hkindex, Function.update_self, Function.update_self]
    · rw [Function.update_of_ne hkindex, Function.update_of_ne hkindex, hlast]
  · have hkindex : k ≠ index := by
      rintro rfl
      exact hforward ⟨selects_of_mem hk, hk'⟩
    rw [Function.update_of_ne hkindex, hlast]

end RowSelection

/-! ### One compressing column -/

section Cells

variable {z u} {can : Bool} {i : ℕ} {info : BindInfo} {s : BindState} {last : ℕ → Bound}

variable (z u last s i info) in
/-- The content of a compressing column in the main statement is the one that was bound last. -/
def CellHolds : Prop :=
  ∃ v, last info.columnBindIndex = .value v ∧ (s.cell i info).Reads z v ∧
    (info.columnBindIndex ∈ u.plainParameters → (s.cell i info).content = v)

/-- Data that is bound as it is has a type without compression. -/
theorem reads_of_stays {compressedType : CompressedType} {dictId : ℕ} {v : Value}
    (hstays : Stays z can compressedType dictId v) {cell : Value × Value}
    (hcell : encodeCell z can compressedType dictId v.isText v.blobValue = some cell)
    (kept : Value) :
    Cell.Reads z ⟨cell.1, cell.2, kept⟩ v.restored := by
  rcases encodeCell_cases hcell with ⟨-, frame, -, hshort, rfl⟩ | ⟨-, hcontent, htype⟩
  · have hframe : Value.blob frame = v.restored := hstays _ hcell
    rcases v.restored_eq_text_or_blob with h | h
    · rw [h] at hframe
      cases hframe
    · rw [h] at hframe
      cases hframe
      exact absurd hshort (lt_irrefl _)
  · rw [Cell.Reads, hcontent, dataValue_isText_blobValue v |>.symm]
    exact wcdbDecompress_raw _ _ htype

/-- Data that is encoded under the condition. -/
theorem reads_of_encodes (hz : z.Lawful) {compressedType : CompressedType} {dictId : ℕ} {v : Value}
    (hencodes : Encodes z u can compressedType dictId info v) {cell : Value × Value}
    (hcell : encodeCell z can compressedType dictId v.isText v.blobValue = some cell)
    (kept : Value) :
    Cell.Reads z ⟨cell.1, cell.2, kept⟩ v.restored ∧
      (info.columnBindIndex ∈ u.plainParameters → cell.1 = v.restored) := by
  rcases hencodes with hstays | ⟨hfits, hplain⟩
  · exact ⟨reads_of_stays hstays hcell kept, fun _ => hstays cell hcell⟩
  · exact ⟨reads_of_encodeCell hz hfits hcell kept, fun h => absurd h hplain⟩

/-- The cell of a value that was encoded last. -/
theorem cellHolds_of_encodes (hz : z.Lawful) {compressedType : CompressedType} {dictId : ℕ}
    {v kept : Value} (hencodes : Encodes z u can compressedType dictId info v)
    {cell : Value × Value}
    (hcell : encodeCell z can compressedType dictId v.isText v.blobValue = some cell)
    (hs : s.cell i info = ⟨cell.1, cell.2, kept⟩)
    (hlast : last info.columnBindIndex = .value v.restored) : CellHolds z u i info s last := by
  obtain ⟨hreads, hplain⟩ := reads_of_encodes hz hencodes hcell kept
  refine ⟨v.restored, hlast, ?_, ?_⟩
  · rw [hs]
    exact hreads
  · rw [hs]
    exact hplain

/-- A cell that holds depends on its two parameters and on what was bound to the first. -/
theorem CellHolds.congr {t : BindState} {last' : ℕ → Bound} (h : CellHolds z u i info s last)
    (hcontent : (t.cell i info).content = (s.cell i info).content)
    (htype : (t.cell i info).type = (s.cell i info).type)
    (hlast : last' info.columnBindIndex = last info.columnBindIndex) :
    CellHolds z u i info t last' := by
  obtain ⟨v, hv, hreads, hplain⟩ := h
  refine ⟨v, hlast.trans hv, ?_, fun hmem => hcontent.trans (hplain hmem)⟩
  rw [Cell.Reads, hcontent, htype]
  exact hreads

end Cells

/-! ### Between two calls -/

/-- **The invariant.** While no binding has failed, every cell holds, except one that is missed
and one that the step completes. -/
structure Inv (σ : State) : Prop where
  rowSelection : ∀ k ∈ u.rowSelectionParameters, σ.rowSelection k = σ.last k
  pointers : ∀ k, u.main.infoAt k ≠ none → σ.mainPointers k = none
  plain : σ.main.compressFail = false → ∀ k ≤ u.main.maxBindIndex,
    (∀ info ∈ u.main.infos, info.columnBindIndex ≠ k) → held σ.mainPointers σ.main k = σ.last k
  cells : σ.main.compressFail = false → ∀ (i : ℕ) (info : BindInfo), u.main.infos[i]? = some info →
    ¬Selects σ.main i info → σ.missed i = false → CellHolds z u i info σ.main σ.last

section Calls

variable {z u} {σ : State} {can : Bool} {index : ℕ} {v : Value}

theorem held_of_none {pointers : ℕ → Option ℕ} {s : BindState} {k : ℕ} (h : pointers k = none) :
    held pointers s k = .value (s.params k) := by rw [held, h]

theorem inv_fresh : Inv z u .fresh where
  rowSelection _ _ := rfl
  pointers _ _ := rfl
  plain _ _ _ _ := rfl
  cells _ _ _ _ _ _ := ⟨.null, rfl, rfl, fun _ => rfl⟩

theorem inv_clearBindings : Inv z u (clearBindings σ) where
  rowSelection _ _ := rfl
  pointers _ _ := rfl
  plain _ _ _ _ := rfl
  cells _ _ _ _ _ _ := ⟨.null, rfl, rfl, fun _ => rfl⟩

theorem inv_reset (h : Inv z u σ) (hok : σ.main.compressFail = false) : Inv z u (reset σ) where
  rowSelection := h.rowSelection
  pointers := h.pointers
  plain _ := h.plain hok
  cells _ := h.cells hok

/-! #### Binding a value -/

section Bind

/-- The parameter of a match value, and one without bind info, hold what is bound to them. -/
theorem params_self {t : BindState} {s : BindState}
    (heffect : BindEffect z u.main can s index v t) (ht : t.compressFail = false)
    (hmatch : ∀ j info, u.main.infoAt index = some (j, info) → index = info.matchColumnBindIndex ∧
      index ≠ info.columnBindIndex ∧ index ≠ info.typeBindIndex) : t.params index = v := by
  cases heffect with
  | plain _ => exact BindState.bind_params_self _ _ _
  | own hinfo hne _ _ => exact absurd (hmatch _ _ hinfo).1 hne
  | keep hinfo hne _ _ _ => exact absurd (hmatch _ _ hinfo).1 hne
  | complete hinfo hne _ _ _ => exact absurd (hmatch _ _ hinfo).1 hne
  | raw hinfo hne _ => exact absurd (hmatch _ _ hinfo).1 hne
  | keepMatch _ _ _ _ => exact BindState.bind_params_self _ _ _
  | completeMatch hinfo _ _ _ =>
    obtain ⟨-, hcolumn, htype⟩ := hmatch _ _ hinfo
    rw [bindValueInInfo, BindState.bindCell_params_of_ne _ hcolumn htype,
      BindState.bind_params_self]
  | misuse _ _ _ _ => cases ht

/-- A match parameter takes integers only. -/
theorem integer_of_match {t s : BindState} (heffect : BindEffect z u.main can s index v t)
    (ht : t.compressFail = false) {i : ℕ} {info : BindInfo}
    (hinfo : u.main.infoAt index = some (i, info)) (hmatch : index = info.matchColumnBindIndex) :
    ∃ n, v = .integer n := by
  have hother : ∀ {j : ℕ} {info' : BindInfo}, u.main.infoAt index = some (j, info') →
      index = info'.matchColumnBindIndex := by
    intro j info' hinfo'
    cases hinfo.symm.trans hinfo'
    exact hmatch
  cases heffect with
  | plain hnone => simp [hinfo] at hnone
  | own hinfo' hne _ _ => exact absurd (hother hinfo') hne
  | keep hinfo' hne _ _ _ => exact absurd (hother hinfo') hne
  | complete hinfo' hne _ _ _ => exact absurd (hother hinfo') hne
  | raw hinfo' hne _ => exact absurd (hother hinfo') hne
  | keepMatch _ _ hv _ => exact ⟨_, hv⟩
  | completeMatch _ _ hv _ => exact ⟨_, hv⟩
  | misuse _ _ _ _ => cases ht

variable (hp : u.main.Prepared) (hs : u.main.Separate) (hle : index ≤ u.main.maxBindIndex)

theorem pointers_bind (h : Inv z u σ) (k : ℕ) (hk : u.main.infoAt k ≠ none) :
    (bind z u can index v σ).mainPointers k = none := by
  simp only [bind]
  split_ifs with hindex
  · have hne : k ≠ index := by
      rintro rfl
      exact hk hindex
    rw [Function.update_of_ne hne, h.pointers k hk]
  · exact h.pointers k hk

include hp hle in
theorem plain_bind (h : Inv z u σ) (hfail : (bind z u can index v σ).main.compressFail = false)
    {k : ℕ} (hk : k ≤ u.main.maxBindIndex)
    (hcontent : ∀ info ∈ u.main.infos, info.columnBindIndex ≠ k) :
    held (bind z u can index v σ).mainPointers (bind z u can index v σ).main k =
      (bind z u can index v σ).last k := by
  have heffect : BindEffect z u.main can σ.main index v (bind z u can index v σ).main :=
    bindValue_effect hle σ.main v
  -- the type parameters come after all others
  have hne : ∀ j info, u.main.infoAt index = some (j, info) →
      k ≠ info.columnBindIndex ∧ k ≠ info.typeBindIndex := by
    intro j info hinfo
    have hj := (hp.infoAt_of_le hle hinfo).1
    have htype := hp.type_eq j info hj
    exact ⟨(hcontent info (List.mem_of_getElem? hj)).symm, by omega⟩
  by_cases hki : k = index
  · subst hki
    have hpointer : (bind z u can k v σ).mainPointers k = none := by
      by_cases hinfo : u.main.infoAt k = none
      · simp [bind, hinfo]
      · exact pointers_bind h k hinfo
    have hlast : (bind z u can k v σ).last k = .value v := Function.update_self ..
    rw [held_of_none hpointer, hlast, params_self heffect hfail]
    intro j info hinfo
    have hcases := (hp.infoAt_of_le hle hinfo).2
    exact ⟨hcases.resolve_left (hne j info hinfo).1, hne j info hinfo⟩
  · have hparams := heffect.params_of_ne hki hne
    have hpointer : (bind z u can index v σ).mainPointers k = σ.mainPointers k := by
      simp only [bind]
      split_ifs
      · exact Function.update_of_ne hki ..
      · rfl
    have hlast : (bind z u can index v σ).last k = σ.last k := Function.update_of_ne hki ..
    rw [hlast, ← h.plain (heffect.compressFail_of hfail) k hk hcontent, held, held,
      hpointer, hparams]

include hp hs hle in
theorem cells_bind (hz : z.Lawful) (h : Inv z u σ) (hpos : 0 < index)
    (hok : BindSound z u σ can index v)
    (hfail : (bind z u can index v σ).main.compressFail = false) {i : ℕ} {info : BindInfo}
    (hi : u.main.infos[i]? = some info) (hsel : ¬Selects (bind z u can index v σ).main i info)
    (hmissed : (bind z u can index v σ).missed i = false) :
    CellHolds z u i info (bind z u can index v σ).main (bind z u can index v σ).last := by
  have heffect : BindEffect z u.main can σ.main index v (bind z u can index v σ).main :=
    bindValue_effect hle σ.main v
  have hbefore := h.cells (heffect.compressFail_of hfail) i info hi
  have howns := hs.owns hp hi
  by_cases hinfo : u.main.infoAt index = some (i, info)
  · simp only [BindSound, hinfo] at hok
    simp only [bind, missedAfter, hinfo] at hmissed
    by_cases hmatch : index = info.matchColumnBindIndex
    · -- the match value: it completes what is kept, or is kept itself
      obtain ⟨n, rfl⟩ := integer_of_match heffect hfail hinfo hmatch
      have hmatchSound : MatchSound z u σ can i info n := by
        have := hok.2
        rw [if_pos hmatch] at this
        exact this n rfl
      rw [if_neg (not_not.mpr hmatch)] at hmissed
      subst hmatch
      have hmem : info.matchColumnBindIndex ∈ u.main.parameters := by
        rcases hp.match_mem info (List.mem_of_getElem? hi) with h0 | hmem | ⟨-, hselected⟩
        · omega
        · exact hmem
        · have := hp.max_lt
          omega
      have hlast : (bind z u can info.matchColumnBindIndex (.integer n) σ).last
          info.columnBindIndex = σ.last info.columnBindIndex :=
        Function.update_of_ne howns.apart ..
      rcases cell_match hp howns hmem hinfo hfail with ⟨hkept, hcell⟩ | ⟨hkept, cell, hcode, hcell⟩
      · rw [if_pos hkept] at hmissed
        have hnot : ¬Selects σ.main i info := fun hsel' => hsel'.2 hkept
        exact (hbefore hnot hmissed).congr (by rw [bind, hcell]) (by rw [bind, hcell]) hlast
      · rw [if_neg hkept, Function.update_self, decide_eq_false_iff_not, not_not] at hmissed
        exact cellHolds_of_encodes hz (hmatchSound hkept hmissed) hcode hcell
          (hlast.trans hmissed.symm)
    · -- the content
      have hcolumn : index = info.columnBindIndex :=
        (hp.infoAt_of_le hle hinfo).2.resolve_right hmatch
      have hcontentSound : ContentSound z u σ can i info v := by
        have := hok.2
        rwa [if_neg hmatch] at this
      rw [if_pos hmatch, Function.update_self, decide_eq_false_iff_not] at hmissed
      subst hcolumn
      have hlast : (bind z u can info.columnBindIndex v σ).last info.columnBindIndex = .value v :=
        Function.update_self ..
      rcases cell_content hp howns hfail with ⟨hd, hcell⟩ | ⟨hd, h0, cell, hcode, hcell⟩ |
        ⟨hd, hm, hkept, hcell⟩ | ⟨hd, hm, hkept, cell, hcode, hcell⟩
      · refine ⟨v, hlast, ?_, fun _ => by rw [bind, hcell]⟩
        rw [bind, hcell]
        exact wcdbDecompress_of_not_isData hd _
      · have hencodes := hcontentSound hd
        rw [if_pos h0] at hencodes
        exact cellHolds_of_encodes hz hencodes hcode hcell
          (hlast.trans (by rw [Value.restored_of_isData hd]))
      · -- kept: it waits for its match value, or for the step
        have hselected : info.matchColumnBindIndex = selectedMatchValueBindIndex := by
          by_contra hne
          exact hmissed ⟨hd, hkept, by omega, hne⟩
        refine absurd ⟨hselected, ?_⟩ hsel
        have hkept' : (bind z u can info.columnBindIndex v σ).main.bindedValue i = v :=
          congrArg Cell.kept hcell
        rw [hkept']
        rintro rfl
        cases hd
      · have hencodes := hcontentSound hd
        rw [if_neg (by omega)] at hencodes
        exact cellHolds_of_encodes hz (hencodes hkept) hcode hcell
          (hlast.trans (by rw [Value.restored_of_isData hd]))
  · -- another cell
    have hne : ∀ info', u.main.infoAt index ≠ some (i, info') := by
      intro info' hinfo'
      have := (hp.infoAt_of_le hle hinfo').1
      rw [hi] at this
      cases this
      exact hinfo hinfo'
    have hcell : (bind z u can index v σ).main.cell i info = σ.main.cell i info :=
      cell_frame_of_le hp hs hi hle hne v
    have hindex : info.columnBindIndex ≠ index := fun heq => hne info (heq ▸ howns.content)
    have hmissed' : σ.missed i = false := by
      simp only [bind, missedAfter] at hmissed
      cases hfound : u.main.infoAt index with
      | none => simpa only [hfound] using hmissed
      | some found =>
        obtain ⟨j, info'⟩ := found
        have hij : i ≠ j := by
          rintro rfl
          exact hne info' hfound
        simp only [hfound] at hmissed
        split_ifs at hmissed
        · rwa [Function.update_of_ne hij] at hmissed
        · exact hmissed
        · rwa [Function.update_of_ne hij] at hmissed
    have hsel' : ¬Selects σ.main i info := by
      rwa [Selects, show (bind z u can index v σ).main.bindedValue i = σ.main.bindedValue i from
        congrArg Cell.kept hcell] at hsel
    exact (hbefore hsel' hmissed').congr (congrArg Cell.content hcell) (congrArg Cell.type hcell)
      (Function.update_of_ne hindex ..)

include hp hs hle in
/-- **Binding a value keeps the invariant.** -/
theorem inv_bind (hz : z.Lawful) (h : Inv z u σ) (hpos : 0 < index)
    (hok : BindSound z u σ can index v) : Inv z u (bind z u can index v σ) where
  rowSelection := by
    intro k hk
    simp only [bind]
    split_ifs with hinfo
    · refine forward_eq_last h.rowSelection ?_ k hk
      intro hv
      simp only [BindSound, hinfo] at hok
      exact hok (Bound.value.inj hv)
    · by_cases hki : k = index
      · obtain ⟨⟨i, info⟩, hfound⟩ := Option.ne_none_iff_exists'.mp hinfo
        simp only [BindSound, hfound] at hok
        rw [hki, Function.update_self]
        exact hok.1 (hki ▸ hk)
      · rw [Function.update_of_ne hki, h.rowSelection k hk]
  pointers := pointers_bind h
  plain hfail _ hk hcontent := plain_bind hp hle h hfail hk hcontent
  cells hfail _ _ hi hsel hmissed := cells_bind hp hs hle hz h hpos hok hfail hi hsel hmissed

end Bind

/-- Binding a pointer keeps the invariant. -/
theorem inv_bindPointer (hp : u.main.Prepared) (hs : u.main.Separate)
    (hle : index ≤ u.main.maxBindIndex) (hinfo : u.main.infoAt index = none)
    (h : Inv z u σ) (p : ℕ) :
    Inv z u (bindPointer u index p σ) := by
  have hmain : (bindPointer u index p σ).main = σ.main.bind index .null :=
    bindPlain_eq hle σ.main .null
  refine ⟨forward_eq_last h.rowSelection (fun hb => nomatch hb), ?_, ?_, ?_⟩
  · intro k hk
    have hne : k ≠ index := by
      rintro rfl
      exact hk hinfo
    exact (Function.update_of_ne hne ..).trans (h.pointers k hk)
  · intro hfail k hk hcontent
    rw [hmain] at hfail
    by_cases hki : k = index
    · rw [hki]
      simp [bindPointer, held]
    · have hpointer : (bindPointer u index p σ).mainPointers k = σ.mainPointers k :=
        Function.update_of_ne hki ..
      have hlast : (bindPointer u index p σ).last k = σ.last k := Function.update_of_ne hki ..
      rw [hlast, ← h.plain hfail k hk hcontent, held, held, hpointer, hmain,
        BindState.bind_params_of_ne _ hki]
  · intro hfail i info hi hsel hmissed
    rw [hmain] at hfail hsel
    have hcolumn : info.columnBindIndex ≠ index := by
      rintro heq
      exact absurd (hp.infoAt_column hs hi) (by rw [heq, hinfo]; exact fun hn => nomatch hn)
    have htype : info.typeBindIndex ≠ index := by
      have := hp.type_eq i info hi
      omega
    refine (h.cells hfail i info hi hsel hmissed).congr ?_ ?_ (Function.update_of_ne hcolumn ..)
    · rw [hmain]
      exact BindState.bind_params_of_ne _ hcolumn _
    · rw [hmain]
      exact BindState.bind_params_of_ne _ htype _

end Calls

/-! ### Stepping -/

section Step

variable {z u} {σ : State} {can : Bool} {s : BindState} {row : ℤ × (ℕ → Value)}
  {rows : List (ℤ × (ℕ → Value))}

theorem isInsert_of_prepare {stmt : WriteSTMT} {columnInfos : List CompressionColumnInfo}
    {p : Wcdb.Statement} (h : prepare stmt columnInfos = some p) : p.isInsert = stmt.isInsert := by
  rw [prepare] at h
  split_ifs at h
  obtain rfl := Option.some.inj h
  rw [processWrite]
  dsimp only
  split_ifs with hdirect hinsert <;> simp_all

/-- The parameter of the rowid comes last. -/
theorem lt_rowidIndex (hp : u.main.Prepared) (hselects : u.selects = true) :
    u.main.maxBindIndex < u.rowidIndex ∧ ∀ (i : ℕ) (info : BindInfo), u.main.infos[i]? = some info →
      info.typeBindIndex < u.rowidIndex := by
  have hmode : u.main.mode ≠ .direct := of_decide_eq_true hselects
  have hindex : u.rowidIndex = u.main.maxBindIndex + u.main.infos.length + 1 := by
    have hinsert : ¬(u.main.mode = .direct ∨ u.main.isInsert = true) := by
      rw [isInsert_of_prepare u.prepared]
      exact not_or.mpr ⟨hmode, Bool.false_ne_true⟩
    rw [Update.rowidIndex, Statement.bindParameterCount, if_neg hinsert]
  refine ⟨by omega, fun i info hi => ?_⟩
  have htype := hp.type_eq i info hi
  have hlength := (List.getElem?_eq_some_iff.mp hi).1
  omega

/-- A pass of the loop leaves what is kept, every parameter outside the contents, and the cells that
it does not complete. -/
theorem stepRow_frame (hp : u.main.Prepared) (hs : u.main.Separate) (hselects : u.selects = true)
    (can : Bool) (row : ℤ × (ℕ → Value)) (s : BindState) :
    (stepRow z u can row s).bindedValue = s.bindedValue ∧
      (∀ k ≤ u.main.maxBindIndex, (∀ info ∈ u.main.infos, info.columnBindIndex ≠ k) →
        (stepRow z u can row s).params k = s.params k) ∧
      ∀ (i : ℕ) (info : BindInfo), u.main.infos[i]? = some info → ¬Selects s i info →
        (stepRow z u can row s).cell i info = s.cell i info := by
  obtain ⟨hmax, htype⟩ := lt_rowidIndex hp hselects
  have hrowid : ∀ (i : ℕ) (info : BindInfo), u.main.infos[i]? = some info →
      (s.bind u.rowidIndex (.integer row.1)).cell i info = s.cell i info := by
    intro i info hi
    have hcolumn := hp.le_of_mem _ (hp.column_mem info (List.mem_of_getElem? hi))
    have := htype i info hi
    simp only [BindState.cell, BindState.bind_bindedValue]
    rw [BindState.bind_params_of_ne _ (by omega), BindState.bind_params_of_ne _ (by omega)]
  rw [stepRow]
  split_ifs
  · obtain ⟨hkept, hparams⟩ := bindSelected_frame (z := z) can row.2 u.main.infos.zipIdx
      (s.bind u.rowidIndex (.integer row.1))
    refine ⟨hkept, fun k hk hcontent => ?_, fun i info hi hsel => ?_⟩
    · rw [hparams k, BindState.bind_params_of_ne _ (by omega)]
      intro e he _
      have hi := List.mem_zipIdx_iff_getElem?.mp he
      have := hp.type_eq e.2 e.1 hi
      exact ⟨(hcontent e.1 (List.mem_of_getElem? hi)).symm, by omega⟩
    · have hcell :=
        (bindSelected_cell (z := z) hp can row.2 hi (s.bind u.rowidIndex (.integer row.1))
        fun j info' hj _ heq => hs.columns j i info' info hj hi heq).1 hsel
      exact hcell.trans (hrowid i info hi)
  · exact ⟨rfl, fun k hk _ => BindState.bind_params_of_ne _ (by omega) _,
      fun i info hi _ => hrowid i info hi⟩

/-- A failure stays. -/
theorem compressFail_of_stepRow (h : (stepRow z u can row s).compressFail = false) :
    s.compressFail = false := by
  rw [stepRow] at h
  split_ifs at h
  · have hbind : (s.bind u.rowidIndex (.integer row.1)).compressFail = false :=
      bindSelected_compressFail h
    exact hbind
  · exact h

/-- The main statement between two passes of the loop: only the cells that a pass completes may
differ from what was bound last. -/
structure Ready (z : Zstd) (u : Update) (σ : State) (s : BindState) : Prop where
  kept : s.bindedValue = σ.main.bindedValue
  plain : ∀ k ≤ u.main.maxBindIndex, (∀ info ∈ u.main.infos, info.columnBindIndex ≠ k) →
    held σ.mainPointers s k = σ.last k
  cells : ∀ (i : ℕ) (info : BindInfo), u.main.infos[i]? = some info → ¬Selects σ.main i info →
    σ.missed i = false → CellHolds z u i info s σ.last

theorem Ready.selects_iff (h : Ready z u σ s) (i : ℕ) (info : BindInfo) :
    Selects s i info ↔ Selects σ.main i info := by
  rw [Selects, Selects, h.kept]

/-- A pass of the loop. -/
theorem Ready.row_ready (hp : u.main.Prepared) (hs : u.main.Separate) (hselects : u.selects = true)
    (h : Ready z u σ s) : Ready z u σ (stepRow z u can row s) := by
  obtain ⟨hkept, hparams, hcell⟩ := stepRow_frame (z := z) hp hs hselects can row s
  refine ⟨hkept.trans h.kept, fun k hk hcontent => ?_, fun i info hi hsel hmissed => ?_⟩
  · rw [← h.plain k hk hcontent, held, held, hparams k hk hcontent]
  · have hcell' := hcell i info hi (mt (h.selects_iff i info).mp hsel)
    exact (h.cells i info hi hsel hmissed).congr (congrArg Cell.content hcell')
      (congrArg Cell.type hcell') rfl

theorem Ready.rows_ready (hp : u.main.Prepared) (hs : u.main.Separate) (hselects : u.selects = true)
    (h : Ready z u σ s) : Ready z u σ (stepRows z u can rows s).2 := by
  induction rows generalizing s with
  | nil => exact h
  | cons row rows ih => exact ih (h.row_ready hp hs hselects)

theorem compressFail_of_stepRows (h : (stepRows z u can rows s).2.compressFail = false) :
    s.compressFail = false := by
  induction rows generalizing s with
  | nil => exact h
  | cons row rows ih => exact compressFail_of_stepRow (ih h)

theorem Inv.ready (h : Inv z u σ) (hfail : σ.main.compressFail = false) : Ready z u σ σ.main :=
  ⟨rfl, h.plain hfail, h.cells hfail⟩

/-- What was stepped does not matter. -/
theorem Inv.of_stepped (h : Inv z u σ) (stepped rowSelectionStepped : Bool) :
    Inv z u { σ with main := { σ.main with stepped }, rowSelectionStepped } :=
  ⟨h.rowSelection, h.pointers, h.plain, h.cells⟩

/-- **A step keeps the invariant.** -/
theorem inv_step (hp : u.main.Prepared) (hs : u.main.Separate) (hselects : u.selects = true)
    (h : Inv z u σ) : Inv z u { σ with main := (stepRows z u can rows σ.main).2 } := by
  have hready : (stepRows z u can rows σ.main).2.compressFail = false →
      Ready z u σ (stepRows z u can rows σ.main).2 := fun hfail =>
    (h.ready (compressFail_of_stepRows hfail)).rows_ready hp hs hselects
  refine ⟨h.rowSelection, h.pointers, fun hfail => (hready hfail).plain, ?_⟩
  intro hfail i info hi hsel hmissed
  exact (hready hfail).cells i info hi (mt ((hready hfail).selects_iff i info).mpr hsel) hmissed

/-- SQLite takes the bindings of statements that are ready. -/
theorem taken_of_unstepped {τ : State} (h : σ.Unstepped) : taken σ τ = τ := by
  simp [taken, h.1, h.2]

/-- **Every call keeps the invariant.** -/
theorem inv_call (hz : z.Lawful) (hs : u.main.Separate) {c : Call} {τ : State} (h : Inv z u σ)
    (hok : c.Sound z u σ) (hcall : call z u σ c = some τ) : Inv z u τ := by
  have hp := Statement.prepared_of_prepare u.prepared
  cases c with
  | bind can index v =>
    simp only [call, Option.ite_none_right_eq_some, Option.some.injEq] at hcall
    obtain ⟨⟨hpos, hle⟩, rfl⟩ := hcall
    rw [taken_of_unstepped hok.1]
    exact inv_bind hp hs hle hz h hpos hok.2
  | bindPointer index p =>
    simp only [call, Option.ite_none_right_eq_some, Option.some.injEq] at hcall
    obtain ⟨⟨-, hle, hinfo⟩, rfl⟩ := hcall
    rw [taken_of_unstepped hok]
    exact inv_bindPointer hp hs hle hinfo h p
  | clearBindings =>
    cases hcall
    exact inv_clearBindings
  | reset =>
    cases hcall
    exact inv_reset h hok
  | step can rows =>
    simp only [call] at hcall
    split_ifs at hcall with hfail hselects
    · cases hcall
      exact h
    · cases hcall
      exact (inv_step hp hs hselects h).of_stepped _ _
    · cases hcall
      exact h.of_stepped _ _

/-- What is kept for the step, completed with the match value of the row. -/
theorem Ready.cells_row (hz : z.Lawful) (hp : u.main.Prepared) (hs : u.main.Separate)
    (hselects : u.selects = true) (h : Ready z u σ s)
    (hok : ∀ (i : ℕ) (info : BindInfo), u.main.infos[i]? = some info →
      σ.missed i = false ∧ SelectedSound z u σ can rows i info) (hrow : row ∈ rows) {i : ℕ}
    {info : BindInfo} (hi : u.main.infos[i]? = some info) :
    CellHolds z u i info (stepRow z u can row s) σ.last := by
  obtain ⟨hmissed, hsound⟩ := hok i info hi
  by_cases hsel : Selects σ.main i info
  · obtain ⟨hlast, hrows⟩ := hsound hsel
    obtain ⟨hencodes, hsome⟩ := hrows row hrow
    obtain ⟨cell, hcode⟩ := Option.isSome_iff_exists.mp hsome
    have hsel' := (h.selects_iff i info).mpr hsel
    have hmode : u.main.mode = .selectMatch := by
      rcases hp.match_mem info (List.mem_of_getElem? hi) with h0 | hmem | ⟨hmode, -⟩
      · rw [hsel.1] at h0
        exact absurd h0 (by decide)
      · have := hp.le_of_mem _ hmem
        rw [hsel.1] at this
        exact absurd hp.max_lt (by omega)
      · exact hmode
    have hkept : (s.bind u.rowidIndex (.integer row.1)).bindedValue = σ.main.bindedValue := h.kept
    have hcell := (bindSelected_cell (z := z) hp can row.2 hi (s.bind u.rowidIndex (.integer row.1))
      fun j info' hj _ heq => hs.columns j i info' info hj hi heq).2.2 hsel' cell
        (by rw [hkept]; exact hcode)
    rw [stepRow, if_pos hmode]
    exact cellHolds_of_encodes hz hencodes hcode hcell hlast.symm
  · exact (h.row_ready hp hs hselects).cells i info hi hsel hmissed

/-- The main statement whenever the loop runs it. -/
theorem Ready.runs_hold (hz : z.Lawful) (hp : u.main.Prepared) (hs : u.main.Separate)
    (hselects : u.selects = true) (h : Ready z u σ s)
    (hok : ∀ (i : ℕ) (info : BindInfo), u.main.infos[i]? = some info →
      σ.missed i = false ∧ SelectedSound z u σ can rows i info)
    {left : List (ℤ × (ℕ → Value))} (hleft : ∀ row ∈ left, row ∈ rows) :
    ∀ t ∈ (stepRows z u can left s).1, Ready z u σ t ∧
      ∀ (i : ℕ) (info : BindInfo), u.main.infos[i]? = some info →
        CellHolds z u i info t σ.last := by
  induction left generalizing s with
  | nil => exact fun _ ht => absurd ht List.not_mem_nil
  | cons row left ih =>
    have hnext : Ready z u σ (stepRow z u can row s) := h.row_ready hp hs hselects
    refine List.forall_mem_cons.mpr ⟨⟨hnext, fun i info hi => ?_⟩, ?_⟩
    · exact h.cells_row hz hp hs hselects hok (hleft row List.mem_cons_self) hi
    · exact ih hnext fun row' hrow => hleft row' (List.mem_cons_of_mem _ hrow)

end Step

/-! ### Runs -/

theorem maxBindIndex_of_prepare {stmt : WriteSTMT} {columnInfos : List CompressionColumnInfo}
    {p : Wcdb.Statement} (h : prepare stmt columnInfos = some p) :
    p.maxBindIndex = stmt.maxBindIndex := by
  rw [prepare] at h
  split_ifs at h
  obtain rfl := Option.some.inj h
  exact maxBindIndex_processWrite stmt columnInfos

/-- The items are parts of the expressions. -/
theorem mem_parameters_of_item {exps : List Expression} {item : (ℕ × ℕ) × Operand}
    (h : item ∈ items exps) {k : ℕ} (hk : k ∈ item.2.parameters) :
    k ∈ exps.flatMap Expression.parameters := by
  obtain ⟨⟨e, i⟩, he, hitem⟩ := List.mem_flatMap.mp h
  have hmem : e ∈ exps := (List.mem_zipIdx' he).2 ▸ List.getElem_mem _
  refine List.mem_flatMap.mpr ⟨e, hmem, ?_⟩
  cases e with
  | item o =>
    obtain rfl := List.mem_singleton.mp hitem
    exact hk
  | expressions is =>
    obtain ⟨⟨o, j⟩, ho, rfl⟩ := List.mem_map.mp hitem
    exact List.mem_flatMap.mpr ⟨o, (List.mem_zipIdx' ho).2 ▸ List.getElem_mem _, hk⟩

theorem Update.le_of_mem_plainParameters {u : Update} {k : ℕ} (h : k ∈ u.plainParameters) :
    k ≤ u.main.maxBindIndex := by
  have hmem : k ∈ u.stmt.write.parameters := by
    rw [WriteSTMT.parameters, List.mem_dedup, List.mem_append]
    simp only [Update.plainParameters, List.mem_append, List.mem_flatMap] at h
    rcases h with ((⟨item, hitem, hk⟩ | h) | h) | h
    · exact Or.inl (mem_parameters_of_item (List.mem_filter.mp hitem).1 hk)
    · exact Or.inr (by simp [UpdateSTMT.write, h])
    · exact Or.inr (by simp [UpdateSTMT.write, h])
    · split_ifs at h
      · exact absurd h List.not_mem_nil
      · exact Or.inr (by simp [UpdateSTMT.write, h])
  rw [maxBindIndex_of_prepare u.prepared]
  exact (le_foldl_max _ 0).2 k hmem

/-- The parameters of the main statement, when all its cells hold. -/
theorem Ready.held_eq {z : Zstd} {u : Update} {σ : State} {s : BindState} (hs : u.main.Separate)
    (hpointers : ∀ k, u.main.infoAt k ≠ none → σ.mainPointers k = none) (h : Ready z u σ s)
    (hcells : ∀ (i : ℕ) (info : BindInfo), u.main.infos[i]? = some info →
      CellHolds z u i info s σ.last) :
    ∀ k ∈ u.plainParameters, held σ.mainPointers s k = σ.last k := by
  intro k hk
  have hp := Statement.prepared_of_prepare u.prepared
  by_cases hcontent : ∀ info ∈ u.main.infos, info.columnBindIndex ≠ k
  · exact h.plain k (Update.le_of_mem_plainParameters hk) hcontent
  · push Not at hcontent
    obtain ⟨info, hinfo, rfl⟩ := hcontent
    obtain ⟨i, hi⟩ := List.mem_iff_getElem?.mp hinfo
    obtain ⟨v, hlast, -, hplain⟩ := hcells i info hi
    have hpointer := hpointers info.columnBindIndex (by
      rw [hp.infoAt_column hs hi]
      exact Option.some_ne_none _)
    rw [held_of_none hpointer, hlast]
    exact congrArg Bound.value (hplain hk)

/-- The cells of an `UPDATE` that selects no rows. -/
theorem Inv.cells_direct {z : Zstd} {u : Update} {σ : State} (h : Inv z u σ)
    (hselects : ¬u.selects = true) (hfail : σ.main.compressFail = false)
    (hmissed : ∀ (i : ℕ) (info : BindInfo), u.main.infos[i]? = some info → σ.missed i = false)
    (i : ℕ) (info : BindInfo) (hi : u.main.infos[i]? = some info) :
    CellHolds z u i info σ.main σ.last := by
  have hp := Statement.prepared_of_prepare u.prepared
  have hmode : u.main.mode = .direct := by simpa [Update.selects] using hselects
  refine h.cells hfail i info hi ?_ (hmissed i info hi)
  -- a direct `UPDATE` selects no match values
  rintro ⟨hselected, -⟩
  rcases hp.match_mem info (List.mem_of_getElem? hi) with h0 | hmem | ⟨hmode', -⟩
  · rw [hselected] at h0
    exact absurd h0 (by decide)
  · have := hp.le_of_mem _ hmem
    rw [hselected] at this
    exact absurd hp.max_lt (by omega)
  · rw [hmode] at hmode'
    exact nomatch hmode'

/-- What a step finds under the invariant. -/
theorem Inv.reaches {z : Zstd} {u : Update} {σ : State} {can : Bool} {rows : List (ℤ × (ℕ → Value))}
    (hz : z.Lawful) (hs : u.main.Separate) (h : Inv z u σ)
    (hok : (Call.step can rows).Sound z u σ) (hfail : σ.main.compressFail = false) :
    Reaches z u σ can rows := by
  have hp := Statement.prepared_of_prepare u.prepared
  have hruns : ∀ s ∈ runs z u can rows σ.main, Ready z u σ s ∧
      ∀ (i : ℕ) (info : BindInfo), u.main.infos[i]? = some info →
        CellHolds z u i info s σ.last := by
    rcases hok with hfailed | ⟨hselects, hrows⟩ | hok
    · rw [hfail] at hfailed
      exact nomatch hfailed
    · rw [runs, if_pos hselects, hrows]
      exact fun _ hmem => absurd hmem List.not_mem_nil
    · by_cases hselects : u.selects = true
      · rw [runs, if_pos hselects]
        exact (h.ready hfail).runs_hold hz hp hs hselects hok fun _ => id
      · rw [runs, if_neg hselects]
        exact List.forall_mem_singleton.mpr ⟨h.ready hfail, h.cells_direct hselects hfail
          fun i info hi => (hok i info hi).1⟩
  refine ⟨h.rowSelection, fun s hmem => ?_, fun s hmem i info hi => ?_⟩
  · obtain ⟨hready, hcells⟩ := hruns s hmem
    exact hready.held_eq hs h.pointers hcells
  · obtain ⟨v, hlast, hreads, -⟩ := (hruns s hmem).2 i info hi
    exact ⟨v, hlast, hreads⟩

/-- **The bindings of a compressing `UPDATE`.** If no two contents share a parameter and every call
of a run meets the condition, the step at its end finds in every parameter what was bound to it
last. -/
theorem reaches_of_meets {z : Zstd} (hz : z.Lawful) {u : Update} (hs : u.main.Separate)
    {calls : List Call} {can : Bool} {rows : List (ℤ × (ℕ → Value))}
    (hok : Run.Meets (call z u) (Call.Sound z u) .fresh (calls ++ [.step can rows])) {σ : State}
    (hexec : Run.exec (call z u) .fresh calls = some σ) (hfail : σ.main.compressFail = false) :
    Reaches z u σ can rows := by
  obtain ⟨hcalls, hstep⟩ := hok.append hexec
  have hinv : Inv z u σ := by
    refine Run.inv_exec (I := Inv z u) ?_ inv_fresh hcalls hexec
    intro σ' c τ h hc hcall
    exact inv_call hz hs h hc hcall
  exact hinv.reaches hz hs hstep.1 hfail

/-! ### Two statements -/

/-- `UPDATE message SET content = ?1 WHERE id = ?2`, which selects the match value of each row. -/
def setContent : Update where
  stmt :=
    { columnsList := [["content"]]
      expressions := [.item (.bindParameter 1)]
      nested := []
      commonTableExpressions := []
      condition := [2]
      orderingTerms := []
      limit := []
      assigns := ⟨List.cons_ne_nil _ _, List.cons_ne_nil _ _⟩ }
  columnInfos := [contentColumn]
  main :=
    { mode := .selectMatch
      isInsert := false
      parameters := [1, 2]
      maxBindIndex := 2
      infos := [{ columnInfo := contentColumn
                  columnParaIndex := some (0, 0)
                  matchColumnParaIndex := none
                  columnBindIndex := 1
                  typeBindIndex := 3
                  matchColumnBindIndex := selectedMatchValueBindIndex }]
      targets := [] }
  prepared := by decide +kernel

/-- `UPDATE message SET content = NULL WHERE talker = ?1 AND sender = ?2`. -/
def dropContent : Update where
  stmt :=
    { columnsList := [["content"]]
      expressions := [.item .other]
      nested := []
      commonTableExpressions := []
      condition := [1, 2]
      orderingTerms := []
      limit := []
      assigns := ⟨List.cons_ne_nil _ _, List.cons_ne_nil _ _⟩ }
  columnInfos := [contentColumn]
  main :=
    { mode := .twoStep
      isInsert := false
      parameters := [1, 2]
      maxBindIndex := 2
      infos := []
      targets := [⟨contentColumn, none⟩] }
  prepared := by decide +kernel

theorem setContent_separate : setContent.main.Separate := by
  refine ⟨?_, by decide⟩
  intro i j a b ha hb _
  have hi := (List.getElem?_eq_some_iff.mp ha).1
  have hj := (List.getElem?_eq_some_iff.mp hb).1
  simp only [setContent, List.length_singleton] at hi hj
  omega

/-- The calls before the step: the condition, and then a content that waits for the step. -/
def setContentCalls : List Call :=
  [.bind true 2 (.integer 7), .bind true 1 (.text (List.replicate 8 97))]

/-- One row is selected, with the match value 7. -/
def selectedRow : ℤ × (ℕ → Value) := (1, fun _ => .integer 7)

/-- The condition is met by the run that ends with one selected row, with the match value 7. -/
theorem setContent_meets {row : ℤ × (ℕ → Value)} (hrow : row.2 0 = .integer 7) :
    Run.Meets (call runLength setContent)
      (Call.Sound runLength setContent) .fresh
      (setContentCalls ++ [.step true [row]]) := by
  rw [setContentCalls, List.cons_append, List.cons_append, List.nil_append]
  refine ⟨⟨⟨rfl, rfl⟩, fun hnull => nomatch hnull⟩, fun t ht => ?_⟩
  cases ht
  refine ⟨⟨⟨rfl, rfl⟩, fun hmem => absurd hmem (by decide), fun _ => ?_⟩, fun t ht => ?_⟩
  · -- nothing is kept before the first content
    rw [if_neg (by decide)]
    exact fun hkept => absurd rfl hkept
  · cases ht
    refine ⟨Or.inr (Or.inr ?_), fun _ _ => trivial⟩
    intro i info hi
    cases i with
    | succ i => cases hi
    | zero =>
      cases hi
      refine ⟨rfl, fun _ => ⟨rfl, ?_⟩⟩
      refine List.forall_mem_singleton.mpr ⟨Or.inr ⟨fits_zstdDict one_ne_zero, by decide⟩, ?_⟩
      rw [hrow]
      decide +kernel

end Wcdb.UpdateBindings
