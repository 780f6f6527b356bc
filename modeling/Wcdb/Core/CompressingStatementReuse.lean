import Wcdb.Core.CompressColumns
import Wcdb.Lib.Run
import Mathlib.Data.List.Dedup

/-!
# Using a prepared statement again

The rounds of a prepared statement share one piece of state: `bindedValue`, which neither
`reset()` nor `clearBindings()` clears. A content that is bound before its match value is then
taken for the second half of a cell and is overwritten with what was kept in the first round.

`Reusable` is the condition under which a round stores what was bound in it, and
`rows_hold_of_reusable` says so for every run: over any statement, any table and any order of
bindings. The proof follows one compressing column at a time: `Cell` is its part of the state,
and only its own content and match parameter act on it (`fold_frame`).
-/

namespace Wcdb

/-! ### Prepared statements -/

/-- What `prepare` establishes. -/
structure Statement.Prepared (stmt : Statement) : Prop where
  parameters_nodup : stmt.parameters.Nodup
  pos_of_mem : ∀ p ∈ stmt.parameters, 0 < p
  le_of_mem : ∀ p ∈ stmt.parameters, p ≤ stmt.maxBindIndex
  max_lt : stmt.maxBindIndex < selectedMatchValueBindIndex
  column_mem : ∀ info ∈ stmt.infos, info.columnBindIndex ∈ stmt.parameters
  match_mem : ∀ info ∈ stmt.infos, info.matchColumnBindIndex = 0 ∨
    info.matchColumnBindIndex ∈ stmt.parameters ∨
    stmt.mode = .selectMatch ∧ info.matchColumnBindIndex = selectedMatchValueBindIndex
  type_eq : ∀ i info, stmt.infos[i]? = some info → info.typeBindIndex = stmt.maxBindIndex + 1 + i
  targets_mem : ∀ target ∈ stmt.targets, ∀ index, target.bindIndex = some index →
    index ∈ stmt.parameters
  infos_of_twoStep : stmt.mode = .twoStep → stmt.infos = []
  targets_of_ne : stmt.mode ≠ .twoStep → stmt.targets = []

theorem le_foldl_max (l : List ℕ) (a : ℕ) :
    a ≤ l.foldl max a ∧ ∀ x ∈ l, x ≤ l.foldl max a := by
  induction l generalizing a with
  | nil => simp
  | cons y l ih =>
    obtain ⟨h₁, h₂⟩ := ih (max a y)
    refine ⟨le_trans (le_max_left a y) h₁, ?_⟩
    rintro x (_ | ⟨_, hx⟩)
    · exact le_trans (le_max_right a y) h₁
    · exact h₂ x hx

theorem WriteSTMT.mem_parameters {stmt : WriteSTMT} {index : ℕ × ℕ} {n : ℕ}
    (h : getBindParameter stmt.expressions index = some n) : n ∈ stmt.parameters := by
  rw [getBindParameter] at h
  rw [WriteSTMT.parameters, List.mem_dedup, List.mem_append, List.mem_flatMap]
  left
  split at h
  · cases h
  next e he =>
  refine ⟨e, List.mem_of_getElem? he, ?_⟩
  cases e with
  | item i =>
    by_cases hpos : 0 < index.2
    · simp [hpos] at h
    · cases i with
      | bindParameter m =>
        simp only [hpos, if_false, Option.some.injEq] at h
        simp [Expression.parameters, Operand.parameters, h]
      | other => simp [hpos] at h
  | expressions is =>
    by_cases hpos : 0 < index.2
    · simp only [hpos, if_true] at h
      split at h
      next hitem =>
        cases h
        exact List.mem_flatMap.mpr ⟨_, List.mem_of_getElem? hitem, List.mem_singleton.mpr rfl⟩
      · cases h
    · simp [hpos] at h

/-- The parameters of a bind info are parameters of the statement. -/
def BindInfo.Within (info : BindInfo) (parameters : List ℕ) : Prop :=
  (info.columnBindIndex = 0 ∨ info.columnBindIndex ∈ parameters) ∧
    (info.matchColumnBindIndex = 0 ∨ info.matchColumnBindIndex ∈ parameters)

theorem checkBindInfo_within {stmt : WriteSTMT} {info : BindInfo}
    (hc : info.columnBindIndex = 0) (hm : info.matchColumnBindIndex = 0) :
    (checkBindInfo stmt.expressions info).2.Within stmt.parameters ∧
      ((checkBindInfo stmt.expressions info).1 = true →
        (checkBindInfo stmt.expressions info).2.columnBindIndex ∈ stmt.parameters) := by
  rw [checkBindInfo]
  split
  · exact ⟨⟨Or.inl hc, Or.inl hm⟩, by simp⟩
  next n hn =>
  obtain ⟨index, -, hindex⟩ := Option.bind_eq_some_iff.mp hn
  have hmem := WriteSTMT.mem_parameters hindex
  simp only
  split
  · exact ⟨⟨Or.inr hmem, Or.inl hm⟩, fun _ => hmem⟩
  · split
    · exact ⟨⟨Or.inr hmem, Or.inl hm⟩, fun _ => hmem⟩
    next hm' => exact ⟨⟨Or.inr hmem, Or.inr (WriteSTMT.mem_parameters hm')⟩, fun _ => hmem⟩

theorem mem_addTypeParameters {m : ℕ} {infos : List BindInfo} {info : BindInfo}
    (h : info ∈ addTypeParameters m infos) :
    ∃ info' ∈ infos, info.columnBindIndex = info'.columnBindIndex ∧
      info.matchColumnBindIndex = info'.matchColumnBindIndex := by
  obtain ⟨⟨info', i⟩, hmem, rfl⟩ := List.mem_map.mp h
  exact ⟨info', (List.mem_zipIdx' hmem).2 ▸ List.getElem_mem _, rfl, rfl⟩

theorem type_addTypeParameters {m i : ℕ} {infos : List BindInfo} {info : BindInfo}
    (h : (addTypeParameters m infos)[i]? = some info) : info.typeBindIndex = m + 1 + i := by
  simp only [addTypeParameters, List.getElem?_map, List.getElem?_zipIdx, Option.map_map] at h
  obtain ⟨info', -, rfl⟩ := Option.map_eq_some_iff.mp h
  simp

/-- The bind infos after `checkBindParametersExist`. -/
theorem within_of_mem_checked {stmt : WriteSTMT} {columnInfos : List CompressionColumnInfo}
    {checked : Bool × BindInfo}
    (h : checked ∈ (bindInfoList stmt columnInfos).map (checkBindInfo stmt.expressions)) :
    checked.2.Within stmt.parameters ∧
      (checked.1 = true → checked.2.columnBindIndex ∈ stmt.parameters) := by
  obtain ⟨info, hinfo, rfl⟩ := List.mem_map.mp h
  obtain ⟨columnInfo, -, rfl⟩ := List.mem_map.mp (List.mem_filter.mp hinfo).1
  exact checkBindInfo_within rfl rfl

theorem BindInfo.target_mem {info : BindInfo} {parameters : List ℕ} (h : info.Within parameters)
    {index : ℕ} (hindex : info.target.bindIndex = some index) : index ∈ parameters := by
  simp only [BindInfo.target] at hindex
  split_ifs at hindex with hz
  cases hindex
  exact h.1.resolve_left hz

theorem maxBindIndex_processWrite (stmt : WriteSTMT) (columnInfos : List CompressionColumnInfo) :
    (processWrite stmt columnInfos).maxBindIndex = stmt.maxBindIndex := by
  rw [processWrite]
  dsimp only
  split_ifs <;> rfl

theorem le_bindParameterCount (stmt : Statement) :
    stmt.maxBindIndex ≤ stmt.bindParameterCount := by
  rw [Statement.bindParameterCount]
  omega

theorem Statement.prepared_of_prepare {stmt : WriteSTMT} {columnInfos : List CompressionColumnInfo}
    {p : Statement} (h : prepare stmt columnInfos = some p) : p.Prepared := by
  have hwithin : ∀ info ∈ ((bindInfoList stmt columnInfos).map
      (checkBindInfo stmt.expressions)).map Prod.snd, info.Within stmt.parameters := by
    intro info hinfo
    obtain ⟨checked, hchecked, rfl⟩ := List.mem_map.mp hinfo
    exact (within_of_mem_checked hchecked).1
  have hmax : ∀ q ∈ stmt.parameters, q ≤ stmt.maxBindIndex := (le_foldl_max _ _).2
  have hnodup : stmt.parameters.Nodup := List.nodup_dedup _
  rw [prepare] at h
  split_ifs at h with hlimit
  rw [not_or, not_lt] at hlimit
  have hpos : ∀ q ∈ stmt.parameters, 0 < q := fun q hq =>
    Nat.pos_of_ne_zero fun h0 => hlimit.1 (h0 ▸ hq)
  have hlt : stmt.maxBindIndex < selectedMatchValueBindIndex := by
    have hle : stmt.maxBindIndex ≤ maxVariableNumber := by
      rw [← maxBindIndex_processWrite stmt columnInfos]
      exact (le_bindParameterCount _).trans hlimit.2
    exact hle.trans_lt (by decide)
  obtain rfl := Option.some.inj h
  rw [processWrite]
  dsimp only
  split_ifs with hdirect hinsert hnone hselect
  · refine ⟨hnodup, hpos, hmax, hlt, ?_, ?_, fun _ _ => type_addTypeParameters, by simp, by simp,
      by simp⟩
    · intro info hinfo
      obtain ⟨info', hinfo', hcolumn, -⟩ := mem_addTypeParameters hinfo
      obtain ⟨checked, hchecked, rfl⟩ := List.mem_map.mp hinfo'
      rw [hcolumn]
      exact (within_of_mem_checked hchecked).2 (List.all_eq_true.mp hdirect.2.2.2 _ hchecked)
    · intro info hinfo
      obtain ⟨info', hinfo', -, hmatch⟩ := mem_addTypeParameters hinfo
      rw [hmatch]
      exact (hwithin info' hinfo').2.imp_right Or.inl
  · exact ⟨hnodup, hpos, hmax, hlt, by simp, by simp, by simp, by simp, by simp, by simp⟩
  · refine ⟨hnodup, hpos, hmax, hlt, by simp, by simp, by simp, ?_, by simp, by simp⟩
    intro target htarget index hindex
    obtain ⟨columnInfo, -, rfl⟩ := List.mem_map.mp htarget
    cases hfind : ((bindInfoList stmt columnInfos).map (checkBindInfo stmt.expressions)).map
        Prod.snd |>.find? fun info => info.columnInfo.column = columnInfo.column with
    | none =>
      rw [hfind] at hindex
      cases hindex
    | some info =>
      simp only [hfind, Option.map_some, Option.getD_some] at hindex
      exact BindInfo.target_mem (hwithin info (List.mem_of_find?_eq_some hfind)) hindex
  · refine ⟨hnodup, hpos, hmax, hlt, ?_, ?_, fun _ _ => type_addTypeParameters, by simp, by simp,
      by simp⟩
    · intro info hinfo
      obtain ⟨info', hinfo', hcolumn, -⟩ := mem_addTypeParameters hinfo
      obtain ⟨info'', hinfo'', rfl⟩ := List.mem_map.mp hinfo'
      have hne := (List.all_eq_true.mp hselect info'' hinfo'')
      simp only [decide_eq_true_eq] at hne
      have hkeep : (selectMatchValue info'').columnBindIndex = info''.columnBindIndex := by
        rw [selectMatchValue]
        split_ifs <;> rfl
      rw [hcolumn, hkeep]
      exact (hwithin info'' hinfo'').1.resolve_left hne.1
    · intro info hinfo
      obtain ⟨info', hinfo', -, hmatch⟩ := mem_addTypeParameters hinfo
      obtain ⟨info'', hinfo'', rfl⟩ := List.mem_map.mp hinfo'
      rw [hmatch, selectMatchValue]
      split_ifs with hz
      · exact Or.inr (Or.inr ⟨rfl, rfl⟩)
      · exact (hwithin info'' hinfo'').2.imp_right Or.inl
  · refine ⟨hnodup, hpos, hmax, hlt, by simp, by simp, by simp, ?_, by simp, by simp⟩
    intro target htarget index hindex
    obtain ⟨info, hinfo, rfl⟩ := List.mem_map.mp htarget
    exact BindInfo.target_mem (hwithin info hinfo) hindex

/-- Each content has a parameter of its own, which is no match parameter either. -/
structure Statement.Separate (stmt : Statement) : Prop where
  columns : ∀ (i j : ℕ) (a b : BindInfo), stmt.infos[i]? = some a → stmt.infos[j]? = some b →
    a.columnBindIndex = b.columnBindIndex → i = j
  columns_matches : ∀ a ∈ stmt.infos, ∀ b ∈ stmt.infos, a.columnBindIndex ≠ b.matchColumnBindIndex

section Map

variable {stmt : Statement}

private theorem lookup_of_unique {β : Type} {l : List (ℕ × β)} {k : ℕ} {i : β} (hmem : (k, i) ∈ l)
    (huniq : ∀ j, (k, j) ∈ l → j = i) : l.lookup k = some i := by
  induction l with
  | nil => cases hmem
  | cons e l ih =>
    obtain ⟨k', j⟩ := e
    by_cases hk : k = k'
    · subst hk
      rw [List.lookup_cons_self, huniq j List.mem_cons_self]
    · have hmem' : (k, i) ∈ l := by simpa [hk] using hmem
      rw [List.lookup_cons, beq_false_of_ne hk]
      exact ih hmem' fun j hj => huniq j (List.mem_cons_of_mem _ hj)

private theorem mem_of_lookup {l : List (ℕ × ℕ)} {k i : ℕ} (h : l.lookup k = some i) :
    (k, i) ∈ l := by
  induction l with
  | nil => cases h
  | cons e l ih =>
    obtain ⟨k', j⟩ := e
    by_cases hk : k = k'
    · subst hk
      rw [List.lookup_cons_self] at h
      cases h
      exact List.mem_cons_self
    · rw [List.lookup_cons, beq_false_of_ne hk] at h
      exact List.mem_cons_of_mem _ (ih h)

/-- The entries of the map. -/
theorem Statement.mem_bindInfoMap {k i : ℕ} :
    (k, i) ∈ stmt.bindInfoMap ↔ ∃ info, stmt.infos[i]? = some info ∧
      (k = info.columnBindIndex ∨ k = info.matchColumnBindIndex ∧ 0 < k ∨
        k = info.typeBindIndex) := by
  simp only [Statement.bindInfoMap, List.mem_flatMap, Prod.exists, List.mem_cons, List.mem_append,
    Prod.mk.injEq, List.mem_zipIdx_iff_getElem?]
  constructor
  · rintro ⟨info, j, hj, ⟨rfl, rfl⟩ | h | ⟨rfl, rfl⟩ | h⟩
    · exact ⟨info, hj, Or.inl rfl⟩
    · split_ifs at h with hpos
      · obtain ⟨rfl, rfl⟩ := by simpa using h
        exact ⟨info, hj, Or.inr (Or.inl ⟨rfl, hpos⟩)⟩
      · cases h
    · exact ⟨info, hj, Or.inr (Or.inr rfl)⟩
    · cases h
  · rintro ⟨info, hi, rfl | ⟨rfl, hpos⟩ | rfl⟩
    · exact ⟨info, i, hi, Or.inl ⟨rfl, rfl⟩⟩
    · exact ⟨info, i, hi, Or.inr (Or.inl (by simp [hpos]))⟩
    · exact ⟨info, i, hi, Or.inr (Or.inr (Or.inl ⟨rfl, rfl⟩))⟩

/-- What the map finds for an index of the statement. -/
theorem Statement.Prepared.infoAt_of_le (hp : stmt.Prepared) {k i : ℕ} {info : BindInfo}
    (hk : k ≤ stmt.maxBindIndex) (h : stmt.infoAt k = some (i, info)) :
    stmt.infos[i]? = some info ∧
      (k = info.columnBindIndex ∨ k = info.matchColumnBindIndex) := by
  obtain ⟨j, hj, hinfo⟩ := Option.bind_eq_some_iff.mp h
  obtain ⟨info', hi', heq⟩ := Option.map_eq_some_iff.mp hinfo
  cases heq
  obtain ⟨info'', hi'', hcases⟩ := Statement.mem_bindInfoMap.mp (mem_of_lookup hj)
  obtain rfl : info = info'' := Option.some.inj (hi'.symm.trans hi'')
  refine ⟨hi', ?_⟩
  rcases hcases with h | ⟨h, -⟩ | h
  · exact Or.inl h
  · exact Or.inr h
  · have := hp.type_eq i info hi'
    omega

theorem Statement.Prepared.infoAt_cases (hp : stmt.Prepared) {k i : ℕ} {info : BindInfo}
    (hk : k ∈ stmt.parameters) (h : stmt.infoAt k = some (i, info)) :
    stmt.infos[i]? = some info ∧
      (k = info.columnBindIndex ∨ k = info.matchColumnBindIndex) :=
  hp.infoAt_of_le (hp.le_of_mem k hk) h

/-- The parameter of a content leads to its own bind info. -/
theorem Statement.Prepared.infoAt_column (hp : stmt.Prepared) (hs : stmt.Separate) {i : ℕ}
    {info : BindInfo} (h : stmt.infos[i]? = some info) :
    stmt.infoAt info.columnBindIndex = some (i, info) := by
  have hmem := List.mem_of_getElem? h
  have hlookup : stmt.bindInfoMap.lookup info.columnBindIndex = some i := by
    refine lookup_of_unique (Statement.mem_bindInfoMap.mpr ⟨info, h, Or.inl rfl⟩) ?_
    intro j hj
    obtain ⟨info', hj', hcases⟩ := Statement.mem_bindInfoMap.mp hj
    rcases hcases with heq | ⟨heq, -⟩ | heq
    · exact (hs.columns i j info info' h hj' heq).symm
    · exact absurd heq (hs.columns_matches info hmem info' (List.mem_of_getElem? hj'))
    · have := hp.le_of_mem _ (hp.column_mem info hmem)
      have := hp.type_eq j info' hj'
      omega
  simp [Statement.infoAt, hlookup, h]

/-- A bind info whose content has a parameter of its own. -/
structure Statement.Owns (stmt : Statement) (i : ℕ) (info : BindInfo) : Prop where
  get : stmt.infos[i]? = some info
  content : stmt.infoAt info.columnBindIndex = some (i, info)
  apart : info.columnBindIndex ≠ info.matchColumnBindIndex

theorem Statement.Separate.owns (hs : stmt.Separate) (hp : stmt.Prepared) {i : ℕ} {info : BindInfo}
    (hi : stmt.infos[i]? = some info) : stmt.Owns i info :=
  have hmem := List.mem_of_getElem? hi
  ⟨hi, hp.infoAt_column hs hi, hs.columns_matches info hmem info hmem⟩

end Map

/-! ### One compressing column -/

/-- The part of the state that belongs to one compressing column. -/
structure Cell where
  content : Value
  type : Value
  kept : Value

/-- The part of the state that belongs to the `i`-th bind info. -/
def BindState.cell (s : BindState) (i : ℕ) (info : BindInfo) : Cell where
  content := s.params info.columnBindIndex
  type := s.params info.typeBindIndex
  kept := s.bindedValue i

namespace BindState

variable (s : BindState)

@[simp]
theorem bind_bindedValue (k : ℕ) (v : Value) : (s.bind k v).bindedValue = s.bindedValue := rfl

@[simp]
theorem bind_compressFail (k : ℕ) (v : Value) : (s.bind k v).compressFail = s.compressFail := rfl

@[simp]
theorem bind_params_self (k : ℕ) (v : Value) : (s.bind k v).params k = v :=
  Function.update_self ..

@[simp]
theorem bind_params_of_ne {k q : ℕ} (h : q ≠ k) (v : Value) :
    (s.bind k v).params q = s.params q := Function.update_of_ne h ..

@[simp]
theorem keep_params (i : ℕ) (v : Value) : (s.keep i v).params = s.params := rfl

@[simp]
theorem keep_compressFail (i : ℕ) (v : Value) : (s.keep i v).compressFail = s.compressFail := rfl

@[simp]
theorem keep_bindedValue_self (i : ℕ) (v : Value) : (s.keep i v).bindedValue i = v :=
  Function.update_self ..

@[simp]
theorem keep_bindedValue_of_ne {i j : ℕ} (h : j ≠ i) (v : Value) :
    (s.keep i v).bindedValue j = s.bindedValue j := Function.update_of_ne h ..

@[simp]
theorem fail_params : s.fail.params = s.params := rfl

@[simp]
theorem fail_bindedValue : s.fail.bindedValue = s.bindedValue := rfl

@[simp]
theorem fail_compressFail : s.fail.compressFail = true := rfl

@[simp]
theorem bindCell_bindedValue (info : BindInfo) (cell : Option (Value × Value)) :
    (s.bindCell info cell).bindedValue = s.bindedValue := by
  cases cell <;> rfl

theorem bindCell_params_of_ne {info : BindInfo} {q : ℕ} (hc : q ≠ info.columnBindIndex)
    (ht : q ≠ info.typeBindIndex) (cell : Option (Value × Value)) :
    (s.bindCell info cell).params q = s.params q := by
  cases cell with
  | none => rfl
  | some cell => simp [bindCell, hc, ht]

theorem bindCell_compressFail (info : BindInfo) (cell : Option (Value × Value)) :
    (s.bindCell info cell).compressFail = (s.compressFail || cell.isNone) := by
  cases cell <;> simp [bindCell]

end BindState

section Frame

variable {z : Zstd} {stmt : Statement} {can : Bool}

theorem bindPlain_eq {k : ℕ} (hk : k ≤ stmt.maxBindIndex) (s : BindState) (v : Value) :
    bindPlain stmt s k v = s.bind k v := by
  rw [bindPlain, if_pos]
  rw [Statement.bindParameterCount]
  omega

variable (z stmt can) in
/-- What binding `v` at `k` can do. -/
inductive BindEffect (s : BindState) (k : ℕ) (v : Value) : BindState → Prop where
  | plain (h : stmt.infoAt k = none) : BindEffect s k v (s.bind k v)
  | own {i : ℕ} {info : BindInfo} (h : stmt.infoAt k = some (i, info))
      (hk : k ≠ info.matchColumnBindIndex) (hm : info.matchColumnBindIndex = 0)
      (hv : v.isData = true) :
      BindEffect s k v (s.bindCell info (encodeCell z can (ownDictionary info.columnInfo).1
        (ownDictionary info.columnInfo).2 v.isText v.blobValue))
  | keep {i : ℕ} {info : BindInfo} (h : stmt.infoAt k = some (i, info))
      (hk : k ≠ info.matchColumnBindIndex) (hm : 0 < info.matchColumnBindIndex)
      (hv : v.isData = true) (hkept : s.bindedValue i = .null) :
      BindEffect s k v (s.keep i v)
  | complete {i : ℕ} {info : BindInfo} (h : stmt.infoAt k = some (i, info))
      (hk : k ≠ info.matchColumnBindIndex) (hm : 0 < info.matchColumnBindIndex)
      (hv : v.isData = true) (hkept : s.bindedValue i ≠ .null) :
      BindEffect s k v (s.bindCell info (encodeCell z can .zstdDict
        (info.columnInfo.getMatchDictId (s.bindedValue i).intValue) v.isText v.blobValue))
  | raw {i : ℕ} {info : BindInfo} (h : stmt.infoAt k = some (i, info))
      (hk : k ≠ info.matchColumnBindIndex) (hv : v.isData = false) :
      BindEffect s k v ((s.bind k v).bind info.typeBindIndex (.integer CompressedType.none.toInt))
  | keepMatch {i : ℕ} {info : BindInfo} (h : stmt.infoAt k = some (i, info))
      (hk : k = info.matchColumnBindIndex) {n : ℤ} (hv : v = .integer n)
      (hkept : s.bindedValue i = .null) :
      BindEffect s k v ((s.bind k v).keep i v)
  | completeMatch {i : ℕ} {info : BindInfo} (h : stmt.infoAt k = some (i, info))
      (hk : k = info.matchColumnBindIndex) {n : ℤ} (hv : v = .integer n)
      (hkept : s.bindedValue i ≠ .null) :
      BindEffect s k v (bindValueInInfo z can (s.bind k v) i info n)
  | misuse {i : ℕ} {info : BindInfo} (h : stmt.infoAt k = some (i, info))
      (hk : k = info.matchColumnBindIndex) (hv : ∀ n, v ≠ .integer n) {t : BindState}
      (ht : t = s ∨ t = s.bind k v) :
      BindEffect s k v t.fail

private theorem bindOther_effect {k : ℕ} {v : Value} (hk : k ≤ stmt.maxBindIndex) (s : BindState)
    (hv : v.isData = false) (hint : ∀ n, v ≠ .integer n) :
    BindEffect z stmt can s k v (bindOther stmt s k v) := by
  rw [bindOther, bindPlain_eq hk]
  cases hinfo : stmt.infoAt k with
  | none => exact .plain hinfo
  | some found =>
    simp only
    split_ifs with hmatch
    · exact .misuse hinfo hmatch hint (Or.inr rfl)
    · exact .raw hinfo hmatch hv

private theorem bindData_effect {k : ℕ} (hk : k ≤ stmt.maxBindIndex) (s : BindState)
    (isText : Bool) (data : List UInt8) :
    BindEffect z stmt can s k (dataValue isText data) (bindData z stmt can s k isText data) := by
  have hdata : (dataValue isText data).isData = true := by cases isText <;> rfl
  have htext : (dataValue isText data).isText = isText := by cases isText <;> rfl
  have hblob : (dataValue isText data).blobValue = data := by cases isText <;> rfl
  cases hinfo : stmt.infoAt k with
  | none =>
    simp only [bindData, hinfo, bindPlain_eq hk]
    exact .plain hinfo
  | some found =>
    obtain ⟨i, info⟩ := found
    simp only [bindData, hinfo]
    split_ifs with hmatch hpos hkept
    · exact .misuse hinfo hmatch (by cases isText <;> simp [dataValue]) (Or.inl rfl)
    · have h : BindEffect z stmt can s k (dataValue isText data) _ :=
        .complete hinfo hmatch hpos hdata hkept
      rwa [htext, hblob] at h
    · exact .keep hinfo hmatch hpos hdata (not_not.mp hkept)
    · have h : BindEffect z stmt can s k (dataValue isText data) _ :=
        .own hinfo hmatch (by omega) hdata
      rwa [htext, hblob] at h

/-- **Every binding has one of these effects.** -/
theorem bindValue_effect {k : ℕ} (hk : k ≤ stmt.maxBindIndex) (s : BindState) (v : Value) :
    BindEffect z stmt can s k v (bindValue z stmt can s (k, v)) := by
  cases v with
  | null | float => exact bindOther_effect hk s rfl (by simp)
  | text data => exact bindData_effect hk s true data
  | blob data => exact bindData_effect hk s false data
  | integer n =>
    simp only [bindValue, bindInteger, bindPlain_eq hk]
    cases hinfo : stmt.infoAt k with
    | none => exact .plain hinfo
    | some found =>
      simp only
      split_ifs with hmatch hkept
      · exact .completeMatch hinfo hmatch rfl hkept
      · exact .keepMatch hinfo hmatch rfl (not_not.mp hkept)
      · exact .raw hinfo hmatch rfl

namespace BindEffect

variable {s t : BindState} {k : ℕ} {v : Value}

/-- A binding changes its own parameter, and those of the cell that it belongs to unless it is a
match value that finds nothing kept. -/
theorem params_frame (h : BindEffect z stmt can s k v t) {q : ℕ} (hq : q ≠ k)
    (hcell : ∀ j info, stmt.infoAt k = some (j, info) →
      q = info.columnBindIndex ∨ q = info.typeBindIndex →
        k = info.matchColumnBindIndex ∧ s.bindedValue j = .null) : t.params q = s.params q := by
  have hbind : (s.bind k v).params q = s.params q := BindState.bind_params_of_ne _ hq _
  have hbindCell : ∀ {i : ℕ} {info : BindInfo}, stmt.infoAt k = some (i, info) →
      k ≠ info.matchColumnBindIndex ∨ s.bindedValue i ≠ .null → ∀ (u : BindState) cell,
        (u.bindCell info cell).params q = u.params q := by
    intro i info h hacts u cell
    have hne := not_or.mp fun h' => (not_and_or.mpr hacts) (hcell i info h h')
    exact u.bindCell_params_of_ne hne.1 hne.2 cell
  cases h with
  | plain h => exact hbind
  | own h hk _ _ => exact hbindCell h (Or.inl hk) _ _
  | keep _ _ _ _ _ => rfl
  | complete h hk _ _ _ => exact hbindCell h (Or.inl hk) _ _
  | raw h hk _ =>
    have hne : q ≠ _ := fun h' => hk (hcell _ _ h (Or.inr h')).1
    rw [BindState.bind_params_of_ne _ hne, hbind]
  | keepMatch _ _ _ _ => exact hbind
  | completeMatch h _ _ hkept => rw [bindValueInInfo, hbindCell h (Or.inr hkept), hbind]
  | misuse _ _ _ ht =>
    rcases ht with rfl | rfl
    · rfl
    · exact hbind

/-- A binding changes its own parameter, and those of the cell that it belongs to. -/
theorem params_of_ne (h : BindEffect z stmt can s k v t) {q : ℕ} (hq : q ≠ k)
    (hcell : ∀ j info, stmt.infoAt k = some (j, info) →
      q ≠ info.columnBindIndex ∧ q ≠ info.typeBindIndex) : t.params q = s.params q :=
  h.params_frame hq fun j info hj hq' => absurd hq' (not_or.mpr (hcell j info hj))

/-- A binding changes the kept value of the cell that it belongs to. -/
theorem bindedValue_of_ne (h : BindEffect z stmt can s k v t) {i : ℕ}
    (hi : ∀ info, stmt.infoAt k ≠ some (i, info)) : t.bindedValue i = s.bindedValue i := by
  cases h with
  | plain _ => rfl
  | own _ _ _ _ => rw [BindState.bindCell_bindedValue]
  | keep h _ _ _ _ =>
    exact BindState.keep_bindedValue_of_ne _ (fun heq => hi _ (heq ▸ h)) _
  | complete _ _ _ _ _ => rw [BindState.bindCell_bindedValue]
  | raw _ _ _ => rfl
  | keepMatch h _ _ _ =>
    exact BindState.keep_bindedValue_of_ne _ (fun heq => hi _ (heq ▸ h)) _
  | completeMatch _ _ _ _ => rw [bindValueInInfo, BindState.bindCell_bindedValue]; rfl
  | misuse _ _ _ ht => rcases ht with rfl | rfl <;> rfl

/-- A failure stays. -/
theorem compressFail_of (h : BindEffect z stmt can s k v t) (ht : t.compressFail = false) :
    s.compressFail = false := by
  cases h with
  | plain _ => exact ht
  | own | complete =>
    rw [BindState.bindCell_compressFail, Bool.or_eq_false_iff] at ht
    exact ht.1
  | keep _ _ _ _ _ => exact ht
  | raw _ _ _ => exact ht
  | keepMatch _ _ _ _ => exact ht
  | completeMatch _ _ _ _ =>
    rw [bindValueInInfo, BindState.bindCell_compressFail, Bool.or_eq_false_iff] at ht
    exact ht.1
  | misuse _ _ _ _ => cases ht

end BindEffect

/-- A binding that belongs to another cell leaves a cell as it is. -/
theorem cell_frame_of_le (hp : stmt.Prepared) (hs : stmt.Separate) {i : ℕ} {info : BindInfo}
    (hi : stmt.infos[i]? = some info) {s : BindState} {k : ℕ} (hk : k ≤ stmt.maxBindIndex)
    (hne : ∀ info', stmt.infoAt k ≠ some (i, info')) (v : Value) :
    (bindValue z stmt can s (k, v)).cell i info = s.cell i info := by
  have heffect : BindEffect z stmt can s k v _ := bindValue_effect hk s v
  have hcolumn := hp.le_of_mem _ (hp.column_mem info (List.mem_of_getElem? hi))
  have htype := hp.type_eq i info hi
  have hcell : ∀ j info', stmt.infoAt k = some (j, info') →
      (info.columnBindIndex ≠ info'.columnBindIndex ∧ info.columnBindIndex ≠ info'.typeBindIndex) ∧
      info.typeBindIndex ≠ info'.columnBindIndex ∧ info.typeBindIndex ≠ info'.typeBindIndex := by
    intro j info' hj
    obtain ⟨hj', -⟩ := hp.infoAt_of_le hk hj
    have hij : i ≠ j := fun h => hne info' (h ▸ hj)
    have hcolumn' := hp.le_of_mem _ (hp.column_mem info' (List.mem_of_getElem? hj'))
    have htype' := hp.type_eq j info' hj'
    refine ⟨⟨fun h => hij (hs.columns i j info info' hi hj' h), by omega⟩, by omega, by omega⟩
  have hcontent : info.columnBindIndex ≠ k := fun h => hne info (h ▸ hp.infoAt_column hs hi)
  rw [BindState.cell, BindState.cell,
    heffect.params_of_ne hcontent fun j info' h => (hcell j info' h).1,
    heffect.params_of_ne (by omega) fun j info' h => (hcell j info' h).2,
    heffect.bindedValue_of_ne hne]

theorem cell_frame (hp : stmt.Prepared) (hs : stmt.Separate) {i : ℕ} {info : BindInfo}
    (hi : stmt.infos[i]? = some info) {s : BindState} {k : ℕ} (hk : k ∈ stmt.parameters)
    (hne : ∀ info', stmt.infoAt k ≠ some (i, info')) (v : Value) :
    (bindValue z stmt can s (k, v)).cell i info = s.cell i info :=
  cell_frame_of_le hp hs hi (hp.le_of_mem k hk) hne v

/-- The bindings of a list, in order. -/
theorem fold_frame (hp : stmt.Prepared) (hs : stmt.Separate) {i : ℕ} {info : BindInfo}
    (hi : stmt.infos[i]? = some info) {es : List (ℕ × Value)}
    (hes : ∀ e ∈ es, e.1 ∈ stmt.parameters ∧ ∀ info', stmt.infoAt e.1 ≠ some (i, info'))
    (s : BindState) :
    (es.foldl (bindValue z stmt can) s).cell i info = s.cell i info := by
  induction es generalizing s with
  | nil => rfl
  | cons e es ih =>
    obtain ⟨hmem, hne⟩ := hes e List.mem_cons_self
    rw [List.foldl_cons, ih fun e' he' => hes e' (List.mem_cons_of_mem _ he')]
    exact cell_frame hp hs hi hmem hne e.2

theorem fold_compressFail {es : List (ℕ × Value)} (hp : stmt.Prepared)
    (hes : ∀ e ∈ es, e.1 ∈ stmt.parameters) {s : BindState}
    (h : (es.foldl (bindValue z stmt can) s).compressFail = false) : s.compressFail = false := by
  induction es generalizing s with
  | nil => exact h
  | cons e es ih =>
    have hmem := hes e List.mem_cons_self
    have heffect : BindEffect z stmt can s e.1 e.2 _ :=
      bindValue_effect (hp.le_of_mem _ hmem) s e.2
    exact heffect.compressFail_of (ih (fun e' he' => hes e' (List.mem_cons_of_mem _ he')) h)

end Frame

/-! ### The two halves of a cell -/

section Cells

variable {z : Zstd} {stmt : Statement} {can : Bool}

variable (z) in
/-- The cell reads as `v`. -/
def Cell.Reads (c : Cell) (v : Value) : Prop := wcdbDecompress z c.content c.type = some v

theorem dataValue_isText_blobValue (v : Value) : dataValue v.isText v.blobValue = v.restored := by
  cases v <;> rfl

/-- A cell that was encoded reads as the value that was encoded. -/
theorem reads_of_encodeCell (hz : z.Lawful) {compressedType : CompressedType} {dictId : ℕ}
    (hfits : DictFits compressedType dictId) {v : Value} {cell : Value × Value}
    (h : encodeCell z can compressedType dictId v.isText v.blobValue = some cell) (kept : Value) :
    Cell.Reads z ⟨cell.1, cell.2, kept⟩ v.restored := by
  rw [Cell.Reads, ← dataValue_isText_blobValue]
  exact wcdbDecompress_encodeCell hz hfits h

theorem fits_zstdDict {dictId : ℕ} (h : dictId ≠ 0) : DictFits .zstdDict dictId := Or.inl ⟨rfl, h⟩

variable {i : ℕ} {info : BindInfo} {s : BindState}

/-- `bindCell` without failure. -/
theorem cell_bindCell (htype : info.typeBindIndex ≠ info.columnBindIndex)
    {cell : Option (Value × Value)} (h : (s.bindCell info cell).compressFail = false) :
    ∃ c, cell = some c ∧
      (s.bindCell info cell).cell i info = ⟨c.1, c.2, s.bindedValue i⟩ := by
  cases cell with
  | none => cases h
  | some c =>
    refine ⟨c, rfl, ?_⟩
    simp [BindState.bindCell, BindState.cell, htype.symm]

/-- Binding the content: what becomes of its cell. -/
theorem cell_content (hp : stmt.Prepared) (ho : stmt.Owns i info) {v : Value}
    (h : (bindValue z stmt can s (info.columnBindIndex, v)).compressFail = false) :
    let c := (bindValue z stmt can s (info.columnBindIndex, v)).cell i info
    (v.isData = false ∧ c = ⟨v, .integer 0, s.bindedValue i⟩) ∨
    (v.isData = true ∧ info.matchColumnBindIndex = 0 ∧ ∃ cell,
      encodeCell z can (ownDictionary info.columnInfo).1 (ownDictionary info.columnInfo).2
        v.isText v.blobValue = some cell ∧ c = ⟨cell.1, cell.2, s.bindedValue i⟩) ∨
    (v.isData = true ∧ 0 < info.matchColumnBindIndex ∧ s.bindedValue i = .null ∧
      c = ⟨(s.cell i info).content, (s.cell i info).type, v⟩) ∨
    (v.isData = true ∧ 0 < info.matchColumnBindIndex ∧ s.bindedValue i ≠ .null ∧ ∃ cell,
      encodeCell z can .zstdDict (info.columnInfo.getMatchDictId (s.bindedValue i).intValue)
        v.isText v.blobValue = some cell ∧ c = ⟨cell.1, cell.2, s.bindedValue i⟩) := by
  have hk := hp.le_of_mem _ (hp.column_mem info (List.mem_of_getElem? ho.get))
  have hinfo := ho.content
  have htype : info.typeBindIndex ≠ info.columnBindIndex := by
    have := hp.type_eq i info ho.get
    omega
  have hmatch := ho.apart
  have heffect : BindEffect z stmt can s info.columnBindIndex v _ := bindValue_effect hk s v
  generalize bindValue z stmt can s (info.columnBindIndex, v) = t at *
  intro c
  cases heffect with
  | plain h' => simp [hinfo] at h'
  | own h' _ hm hv =>
    cases hinfo.symm.trans h'
    obtain ⟨cell, hcell, hc⟩ := cell_bindCell (i := i) htype h
    exact Or.inr (Or.inl ⟨hv, hm, cell, hcell, hc⟩)
  | keep h' _ hm hv hkept =>
    cases hinfo.symm.trans h'
    refine Or.inr (Or.inr (Or.inl ⟨hv, hm, hkept, ?_⟩))
    simp [c, BindState.cell]
  | complete h' _ hm hv hkept =>
    cases hinfo.symm.trans h'
    obtain ⟨cell, hcell, hc⟩ := cell_bindCell (i := i) htype h
    exact Or.inr (Or.inr (Or.inr ⟨hv, hm, hkept, cell, hcell, hc⟩))
  | raw h' _ hv =>
    cases hinfo.symm.trans h'
    refine Or.inl ⟨hv, ?_⟩
    simp [c, BindState.cell, htype.symm, CompressedType.toInt]
  | keepMatch h' hm _ _ =>
    cases hinfo.symm.trans h'
    exact absurd hm hmatch
  | completeMatch h' hm _ _ =>
    cases hinfo.symm.trans h'
    exact absurd hm hmatch
  | misuse h' hm _ _ =>
    cases hinfo.symm.trans h'
    exact absurd hm hmatch

/-- Binding the match value: what becomes of its cell. -/
theorem cell_match (hp : stmt.Prepared) (ho : stmt.Owns i info)
    (hk : info.matchColumnBindIndex ∈ stmt.parameters)
    (hinfo : stmt.infoAt info.matchColumnBindIndex = some (i, info)) {n : ℤ}
    (h : (bindValue z stmt can s (info.matchColumnBindIndex, .integer n)).compressFail = false) :
    let c := (bindValue z stmt can s (info.matchColumnBindIndex, .integer n)).cell i info
    (s.bindedValue i = .null ∧
      c = ⟨(s.cell i info).content, (s.cell i info).type, .integer n⟩) ∨
    (s.bindedValue i ≠ .null ∧ ∃ cell,
      encodeCell z can .zstdDict (info.columnInfo.getMatchDictId n) (s.bindedValue i).isText
        (s.bindedValue i).blobValue = some cell ∧ c = ⟨cell.1, cell.2, s.bindedValue i⟩) := by
  have hcolumn := hp.le_of_mem _ (hp.column_mem info (List.mem_of_getElem? ho.get))
  have hmatch := ho.apart
  have htype := hp.type_eq i info ho.get
  have hkmax := hp.le_of_mem _ hk
  have heffect : BindEffect z stmt can s info.matchColumnBindIndex (.integer n) _ :=
    bindValue_effect hkmax s _
  generalize bindValue z stmt can s (info.matchColumnBindIndex, .integer n) = t at *
  intro c
  cases heffect with
  | plain h' => simp [hinfo] at h'
  | own _ _ _ hv => cases hv
  | keep _ _ _ hv _ => cases hv
  | complete _ _ _ hv _ => cases hv
  | raw h' hne _ =>
    cases hinfo.symm.trans h'
    exact absurd rfl hne
  | keepMatch h' _ hv hkept =>
    cases hinfo.symm.trans h'
    refine Or.inl ⟨hkept, ?_⟩
    simp [c, BindState.cell, hmatch, show info.typeBindIndex ≠ info.matchColumnBindIndex by omega]
  | completeMatch h' _ hv hkept =>
    cases hinfo.symm.trans h'
    cases hv
    obtain ⟨cell, hcell, hc⟩ := cell_bindCell (i := i) (by omega) h
    exact Or.inr ⟨hkept, cell, hcell, hc⟩
  | misuse _ _ hv _ => exact absurd rfl (hv n)

end Cells

/-! ### The condition -/

/-- Every parameter is bound once, and match parameters to integers. -/
structure Round.WellFormed (stmt : Statement) (r : Round) : Prop where
  once : (r.binds.map Prod.fst).Perm stmt.parameters
  integer : ∀ info ∈ stmt.infos, ∀ v, (info.matchColumnBindIndex, v) ∈ r.binds →
    ∃ n, v = .integer n

/-- The match value is bound before the content. -/
def Round.MatchFirst (r : Round) (info : BindInfo) : Prop :=
  (r.binds.map Prod.fst).idxOf info.matchColumnBindIndex <
    (r.binds.map Prod.fst).idxOf info.columnBindIndex

/-- The content `v` of the `i`-th bind info is stored as it is bound. Without match parameter,
the dictionary must fit. With a selected match value, nothing may be kept from an earlier round
unless it is the same content. With a match parameter that belongs to this bind info, either
nothing is kept, or the match value comes first, or the same content is kept. A match parameter
that belongs to another bind info leaves only values that are not compressed. -/
def Round.Storable (z : Zstd) (stmt : Statement) (s : BindState) (r : Round) (i : ℕ)
    (info : BindInfo) (v : Value) : Prop :=
  let kept := s.bindedValue i
  let dict := info.columnInfo.getMatchDictId
  if info.matchColumnBindIndex = 0 then
    v.isData = true →
      DictFits (ownDictionary info.columnInfo).1 (ownDictionary info.columnInfo).2
  else if info.matchColumnBindIndex = selectedMatchValueBindIndex then
    (kept = .null ∨ v = kept.restored) ∧
      (v.isData = true → ∀ row ∈ r.rows,
        dict (row.getD i (.null, .null)).2.intValue ≠ 0 ∧
          (encodeCell z r.can .zstdDict (dict (row.getD i (.null, .null)).2.intValue) v.isText
            v.blobValue).isSome = true)
  else if stmt.infoAt info.matchColumnBindIndex = some (i, info) then
    ∀ n, (info.matchColumnBindIndex, .integer n) ∈ r.binds →
      (kept = .null ∧ (v.isData = true → dict n ≠ 0)) ∨
      (kept ≠ .null ∧ r.MatchFirst info ∧ (v.isData = true → dict kept.intValue ≠ 0)) ∨
      (kept ≠ .null ∧ ¬r.MatchFirst info ∧ v = kept.restored ∧ dict n ≠ 0)
  else v.isData = false

/-- No column of various dictionaries that is not compressed comes before another column. -/
def InStep : List (CompressionColumnInfo × Value) → Prop
  | [] => True
  | (column, v) :: rest =>
      (column.compressionType = .variousDict → v.isData = false → rest = []) ∧ InStep rest

/-- The contents of a row that is compressed in a second step. -/
def Round.contents (stmt : Statement) (r : Round) (row : List (Value × Value)) : List Value :=
  stmt.targets.zipIdx.map fun (target, i) =>
    match target.bindIndex with
    | some k => (r.binds.lookup k).getD .null
    | none => (row.getD i (.null, .null)).1

/-- The second step compresses a row column by column. -/
def Round.Compressible (stmt : Statement) (r : Round) (row : List (Value × Value)) : Prop :=
  let columns := stmt.targets.map Target.columnInfo
  InStep (columns.zip (r.contents stmt row)) ∧
    ∀ i column v, columns[i]? = some column → (r.contents stmt row)[i]? = some v →
      v.isData = true → DictFits (secondDictionary column (row.getD i (.null, .null)).2).1
        (secondDictionary column (row.getD i (.null, .null)).2).2

/-- **The condition on a round**, in the state in which it begins. -/
structure Round.Reusable (z : Zstd) (stmt : Statement) (s : BindState) (r : Round) : Prop where
  /-- A statement that was stepped is reset. -/
  ready : r.clear = true → s.stepped = false
  wellFormed : r.WellFormed stmt
  storable : ∀ (i : ℕ) (info : BindInfo) (v : Value), stmt.infos[i]? = some info →
    (info.columnBindIndex, v) ∈ r.binds → r.Storable z stmt s i info v
  compressible : ∀ row ∈ r.rows, r.Compressible stmt row

/-- The row reads as it was bound. -/
structure WrittenRow.Holds (z : Zstd) (stmt : Statement) (r : Round) (row : WrittenRow) : Prop where
  infos : ∀ (i : ℕ) (info : BindInfo) (v : Value), stmt.infos[i]? = some info →
    (info.columnBindIndex, v) ∈ r.binds →
      ∃ cell : Value × Value, row.cells[i]? = some cell ∧ wcdbDecompress z cell.1 cell.2 = some v
  targets : ∀ (i : ℕ) (target : Target) (k : ℕ) (v : Value), stmt.targets[i]? = some target →
    target.bindIndex = some k → (k, v) ∈ r.binds →
      ∃ cell : Value × Value, row.cells[i]? = some cell ∧ wcdbDecompress z cell.1 cell.2 = some v
  others : ∀ k v, (k, v) ∈ r.binds → (∀ info ∈ stmt.infos, info.columnBindIndex ≠ k) →
    row.params k = v

/-! ### Binding -/

section Binding

variable {z : Zstd} {stmt : Statement} {s : BindState} {r : Round}

theorem Round.WellFormed.mem_parameters (hr : r.WellFormed stmt) {e : ℕ × Value}
    (he : e ∈ r.binds) : e.1 ∈ stmt.parameters :=
  hr.once.mem_iff.mp (List.mem_map_of_mem he)

theorem Round.WellFormed.nodup (hp : stmt.Prepared) (hr : r.WellFormed stmt) :
    (r.binds.map Prod.fst).Nodup := hr.once.nodup_iff.mpr hp.parameters_nodup

@[simp]
theorem Round.begin_bindedValue (r : Round) (s : BindState) :
    (r.begin s).bindedValue = s.bindedValue := by
  rw [Round.begin]
  split_ifs <;> rfl

/-- SQLite takes the bindings of a statement that is ready. -/
theorem Round.bound_of_ready (hready : r.clear = true → s.stepped = false) :
    r.bound z stmt s = r.bindAll z stmt s := by
  have hbegin : (r.begin s).stepped = false := by
    rw [Round.begin]
    split_ifs with hclear
    · exact hready hclear
    · rfl
  rw [Round.bound, hbegin]
  rfl

@[simp]
theorem Round.bound_compressFail :
    (r.bound z stmt s).compressFail = (r.bindAll z stmt s).compressFail := by
  rw [Round.bound]
  split_ifs <;> rfl

/-- A list of bindings around one of them. -/
theorem split_at {es : List (ℕ × Value)} (hnodup : (es.map Prod.fst).Nodup) {e : ℕ × Value}
    (he : e ∈ es) :
    ∃ before after, es = before ++ e :: after ∧ (∀ e' ∈ before, e'.1 ≠ e.1) ∧
      ∀ e' ∈ after, e'.1 ≠ e.1 := by
  obtain ⟨before, after, rfl⟩ := List.append_of_mem he
  rw [List.map_append, List.map_cons, List.nodup_append] at hnodup
  refine ⟨before, after, rfl, ?_, ?_⟩
  · intro e' he'
    exact hnodup.2.2 _ (List.mem_map_of_mem he') _ List.mem_cons_self
  · intro e' he' heq
    exact (List.nodup_cons.mp hnodup.2.1).1 (heq ▸ List.mem_map_of_mem he')

variable (z stmt s r) in
/-- Bindings of the round that belong to other cells leave the cell as it is. -/
def Round.Framed (i : ℕ) (info : BindInfo) : Prop :=
  ∀ done es rest, r.binds = done ++ (es ++ rest) →
    (∀ e ∈ es, ∀ info', stmt.infoAt e.1 ≠ some (i, info')) →
      (es.foldl (bindValue z stmt r.can) (done.foldl (bindValue z stmt r.can) (r.begin s))).cell i
        info = (done.foldl (bindValue z stmt r.can) (r.begin s)).cell i info

theorem Statement.Separate.framed (hs : stmt.Separate) (hp : stmt.Prepared)
    (hr : r.WellFormed stmt) {i : ℕ} {info : BindInfo} (hi : stmt.infos[i]? = some info) :
    r.Framed z stmt s i info := by
  intro done es rest heq hes
  exact fold_frame hp hs hi (fun e he => ⟨hr.mem_parameters (heq ▸ by simp [he]), hes e he⟩) _

/-- What the bindings of a round make of a cell that only its content acts on. -/
theorem cell_content_only (hp : stmt.Prepared) (hr : r.WellFormed stmt) {i : ℕ} {info : BindInfo}
    (hframe : r.Framed z stmt s i info) {v : Value}
    (hv : (info.columnBindIndex, v) ∈ r.binds)
    (honly : ∀ k ∈ stmt.parameters, ∀ info', stmt.infoAt k = some (i, info') →
      k = info.columnBindIndex)
    (hfail : (r.bindAll z stmt s).compressFail = false) :
    ∃ t, t.cell i info = (r.begin s).cell i info ∧
      (bindValue z stmt r.can t (info.columnBindIndex, v)).compressFail = false ∧
      (r.bindAll z stmt s).cell i info =
        (bindValue z stmt r.can t (info.columnBindIndex, v)).cell i info := by
  obtain ⟨before, after, heq, hbefore, hafter⟩ := split_at (hr.nodup hp) hv
  have hother : ∀ e ∈ r.binds, e.1 ≠ info.columnBindIndex →
      ∀ info', stmt.infoAt e.1 ≠ some (i, info') := fun e he hne info' h =>
    hne (honly e.1 (hr.mem_parameters he) info' h)
  have h₁ := hframe [] before ((info.columnBindIndex, v) :: after) heq fun e he =>
    hother e (heq ▸ by simp [he]) (hbefore e he)
  have h₂ := hframe (before ++ [(info.columnBindIndex, v)]) after [] (by simp [heq]) fun e he =>
    hother e (heq ▸ by simp [he]) (hafter e he)
  have hafter' : ∀ e ∈ after, e.1 ∈ stmt.parameters := fun e he =>
    hr.mem_parameters (heq ▸ by simp [he])
  rw [List.foldl_append, List.foldl_cons, List.foldl_nil] at h₂
  rw [Round.bindAll, heq, List.foldl_append, List.foldl_cons] at hfail ⊢
  exact ⟨_, h₁, fold_compressFail hp hafter' hfail, h₂⟩

/-- The order of a content and its match value. -/
theorem split_two {es : List (ℕ × Value)} (hnodup : (es.map Prod.fst).Nodup)
    {a b : ℕ × Value} (ha : a ∈ es) (hb : b ∈ es) (hab : a.1 ≠ b.1)
    (hlt : (es.map Prod.fst).idxOf a.1 < (es.map Prod.fst).idxOf b.1) :
    ∃ l₁ l₂ l₃, es = l₁ ++ a :: (l₂ ++ b :: l₃) := by
  obtain ⟨before, after, rfl, hbefore, -⟩ := split_at hnodup ha
  rcases List.mem_append.mp hb with hb | hb
  · exfalso
    have h₁ : a.1 ∉ before.map Prod.fst := by
      intro h
      obtain ⟨e, he, heq⟩ := List.mem_map.mp h
      exact hbefore e he heq
    have h₂ : b.1 ∈ before.map Prod.fst := List.mem_map_of_mem hb
    rw [List.map_append, List.idxOf_append_of_notMem h₁, List.idxOf_append_of_mem h₂] at hlt
    have := List.idxOf_lt_length_of_mem h₂
    omega
  · rcases List.mem_cons.mp hb with rfl | hb
    · exact absurd rfl hab
    · obtain ⟨l₂, l₃, rfl⟩ := List.append_of_mem hb
      exact ⟨before, l₂, l₃, rfl⟩

/-- What the bindings of a round make of a cell on which `a` acts first and then `b`. -/
theorem cell_two (hp : stmt.Prepared) (hr : r.WellFormed stmt)
    {i : ℕ} {info : BindInfo} (hframe : r.Framed z stmt s i info) {a b : ℕ × Value}
    {l₁ l₂ l₃ : List (ℕ × Value)} (heq : r.binds = l₁ ++ a :: (l₂ ++ b :: l₃))
    (honly : ∀ k ∈ stmt.parameters, ∀ info', stmt.infoAt k = some (i, info') → k = a.1 ∨ k = b.1)
    (hfail : (r.bindAll z stmt s).compressFail = false) :
    ∃ t u, t.cell i info = (r.begin s).cell i info ∧
      (bindValue z stmt r.can t a).compressFail = false ∧
      u.cell i info = (bindValue z stmt r.can t a).cell i info ∧
      (bindValue z stmt r.can u b).compressFail = false ∧
      (r.bindAll z stmt s).cell i info = (bindValue z stmt r.can u b).cell i info := by
  have hnodup := hr.nodup hp
  have hmem : ∀ e ∈ r.binds, e.1 ∈ stmt.parameters := fun e he => hr.mem_parameters he
  rw [heq] at hmem hnodup
  have hkeys : ∀ e, e ∈ l₁ ∨ e ∈ l₂ ∨ e ∈ l₃ → e.1 ≠ a.1 ∧ e.1 ≠ b.1 := by
    intro e he
    simp only [List.map_append, List.map_cons, List.nodup_append, List.nodup_cons, List.mem_append,
      List.mem_cons, List.mem_map, not_or, not_exists, not_and] at hnodup
    obtain ⟨-, ⟨⟨ha₂, -, ha₃⟩, -, ⟨hb₃, -⟩, hb₂⟩, h₁⟩ := hnodup
    rcases he with he | he | he
    · exact ⟨h₁ _ ⟨e, he, rfl⟩ _ (Or.inl rfl), h₁ _ ⟨e, he, rfl⟩ _ (Or.inr (Or.inr (Or.inl rfl)))⟩
    · exact ⟨ha₂ e he, hb₂ _ ⟨e, he, rfl⟩ _ (Or.inl rfl)⟩
    · exact ⟨ha₃ e he, hb₃ e he⟩
  have hother : ∀ e, e ∈ l₁ ∨ e ∈ l₂ ∨ e ∈ l₃ → ∀ info', stmt.infoAt e.1 ≠ some (i, info') := by
    intro e he info' hinfo
    have hmem' : e.1 ∈ stmt.parameters := hmem e (by rcases he with he | he | he <;> simp [he])
    rcases honly e.1 hmem' info' hinfo with h | h
    · exact (hkeys e he).1 h
    · exact (hkeys e he).2 h
  have h₁ := hframe [] l₁ _ heq fun e he => hother e (Or.inl he)
  have h₂ := hframe (l₁ ++ [a]) l₂ (b :: l₃) (by simp [heq]) fun e he =>
    hother e (Or.inr (Or.inl he))
  have h₃ := hframe (l₁ ++ a :: (l₂ ++ [b])) l₃ [] (by simp [heq]) fun e he =>
    hother e (Or.inr (Or.inr he))
  have hmem₂ : ∀ e ∈ l₂, e.1 ∈ stmt.parameters := fun e he => hmem e (by simp [he])
  have hmem₃ : ∀ e ∈ l₃, e.1 ∈ stmt.parameters := fun e he => hmem e (by simp [he])
  have hb : b.1 ∈ stmt.parameters := hmem b (by simp)
  simp only [List.foldl_append, List.foldl_cons, List.foldl_nil] at h₂ h₃
  rw [Round.bindAll, heq, List.foldl_append, List.foldl_cons, List.foldl_append,
    List.foldl_cons] at hfail ⊢
  have hfail₂ := fold_compressFail hp hmem₃ hfail
  have hfail₁ := (bindValue_effect (hp.le_of_mem _ hb) _ b.2).compressFail_of hfail₂
  exact ⟨_, _, h₁, fold_compressFail hp hmem₂ hfail₁, h₂, hfail₂, h₃⟩

/-- Only its content and its match value act on a cell. -/
theorem acts_on_cell (hp : stmt.Prepared) {i : ℕ} {info : BindInfo}
    (hi : stmt.infos[i]? = some info) {k : ℕ} (hk : k ∈ stmt.parameters) {info' : BindInfo}
    (h : stmt.infoAt k = some (i, info')) :
    k = info.columnBindIndex ∨
      k = info.matchColumnBindIndex ∧ stmt.infoAt info.matchColumnBindIndex = some (i, info) := by
  obtain ⟨hi', hcases⟩ := hp.infoAt_cases hk h
  obtain rfl : info = info' := Option.some.inj (hi.symm.trans hi')
  exact hcases.imp_right fun hm => ⟨hm, hm ▸ h⟩

private theorem reads_raw {v : Value} (hv : v.isData = false) (kept type : Value) :
    Cell.Reads z ⟨v, type, kept⟩ v := wcdbDecompress_of_not_isData hv _

/-- A content without match parameter. -/
theorem reads_own (hz : z.Lawful) (hp : stmt.Prepared) (hs : stmt.Separate)
    (hr : r.WellFormed stmt) {i : ℕ} {info : BindInfo} (hi : stmt.infos[i]? = some info) {v : Value}
    (hv : (info.columnBindIndex, v) ∈ r.binds) (hm : info.matchColumnBindIndex = 0)
    (hfits : v.isData = true →
      DictFits (ownDictionary info.columnInfo).1 (ownDictionary info.columnInfo).2)
    (hfail : (r.bindAll z stmt s).compressFail = false) :
    ((r.bindAll z stmt s).cell i info).Reads z v := by
  have honly : ∀ k ∈ stmt.parameters, ∀ info', stmt.infoAt k = some (i, info') →
      k = info.columnBindIndex := by
    intro k hk info' h
    rcases acts_on_cell hp hi hk h with h | ⟨h, -⟩
    · exact h
    · exact absurd (hp.pos_of_mem k hk) (by omega)
  obtain ⟨t, ht, htfail, hcell⟩ := cell_content_only hp hr (hs.framed hp hr hi) hv honly hfail
  rw [hcell]
  rcases cell_content hp (hs.owns hp hi) htfail with ⟨hd, hc⟩ | ⟨hd, -, cell, henc,
    hc⟩ | ⟨-, hpos, -⟩ |
    ⟨-, hpos, -⟩
  · rw [hc]
    exact reads_raw hd _ _
  · rw [hc, ← Value.restored_of_isData hd]
    exact reads_of_encodeCell hz (hfits hd) henc _
  · omega
  · omega

/-- A content whose match parameter belongs to another bind info. -/
theorem reads_shared (hp : stmt.Prepared) (hs : stmt.Separate)
    (hr : r.WellFormed stmt) {i : ℕ} {info : BindInfo} (hi : stmt.infos[i]? = some info) {v : Value}
    (hv : (info.columnBindIndex, v) ∈ r.binds)
    (hother : stmt.infoAt info.matchColumnBindIndex ≠ some (i, info)) (hd : v.isData = false)
    (hfail : (r.bindAll z stmt s).compressFail = false) :
    ((r.bindAll z stmt s).cell i info).Reads z v := by
  have honly : ∀ k ∈ stmt.parameters, ∀ info', stmt.infoAt k = some (i, info') →
      k = info.columnBindIndex := fun k hk info' h =>
    (acts_on_cell hp hi hk h).resolve_right fun h' => hother h'.2
  obtain ⟨t, ht, htfail, hcell⟩ := cell_content_only hp hr (hs.framed hp hr hi) hv honly hfail
  rw [hcell]
  rcases cell_content hp (hs.owns hp hi) htfail with ⟨-, hc⟩ | ⟨hd', -⟩ | ⟨hd', -⟩ | ⟨hd', -⟩
  · rw [hc]
    exact reads_raw hd _ _
  all_goals
    rw [hd] at hd'
    cases hd'

private theorem cell_eq_iff {s t : BindState} {i : ℕ} {info : BindInfo}
    (h : s.cell i info = t.cell i info) : s.bindedValue i = t.bindedValue i :=
  congrArg Cell.kept h

/-- A content and its own match value, with nothing kept, with the match value first, or with
the same content kept. -/
theorem reads_match (hz : z.Lawful) (hp : stmt.Prepared) (hs : stmt.Separate)
    (hr : r.WellFormed stmt) {i : ℕ} {info : BindInfo} (hi : stmt.infos[i]? = some info) {v : Value}
    (hv : (info.columnBindIndex, v) ∈ r.binds)
    (hm : info.matchColumnBindIndex ∈ stmt.parameters)
    (hown : stmt.infoAt info.matchColumnBindIndex = some (i, info)) {n : ℤ}
    (hn : (info.matchColumnBindIndex, .integer n) ∈ r.binds)
    (hcases : (s.bindedValue i = .null ∧
        (v.isData = true → info.columnInfo.getMatchDictId n ≠ 0)) ∨
      (s.bindedValue i ≠ .null ∧ r.MatchFirst info ∧ (v.isData = true →
        info.columnInfo.getMatchDictId (s.bindedValue i).intValue ≠ 0)) ∨
      (s.bindedValue i ≠ .null ∧ ¬r.MatchFirst info ∧ v = (s.bindedValue i).restored ∧
        info.columnInfo.getMatchDictId n ≠ 0))
    (hfail : (r.bindAll z stmt s).compressFail = false) :
    ((r.bindAll z stmt s).cell i info).Reads z v := by
  have hmem := List.mem_of_getElem? hi
  have hne := hs.columns_matches info hmem info hmem
  have hpos := hp.pos_of_mem _ hm
  have hact : ∀ k ∈ stmt.parameters, ∀ info', stmt.infoAt k = some (i, info') →
      k = info.columnBindIndex ∨ k = info.matchColumnBindIndex := fun k hk info' h =>
    (acts_on_cell hp hi hk h).imp_right And.left
  by_cases hfirst : r.MatchFirst info
  · -- the match value completes a kept content or is kept itself, then comes the content
    obtain ⟨l₁, l₂, l₃, heq⟩ := split_two (hr.nodup hp) hn hv hne.symm hfirst
    obtain ⟨t, u, ht, htfail, hu, hufail, hcell⟩ :=
      cell_two hp hr (hs.framed hp hr hi) heq (fun k hk info' h => (hact k hk info' h).symm) hfail
    have hkept := cell_eq_iff ht
    rw [Round.begin_bindedValue] at hkept
    have hdict : v.isData = true → u.bindedValue i ≠ .null ∧
        info.columnInfo.getMatchDictId (u.bindedValue i).intValue ≠ 0 := by
      intro hd
      rcases cell_match hp (hs.owns hp hi) hm hown htfail with ⟨hnull, hc⟩ | ⟨hnull, cell, henc, hc⟩
      · have hu' : u.bindedValue i = .integer n := congrArg Cell.kept (hu.trans hc)
        rw [hkept] at hnull
        rw [hu']
        rcases hcases with ⟨-, h⟩ | ⟨h, -⟩ | ⟨h, -⟩
        · exact ⟨by simp, h hd⟩
        · exact absurd hnull h
        · exact absurd hnull h
      · have hu' : u.bindedValue i = t.bindedValue i := congrArg Cell.kept (hu.trans hc)
        rw [hu', hkept]
        rw [hkept] at hnull
        rcases hcases with ⟨h, -⟩ | ⟨-, -, h⟩ | ⟨-, h, -⟩
        · exact absurd h hnull
        · exact ⟨hnull, h hd⟩
        · exact absurd hfirst h
    rw [hcell]
    rcases cell_content hp (hs.owns hp hi) hufail with ⟨hd, hc⟩ | ⟨-, h0, -⟩ | ⟨hd, -, hnull, -⟩ |
      ⟨hd, -, -, cell, henc, hc⟩
    · rw [hc]
      exact reads_raw hd _ _
    · omega
    · exact absurd hnull (hdict hd).1
    · rw [hc, ← Value.restored_of_isData hd]
      exact reads_of_encodeCell hz (fits_zstdDict (hdict hd).2) henc _
  · -- the content is kept, or written and then overwritten with what was kept before
    have hsecond : (r.binds.map Prod.fst).idxOf info.columnBindIndex <
        (r.binds.map Prod.fst).idxOf info.matchColumnBindIndex := by
      have hcolumn : info.columnBindIndex ∈ r.binds.map Prod.fst := List.mem_map.mpr ⟨_, hv, rfl⟩
      exact lt_of_le_of_ne (not_lt.mp hfirst) fun h => hne ((List.idxOf_inj hcolumn).mp h)
    obtain ⟨l₁, l₂, l₃, heq⟩ := split_two (hr.nodup hp) hv hn hne hsecond
    obtain ⟨t, u, ht, htfail, hu, hufail, hcell⟩ :=
      cell_two hp hr (hs.framed hp hr hi) heq hact hfail
    have hkept := cell_eq_iff ht
    rw [Round.begin_bindedValue] at hkept
    rw [hcell]
    rcases cell_content hp (hs.owns hp hi) htfail with ⟨hd, hc⟩ | ⟨-, h0, -⟩ | ⟨hd, -, hnull, hc⟩ |
      ⟨hd, -, hnull, cell, henc, hc⟩
    · have hnull : s.bindedValue i = .null := by
        rcases hcases with ⟨h, -⟩ | ⟨-, h, -⟩ | ⟨-, -, h, -⟩
        · exact h
        · exact absurd h hfirst
        · rw [h, Value.isData_restored] at hd
          cases hd
      rw [hc] at hu
      have hu' : u.bindedValue i = .null := (congrArg Cell.kept hu).trans (hkept.trans hnull)
      rcases cell_match hp (hs.owns hp hi) hm hown hufail with ⟨-, hc'⟩ | ⟨h, -⟩
      · rw [hc', hu]
        exact reads_raw hd _ _
      · exact absurd hu' h
    · omega
    · rw [hkept] at hnull
      rw [hc] at hu
      have hu' : u.bindedValue i = v := congrArg Cell.kept hu
      have hdict : info.columnInfo.getMatchDictId n ≠ 0 := by
        rcases hcases with ⟨-, h⟩ | ⟨h, -⟩ | ⟨h, -⟩
        · exact h hd
        · exact absurd hnull h
        · exact absurd hnull h
      rcases cell_match hp (hs.owns hp hi) hm hown hufail with ⟨h, -⟩ | ⟨-, cell, henc, hc'⟩
      · rw [hu'] at h
        rw [h] at hd
        cases hd
      · rw [hu'] at henc
        rw [hc', ← Value.restored_of_isData hd]
        exact reads_of_encodeCell hz (fits_zstdDict hdict) henc _
    · rw [hkept] at hnull
      rw [hc] at hu
      have hu' : u.bindedValue i = s.bindedValue i := (congrArg Cell.kept hu).trans hkept
      rcases hcases with ⟨h, -⟩ | ⟨-, h, -⟩ | ⟨-, -, hsame, hdict⟩
      · exact absurd h hnull
      · exact absurd h hfirst
      rcases cell_match hp (hs.owns hp hi) hm hown hufail with ⟨h, -⟩ | ⟨-, cell, henc, hc'⟩
      · exact absurd (hu'.symm.trans h) hnull
      · rw [hu'] at henc
        rw [hc', hsame]
        exact reads_of_encodeCell hz (fits_zstdDict hdict) henc _

/-- A content whose match value is selected by the step: it is kept, or written as it is. -/
theorem kept_or_reads (hp : stmt.Prepared) (hs : stmt.Separate)
    (hr : r.WellFormed stmt) {i : ℕ} {info : BindInfo} (hi : stmt.infos[i]? = some info) {v : Value}
    (hv : (info.columnBindIndex, v) ∈ r.binds)
    (hm : info.matchColumnBindIndex = selectedMatchValueBindIndex)
    (hcases : s.bindedValue i = .null ∨ v = (s.bindedValue i).restored)
    (hfail : (r.bindAll z stmt s).compressFail = false) :
    ((r.bindAll z stmt s).bindedValue i = .null ∧
        ((r.bindAll z stmt s).cell i info).Reads z v) ∨
      ((r.bindAll z stmt s).bindedValue i ≠ .null ∧
        ((r.bindAll z stmt s).bindedValue i).restored = v) := by
  have hmax := hp.max_lt
  have honly : ∀ k ∈ stmt.parameters, ∀ info', stmt.infoAt k = some (i, info') →
      k = info.columnBindIndex := by
    intro k hk info' h
    rcases acts_on_cell hp hi hk h with h | ⟨h, -⟩
    · exact h
    · have := hp.le_of_mem k hk
      omega
  obtain ⟨t, ht, htfail, hcell⟩ := cell_content_only hp hr (hs.framed hp hr hi) hv honly hfail
  have hkept := cell_eq_iff ht
  rw [Round.begin_bindedValue] at hkept
  have hresult : (r.bindAll z stmt s).bindedValue i = _ := cell_eq_iff hcell
  rcases cell_content hp (hs.owns hp hi) htfail with ⟨hd, hc⟩ | ⟨-, h0, -⟩ | ⟨hd, -, hnull, hc⟩ |
    ⟨hd, -, hnull, cell, henc, hc⟩
  · have hnull : s.bindedValue i = .null := by
      rcases hcases with h | h
      · exact h
      · rw [h, Value.isData_restored] at hd
        cases hd
    refine Or.inl ⟨?_, ?_⟩
    · rw [hresult]
      exact (congrArg Cell.kept hc).trans (hkept.trans hnull)
    · rw [hcell, hc]
      exact reads_raw hd _ _
  · rw [hm] at h0
    cases h0
  · have hv' : (r.bindAll z stmt s).bindedValue i = v := by
      rw [hresult]
      exact congrArg Cell.kept hc
    rw [hv']
    refine Or.inr ⟨?_, Value.restored_of_isData hd⟩
    rintro rfl
    cases hd
  · have hs' : (r.bindAll z stmt s).bindedValue i = s.bindedValue i := by
      rw [hresult]
      exact (congrArg Cell.kept hc).trans hkept
    rw [hs', ← hkept]
    refine Or.inr ⟨hnull, ?_⟩
    rcases hcases with h | h
    · exact absurd (hkept.trans h) hnull
    · rw [hkept, h]

/-- A parameter that is no content holds what was bound to it. -/
theorem params_of_bind (hp : stmt.Prepared) (hr : r.WellFormed stmt) {k : ℕ} {v : Value}
    (hv : (k, v) ∈ r.binds) (hcontent : ∀ info ∈ stmt.infos, info.columnBindIndex ≠ k) :
    (r.bindAll z stmt s).params k = v := by
  obtain ⟨before, after, heq, -, hafter⟩ := split_at (hr.nodup hp) hv
  have hk := hr.mem_parameters hv
  have hmem : ∀ e ∈ after, e.1 ∈ stmt.parameters := fun e he =>
    hr.mem_parameters (heq ▸ by simp [he])
  have hcell : ∀ k' ∈ stmt.parameters, ∀ j info, stmt.infoAt k' = some (j, info) →
      k ≠ info.columnBindIndex ∧ k ≠ info.typeBindIndex := by
    intro k' hk' j info h
    obtain ⟨hj, -⟩ := hp.infoAt_cases hk' h
    have := hp.le_of_mem k hk
    have := hp.type_eq j info hj
    exact ⟨(hcontent info (List.mem_of_getElem? hj)).symm, by omega⟩
  have hrest : ∀ (es : List (ℕ × Value)) (t : BindState), (∀ e ∈ es, e.1 ∈ stmt.parameters) →
      (∀ e ∈ es, e.1 ≠ k) → (es.foldl (bindValue z stmt r.can) t).params k = t.params k := by
    intro es
    induction es with
    | nil => exact fun t _ _ => rfl
    | cons e es ih =>
      intro t hes hne
      have he := hes e List.mem_cons_self
      rw [List.foldl_cons, ih _ (fun e' h => hes e' (List.mem_cons_of_mem _ h))
        (fun e' h => hne e' (List.mem_cons_of_mem _ h))]
      exact (bindValue_effect (hp.le_of_mem _ he) t e.2).params_of_ne
        (hne e List.mem_cons_self).symm (hcell e.1 he)
  rw [Round.bindAll, heq, List.foldl_append, List.foldl_cons, hrest after _ hmem hafter]
  generalize List.foldl (bindValue z stmt r.can) (r.begin s) before = t
  have heffect : BindEffect z stmt r.can t k v _ := bindValue_effect (hp.le_of_mem k hk) t v
  generalize bindValue z stmt r.can t (k, v) = t' at heffect
  have hnot : ∀ i info, stmt.infoAt k = some (i, info) → k = info.matchColumnBindIndex := by
    intro i info h
    obtain ⟨hj, hcases⟩ := hp.infoAt_cases hk h
    exact hcases.resolve_left (hcontent info (List.mem_of_getElem? hj)).symm
  cases heffect with
  | plain _ => exact BindState.bind_params_self _ _ _
  | own h hne _ _ => exact absurd (hnot _ _ h) hne
  | keep h hne _ _ _ => exact absurd (hnot _ _ h) hne
  | complete h hne _ _ _ => exact absurd (hnot _ _ h) hne
  | raw h hne _ => exact absurd (hnot _ _ h) hne
  | keepMatch _ _ _ _ => exact BindState.bind_params_self _ _ _
  | completeMatch h _ _ _ =>
    rw [bindValueInInfo, BindState.bindCell_params_of_ne _ (hcell k hk _ _ h).1
      (hcell k hk _ _ h).2]
    exact BindState.bind_params_self _ _ _
  | misuse h hm hint _ =>
    obtain ⟨hj, -⟩ := hp.infoAt_cases hk h
    obtain ⟨n, hn⟩ := hr.integer _ (List.mem_of_getElem? hj) v (hm ▸ hv)
    exact absurd hn (hint n)

end Binding

/-! ### Stepping -/

section Stepping

variable {z : Zstd} {stmt : Statement}

/-- A bind info whose kept content the step completes with a selected match value. -/
def Selects (s : BindState) (i : ℕ) (info : BindInfo) : Prop :=
  info.matchColumnBindIndex = selectedMatchValueBindIndex ∧ s.bindedValue i ≠ .null

/-- Selecting a match value leaves what is kept, and every parameter outside the cells that it
completes. -/
theorem bindSelected_frame (can : Bool) (matchValues : ℕ → Value) (infos : List (BindInfo × ℕ))
    (s : BindState) :
    (bindSelected z can matchValues infos s).bindedValue = s.bindedValue ∧
      ∀ q, (∀ e ∈ infos, Selects s e.2 e.1 → q ≠ e.1.columnBindIndex ∧ q ≠ e.1.typeBindIndex) →
        (bindSelected z can matchValues infos s).params q = s.params q := by
  induction infos generalizing s with
  | nil => exact ⟨rfl, fun _ _ => rfl⟩
  | cons e infos ih =>
    obtain ⟨info, i⟩ := e
    rw [bindSelected]
    split_ifs with hsel
    · obtain ⟨h₁, h₂⟩ := ih (bindValueInInfo z can s i info (matchValues i).intValue)
      have hkept : (bindValueInInfo z can s i info (matchValues i).intValue).bindedValue =
          s.bindedValue := by rw [bindValueInInfo, BindState.bindCell_bindedValue]
      refine ⟨h₁.trans hkept, fun q hq => ?_⟩
      obtain ⟨hc, ht⟩ := hq _ List.mem_cons_self hsel
      rw [h₂ q fun e he hsel' => hq e (List.mem_cons_of_mem _ he)
        (by rwa [Selects, hkept] at hsel'),
        bindValueInInfo, BindState.bindCell_params_of_ne _ hc ht]
    · obtain ⟨h₁, h₂⟩ := ih s
      exact ⟨h₁, fun q hq => h₂ q fun e he => hq e (List.mem_cons_of_mem _ he)⟩

/-- A failure stays. -/
theorem bindSelected_compressFail {can : Bool} {matchValues : ℕ → Value}
    {infos : List (BindInfo × ℕ)} {s : BindState}
    (h : (bindSelected z can matchValues infos s).compressFail = false) :
    s.compressFail = false := by
  induction infos generalizing s with
  | nil => exact h
  | cons e infos ih =>
    rw [bindSelected] at h
    split_ifs at h with hsel
    · have hstep := ih h
      rw [bindValueInInfo, BindState.bindCell_compressFail, Bool.or_eq_false_iff] at hstep
      exact hstep.1
    · exact ih h

private theorem bindSelected_append (can : Bool) (matchValues : ℕ → Value)
    (xs ys : List (BindInfo × ℕ)) (t : BindState) :
    bindSelected z can matchValues (xs ++ ys) t =
      bindSelected z can matchValues ys (bindSelected z can matchValues xs t) := by
  induction xs generalizing t with
  | nil => rfl
  | cons e xs ih =>
    simp only [List.cons_append, bindSelected]
    split_ifs <;> exact ih _

/-- **What selecting the match values of a row makes of one cell**, if no other cell with the same
content parameter is completed: it is completed if its content is kept, and left otherwise. -/
theorem bindSelected_cell (hp : stmt.Prepared) (can : Bool) (matchValues : ℕ → Value) {i : ℕ}
    {info : BindInfo} (hi : stmt.infos[i]? = some info) (s : BindState)
    (hapart : ∀ j info', stmt.infos[j]? = some info' → Selects s j info' →
      info'.columnBindIndex = info.columnBindIndex → j = i) :
    let t := bindSelected z can matchValues stmt.infos.zipIdx s
    let dictId := info.columnInfo.getMatchDictId (matchValues i).intValue
    let cell := encodeCell z can .zstdDict dictId (s.bindedValue i).isText
      (s.bindedValue i).blobValue
    (¬Selects s i info → t.cell i info = s.cell i info) ∧
      (Selects s i info → t.compressFail = false → cell.isSome = true) ∧
      (Selects s i info → ∀ c, cell = some c → t.cell i info = ⟨c.1, c.2, s.bindedValue i⟩) := by
  intro t dictId cell
  have hmem : (info, i) ∈ stmt.infos.zipIdx := List.mem_zipIdx_iff_getElem?.mpr hi
  obtain ⟨before, after, heq⟩ := List.append_of_mem hmem
  have hall : ∀ e ∈ stmt.infos.zipIdx, stmt.infos[e.2]? = some e.1 := fun e he =>
    List.mem_zipIdx_iff_getElem?.mp he
  have hnodup : (stmt.infos.zipIdx.map Prod.snd).Nodup := by
    rw [List.zipIdx_map_snd]
    exact List.nodup_range' ..
  rw [heq] at hall hnodup
  rw [List.map_append, List.map_cons, List.nodup_append] at hnodup
  have hbefore : ∀ e ∈ before, e.2 ≠ i := fun e he =>
    hnodup.2.2 _ (List.mem_map_of_mem he) _ List.mem_cons_self
  have hafter : ∀ e ∈ after, e.2 ≠ i := by
    rintro e he rfl
    exact (List.nodup_cons.mp hnodup.2.1).1 (List.mem_map.mpr ⟨e, he, rfl⟩)
  have hcolumn := hp.le_of_mem _ (hp.column_mem info (List.mem_of_getElem? hi))
  have htype := hp.type_eq i info hi
  -- the other bind infos do not touch the cell
  have hother : ∀ infos : List (BindInfo × ℕ), (∀ e ∈ infos, stmt.infos[e.2]? = some e.1) →
      (∀ e ∈ infos, e.2 ≠ i) → ∀ u : BindState, u.bindedValue = s.bindedValue →
        (bindSelected z can matchValues infos u).cell i info = u.cell i info := by
    intro infos hinfos hne u hu
    obtain ⟨hkept, hparams⟩ := bindSelected_frame (z := z) can matchValues infos u
    rw [BindState.cell, BindState.cell, hkept, hparams, hparams]
    · intro e he _
      have hcolumn' := hp.le_of_mem _ (hp.column_mem e.1 (List.mem_of_getElem? (hinfos e he)))
      have htype' := hp.type_eq e.2 e.1 (hinfos e he)
      have := hne e he
      exact ⟨by omega, by omega⟩
    · intro e he hsel
      rw [Selects, hu] at hsel
      have htype' := hp.type_eq e.2 e.1 (hinfos e he)
      exact ⟨fun h => hne e he (hapart e.2 e.1 (hinfos e he) hsel h.symm), by omega⟩
  have hkept₁ : (bindSelected z can matchValues before s).bindedValue = s.bindedValue :=
    (bindSelected_frame can matchValues before s).1
  have h₁ := hother before (fun e he => hall e (by simp [he])) hbefore s rfl
  have h₂ := hother after (fun e he => hall e (by simp [he])) hafter
  have ht : t = bindSelected z can matchValues ((info, i) :: after)
      (bindSelected z can matchValues before s) := by rw [← bindSelected_append, ← heq]
  rw [bindSelected, hkept₁] at ht
  refine ⟨fun hsel => ?_, fun hsel hfail => ?_, fun hsel c hc => ?_⟩
  · rw [ht, if_neg (by exact hsel), h₂ _ hkept₁, h₁]
  · rw [ht, if_pos (by exact hsel)] at hfail
    have hstep := bindSelected_compressFail hfail
    rw [bindValueInInfo, BindState.bindCell_compressFail, Bool.or_eq_false_iff, hkept₁] at hstep
    exact Option.isNone_eq_false_iff.mp hstep.2
  · have hne : info.typeBindIndex ≠ info.columnBindIndex := by omega
    have hbound : bindValueInInfo z can (bindSelected z can matchValues before s) i info
        (matchValues i).intValue =
          (bindSelected z can matchValues before s).bindCell info (some c) := by
      rw [bindValueInInfo, hkept₁]
      exact congrArg _ hc
    rw [ht, if_pos (by exact hsel), h₂ _ (by rw [hbound, BindState.bindCell_bindedValue, hkept₁]),
      hbound]
    simp [BindState.bindCell, BindState.cell, hne.symm, hkept₁]

/-- A column of a row that was just written. -/
private def writtenEntry (e : CompressionColumnInfo × Value × Value) : RowEntry :=
  ⟨e.1, e.2.1, .null, e.2.2⟩

private theorem inStep_writtenEntry {entries : List (CompressionColumnInfo × Value × Value)}
    (h : InStep (entries.map fun e => (e.1, e.2.1))) :
    RowEntry.InStep (entries.map writtenEntry) := by
  induction entries with
  | nil => trivial
  | cons e entries ih =>
    refine ⟨fun hvarious hpending => ?_, ih h.2⟩
    have hd : e.2.1.isData = false := by
      refine Bool.eq_false_iff.mpr fun hd => hpending ⟨hd, rfl⟩
    simpa using h.1 hvarious hd

/-- **The second step compresses column by column.** -/
theorem compressColumns_reads (hz : z.Lawful)
    {entries : List (CompressionColumnInfo × Value × Value)} {cells : List (Value × Value)}
    (h : compressColumns z (entries.flatMap selectColumn) (entries.map Prod.fst) 0 0 = some cells)
    (hstep : InStep (entries.map fun e => (e.1, e.2.1)))
    (hfits : ∀ e ∈ entries, e.2.1.isData = true →
      DictFits (secondDictionary e.1 e.2.2).1 (secondDictionary e.1 e.2.2).2)
    {i : ℕ} {e : CompressionColumnInfo × Value × Value} (he : entries[i]? = some e) :
    ∃ cell, cells[i]? = some cell ∧ wcdbDecompress z cell.1 cell.2 = some e.2.1 := by
  have hspec := stepSelectAndUpdateUncompressRow_eq (z := z) (inStep_writtenEntry hstep)
  rw [stepSelectAndUpdateUncompressRow, List.flatMap_map, List.map_map] at hspec
  have he' : (entries.map writtenEntry)[i]? = some (writtenEntry e) := by simp [he]
  obtain ⟨cell, hcell, hentry⟩ := getElem?_of_mapM (hspec.symm.trans h) he'
  refine ⟨cell, hcell, ?_⟩
  rw [compressEntry] at hentry
  split_ifs at hentry with hpending
  · have hread := wcdbDecompress_encodeCell hz (hfits e (List.mem_of_getElem? he) hpending.1) hentry
    rwa [dataValue_isText_blobValue, Value.restored_of_isData hpending.1] at hread
  · cases hentry
    refine wcdbDecompress_of_not_isData (Bool.eq_false_iff.mpr fun hd => hpending ⟨hd, rfl⟩) _

variable {s : BindState} {r : Round}

/-- The state between binding and stepping, and between the rows of a step. -/
structure BoundState (z : Zstd) (stmt : Statement) (r : Round) (s : BindState) : Prop where
  cells : ∀ (i : ℕ) (info : BindInfo) (v : Value), stmt.infos[i]? = some info →
    (info.columnBindIndex, v) ∈ r.binds →
      ((info.matchColumnBindIndex ≠ selectedMatchValueBindIndex ∨ s.bindedValue i = .null) ∧
        (s.cell i info).Reads z v) ∨
      (info.matchColumnBindIndex = selectedMatchValueBindIndex ∧ s.bindedValue i ≠ .null ∧
        (s.bindedValue i).restored = v)
  others : ∀ k v, (k, v) ∈ r.binds → (∀ info ∈ stmt.infos, info.columnBindIndex ≠ k) →
    s.params k = v

/-- **Binding under the condition.** -/
theorem boundState_of_reusable (hz : z.Lawful) (hp : stmt.Prepared) (hs : stmt.Separate)
    (hr : r.Reusable z stmt s) (hfail : (r.bindAll z stmt s).compressFail = false) :
    BoundState z stmt r (r.bindAll z stmt s) := by
  refine ⟨?_, fun k v hv hcontent => params_of_bind hp hr.wellFormed hv hcontent⟩
  intro i info v hi hv
  have hstorable := hr.storable i info v hi hv
  have hmem := List.mem_of_getElem? hi
  simp only [Round.Storable] at hstorable
  split_ifs at hstorable with hzero hsel hown
  · exact Or.inl ⟨Or.inl (by rw [hzero]; decide),
      reads_own hz hp hs hr.wellFormed hi hv hzero hstorable hfail⟩
  · rcases kept_or_reads hp hs hr.wellFormed hi hv hsel hstorable.1 hfail with ⟨h₁, h₂⟩ | ⟨h₁, h₂⟩
    · exact Or.inl ⟨Or.inr h₁, h₂⟩
    · exact Or.inr ⟨hsel, h₁, h₂⟩
  · have hm : info.matchColumnBindIndex ∈ stmt.parameters :=
      ((hp.match_mem info hmem).resolve_left hzero).resolve_right fun h => hsel h.2
    obtain ⟨e, he, heq⟩ := List.mem_map.mp (hr.wellFormed.once.mem_iff.mpr hm)
    obtain ⟨k, w⟩ := e
    cases heq
    obtain ⟨n, rfl⟩ := hr.wellFormed.integer info hmem w he
    exact Or.inl ⟨Or.inl hsel,
      reads_match hz hp hs hr.wellFormed hi hv hm hown he (hstorable n he) hfail⟩
  · exact Or.inl ⟨Or.inl hsel, reads_shared hp hs hr.wellFormed hi hv hown hstorable hfail⟩

private theorem restored_isText (v : Value) : v.restored.isText = v.isText := by cases v <;> rfl

private theorem restored_blobValue (v : Value) : v.restored.blobValue = v.blobValue := by
  cases v <;> rfl

/-- The cells of a row that is written. -/
theorem boundCells_get {i : ℕ} {info : BindInfo} (hi : stmt.infos[i]? = some info)
    (s : BindState) :
    (boundCells stmt s)[i]? = some ((s.cell i info).content, (s.cell i info).type) := by
  simp [boundCells, hi, BindState.cell]

/-- One row of an `UPDATE` that selects the match values. -/
theorem bindSelected_bound (hz : z.Lawful) (hp : stmt.Prepared) (hs : stmt.Separate)
    {s₀ : BindState} (hr : r.Reusable z stmt s₀) (hb : BoundState z stmt r s)
    {row : List (Value × Value)} (hrow : row ∈ r.rows) :
    let t := bindSelected z r.can (fun i => (row.getD i (.null, .null)).2) stmt.infos.zipIdx s
    BoundState z stmt r t ∧ ∀ (i : ℕ) (info : BindInfo) (v : Value), stmt.infos[i]? = some info →
      (info.columnBindIndex, v) ∈ r.binds → (t.cell i info).Reads z v := by
  intro t
  obtain ⟨hkept, hparams⟩ := bindSelected_frame (z := z) r.can
    (fun i => (row.getD i (.null, .null)).2) stmt.infos.zipIdx s
  have hcells : ∀ (i : ℕ) (info : BindInfo) (v : Value), stmt.infos[i]? = some info →
      (info.columnBindIndex, v) ∈ r.binds → (t.cell i info).Reads z v := by
    intro i info v hi hv
    have hbound := hb.cells i info v hi hv
    obtain ⟨hleft, -, hcompleted⟩ := bindSelected_cell (z := z) hp r.can
      (fun i => (row.getD i (.null, .null)).2) hi s
      fun j info' hj _ heq => hs.columns j i info' info hj hi heq
    rcases hbound with ⟨hcase, hreads⟩ | ⟨hsel, hnull, hv'⟩
    · rw [show t.cell i info = s.cell i info from
        hleft fun h => hcase.elim (fun h' => h' h.1) fun h' => h.2 h']
      exact hreads
    · have hstorable := hr.storable i info v hi hv
      simp only [Round.Storable] at hstorable
      rw [if_neg (by rw [hsel]; decide), if_pos hsel] at hstorable
      have hd : v.isData = true := hv' ▸ Value.isData_restored _
      obtain ⟨hid, hsome⟩ := hstorable.2 hd row hrow
      rw [← hv', restored_isText, restored_blobValue] at hsome
      obtain ⟨c, hc⟩ := Option.isSome_iff_exists.mp hsome
      rw [show t.cell i info = _ from hcompleted ⟨hsel, hnull⟩ c hc, ← hv']
      exact reads_of_encodeCell hz (fits_zstdDict hid) hc _
  refine ⟨⟨?_, ?_⟩, hcells⟩
  · intro i info v hi hv
    have hkept' : t.bindedValue i = s.bindedValue i := congrFun hkept i
    rw [hkept']
    exact (hb.cells i info v hi hv).imp_left fun h => ⟨h.1, hcells i info v hi hv⟩
  · intro k v hv hcontent
    rw [hparams k ?_, hb.others k v hv hcontent]
    intro e he _
    have hi := List.mem_zipIdx_iff_getElem?.mp he
    have := hp.le_of_mem k (hr.wellFormed.mem_parameters hv)
    have := hp.type_eq e.2 e.1 hi
    exact ⟨(hcontent e.1 (List.mem_of_getElem? hi)).symm, by omega⟩

/-- Every row of an `UPDATE` that selects the match values. -/
theorem stepSelected_holds (hz : z.Lawful) (hp : stmt.Prepared) (hs : stmt.Separate)
    (htargets : stmt.targets = []) {s₀ : BindState} (hr : r.Reusable z stmt s₀)
    {rows : List (List (Value × Value))} (hrows : ∀ row ∈ rows, row ∈ r.rows)
    (hb : BoundState z stmt r s) :
    ∀ row ∈ (stepSelected z stmt r.can rows s).1, row.Holds z stmt r := by
  induction rows generalizing s with
  | nil => simp [stepSelected]
  | cons row rows ih =>
    obtain ⟨hb', hcells⟩ :=
      bindSelected_bound hz hp hs hr hb (hrows row List.mem_cons_self)
    rw [stepSelected]
    refine List.forall_mem_cons.mpr
      ⟨⟨?_, by simp [htargets], hb'.others⟩,
        ih (fun row' h => hrows row' (List.mem_cons_of_mem _ h)) hb'⟩
    intro i info v hi hv
    exact ⟨_, boundCells_get hi _, hcells i info v hi hv⟩

theorem Round.WellFormed.lookup_of_mem (hp : stmt.Prepared) (hr : r.WellFormed stmt)
    {k : ℕ} {v : Value}
    (hv : (k, v) ∈ r.binds) : r.binds.lookup k = some v := by
  refine lookup_of_unique hv fun w hw => ?_
  have h := List.inj_on_of_nodup_map (hr.nodup hp) hw hv rfl
  exact congrArg Prod.snd h

/-- A row that is compressed in a second step. -/
theorem stepTwo_holds (hz : z.Lawful) (hp : stmt.Prepared) (hinfos : stmt.infos = [])
    {s₀ : BindState} (hr : r.Reusable z stmt s₀) (hb : BoundState z stmt r s)
    {source : List (Value × Value)} (hsource : source ∈ r.rows) {row : WrittenRow}
    (h : stepTwo z stmt s source = some row) : row.Holds z stmt r := by
  obtain ⟨cells, hcells, rfl⟩ := Option.map_eq_some_iff.mp h
  refine ⟨by simp [hinfos], ?_, hb.others⟩
  intro i target k v hi hk hv
  obtain ⟨hstep, hfits⟩ := hr.compressible source hsource
  have hraw : rawContents stmt s source = r.contents stmt source := by
    rw [rawContents, Round.contents]
    refine List.map_congr_left fun e he => ?_
    obtain ⟨target', j⟩ := e
    have hj := List.mem_of_getElem? (List.mem_zipIdx_iff_getElem?.mp he)
    cases hbind : target'.bindIndex with
    | none => simp [hbind]
    | some k' =>
      have hk' := hp.targets_mem target' hj k' hbind
      obtain ⟨⟨k'', w⟩, hw, rfl⟩ := List.mem_map.mp (hr.wellFormed.once.mem_iff.mpr hk')
      simp [hbind, hb.others k'' w hw (by simp [hinfos]),
        Round.WellFormed.lookup_of_mem hp hr.wellFormed hw]
  -- the columns of the row as one list of entries
  let content : Target × ℕ → Value := fun (target, j) =>
    match target.bindIndex with
    | some k => (r.binds.lookup k).getD .null
    | none => (source.getD j (.null, .null)).1
  let entries := stmt.targets.zipIdx.map fun e =>
    (e.1.columnInfo, content e, (source.getD e.2 (.null, .null)).2)
  have hcolumns : stmt.targets.map Target.columnInfo =
      stmt.targets.zipIdx.map fun e => e.1.columnInfo := by
    conv_lhs => rw [← List.zipIdx_map_fst 0 stmt.targets, List.map_map]
    rfl
  have hentries : (stmt.targets.map Target.columnInfo).zip ((r.contents stmt source).zip
      (stmt.targets.zipIdx.map fun (_, j) => (source.getD j (.null, .null)).2)) = entries := by
    rw [hcolumns, Round.contents, List.zip_map', List.zip_map']
  have hmap : stmt.targets.map Target.columnInfo = entries.map Prod.fst := by
    rw [hcolumns, List.map_map]
    rfl
  simp only [selectUncompressRow] at hcells
  rw [hraw, hentries, hmap] at hcells
  have hstep' : InStep (entries.map fun e => (e.1, e.2.1)) := by
    rw [List.map_map]
    simp only [hcolumns, Round.contents, List.zip_map'] at hstep
    exact hstep
  have hget : entries[i]? = some (target.columnInfo, v, (source.getD i (.null, .null)).2) := by
    simp [entries, content, hi, hk, Round.WellFormed.lookup_of_mem hp hr.wellFormed hv]
  refine compressColumns_reads hz hcells hstep' ?_ hget
  intro e he hd
  obtain ⟨⟨target', j⟩, hj, rfl⟩ := List.mem_map.mp he
  have hj' := List.mem_zipIdx_iff_getElem?.mp hj
  refine hfits j target'.columnInfo (content (target', j)) (by simp [hj']) ?_ hd
  simp [Round.contents, content, hj']

private theorem mem_of_mapM {α β : Type} {f : α → Option β} {as : List α} {bs : List β}
    (h : as.mapM f = some bs) : ∀ b ∈ bs, ∃ a ∈ as, f a = some b := by
  induction as generalizing bs with
  | nil =>
    cases h
    simp
  | cons a as ih =>
    rw [List.mapM_cons] at h
    obtain ⟨b, hb, h⟩ := Option.bind_eq_some_iff.mp h
    obtain ⟨bs', hbs', h⟩ := Option.bind_eq_some_iff.mp h
    cases h
    refine List.forall_mem_cons.mpr ⟨⟨a, List.mem_cons_self, hb⟩, fun b' hb' => ?_⟩
    obtain ⟨a', ha', heq⟩ := ih hbs' b' hb'
    exact ⟨a', List.mem_cons_of_mem _ ha', heq⟩

/-- **A round under the condition stores what was bound in it.** -/
theorem rows_hold (hz : z.Lawful) (hp : stmt.Prepared) (hs : stmt.Separate)
    (hr : r.Reusable z stmt s) {rows : List WrittenRow} (h : (round z stmt s r).1 = some rows) :
    ∀ row ∈ rows, row.Holds z stmt r := by
  simp only [round, stepRows, Round.bound_of_ready hr.ready] at h
  split_ifs at h with hfail
  have hb := boundState_of_reusable hz hp hs hr (Bool.not_eq_true _ ▸ hfail)
  cases hmode : stmt.mode with
  | direct =>
    rw [hmode] at h
    cases h
    refine List.forall_mem_singleton.mpr ⟨?_, by simp [hp.targets_of_ne (by simp [hmode])],
      hb.others⟩
    intro i info v hi hv
    refine ⟨_, boundCells_get hi _, ?_⟩
    rcases hb.cells i info v hi hv with ⟨-, h⟩ | ⟨hsel, -⟩
    · exact h
    · -- a direct statement has no selected match values
      have hmax := hp.max_lt
      rcases hp.match_mem info (List.mem_of_getElem? hi) with h0 | hmem | ⟨hmode', -⟩
      · rw [hsel] at h0
        cases h0
      · have := hp.le_of_mem _ hmem
        omega
      · rw [hmode] at hmode'
        cases hmode'
  | selectMatch =>
    rw [hmode] at h
    cases h
    exact stepSelected_holds hz hp hs (hp.targets_of_ne (by simp [hmode])) hr (fun _ h => h) hb
  | twoStep =>
    rw [hmode] at h
    intro row hrow
    obtain ⟨source, hsource, hstep⟩ := mem_of_mapM h row hrow
    exact stepTwo_holds hz hp (hp.infos_of_twoStep hmode) hr hb hsource hstep

end Stepping

/-! ### When a step stores a row -/

section Success

variable {z : Zstd} {stmt : Statement} {s : BindState} {r : Round}

/-- Compression never fails. -/
def Zstd.Total (z : Zstd) : Prop := ∀ data id, (z.compress data id).isSome = true

theorem encodeCell_isSome (hz : z.Total) (can : Bool) (compressedType : CompressedType)
    (dictId : ℕ) (isText : Bool) (data : List UInt8) :
    (encodeCell z can compressedType dictId isText data).isSome = true := by
  have hcompress : (if can then compressContent z data dictId else some data).isSome = true := by
    obtain ⟨frame, hframe⟩ := Option.isSome_iff_exists.mp (hz data dictId)
    simp only [compressContent, hframe]
    split_ifs <;> rfl
  obtain ⟨compressed, h⟩ := Option.isSome_iff_exists.mp hcompress
  simp only [encodeCell, h]
  split_ifs <;> rfl

theorem bindCell_ok (hz : z.Total) (s : BindState) (info : BindInfo) (can : Bool)
    (compressedType : CompressedType) (dictId : ℕ) (isText : Bool) (data : List UInt8) :
    (s.bindCell info (encodeCell z can compressedType dictId isText data)).compressFail =
      s.compressFail := by
  rw [BindState.bindCell_compressFail]
  obtain ⟨cell, h⟩ := Option.isSome_iff_exists.mp
    (encodeCell_isSome hz can compressedType dictId isText data)
  simp [h]

theorem bindAll_ok (hz : z.Total) (hp : stmt.Prepared) (hr : r.WellFormed stmt) :
    (r.bindAll z stmt s).compressFail = false := by
  have hfold : ∀ (es : List (ℕ × Value)) (t : BindState), (∀ e ∈ es, e ∈ r.binds) →
      t.compressFail = false → (es.foldl (bindValue z stmt r.can) t).compressFail = false := by
    intro es
    induction es with
    | nil => exact fun t _ h => h
    | cons e es ih =>
      intro t hes ht
      refine ih _ (fun e' h => hes e' (List.mem_cons_of_mem _ h)) ?_
      have he := hes e List.mem_cons_self
      have hk := hr.mem_parameters he
      have heffect : BindEffect z stmt r.can t e.1 e.2 _ :=
        bindValue_effect (hp.le_of_mem _ hk) t e.2
      change (bindValue z stmt r.can t (e.1, e.2)).compressFail = false
      generalize bindValue z stmt r.can t (e.1, e.2) = t' at heffect
      cases heffect with
      | plain _ => exact ht
      | own _ _ _ _ => rw [bindCell_ok hz, ht]
      | keep _ _ _ _ _ => exact ht
      | complete _ _ _ _ _ => rw [bindCell_ok hz, ht]
      | raw _ _ _ => exact ht
      | keepMatch _ _ _ _ => exact ht
      | completeMatch _ _ _ _ =>
        rw [bindValueInInfo, bindCell_ok hz, BindState.bind_compressFail, ht]
      | misuse h hm hint _ =>
        obtain ⟨hj, -⟩ := hp.infoAt_cases hk h
        obtain ⟨n, hn⟩ := hr.integer _ (List.mem_of_getElem? hj) e.2 (hm ▸ he)
        exact absurd hn (hint n)
  refine hfold r.binds _ (fun _ h => h) ?_
  rw [Round.begin]
  split_ifs <;> rfl

theorem compressColumns_isSome (hz : z.Total) (row : List Value)
    (columns : List CompressionColumnInfo) (columnIndex preOffset : ℕ) :
    (compressColumns z row columns columnIndex preOffset).isSome = true := by
  induction columns generalizing columnIndex preOffset with
  | nil => rfl
  | cons column columns ih =>
    simp only [compressColumns]
    split
    · split
      next hnone =>
        have hcell := encodeCell_isSome hz true
        simp only [Option.isSome_iff_ne_none] at hcell
        exact absurd hnone (hcell _ _ _ _)
      next cell _ =>
        rw [Option.isSome_map]
        exact ih _ _
    · rw [Option.isSome_map]
      exact ih _ _

/-- If compression does not fail, every round stores its rows. -/
theorem round_isSome (hz : z.Total) (hp : stmt.Prepared) (hr : r.WellFormed stmt) :
    (round z stmt s r).1.isSome = true := by
  simp only [round, stepRows, Round.bound_compressFail, bindAll_ok hz hp hr]
  cases stmt.mode with
  | direct => rfl
  | selectMatch => rfl
  | twoStep =>
    have hrow : ∀ t source, (stepTwo z stmt t source).isSome = true := by
      intro t source
      rw [stepTwo, Option.isSome_map]
      exact compressColumns_isSome hz _ _ _ _
    generalize r.bound z stmt s = t
    change (List.mapM (stepTwo z stmt t) r.rows).isSome = true
    induction r.rows with
    | nil => rfl
    | cons source rows ih =>
      obtain ⟨row, h⟩ := Option.isSome_iff_exists.mp (hrow t source)
      obtain ⟨rows', h'⟩ := Option.isSome_iff_exists.mp ih
      rw [List.mapM_cons, h, h']
      rfl

end Success

/-! ### Runs -/

/-- A round, recorded with the rows it stored; `none` when the step failed. -/
def recordRound (z : Zstd) (stmt : Statement)
    (σ : BindState × List (Round × Option (List WrittenRow))) (r : Round) :
    Option (BindState × List (Round × Option (List WrittenRow))) :=
  some ((round z stmt σ.1 r).2, σ.2 ++ [(r, (round z stmt σ.1 r).1)])

/-- A compression of runs of one byte, with a dictionary of id one. -/
def runLength : Zstd where
  compress data id :=
    if id ≤ 1 then
      some (UInt8.ofNat id ::
        if data.length < 256 ∧ data = List.replicate data.length (data.headD 0) then
          [0, data.headD 0, UInt8.ofNat data.length]
        else 1 :: data)
    else none
  sizeKnown frame := frame ≠ []
  frameDict frame := (frame.headD 0).toNat
  hasDict id := id = 1
  decompress frame _ :=
    match frame.tail with
    | [0, b, n] => some (List.replicate n.toNat b)
    | 1 :: data => some data
    | _ => none

theorem runLength_lawful : runLength.Lawful := by
  refine ⟨?_, ?_, ?_, ?_, ?_⟩ <;> intro data id frame h
  all_goals
    simp only [runLength, Option.ite_none_right_eq_some, Option.some.injEq] at h
    obtain ⟨hid, rfl⟩ := h
  · exact List.cons_ne_nil _ _
  · simp [runLength]
  · simp only [runLength, List.headD_cons, UInt8.toNat_ofNat']
    omega
  · intro hne
    simp only [runLength, decide_eq_true_eq]
    omega
  · simp only [runLength, List.tail_cons]
    split_ifs with hrun
    · obtain ⟨hlength, hdata⟩ := hrun
      have hn : (UInt8.ofNat data.length).toNat = data.length := by
        rw [UInt8.toNat_ofNat']
        omega
      simp only [hn]
      exact congrArg some hdata.symm
    · rfl

/-- A column with a dictionary for each kind of message, here one dictionary for all. -/
def contentColumn : CompressionColumnInfo :=
  { column := "content", matchColumn := "type", compressionType := .variousDict, commonDictID := 1 }

/-- `INSERT INTO message(content, type) VALUES(?1, ?2)`. -/
def insertMessage : WriteSTMT :=
  { isInsert := true
    columnsList := [["content"], ["type"]]
    expressions := [.item (.bindParameter 1), .item (.bindParameter 2)] }

/-- `insertMessage` as it is prepared. -/
def preparedInsertMessage : Statement :=
  { mode := .direct
    isInsert := true
    parameters := [1, 2]
    maxBindIndex := 2
    infos := [{ columnInfo := contentColumn
                columnParaIndex := some (0, 0)
                matchColumnParaIndex := some (1, 0)
                columnBindIndex := 1
                typeBindIndex := 3
                matchColumnBindIndex := 2 }]
    targets := [] }

/-- A round that binds the content, eight times the byte `b`, before or after its type. -/
def messageRound (contentFirst : Bool) (b : UInt8) : Round :=
  let content := (1, Value.text (List.replicate 8 b))
  let type := (2, Value.integer 7)
  { clear := false, can := true, rows := []
    binds := if contentFirst then [content, type] else [type, content] }

theorem prepare_insertMessage :
    prepare insertMessage [contentColumn] = some preparedInsertMessage := by
  decide +kernel

theorem messageRound_wellFormed (contentFirst : Bool) (b : UInt8) :
    (messageRound contentFirst b).WellFormed preparedInsertMessage := by
  refine ⟨?_, ?_⟩
  · cases contentFirst with
    | true => exact List.Perm.refl _
    | false => exact List.Perm.swap _ _ _
  · intro info hinfo v hv
    obtain rfl := List.mem_singleton.mp hinfo
    refine ⟨7, ?_⟩
    cases contentFirst <;> simpa [messageRound] using hv

theorem preparedInsertMessage_separate : preparedInsertMessage.Separate := by
  refine ⟨?_, ?_⟩
  · intro i j a b ha hb _
    have hi := (List.getElem?_eq_some_iff.mp ha).1
    have hj := (List.getElem?_eq_some_iff.mp hb).1
    simp only [preparedInsertMessage, List.length_singleton] at hi hj
    omega
  · decide

/-- A round that binds the content first meets the condition when nothing is kept; one that binds
the type first always does. -/
theorem messageRound_reusable {contentFirst : Bool} (b : UInt8) {s : BindState}
    (h : contentFirst = true → s.bindedValue 0 = .null) :
    (messageRound contentFirst b).Reusable runLength preparedInsertMessage s := by
  refine ⟨by simp [messageRound], messageRound_wellFormed contentFirst b, ?_,
    by simp [messageRound]⟩
  intro i info v hi hv
  cases i with
  | succ i => cases hi
  | zero =>
    cases hi
    -- the one dictionary of the column serves every match value
    have hdict : ∀ n, contentColumn.getMatchDictId n ≠ 0 := fun n => one_ne_zero
    intro n hn
    by_cases hkept : s.bindedValue 0 = .null
    · exact Or.inl ⟨hkept, fun _ => hdict n⟩
    · refine Or.inr (Or.inl ⟨hkept, ?_, fun _ => hdict _⟩)
      cases contentFirst with
      | true => exact absurd (h rfl) hkept
      | false => exact Nat.zero_lt_one

end Wcdb
