import Wcdb.Core.CompressingStatementReuse

/-!
# The first binding of a fresh statement

A fresh statement keeps nothing, and a round binds every parameter once. `StoredRight` says exactly
when a content that is bound so is read as it was bound (`storedRight_first_round`), over all
statements, values and orders of binding, and for both settings of `canCompressNewData()`.

What can go wrong is in `Round.dictionary` and in the owner of a parameter. `m_bindInfoMap` leads
from a parameter to **one** bind info: a second column with the same content parameter gets the
frame without its type, and a second column with the same match parameter is never completed, so
that nothing at all is stored for it. Apart from that the dictionary with the id zero is written
with the type that names a dictionary.
-/

namespace Wcdb

/-- `begin` has nothing to clear in a fresh statement. -/
theorem Round.begin_fresh (r : Round) : r.begin .fresh = .fresh := by
  rw [Round.begin]
  split_ifs <;> rfl

/-! ### Which bindings touch a parameter -/

section Fresh

variable {z : Zstd} {stmt : Statement} {can : Bool}

/-- A content that is not compressed leaves what is kept. -/
theorem BindEffect.bindedValue_of_not_isData {s t : BindState} {k j : ℕ} {v : Value}
    {info : BindInfo} (h : BindEffect z stmt can s k v t) (hinfo : stmt.infoAt k = some (j, info))
    (hk : k ≠ info.matchColumnBindIndex) (hd : v.isData = false) :
    t.bindedValue = s.bindedValue := by
  cases h with
  | plain _ => rfl
  | own _ _ _ hv => simp [hd] at hv
  | keep _ _ _ hv _ => simp [hd] at hv
  | complete _ _ _ hv _ => simp [hd] at hv
  | raw _ _ _ => rfl
  | keepMatch h' hk' _ _ =>
    cases hinfo.symm.trans h'
    exact absurd hk' hk
  | completeMatch h' hk' _ _ =>
    cases hinfo.symm.trans h'
    exact absurd hk' hk
  | misuse h' hk' _ _ =>
    cases hinfo.symm.trans h'
    exact absurd hk' hk

/-- Nothing is kept for a cell on which only contents act that are not compressed. -/
theorem fold_bindedValue_null (hp : stmt.Prepared) {j : ℕ} {es : List (ℕ × Value)}
    (hes : ∀ e ∈ es, e.1 ∈ stmt.parameters)
    (hquiet : ∀ e ∈ es, ∀ info, stmt.infoAt e.1 = some (j, info) →
      e.1 ≠ info.matchColumnBindIndex ∧ e.2.isData = false)
    {s : BindState} (hs : s.bindedValue j = .null) :
    (es.foldl (bindValue z stmt can) s).bindedValue j = .null := by
  induction es generalizing s with
  | nil => exact hs
  | cons e es ih =>
    have heffect : BindEffect z stmt can s e.1 e.2 _ :=
      bindValue_effect (hp.le_of_mem _ (hes e List.mem_cons_self)) s e.2
    refine ih (fun e' h => hes e' (List.mem_cons_of_mem _ h))
      (fun e' h => hquiet e' (List.mem_cons_of_mem _ h)) ?_
    by_cases hacts : ∃ info, stmt.infoAt e.1 = some (j, info)
    · obtain ⟨info, hinfo⟩ := hacts
      obtain ⟨hk, hd⟩ := hquiet e List.mem_cons_self info hinfo
      rw [heffect.bindedValue_of_not_isData hinfo hk hd, hs]
    · rw [heffect.bindedValue_of_ne (not_exists.mp hacts), hs]

/-- Bindings that belong to other cells leave what is kept for a cell. -/
theorem fold_bindedValue_of_ne (hp : stmt.Prepared) {j : ℕ} {es : List (ℕ × Value)}
    (hes : ∀ e ∈ es, e.1 ∈ stmt.parameters)
    (hne : ∀ e ∈ es, ∀ info, stmt.infoAt e.1 ≠ some (j, info)) (s : BindState) :
    (es.foldl (bindValue z stmt can) s).bindedValue j = s.bindedValue j := by
  induction es generalizing s with
  | nil => rfl
  | cons e es ih =>
    have heffect : BindEffect z stmt can s e.1 e.2 _ :=
      bindValue_effect (hp.le_of_mem _ (hes e List.mem_cons_self)) s e.2
    rw [List.foldl_cons, ih (fun e' h => hes e' (List.mem_cons_of_mem _ h))
      (fun e' h => hne e' (List.mem_cons_of_mem _ h)),
      heffect.bindedValue_of_ne (hne e List.mem_cons_self)]

/-- A parameter stays if the only other bindings that could touch it are match values of cells for
which nothing is kept. -/
theorem fold_params (hp : stmt.Prepared) (can : Bool) (q : ℕ) (done es : List (ℕ × Value))
    (hnodup : ((done ++ es).map Prod.fst).Nodup) (hmem : ∀ e ∈ done ++ es, e.1 ∈ stmt.parameters)
    (hq : ∀ e ∈ es, e.1 ≠ q ∧ ∀ j info, stmt.infoAt e.1 = some (j, info) →
      q = info.columnBindIndex ∨ q = info.typeBindIndex → e.1 = info.matchColumnBindIndex ∧
        ∀ e' ∈ done ++ es, stmt.infoAt e'.1 = some (j, info) →
          e'.1 ≠ info.matchColumnBindIndex → e'.2.isData = false) :
    (es.foldl (bindValue z stmt can) (done.foldl (bindValue z stmt can) .fresh)).params q =
      (done.foldl (bindValue z stmt can) .fresh).params q := by
  induction es generalizing done with
  | nil => rfl
  | cons e es ih =>
    have hassoc : done ++ e :: es = (done ++ [e]) ++ es := by simp
    have he := hmem e (by simp)
    have hstep := ih (done ++ [e]) (hassoc ▸ hnodup) (hassoc ▸ hmem) fun e' he' =>
      hassoc ▸ hq e' (List.mem_cons_of_mem _ he')
    rw [List.foldl_append, List.foldl_cons, List.foldl_nil] at hstep
    rw [List.foldl_cons, hstep]
    obtain ⟨hne, hcell⟩ := hq e List.mem_cons_self
    refine (bindValue_effect (hp.le_of_mem _ he) _ e.2).params_frame hne.symm ?_
    intro j info hj hqj
    obtain ⟨hk, hquiet⟩ := hcell j info hj hqj
    refine ⟨hk, fold_bindedValue_null hp (fun e' h => hmem e' (by simp [h])) ?_ rfl⟩
    intro e' he' info' hinfo'
    obtain ⟨hget, -⟩ := hp.infoAt_cases he hj
    obtain ⟨hget', -⟩ := hp.infoAt_cases (hmem e' (by simp [he'])) hinfo'
    obtain rfl : info = info' := Option.some.inj (hget.symm.trans hget')
    -- the match value itself comes only once, and it comes later
    have hlater : e'.1 ≠ info.matchColumnBindIndex := by
      rw [← hk]
      rw [List.map_append, List.nodup_append] at hnodup
      exact hnodup.2.2 _ (List.mem_map_of_mem he') _ (by simp)
    exact ⟨hlater, hquiet e' (by simp [he']) hinfo' hlater⟩

end Fresh

/-! ### The cells after a round of bindings -/

section Round

variable {z : Zstd} {stmt : Statement} {r : Round}

/-- The bindings of other cells leave a cell that owns its content. -/
theorem Statement.Owns.framed {i : ℕ} {info : BindInfo} (ho : stmt.Owns i info)
    (hp : stmt.Prepared) (hr : r.WellFormed stmt) : r.Framed z stmt .fresh i info := by
  intro done es rest heq hes
  rw [Round.begin_fresh]
  have hmem : ∀ e ∈ done ++ es, e.1 ∈ stmt.parameters := fun e he =>
    hr.mem_parameters (heq ▸ by rw [← List.append_assoc]; exact List.mem_append_left _ he)
  have hnodup : ((done ++ es).map Prod.fst).Nodup := by
    have h := hr.nodup hp
    rw [heq, ← List.append_assoc, List.map_append] at h
    exact (List.nodup_append.mp h).1
  have hcolumn := hp.le_of_mem _ (hp.column_mem info (List.mem_of_getElem? ho.get))
  have htype := hp.type_eq i info ho.get
  have hcontent : ∀ e ∈ es, e.1 ≠ info.columnBindIndex := fun e he h =>
    hes e he info (h ▸ ho.content)
  have hinfos : ∀ e ∈ es, ∀ j info', stmt.infoAt e.1 = some (j, info') →
      j ≠ i ∧ info'.columnBindIndex ≤ stmt.maxBindIndex ∧
        info'.typeBindIndex = stmt.maxBindIndex + 1 + j ∧
          (e.1 = info'.columnBindIndex ∨ e.1 = info'.matchColumnBindIndex) := by
    intro e he j info' hj
    obtain ⟨hget, hcases⟩ := hp.infoAt_cases (hmem e (List.mem_append_right _ he)) hj
    exact ⟨fun h => hes e he info' (h ▸ hj),
      hp.le_of_mem _ (hp.column_mem info' (List.mem_of_getElem? hget)), hp.type_eq j info' hget,
      hcases⟩
  have h₁ := fold_params (z := z) hp r.can info.columnBindIndex done es hnodup hmem ?_
  have h₂ := fold_params (z := z) hp r.can info.typeBindIndex done es hnodup hmem ?_
  · rw [BindState.cell, BindState.cell, h₁, h₂, fold_bindedValue_of_ne hp
      (fun e he => hmem e (List.mem_append_right _ he)) hes]
  · intro e he
    have := hp.le_of_mem _ (hmem e (List.mem_append_right _ he))
    refine ⟨by omega, fun j info' hj hq => ?_⟩
    obtain ⟨hne, hle, htype', -⟩ := hinfos e he j info' hj
    omega
  · intro e he
    refine ⟨hcontent e he, fun j info' hj hq => ?_⟩
    obtain ⟨hne, hle, htype', hcases⟩ := hinfos e he j info' hj
    have hsame : info.columnBindIndex = info'.columnBindIndex := hq.resolve_right (by omega)
    refine ⟨hcases.resolve_left (hsame ▸ hcontent e he), fun e' he' hj' hne' => ?_⟩
    -- the other parameter of that cell is the content, which belongs to this one
    obtain ⟨-, hcases'⟩ := hp.infoAt_cases (hmem e' he') hj'
    have hown := ho.content
    rw [hsame, ← hcases'.resolve_right hne', hj'] at hown
    exact absurd (Prod.ext_iff.mp (Option.some.inj hown)).1 hne

variable (hp : stmt.Prepared) (hr : r.WellFormed stmt)
include hp hr

/-- A content that is text or a blob belongs to a bind info with the same content parameter. -/
theorem owner_of_isData {i : ℕ} {info : BindInfo} (hi : stmt.infos[i]? = some info) {v : Value}
    (hv : (info.columnBindIndex, v) ∈ r.binds) (hd : v.isData = true) :
    ∃ j owner, stmt.Owns j owner ∧ owner.columnBindIndex = info.columnBindIndex := by
  have hmem : (info.columnBindIndex, i) ∈ stmt.bindInfoMap :=
    Statement.mem_bindInfoMap.mpr ⟨info, hi, Or.inl rfl⟩
  obtain ⟨j, hj⟩ : ∃ j, stmt.bindInfoMap.lookup info.columnBindIndex = some j := by
    refine Option.isSome_iff_exists.mp (Option.isSome_iff_ne_none.mpr fun h => ?_)
    rw [List.lookup_eq_none_iff] at h
    exact absurd (h _ hmem) (by simp)
  have hentry : (info.columnBindIndex, j) ∈ stmt.bindInfoMap := by
    obtain ⟨l₁, l₂, heq, -⟩ := List.lookup_eq_some_iff.mp hj
    exact heq ▸ by simp
  obtain ⟨owner, hget, -⟩ := Statement.mem_bindInfoMap.mp hentry
  have hat : stmt.infoAt info.columnBindIndex = some (j, owner) := by
    simp [Statement.infoAt, hj, hget]
  have hnot : info.columnBindIndex ≠ owner.matchColumnBindIndex := by
    intro h
    obtain ⟨n, rfl⟩ := hr.integer owner (List.mem_of_getElem? hget) v (h ▸ hv)
    cases hd
  have hsame := (hp.infoAt_cases (hr.mem_parameters hv) hat).2.resolve_right hnot
  exact ⟨j, owner, ⟨hget, hsame ▸ hat, hsame ▸ hnot⟩, hsame.symm⟩

/-- A content that is not compressed is stored as it is. -/
theorem params_of_not_isData {info : BindInfo} {v : Value}
    (hv : (info.columnBindIndex, v) ∈ r.binds) (hd : v.isData = false) :
    (r.bindAll z stmt .fresh).params info.columnBindIndex = v := by
  obtain ⟨before, after, heq, hbefore, hafter⟩ := split_at (hr.nodup hp) hv
  have hk := hr.mem_parameters hv
  have hmem : ∀ e ∈ before ++ (info.columnBindIndex, v) :: after, e.1 ∈ stmt.parameters :=
    heq ▸ fun e he => hr.mem_parameters he
  have hcolumn := hp.le_of_mem _ hk
  have htypes : ∀ k ∈ stmt.parameters, ∀ j info', stmt.infoAt k = some (j, info') →
      info.columnBindIndex ≠ info'.typeBindIndex := by
    intro k hk' j info' hj
    have := hp.type_eq j info' (hp.infoAt_cases hk' hj).1
    omega
  rw [Round.bindAll, Round.begin_fresh, heq, List.foldl_append, List.foldl_cons]
  have hrest := fold_params (z := z) hp r.can info.columnBindIndex
    (before ++ [(info.columnBindIndex, v)]) after
    (by simpa [heq] using hr.nodup hp) (by simpa using hmem) ?_
  · rw [List.foldl_append, List.foldl_cons, List.foldl_nil] at hrest
    rw [hrest]
    have hkept : ∀ j info', stmt.infoAt info.columnBindIndex = some (j, info') →
        info'.columnBindIndex = info.columnBindIndex →
        info.columnBindIndex = info'.matchColumnBindIndex →
          (before.foldl (bindValue z stmt r.can) .fresh).bindedValue j = .null := by
      intro j info' hj hsame hmatch
      refine fold_bindedValue_null hp (fun e he => hmem e (by simp [he])) ?_ rfl
      intro e he info'' hj'
      obtain ⟨hget, -⟩ := hp.infoAt_cases hk hj
      obtain ⟨hget', hcases⟩ := hp.infoAt_cases (hmem e (by simp [he])) hj'
      obtain rfl : info' = info'' := Option.some.inj (hget.symm.trans hget')
      exact absurd (hcases.elim (fun h => h.trans hsame) fun h => h.trans hmatch.symm)
        (hbefore e he)
    have heffect : BindEffect z stmt r.can _ info.columnBindIndex v _ :=
      bindValue_effect hcolumn (before.foldl (bindValue z stmt r.can) .fresh) v
    generalize bindValue z stmt r.can _ (info.columnBindIndex, v) = t at heffect
    cases heffect with
    | plain _ => exact BindState.bind_params_self _ _ _
    | own _ _ _ hv' => simp [hd] at hv'
    | keep _ _ _ hv' _ => simp [hd] at hv'
    | complete _ _ _ hv' _ => simp [hd] at hv'
    | raw h _ _ =>
      rw [BindState.bind_params_of_ne _ (htypes _ hk _ _ h)]
      exact BindState.bind_params_self _ _ _
    | keepMatch _ _ _ _ => exact BindState.bind_params_self _ _ _
    | completeMatch h hmatch _ hkept' =>
      rw [bindValueInInfo, BindState.bindCell_params_of_ne _ ?_ (htypes _ hk _ _ h)]
      · exact BindState.bind_params_self _ _ _
      · exact fun hsame => hkept' (hkept _ _ h hsame.symm hmatch)
    | misuse h hmatch hint _ =>
      obtain ⟨hget, -⟩ := hp.infoAt_cases hk h
      obtain ⟨n, hn⟩ := hr.integer _ (List.mem_of_getElem? hget) v (hmatch ▸ hv)
      exact absurd hn (hint n)
  · intro e he
    refine ⟨hafter e he, fun j info' hj hq => ?_⟩
    have he' := hmem e (by simp [he])
    have hsame := hq.resolve_right (htypes _ he' j info' hj)
    refine ⟨(hp.infoAt_cases he' hj).2.resolve_left (hsame ▸ hafter e he), ?_⟩
    intro e' he'' hj' hne'
    have hbind : e' ∈ r.binds := by simpa [heq] using he''
    obtain ⟨-, hcases'⟩ := hp.infoAt_cases (hr.mem_parameters hbind) hj'
    have hkey : e'.1 = info.columnBindIndex := (hcases'.resolve_right hne').trans hsame.symm
    obtain rfl : e' = (info.columnBindIndex, v) :=
      List.inj_on_of_nodup_map (hr.nodup hp) hbind hv hkey
    exact hd

/-- The type of a content that belongs to another bind info is not bound. -/
theorem type_of_not_owns {i j : ℕ} {info owner : BindInfo} (hi : stmt.infos[i]? = some info)
    (ho : stmt.Owns j owner) (hsame : owner.columnBindIndex = info.columnBindIndex) (hne : j ≠ i) :
    (r.bindAll z stmt .fresh).params info.typeBindIndex = .null ∧
      (info.matchColumnBindIndex ∉ stmt.parameters →
        (r.bindAll z stmt .fresh).bindedValue i = .null) := by
  rw [Round.bindAll, Round.begin_fresh]
  have hmem : ∀ e ∈ r.binds, e.1 ∈ stmt.parameters := fun e he => hr.mem_parameters he
  have htype := hp.type_eq i info hi
  have hacts : ∀ e ∈ r.binds, ∀ info', stmt.infoAt e.1 = some (i, info') →
      info' = info ∧ e.1 = info.matchColumnBindIndex := by
    intro e he info' hj
    obtain ⟨hget, hcases⟩ := hp.infoAt_cases (hmem e he) hj
    obtain rfl : info = info' := Option.some.inj (hi.symm.trans hget)
    refine ⟨rfl, hcases.resolve_left fun h => hne ?_⟩
    have hown := ho.content
    rw [hsame, ← h, hj] at hown
    exact (Prod.ext_iff.mp (Option.some.inj hown)).1.symm
  constructor
  · refine (fold_params (z := z) hp r.can _ [] r.binds (hr.nodup hp) hmem ?_).trans rfl
    intro e he
    have := hp.le_of_mem _ (hmem e he)
    refine ⟨by omega, fun k info' hj hq => ?_⟩
    obtain ⟨hget, -⟩ := hp.infoAt_cases (hmem e he) hj
    have hle := hp.le_of_mem _ (hp.column_mem info' (List.mem_of_getElem? hget))
    have htype' := hp.type_eq k info' hget
    obtain rfl : k = i := by omega
    obtain ⟨rfl, hmatch⟩ := hacts e he info' hj
    exact ⟨hmatch, fun e' he' hj' hne' => absurd (hacts e' he' _ hj').2 hne'⟩
  · intro hnot
    refine fold_bindedValue_null hp hmem (fun e he info' hj => ?_) rfl
    exact absurd ((hacts e he info' hj).2 ▸ hmem e he) hnot

omit hp hr in
/-- The order in which a content and its match value are bound. -/
theorem split_either {es : List (ℕ × Value)} (hnodup : (es.map Prod.fst).Nodup) {a b : ℕ × Value}
    (ha : a ∈ es) (hb : b ∈ es) (hab : a.1 ≠ b.1) :
    (∃ l₁ l₂ l₃, es = l₁ ++ a :: (l₂ ++ b :: l₃)) ∨
    ∃ l₁ l₂ l₃, es = l₁ ++ b :: (l₂ ++ a :: l₃) := by
  have ha' : a.1 ∈ es.map Prod.fst := List.mem_map_of_mem ha
  have hne : (es.map Prod.fst).idxOf a.1 ≠ (es.map Prod.fst).idxOf b.1 := fun h =>
    hab ((List.idxOf_inj ha').mp h)
  rcases lt_or_gt_of_ne hne with h | h
  · exact Or.inl (split_two hnodup ha hb hab h)
  · exact Or.inr (split_two hnodup hb ha hab.symm h)

/-- The cell of a content that is completed while it is bound, or kept. -/
theorem cell_of_owns {j : ℕ} {owner : BindInfo} (ho : stmt.Owns j owner) {v : Value}
    (hv : (owner.columnBindIndex, v) ∈ r.binds) (hd : v.isData = true)
    (hfail : (r.bindAll z stmt .fresh).compressFail = false) :
    (owner.matchColumnBindIndex = 0 ∧ ∃ c, encodeCell z r.can (ownDictionary owner.columnInfo).1
      (ownDictionary owner.columnInfo).2 v.isText v.blobValue = some c ∧
        (r.bindAll z stmt .fresh).cell j owner = ⟨c.1, c.2, .null⟩) ∨
    (owner.matchColumnBindIndex ≠ 0 ∧
      stmt.infoAt owner.matchColumnBindIndex = some (j, owner) ∧
      ∃ n kept, (owner.matchColumnBindIndex, .integer n) ∈ r.binds ∧ ∃ c,
        encodeCell z r.can .zstdDict (owner.columnInfo.getMatchDictId n) v.isText v.blobValue =
          some c ∧ (r.bindAll z stmt .fresh).cell j owner = ⟨c.1, c.2, kept⟩) ∨
    (owner.matchColumnBindIndex ≠ 0 ∧ (owner.matchColumnBindIndex ∈ stmt.parameters →
      stmt.infoAt owner.matchColumnBindIndex ≠ some (j, owner)) ∧
        (r.bindAll z stmt .fresh).cell j owner = ⟨.null, .null, v⟩) := by
  have hframe := ho.framed (z := z) hp hr
  have hbegin : (r.begin .fresh).cell j owner = ⟨.null, .null, .null⟩ := by
    rw [Round.begin_fresh]
    rfl
  have hbegin' {t : BindState} (ht : t.cell j owner = (r.begin .fresh).cell j owner) :
      t.bindedValue j = .null := congrArg Cell.kept (ht.trans hbegin)
  by_cases hown : owner.matchColumnBindIndex ∈ stmt.parameters ∧
      stmt.infoAt owner.matchColumnBindIndex = some (j, owner)
  · obtain ⟨hm, hat⟩ := hown
    have hpos := hp.pos_of_mem _ hm
    obtain ⟨⟨k, w⟩, hw, heq⟩ := List.mem_map.mp (hr.once.mem_iff.mpr hm)
    cases heq
    obtain ⟨n, rfl⟩ := hr.integer owner (List.mem_of_getElem? ho.get) w hw
    have hact : ∀ k ∈ stmt.parameters, ∀ info', stmt.infoAt k = some (j, info') →
        k = owner.columnBindIndex ∨ k = owner.matchColumnBindIndex := fun k hk info' h =>
      (acts_on_cell hp ho.get hk h).imp_right And.left
    refine Or.inr (Or.inl ⟨by omega, hat, n, ?_⟩)
    rcases split_either (hr.nodup hp) hv hw ho.apart with ⟨l₁, l₂, l₃, heq⟩ | ⟨l₁, l₂, l₃, heq⟩
    · obtain ⟨t, u, ht, htfail, hu, hufail, hcell⟩ := cell_two hp hr hframe heq hact hfail
      refine ⟨v, hw, ?_⟩
      -- the content is kept, and the match value completes it
      have hkept : u.bindedValue j = v := by
        rcases cell_content hp ho htfail with ⟨hd', -⟩ | ⟨-, h0, -⟩ | ⟨-, -, -, hc⟩ | ⟨-,
          -, hnull, -⟩
        · simp [hd] at hd'
        · omega
        · exact congrArg Cell.kept (hu.trans hc)
        · exact absurd (hbegin' ht) hnull
      rcases cell_match hp ho hm hat hufail with ⟨hnull, -⟩ | ⟨-, c, henc, hc⟩
      · rw [hkept] at hnull
        rw [hnull] at hd
        cases hd
      · rw [hkept] at henc hc
        exact ⟨c, henc, hcell.trans hc⟩
    · obtain ⟨t, u, ht, htfail, hu, hufail, hcell⟩ := cell_two hp hr hframe heq
        (fun k hk info' h => (hact k hk info' h).symm) hfail
      refine ⟨.integer n, hw, ?_⟩
      -- the match value is kept, and the content completes it
      have hkept : u.bindedValue j = .integer n := by
        rcases cell_match hp ho hm hat htfail with ⟨-, hc⟩ | ⟨hnull, -⟩
        · exact congrArg Cell.kept (hu.trans hc)
        · exact absurd (hbegin' ht) hnull
      rcases cell_content hp ho hufail with ⟨hd', -⟩ | ⟨-, h0, -⟩ | ⟨-, -, hnull, -⟩ |
        ⟨-, -, -, c, henc, hc⟩
      · simp [hd] at hd'
      · omega
      · rw [hkept] at hnull
        cases hnull
      · rw [hkept] at henc hc
        exact ⟨c, henc, hcell.trans hc⟩
  · have honly : ∀ k ∈ stmt.parameters, ∀ info', stmt.infoAt k = some (j, info') →
        k = owner.columnBindIndex := by
      intro k hk info' h
      refine (acts_on_cell hp ho.get hk h).resolve_right fun ⟨h₁, h₂⟩ => hown ⟨h₁ ▸ hk, h₂⟩
    obtain ⟨t, ht, htfail, hcell⟩ := cell_content_only hp hr hframe hv honly hfail
    rw [hcell]
    rcases cell_content hp ho htfail with ⟨hd', -⟩ | ⟨-, h0, c, henc, hc⟩ | ⟨-, hpos, -, hc⟩ |
      ⟨-, -, hnull, -⟩
    · simp [hd] at hd'
    · exact Or.inl ⟨h0, c, henc, hc.trans (by rw [hbegin' ht])⟩
    · refine Or.inr (Or.inr ⟨by omega, fun hm h => hown ⟨hm, h⟩, hc.trans ?_⟩)
      rw [ht, hbegin]
    · exact absurd (hbegin' ht) hnull

end Round

/-! ### When a content reads as it was bound -/

/-- The dictionary with which the content of a bind info is compressed for a row: its own, that of
the match value selected with the row, or that of the match value bound to it. A match parameter
that belongs to another bind info completes nothing. -/
def Round.dictionary (stmt : Statement) (r : Round) (row : List (Value × Value)) (j : ℕ)
    (info : BindInfo) : Option (CompressedType × ℕ) :=
  let dictId := info.columnInfo.getMatchDictId
  if info.matchColumnBindIndex = 0 then some (ownDictionary info.columnInfo)
  else if info.matchColumnBindIndex = selectedMatchValueBindIndex then
    some (.zstdDict, dictId (row.getD j (.null, .null)).2.intValue)
  else if stmt.infoAt info.matchColumnBindIndex = some (j, info) then
    (r.binds.lookup info.matchColumnBindIndex).map fun n => (.zstdDict, dictId n.intValue)
  else none

/-- Compression makes a content shorter. -/
def Shrinks (z : Zstd) (can : Bool) (dictId : ℕ) (v : Value) : Prop :=
  can = true ∧ ∃ frame, z.compress v.blobValue dictId = some frame ∧
    frame.length < v.blobValue.length

/-- **The condition on a content.** Text or a blob is compressed through the bind info that owns
its parameter, which must have a dictionary; and if it becomes shorter, that bind info must be the
one of the column, and the dictionary id must go with its type. -/
def Round.StoredRight (z : Zstd) (stmt : Statement) (r : Round) (row : List (Value × Value)) (i : ℕ)
    (info : BindInfo) (v : Value) : Prop :=
  v.isData = true → ∃ j owner d, stmt.infoAt info.columnBindIndex = some (j, owner) ∧
    r.dictionary stmt row j owner = some d ∧ (Shrinks z r.can d.2 v → j = i ∧ DictFits d.1 d.2)

section Reads

variable {z : Zstd} {can : Bool} {d : CompressedType × ℕ} {v : Value} {c : Value × Value}

theorem dataValue_of_isData (hd : v.isData = true) : dataValue v.isText v.blobValue = v := by
  rw [dataValue_isText_blobValue, Value.restored_of_isData hd]

/-- A cell stands for its content unless it holds a frame whose dictionary does not fit. -/
theorem storedAs_of_fits (hd : v.isData = true)
    (h : encodeCell z can d.1 d.2 v.isText v.blobValue = some c)
    (hfits : Shrinks z can d.2 v → DictFits d.1 d.2) : StoredAs z v c.1 c.2 := by
  have hstored := storedAs_encodeCell h fun frame hcan hframe hshort =>
    hfits ⟨hcan, frame, hframe, hshort⟩
  rwa [dataValue_of_isData hd] at hstored

/-- A frame whose dictionary does not fit cannot be read. -/
theorem fits_of_reads (hz : z.Lawful) (htype : d.1 = .zstdDict ∨ d = (.zstdNormal, 0))
    (h : encodeCell z can d.1 d.2 v.isText v.blobValue = some c)
    (hreads : wcdbDecompress z c.1 c.2 = some v) (hshrinks : Shrinks z can d.2 v) :
    DictFits d.1 d.2 := by
  obtain ⟨hcan, frame, hframe, hshort⟩ := hshrinks
  rcases htype with htype | rfl
  · refine Or.inl ⟨htype, fun hid => ?_⟩
    obtain ⟨-, frame', hframe', -, rfl⟩ | ⟨hlong, -, -⟩ := encodeCell_cases h
    · -- the frame was made without dictionary, and the reader asks for one
      have hdict := hz.frame_dict _ _ _ hframe'
      have hne := hz.frame_ne_nil _ _ _ hframe'
      rw [hid] at hdict
      revert hreads
      cases v.isText <;> simp [wcdbDecompress, htype, mergeCompressionType, CompressedType.toInt,
        Value.intValue, hne, decompressContent, frameDictId, hdict]
    · exact absurd (hlong hcan frame hframe) (not_le.mpr hshort)
  · exact Or.inr ⟨rfl, rfl⟩

/-- Without its type, a cell stands for its content unless it holds a frame. -/
theorem storedAs_null_of_not_shrinks (hd : v.isData = true)
    (h : encodeCell z can d.1 d.2 v.isText v.blobValue = some c) (hshrinks : ¬Shrinks z can d.2 v) :
    StoredAs z v c.1 .null := by
  obtain ⟨hcan, frame, hframe, hshort, -⟩ | ⟨-, hraw, -⟩ := encodeCell_cases h
  · exact absurd ⟨hcan, frame, hframe, hshort⟩ hshrinks
  · rw [hraw, dataValue_of_isData hd]
    exact .raw rfl

/-- A frame without its type reads as the frame. -/
theorem not_shrinks_of_reads_null (h : encodeCell z can d.1 d.2 v.isText v.blobValue = some c)
    (hreads : wcdbDecompress z c.1 .null = some v) : ¬Shrinks z can d.2 v := by
  rintro ⟨hcan, frame, hframe, hshort⟩
  obtain ⟨-, frame', -, hshort', rfl⟩ | ⟨hlong, -, -⟩ := encodeCell_cases h
  · rw [show wcdbDecompress z (.blob frame') .null = some (.blob frame') from
      wcdbDecompress_raw false frame' rfl] at hreads
    obtain rfl : Value.blob frame' = v := Option.some.inj hreads
    exact absurd hshort' (lt_irrefl _)
  · exact absurd (hlong hcan frame hframe) (not_le.mpr hshort)

end Reads

section Rows

variable {z : Zstd} {stmt : Statement} {r : Round}

/-- The dictionaries that the code uses. -/
theorem Round.dictionary_type {row : List (Value × Value)} {j : ℕ} {info : BindInfo}
    {d : CompressedType × ℕ} (h : r.dictionary stmt row j info = some d) :
    d.1 = .zstdDict ∨ d = (.zstdNormal, 0) := by
  simp only [Round.dictionary] at h
  split_ifs at h
  · cases h
    rw [ownDictionary]
    split_ifs
    · exact Or.inl rfl
    · exact Or.inr rfl
  · cases h
    exact Or.inl rfl
  · obtain ⟨n, -, rfl⟩ := Option.map_eq_some_iff.mp h
    exact Or.inl rfl

variable (z stmt r) in
/-- The parameters with which a row is written. -/
structure Round.Bound (row : List (Value × Value)) (t : BindState) : Prop where
  raw : ∀ (info : BindInfo) (v : Value), (info.columnBindIndex, v) ∈ r.binds →
    info ∈ stmt.infos → v.isData = false → t.params info.columnBindIndex = v
  orphan : ∀ (i j : ℕ) (info owner : BindInfo), stmt.infos[i]? = some info → stmt.Owns j owner →
    owner.columnBindIndex = info.columnBindIndex → j ≠ i → t.params info.typeBindIndex = .null
  owner : ∀ (j : ℕ) (owner : BindInfo) (v : Value), stmt.Owns j owner →
    (owner.columnBindIndex, v) ∈ r.binds → v.isData = true →
      (∃ d c, r.dictionary stmt row j owner = some d ∧
        encodeCell z r.can d.1 d.2 v.isText v.blobValue = some c ∧
          t.params owner.columnBindIndex = c.1 ∧ t.params owner.typeBindIndex = c.2) ∨
      (r.dictionary stmt row j owner = none ∧ t.params owner.columnBindIndex = .null)

/-- The condition in terms of the bind info that owns the parameter of the content. -/
theorem Round.storedRight_iff (row : List (Value × Value)) {i j : ℕ} {info owner : BindInfo}
    {v : Value} (hd : v.isData = true)
    (hat : stmt.infoAt info.columnBindIndex = some (j, owner)) :
    r.StoredRight z stmt row i info v ↔ ∃ d, r.dictionary stmt row j owner = some d ∧
      (Shrinks z r.can d.2 v → j = i ∧ DictFits d.1 d.2) := by
  constructor
  · intro h
    obtain ⟨j', owner', d, hat', hdict, hshrinks⟩ := h hd
    cases hat.symm.trans hat'
    exact ⟨d, hdict, hshrinks⟩
  · rintro ⟨d, hdict, hshrinks⟩ -
    exact ⟨j, owner, d, hat, hdict, hshrinks⟩

namespace Round.Bound

variable (hp : stmt.Prepared) (hr : r.WellFormed stmt) {row : List (Value × Value)} {t : BindState}
  (hb : r.Bound z stmt row t) {i : ℕ} {info : BindInfo} (hi : stmt.infos[i]? =
    some info) {v : Value}
  (hv : (info.columnBindIndex, v) ∈ r.binds)
include hp hr hb hi hv

/-- **Under the condition a cell stands for what was bound.** -/
theorem storedAs (h : r.StoredRight z stmt row i info v) :
    StoredAs z v (t.params info.columnBindIndex) (t.params info.typeBindIndex) := by
  by_cases hd : v.isData = true
  · obtain ⟨j, owner, ho, hsame⟩ := owner_of_isData hp hr hi hv hd
    obtain ⟨d, hdict, hshrinks⟩ := (storedRight_iff row hd (hsame ▸ ho.content)).mp h
    rw [← hsame]
    rcases hb.owner j owner v ho (hsame ▸ hv) hd with ⟨d', c, hdict', henc, h₁, h₂⟩ | ⟨hdict', -⟩
    · cases hdict.symm.trans hdict'
      rw [h₁]
      by_cases hij : j = i
      · subst hij
        obtain rfl : owner = info := Option.some.inj (ho.get.symm.trans hi)
        rw [h₂]
        exact storedAs_of_fits hd henc fun h => (hshrinks h).2
      · rw [hb.orphan i j info owner hi ho hsame hij]
        exact storedAs_null_of_not_shrinks hd henc fun h => hij (hshrinks h).1
    · rw [hdict] at hdict'
      cases hdict'
  · have hd' : v.isData = false := Bool.not_eq_true _ ▸ hd
    rw [hb.raw info v hv (List.mem_of_getElem? hi) hd']
    exact .plain hd' _

/-- A cell that reads as what was bound meets the condition. -/
theorem storedRight_of_reads (hz : z.Lawful)
    (h : wcdbDecompress z (t.params info.columnBindIndex) (t.params info.typeBindIndex) = some v) :
    r.StoredRight z stmt row i info v := by
  intro hd
  obtain ⟨j, owner, ho, hsame⟩ := owner_of_isData hp hr hi hv hd
  refine (storedRight_iff row hd (hsame ▸ ho.content)).mpr ?_ hd
  rw [← hsame] at h
  rcases hb.owner j owner v ho (hsame ▸ hv) hd with ⟨d, c, hdict, henc, h₁, h₂⟩ | ⟨-, h₁⟩
  · rw [h₁] at h
    refine ⟨d, hdict, fun hshrinks => ?_⟩
    by_cases hij : j = i
    · subst hij
      obtain rfl : owner = info := Option.some.inj (ho.get.symm.trans hi)
      rw [h₂] at h
      exact ⟨rfl, fits_of_reads hz (r.dictionary_type hdict) henc h hshrinks⟩
    · rw [hb.orphan i j info owner hi ho hsame hij] at h
      exact absurd hshrinks (not_shrinks_of_reads_null henc h)
  · rw [h₁] at h
    cases h
    cases hd

end Round.Bound

variable (z stmt r) in
/-- The parameters once everything is bound: contents whose match value is selected are kept. -/
structure Round.Ready (s : BindState) : Prop where
  raw : ∀ (info : BindInfo) (v : Value), (info.columnBindIndex, v) ∈ r.binds →
    info ∈ stmt.infos → v.isData = false → s.params info.columnBindIndex = v
  orphan : ∀ (i j : ℕ) (info owner : BindInfo), stmt.infos[i]? = some info → stmt.Owns j owner →
    owner.columnBindIndex = info.columnBindIndex → j ≠ i → s.params info.typeBindIndex = .null
  owner : ∀ (j : ℕ) (owner : BindInfo) (v : Value), stmt.Owns j owner →
    (owner.columnBindIndex, v) ∈ r.binds → v.isData = true →
      if owner.matchColumnBindIndex = selectedMatchValueBindIndex then s.bindedValue j = v
      else ∀ row,
        (∃ d c, r.dictionary stmt row j owner = some d ∧
          encodeCell z r.can d.1 d.2 v.isText v.blobValue = some c ∧
            s.params owner.columnBindIndex = c.1 ∧ s.params owner.typeBindIndex = c.2) ∨
        (r.dictionary stmt row j owner = none ∧ s.params owner.columnBindIndex = .null)
  selects : ∀ (j : ℕ) (info : BindInfo), stmt.infos[j]? = some info → Selects s j info →
    stmt.Owns j info ∧ ∃ v, (info.columnBindIndex, v) ∈ r.binds ∧ v.isData = true

/-- **Binding makes a statement ready.** -/
theorem Round.ready_bindAll (hp : stmt.Prepared) (hr : r.WellFormed stmt)
    (hfail : (r.bindAll z stmt .fresh).compressFail = false) :
    r.Ready z stmt (r.bindAll z stmt .fresh) := by
  have hselected : selectedMatchValueBindIndex ∉ stmt.parameters := fun h =>
    absurd (hp.le_of_mem _ h) (not_le.mpr hp.max_lt)
  refine ⟨fun info v hv _ hd => params_of_not_isData hp hr hv hd,
    fun i j info owner hi ho hsame hne => (type_of_not_owns hp hr hi ho hsame hne).1, ?_, ?_⟩
  · intro j owner v ho hv hd
    rcases cell_of_owns (z := z) hp hr ho hv hd hfail with ⟨h0, c, henc, hc⟩ |
      ⟨h0, hat, n, kept, hn, c, henc, hc⟩ | ⟨h0, hother, hc⟩
    · rw [if_neg (by rw [h0]; decide)]
      intro row
      exact Or.inl ⟨_, c, by rw [Round.dictionary, if_pos h0], henc, congrArg Cell.content hc,
        congrArg Cell.type hc⟩
    · have hsel : owner.matchColumnBindIndex ≠ selectedMatchValueBindIndex := fun h =>
        hselected (h ▸ hr.mem_parameters hn)
      rw [if_neg hsel]
      intro row
      refine Or.inl ⟨(.zstdDict, owner.columnInfo.getMatchDictId n), c, ?_, henc,
        congrArg Cell.content hc, congrArg Cell.type hc⟩
      rw [Round.dictionary, if_neg h0, if_neg hsel, if_pos hat,
        Round.WellFormed.lookup_of_mem hp hr hn]
      rfl
    · split_ifs with hsel
      · exact congrArg Cell.kept hc
      · intro row
        have hm : owner.matchColumnBindIndex ∈ stmt.parameters :=
          ((hp.match_mem owner (List.mem_of_getElem? ho.get)).resolve_left h0).resolve_right
            fun h => hsel h.2
        refine Or.inr ⟨?_, congrArg Cell.content hc⟩
        rw [Round.dictionary, if_neg h0, if_neg hsel, if_neg (hother hm)]
  · rintro j info hj ⟨hsel, hkept⟩
    have hm : info.matchColumnBindIndex ∉ stmt.parameters := hsel ▸ hselected
    obtain ⟨⟨k, v⟩, hv, heq⟩ := List.mem_map.mp
      (hr.once.mem_iff.mpr (hp.column_mem info (List.mem_of_getElem? hj)))
    cases heq
    by_cases hd : v.isData = true
    · obtain ⟨j', owner, ho, hsame⟩ := owner_of_isData hp hr hj hv hd
      by_cases hjj : j' = j
      · subst hjj
        obtain rfl : owner = info := Option.some.inj (ho.get.symm.trans hj)
        exact ⟨ho, v, hv, hd⟩
      · exact absurd ((type_of_not_owns hp hr hj ho hsame hjj).2 hm) hkept
    · -- nothing is kept of a content that is not compressed
      refine absurd ?_ hkept
      rw [Round.bindAll, Round.begin_fresh]
      refine fold_bindedValue_null hp (fun e he => hr.mem_parameters he) ?_ rfl
      intro e he info' hinfo'
      obtain ⟨hget, hcases⟩ := hp.infoAt_cases (hr.mem_parameters he) hinfo'
      obtain rfl : info = info' := Option.some.inj (hj.symm.trans hget)
      have hne : e.1 ≠ info.matchColumnBindIndex := fun h => hm (h ▸ hr.mem_parameters he)
      obtain rfl : e = (info.columnBindIndex, v) :=
        List.inj_on_of_nodup_map (hr.nodup hp) he hv (hcases.resolve_right hne)
      exact ⟨hne, Bool.not_eq_true _ ▸ hd⟩

/-- A statement that selects no match values is bound when it is ready. -/
theorem Round.Ready.bound {s : BindState} (h : r.Ready z stmt s)
    (hsel : ∀ info ∈ stmt.infos, info.matchColumnBindIndex ≠ selectedMatchValueBindIndex)
    (row : List (Value × Value)) : r.Bound z stmt row s := by
  refine ⟨h.raw, h.orphan, fun j owner v ho hv hd => ?_⟩
  have howner := h.owner j owner v ho hv hd
  rw [if_neg (hsel owner (List.mem_of_getElem? ho.get))] at howner
  exact howner row

/-- Selecting the match values of a row binds its parameters, and leaves the statement ready for
the next row. -/
theorem Round.Ready.bindSelected (hp : stmt.Prepared) (hr : r.WellFormed stmt) {s : BindState}
    (h : r.Ready z stmt s) (row : List (Value × Value))
    (hfail : (Wcdb.bindSelected z r.can (fun i => (row.getD i (.null, .null)).2) stmt.infos.zipIdx
      s).compressFail = false) :
    let t := Wcdb.bindSelected z r.can (fun i => (row.getD i (.null, .null)).2) stmt.infos.zipIdx s
    r.Ready z stmt t ∧ r.Bound z stmt row t := by
  intro t
  obtain ⟨hkept, hparams⟩ := bindSelected_frame (z := z) r.can
    (fun i => (row.getD i (.null, .null)).2) stmt.infos.zipIdx s
  have hkept' : ∀ j, t.bindedValue j = s.bindedValue j := congrFun hkept
  have hunique : ∀ {j j' : ℕ} {owner owner' : BindInfo}, stmt.Owns j owner → stmt.Owns j' owner' →
      owner.columnBindIndex = owner'.columnBindIndex → j = j' := by
    intro j j' owner owner' ho ho' hsame
    have := ho.content
    rw [hsame, ho'.content] at this
    exact (Prod.ext_iff.mp (Option.some.inj this)).1.symm
  have hraw : ∀ (info : BindInfo) (v : Value), (info.columnBindIndex, v) ∈ r.binds →
      info ∈ stmt.infos → v.isData = false → t.params info.columnBindIndex = v := by
    intro info v hv hmem hd
    refine (hparams _ fun e he hsel => ?_).trans (h.raw info v hv hmem hd)
    have hget := List.mem_zipIdx_iff_getElem?.mp he
    obtain ⟨-, v', hv', hd'⟩ := h.selects e.2 e.1 hget hsel
    have hle := hp.le_of_mem _ (hp.column_mem info hmem)
    have htype := hp.type_eq e.2 e.1 hget
    refine ⟨fun hsame => ?_, by omega⟩
    obtain rfl : v = v' :=
      (Prod.ext_iff.mp (List.inj_on_of_nodup_map (hr.nodup hp) hv hv' hsame)).2
    rw [hd] at hd'
    cases hd'
  have horphan : ∀ (i j : ℕ) (info owner : BindInfo), stmt.infos[i]? = some info →
      stmt.Owns j owner → owner.columnBindIndex = info.columnBindIndex → j ≠ i →
        t.params info.typeBindIndex = .null := by
    intro i j info owner hi ho hsame hne
    refine (hparams _ fun e he hsel => ?_).trans (h.orphan i j info owner hi ho hsame hne)
    have hget := List.mem_zipIdx_iff_getElem?.mp he
    have hle := hp.le_of_mem _ (hp.column_mem e.1 (List.mem_of_getElem? hget))
    have htype := hp.type_eq e.2 e.1 hget
    have htype' := hp.type_eq i info hi
    refine ⟨by omega, fun heq => ?_⟩
    obtain rfl : e.2 = i := by omega
    obtain rfl : e.1 = info := Option.some.inj (hget.symm.trans hi)
    exact hne (hunique ho (h.selects e.2 e.1 hget hsel).1 hsame)
  have hcell : ∀ {j : ℕ} {owner : BindInfo}, stmt.Owns j owner → _ := fun {j owner} ho =>
    bindSelected_cell (z := z) hp r.can (fun i => (row.getD i (.null, .null)).2) ho.get s
      fun j' info' hj' hsel hsame => hunique (h.selects j' info' hj' hsel).1 ho hsame
  have hsame : ∀ {j : ℕ} {owner : BindInfo}, stmt.Owns j owner →
      owner.matchColumnBindIndex ≠ selectedMatchValueBindIndex →
        t.params owner.columnBindIndex = s.params owner.columnBindIndex ∧
          t.params owner.typeBindIndex = s.params owner.typeBindIndex := by
    intro j owner ho hm
    have hleft := (hcell ho).1 fun hsel => hm hsel.1
    exact ⟨congrArg Cell.content hleft, congrArg Cell.type hleft⟩
  refine ⟨⟨hraw, horphan, ?_, ?_⟩, hraw, horphan, ?_⟩
  · intro j owner v ho hv hd
    have howner := h.owner j owner v ho hv hd
    split_ifs with hm
    · rw [if_pos hm] at howner
      rw [hkept', howner]
    · rw [if_neg hm] at howner
      rwa [(hsame ho hm).1, (hsame ho hm).2]
  · intro j info hj hsel
    rw [Selects, hkept'] at hsel
    exact h.selects j info hj hsel
  · intro j owner v ho hv hd
    have howner := h.owner j owner v ho hv hd
    split_ifs at howner with hm
    · have hsel : Selects s j owner := ⟨hm, by rintro h'; rw [← howner, h'] at hd; cases hd⟩
      obtain ⟨-, hsome, hcompleted⟩ := hcell ho
      obtain ⟨c, hc⟩ := Option.isSome_iff_exists.mp (hsome hsel hfail)
      have ht := hcompleted hsel c hc
      rw [howner] at hc
      refine Or.inl ⟨(.zstdDict, owner.columnInfo.getMatchDictId
        (row.getD j (.null, .null)).2.intValue), c, ?_, hc, congrArg Cell.content ht,
        congrArg Cell.type ht⟩
      rw [Round.dictionary, if_neg (by rw [hm]; decide), if_pos hm]
    · rw [(hsame ho hm).1, (hsame ho hm).2]
      exact howner row

/-- A failure stays until the last row. -/
theorem stepSelected_compressFail {rows : List (List (Value × Value))} {s : BindState}
    (h : (stepSelected z stmt r.can rows s).2.compressFail = false) : s.compressFail = false := by
  induction rows generalizing s with
  | nil => exact h
  | cons row rows ih => exact bindSelected_compressFail (ih h)

/-- The rows of an `UPDATE` that selects the match values. -/
theorem Round.Ready.stepSelected (hp : stmt.Prepared) (hr : r.WellFormed stmt)
    {rows : List (List (Value × Value))} {s : BindState} (h : r.Ready z stmt s)
    (hfail : (Wcdb.stepSelected z stmt r.can rows s).2.compressFail = false) {k : ℕ}
    {row : WrittenRow} (hrow : (Wcdb.stepSelected z stmt r.can rows s).1[k]? = some row) :
    ∃ t, r.Bound z stmt (rows.getD k []) t ∧ row.cells = boundCells stmt t := by
  induction rows generalizing s k with
  | nil => cases hrow
  | cons source rows ih =>
    obtain ⟨hready, hbound⟩ := h.bindSelected hp hr source (stepSelected_compressFail hfail)
    cases k with
    | zero =>
      cases hrow
      exact ⟨_, hbound, rfl⟩
    | succ k => exact ih hready hfail hrow

/-- **The first round of a fresh statement**: in every row that it writes, a content is read as it
was bound exactly under the condition. -/
theorem storedRight_first_round (hz : z.Lawful) (hp : stmt.Prepared) (hr : r.WellFormed stmt)
    {rows : List WrittenRow} {s : BindState} (hround : round z stmt .fresh r = (some rows, s))
    (hfail : s.compressFail = false) {k : ℕ} {row : WrittenRow} (hrow : rows[k]? = some row)
    {i : ℕ} {info : BindInfo} (hi : stmt.infos[i]? = some info) {v : Value}
    (hv : (info.columnBindIndex, v) ∈ r.binds) :
    ∃ cell, row.cells[i]? = some cell ∧
      (r.StoredRight z stmt (r.rows.getD k []) i info v → StoredAs z v cell.1 cell.2) ∧
      (wcdbDecompress z cell.1 cell.2 = some v →
        r.StoredRight z stmt (r.rows.getD k []) i info v) := by
  have hbound : ∃ t, r.Bound z stmt (r.rows.getD k []) t ∧ row.cells = boundCells stmt t := by
    have hready : r.bound z stmt .fresh = r.bindAll z stmt .fresh :=
      Round.bound_of_ready fun _ => rfl
    simp only [round, stepRows, hready] at hround
    split_ifs at hround with hbind
    · cases hround
    have hready := r.ready_bindAll hp hr (Bool.not_eq_true _ ▸ hbind)
    cases hmode : stmt.mode with
    | direct =>
      simp only [hmode, Prod.mk.injEq, Option.some.injEq] at hround
      obtain ⟨rfl, -⟩ := hround
      obtain rfl : row = ⟨boundCells stmt _, _⟩ := List.mem_singleton.mp (List.mem_of_getElem? hrow)
      refine ⟨_, hready.bound (fun info hinfo hsel => ?_) _, rfl⟩
      -- only an UPDATE selects match values
      rcases hp.match_mem info hinfo with h0 | hmem | ⟨hmode', -⟩
      · rw [hsel] at h0
        cases h0
      · exact absurd (hp.le_of_mem _ hmem) (not_le.mpr (hsel ▸ hp.max_lt))
      · rw [hmode] at hmode'
        cases hmode'
    | selectMatch =>
      simp only [hmode, Prod.mk.injEq, Option.some.injEq] at hround
      obtain ⟨rfl, rfl⟩ := hround
      exact hready.stepSelected hp hr hfail hrow
    | twoStep =>
      rw [hp.infos_of_twoStep hmode] at hi
      cases hi
  obtain ⟨t, hbound, hcells⟩ := hbound
  exact ⟨_, hcells ▸ boundCells_get hi t, hbound.storedAs hp hr hi hv,
    hbound.storedRight_of_reads hp hr hi hv hz⟩

end Rows

end Wcdb
