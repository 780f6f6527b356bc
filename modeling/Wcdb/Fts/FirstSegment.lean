import Wcdb.Fts.SubstringMatchInfo

/-!
# Parts of a text and groups of instances

What the tokens and the groups of instances say about the parts of a text between separators, apart
from the state of `SubstringMatchInfo`. `Part` is the situation before a token: the part that is
gone over, the groups of instances before and behind the token, and the separators that are to come.
A part that is over has delivered its phrases (`Part.phrases_subset`), and one that has delivered
all phrases holds them (`Part.holdsAll`). A separator begins the next part (`Part.separator`), and
any other token goes on with it (`Part.token`).
-/

namespace Wcdb.SubstringMatchInfo

variable {c : Arguments} {row : Row} {ts : List Token}

/-! ### Tokens -/

section Tokens

variable {i j : ℕ}

theorem tokenAt_eq (h : i < ts.length) : tokenAt ts i = ts[i] := by
  rw [tokenAt, List.getD_eq_getElem?_getD, List.getElem?_eq_getElem h, Option.getD_some]

theorem tokenAt_mem (h : i < ts.length) : tokenAt ts i ∈ ts := by
  rw [tokenAt_eq h]
  exact List.getElem_mem h

namespace Tokenized

variable (h : Tokenized c row.text ts)
include h

theorem start_le (hij : i ≤ j) (hj : j < ts.length) :
    (tokenAt ts i).startOff ≤ (tokenAt ts j).startOff := by
  rcases hij.eq_or_lt with rfl | hlt
  · exact Nat.le_refl _
  · have hi := hlt.trans hj
    rw [tokenAt_eq hi, tokenAt_eq hj]
    exact List.pairwise_iff_getElem.mp h.ordered i j hi hj hlt

/-- A separator shares no byte with another token. -/
theorem stop_le (hij : i < j) (hj : j < ts.length)
    (hsep : levelOf c (tokenAt ts i) ≠ none ∨ levelOf c (tokenAt ts j) ≠ none) :
    (tokenAt ts i).stopOff ≤ (tokenAt ts j).startOff := by
  have hi := hij.trans hj
  rw [tokenAt_eq hi, tokenAt_eq hj] at hsep ⊢
  exact List.pairwise_iff_getElem.mp h.own i j hi hj hij hsep

theorem start_lt_stop (hi : i < ts.length) : (tokenAt ts i).startOff < (tokenAt ts i).stopOff :=
  (h.inside _ (tokenAt_mem hi)).1

theorem stop_le_length (hi : i < ts.length) : (tokenAt ts i).stopOff ≤ row.text.length :=
  (h.inside _ (tokenAt_mem hi)).2

/-- The token of a separator of the text. -/
theorem exists_token {level : ℕ} (hlevel : levelAt c row.text i = some level) :
    ∃ j < ts.length, (tokenAt ts j).startOff = i ∧ levelOf c (tokenAt ts j) = some level := by
  obtain ⟨t, ht, hstart, hof⟩ := h.every i level hlevel
  obtain ⟨j, hj, rfl⟩ := List.getElem_of_mem ht
  refine ⟨j, hj, ?_⟩
  rw [tokenAt_eq hj]
  exact ⟨hstart, hof⟩

end Tokenized

end Tokens

/-! ### Groups of instances -/

section Groups

/-- The groups of the instances of the column. -/
def Row.groups (row : Row) (c : Arguments) : List Group := SubstringMatchInfo.groups (row.spans c)

/-- The phrases of some groups. -/
def phrasesOf (gs : List Group) : Finset ℕ := (gs.flatMap Group.phrases).toFinset

theorem mem_phrasesOf {gs : List Group} {p : ℕ} : p ∈ phrasesOf gs ↔ ∃ g ∈ gs, p ∈ g.phrases := by
  rw [phrasesOf, List.mem_toFinset, List.mem_flatMap]

namespace Instances

variable (h : Instances c row ts)
include h

theorem order : InOrder (row.spans c) := by
  refine ⟨h.sorted, fun s hs => ?_⟩
  obtain ⟨inst, hinst, rfl⟩ := List.mem_map.mp hs
  obtain ⟨hmem, hcolumn⟩ := List.mem_filter.mp hinst
  have hsize := h.sized inst hmem (of_decide_eq_true hcolumn)
  simp only [Inst.span]
  omega

theorem of_mem {g : Group} (hg : g ∈ row.groups c) : g.Of (row.spans c) := groups_of h.order g hg

theorem group_last_lt {g : Group} (hg : g ∈ row.groups c) : g.last < ts.length := by
  obtain ⟨s, hs, hlast⟩ := (h.of_mem hg).ends
  rw [← hlast]
  exact h.last_lt s hs

/-- A group holds no separator. -/
theorem group_free {g : Group} (hg : g ∈ row.groups c) {i : ℕ} (hfirst : g.first ≤ i)
    (hlast : i ≤ g.last) : levelOf c (tokenAt ts i) = none := by
  obtain ⟨s, hs, hi, hi'⟩ := (h.of_mem hg).filled i hfirst hlast
  exact h.free s hs i hi hi'

/-- The phrases that occur are those of the groups. -/
theorem mem_phrases {p : ℕ} : p ∈ phrasesOf (row.groups c) ↔ ∃ s ∈ row.spans c, s.phrase = p := by
  rw [mem_phrasesOf]
  constructor
  · rintro ⟨g, hg, hp⟩
    obtain ⟨s, hs, hphrase, -⟩ := (h.of_mem hg).of_mem p hp
    exact ⟨s, hs, hphrase⟩
  · rintro ⟨s, hs, rfl⟩
    obtain ⟨g, hg, hhas⟩ := SubstringMatchInfo.exists_group h.order s hs
    exact ⟨g, hg, hhas.mem⟩

theorem exists_group : ∀ s ∈ row.spans c, ∃ g ∈ row.groups c, g.Has s :=
  SubstringMatchInfo.exists_group h.order

end Instances

/-- A group that reaches into a part begins in it. -/
theorem start_le_of_mem {start i : ℕ} {g : Group} (ht : Tokenized c row.text ts)
    (hi : Instances c row ts)
    (hbegins : start = 0 ∨ ∃ i, start = i + 1 ∧ levelAt c row.text i ≠ none)
    (hg : g ∈ row.groups c) (hfirst : g.first ≤ i) (hlast : i ≤ g.last)
    (hstart : start ≤ (tokenAt ts i).startOff) : start ≤ (tokenAt ts g.first).startOff := by
  rcases hbegins with rfl | ⟨x, rfl, hx⟩
  · exact Nat.zero_le _
  · obtain ⟨level, hlevel⟩ := Option.ne_none_iff_exists'.mp hx
    obtain ⟨j, hj, rfl, hof⟩ := ht.exists_token hlevel
    have hsep : levelOf c (tokenAt ts j) ≠ none := by simp [hof]
    have hstop := (ht.separator _ (tokenAt_mem hj) level hof).2
    have hlt : i < ts.length := hlast.trans_lt (hi.group_last_lt hg)
    -- the separator is before the group
    by_cases hbefore : j < g.first
    · rw [← hstop]
      exact ht.stop_le hbefore (hfirst.trans_lt hlt) (Or.inl hsep)
    · by_cases hin : j ≤ g.last
      · exact absurd (hi.group_free hg (not_lt.mp hbefore) hin) hsep
      · have hstop_le := ht.stop_le (hlast.trans_lt (not_le.mp hin)) hj (Or.inr hsep)
        have hpos := ht.start_lt_stop hlt
        omega

end Groups

/-! ### Groups and parts of the text -/

variable (ts) in
/-- The phrases of the groups that were delivered in a part. -/
def found (start : ℕ) (delivered : List Group) : Finset ℕ :=
  phrasesOf (delivered.filter fun g => start ≤ (tokenAt ts g.first).startOff)

variable (c row ts) in
/-- **The part that is gone over before the token at `k`**: the groups before and from it on, and
the separators that are to come. -/
structure Part (k start : ℕ) (delivered rest : List Group) : Prop where
  groups : row.groups c = delivered ++ rest
  last_lt : ∀ g ∈ delivered, g.last < k
  le_last : ∀ g ∈ rest, k ≤ g.last
  begins : start = 0 ∨
    ∃ j < k, levelOf c (tokenAt ts j) ≠ none ∧ (tokenAt ts j).stopOff = start
  pending : ∀ i level, start ≤ i → levelAt c row.text i = some level →
    ∃ j, k ≤ j ∧ j < ts.length ∧ (tokenAt ts j).startOff = i ∧ levelOf c (tokenAt ts j) = some level
  earlier : ∀ start' stop', Segment c row.text start' stop' → HoldsAll c row ts start' stop' →
    start ≤ start'

namespace Part

variable {k start stop : ℕ} {delivered rest : List Group} {g : Group}

section

variable (h : Part c row ts k start delivered rest) (ht : Tokenized c row.text ts)
  (hi : Instances c row ts)
include h

theorem mem_groups (hg : g ∈ delivered ∨ g ∈ rest) : g ∈ row.groups c := by
  rw [h.groups]
  exact List.mem_append.mpr hg

include ht

/-- The part begins before the next token. -/
theorem start_le (hk : k < ts.length) : start ≤ (tokenAt ts k).startOff := by
  rcases h.begins with rfl | ⟨j, hj, hsep, rfl⟩
  · exact Nat.zero_le _
  · exact ht.stop_le hj hk (Or.inl hsep)

theorem begins_text : start = 0 ∨ ∃ i, start = i + 1 ∧ levelAt c row.text i ≠ none := by
  rcases h.begins with hzero | ⟨j, hj, hsep, hstart⟩
  · exact Or.inl hzero
  · obtain ⟨level, hlevel⟩ := Option.ne_none_iff_exists'.mp hsep
    by_cases hlt : j < ts.length
    · obtain ⟨hat, hstop⟩ := ht.separator _ (tokenAt_mem hlt) level hlevel
      exact Or.inr ⟨_, hstart.symm.trans hstop, by simp [hat]⟩
    · -- there is no token at `j`
      refine Or.inl (hstart.symm.trans ?_)
      rw [tokenAt, List.getD_eq_getElem?_getD, List.getElem?_eq_none (not_lt.mp hlt)]
      rfl

include hi

/-- A group that is to come begins in the part. -/
theorem start_le_group (hg : g ∈ rest) : start ≤ (tokenAt ts g.first).startOff := by
  rcases h.begins with rfl | ⟨j, hj, hsep, rfl⟩
  · exact Nat.zero_le _
  · have hmem := h.mem_groups (Or.inr hg)
    have hfirst := (hi.of_mem hmem).first_le_last
    have hlast := h.le_last g hg
    have hlt : j < g.first := by
      by_contra hnot
      exact hsep (hi.group_free hmem (not_lt.mp hnot) (by omega))
    exact ht.stop_le hlt (hfirst.trans_lt (hi.group_last_lt hmem)) (Or.inl hsep)

/-- A part that is over has delivered its phrases. -/
theorem phrases_subset (hover : rest = [] ∨ (k < ts.length ∧ levelOf c (tokenAt ts k) ≠ none))
    (hsegment : Segment c row.text start stop) (hall : HoldsAll c row ts start stop) :
    phrasesOf (row.groups c) ⊆ found ts start delivered := by
  intro p hp
  obtain ⟨s, hs, rfl⟩ := hi.mem_phrases.mp hp
  obtain ⟨s', hs', hphrase, hwithin⟩ := hall s hs
  obtain ⟨g, hg, hhas⟩ := hi.exists_group s' hs'
  have hle := hi.order.first_le_last s' hs'
  have hstart := (hwithin s'.first (Nat.le_refl _) hle).1
  have hbegin :=
    start_le_of_mem ht hi hsegment.begins hg hhas.first_le (hle.trans hhas.le_last) hstart
  have hdelivered : g ∈ delivered := by
    have hmem : g ∈ delivered ++ rest := by
      rw [← h.groups]
      exact hg
    refine (List.mem_append.mp hmem).resolve_right fun hrest => ?_
    rcases hover with rfl | ⟨hk, hsep⟩
    · cases hrest
    · -- the group is behind the separator at `k`, and so is the instance
      have hlast := h.le_last g hrest
      have hbehind : k < s'.first := by
        by_contra hnot
        have hfirst : g.first ≤ k := hhas.first_le.trans (not_lt.mp hnot)
        exact hsep (hi.group_free hg hfirst hlast)
      have hlt : s'.first < ts.length := hle.trans_lt (hi.last_lt s' hs')
      have hstop_k := ht.stop_le hbehind hlt (Or.inl hsep)
      have hpos := ht.start_lt_stop hlt
      have hpos_k := ht.start_lt_stop hk
      have hstop := (hwithin s'.first (Nat.le_refl _) hle).2
      obtain ⟨level, hlevel⟩ := Option.ne_none_iff_exists'.mp hsep
      have hfree := hsegment.free _ (h.start_le ht hk) (by omega)
      rw [(ht.separator _ (tokenAt_mem hk) level hlevel).1] at hfree
      cases hfree
  rw [found, mem_phrasesOf]
  refine ⟨g, List.mem_filter.mpr ⟨hdelivered, by simpa using hbegin⟩, ?_⟩
  rw [← hphrase]
  exact hhas.mem

/-- A part that has delivered all phrases holds them. -/
theorem holdsAll (hall : phrasesOf (row.groups c) ⊆ found ts start delivered)
    (hsegment : Segment c row.text start stop) : HoldsAll c row ts start stop := by
  intro s hs
  have hp := hall (hi.mem_phrases.mpr ⟨s, hs, rfl⟩)
  rw [found, mem_phrasesOf] at hp
  obtain ⟨g, hg, hphrase⟩ := hp
  obtain ⟨hdelivered, hbegin⟩ := List.mem_filter.mp hg
  have hmem := h.mem_groups (Or.inl hdelivered)
  obtain ⟨s', hs', hsame, hfirst, hlast⟩ := (hi.of_mem hmem).of_mem _ hphrase
  refine ⟨s', hs', hsame, fun i hi' hi'' => ?_⟩
  have hlt : i < k := (hi''.trans hlast).trans_lt (h.last_lt g hdelivered)
  have hlength : i < ts.length := hi''.trans_lt (hi.last_lt s' hs')
  refine ⟨(of_decide_eq_true hbegin).trans (ht.start_le (hfirst.trans hi') hlength), ?_⟩
  rcases hsegment.ends with hend | hend
  · rw [hend]
    exact ht.stop_le_length hlength
  · -- the separator at the end is still to come
    obtain ⟨level, hlevel⟩ := Option.ne_none_iff_exists'.mp hend
    obtain ⟨j, hj, hjlength, hjstart, hjof⟩ := h.pending _ level hsegment.start_le hlevel
    have hstop := ht.stop_le (hlt.trans_le hj) hjlength (Or.inr (by simp [hjof]))
    rwa [hjstart] at hstop

/-- After the last group, a part that misses a phrase is the last one that could hold them all. -/
theorem not_holdsAll (hrest : rest = [])
    (hmissing : ¬ phrasesOf (row.groups c) ⊆ found ts start delivered) {start' stop' : ℕ}
    (hsegment : Segment c row.text start' stop') : ¬ HoldsAll c row ts start' stop' := by
  intro hall
  rcases (h.earlier start' stop' hsegment hall).eq_or_lt with rfl | hlt
  · exact hmissing (h.phrases_subset ht hi (Or.inl hrest) hsegment hall)
  · -- the part begins behind a separator that is still to come, and so behind all groups
    obtain ⟨p, hp, -⟩ := Finset.not_subset.mp hmissing
    obtain ⟨s, hs, -⟩ := hi.mem_phrases.mp hp
    obtain ⟨s', hs', -, hwithin⟩ := hall s hs
    obtain ⟨g, hg, hhas⟩ := hi.exists_group s' hs'
    have hle := hi.order.first_le_last s' hs'
    have hlength := hi.last_lt s' hs'
    rw [h.groups, hrest, List.append_nil] at hg
    have hlast := hhas.le_last.trans_lt (h.last_lt g hg)
    rcases hsegment.begins with hzero | ⟨i, rfl, hsep⟩
    · omega
    · obtain ⟨level, hlevel⟩ := Option.ne_none_iff_exists'.mp hsep
      obtain ⟨j, hj, hjlength, hjstart, hjof⟩ := h.pending i level (by omega) hlevel
      have hstop := ht.stop_le (hlast.trans_le hj) hjlength (Or.inr (by simp [hjof]))
      have hpos := ht.start_lt_stop hlength
      have hstart := (hwithin s'.last hle (Nat.le_refl _)).1
      omega

/-- **A separator**: the part is over and misses a phrase. -/
theorem separator (hk : k < ts.length) {level : ℕ} (hlevel : levelOf c (tokenAt ts k) = some level)
    (hmissing : ¬ phrasesOf (row.groups c) ⊆ found ts start delivered) :
    Part c row ts (k + 1) (tokenAt ts k).stopOff delivered rest := by
  have hsep : levelOf c (tokenAt ts k) ≠ none := by simp [hlevel]
  have hstop := (ht.separator _ (tokenAt_mem hk) level hlevel).2
  have hstart := h.start_le ht hk
  refine ⟨h.groups, fun g hg => Nat.lt_succ_of_lt (h.last_lt g hg), fun g hg => ?_,
    Or.inr ⟨k, Nat.lt_succ_self k, hsep, rfl⟩, fun i level' hle hat => ?_,
    fun start' stop' hsegment hall => ?_⟩
  · have hmem := h.mem_groups (Or.inr hg)
    refine (h.le_last g hg).lt_of_ne fun heq => hsep ?_
    rw [heq]
    exact hi.group_free hmem (hi.of_mem hmem).first_le_last (Nat.le_refl _)
  · obtain ⟨j, hj, hjlength, hjstart, hjof⟩ := h.pending i level' (by omega) hat
    refine ⟨j, hj.lt_of_ne fun heq => ?_, hjlength, hjstart, hjof⟩
    rw [← heq] at hjstart
    omega
  · rcases (h.earlier start' stop' hsegment hall).eq_or_lt with rfl | hlt
    · exact absurd (h.phrases_subset ht hi (Or.inr ⟨hk, hsep⟩) hsegment hall) hmissing
    · rcases hsegment.begins with hzero | ⟨i, rfl, hbegin⟩
      · omega
      · obtain ⟨level', hat⟩ := Option.ne_none_iff_exists'.mp hbegin
        obtain ⟨j, hj, hjlength, hjstart, -⟩ := h.pending i level' (by omega) hat
        have hle := ht.start_le hj hjlength
        omega

omit ht hi in
/-- **Another token.** -/
theorem token {delivered' rest' : List Group} (hnone : levelOf c (tokenAt ts k) = none)
    (hgroups : delivered' ++ rest' = delivered ++ rest) (hlast : ∀ g ∈ delivered', g.last < k + 1)
    (hle : ∀ g ∈ rest', k + 1 ≤ g.last) : Part c row ts (k + 1) start delivered' rest' := by
  refine ⟨h.groups.trans hgroups.symm, hlast, hle, ?_, fun i level hi hat => ?_, h.earlier⟩
  · rcases h.begins with hzero | ⟨j, hj, hsep⟩
    · exact Or.inl hzero
    · exact Or.inr ⟨j, Nat.lt_succ_of_lt hj, hsep⟩
  · obtain ⟨j, hj, hjlength, hjstart, hjof⟩ := h.pending i level hi hat
    refine ⟨j, hj.lt_of_ne fun heq => ?_, hjlength, hjstart, hjof⟩
    rw [← heq, hnone] at hjof
    cases hjof

omit hi in
/-- What is before the next token is free of separators. -/
theorem free {i : ℕ} (hstart : start ≤ i) (hlt : i < (tokenAt ts k).startOff) :
    levelAt c row.text i = none := by
  by_contra hsep
  obtain ⟨level, hlevel⟩ := Option.ne_none_iff_exists'.mp hsep
  obtain ⟨j, hj, hjlength, hjstart, -⟩ := h.pending i level hstart hlevel
  have hle := ht.start_le hj hjlength
  omega

end

end Part

end Wcdb.SubstringMatchInfo
