import Wcdb.Lib.Run
import Wcdb.Lib.Tally

/-!
# `Recyclable`: shared ownership of a value

A `Recyclable<T>` holds a value together with others. They share one atomic counter, and whoever
brings it to zero hands the value to the callback `m_onRecycled`. Databases and handles return to
their pools in this way.

A state has the variables of all threads. Every operation on a variable, with the counters that it
changes, is one step: threads share counters, never variables, and a counter changes by one atomic
instruction at a time. `made` and the number in a `Recycling` record which values were handed in.

* `recycled_once`: in every run, the callback of a value is called once and with this value, when
  the last variable that holds it goes, and not before.
-/

namespace Wcdb

/-- The members of a `Recyclable`. A null pointer or function is `none`; a counter is known by its
number. -/
structure Recyclable (T C : Type) where
  reference : Option ℕ := none
  value : Option T := none
  onRecycled : Option C := none
  deriving DecidableEq, Repr

namespace Recyclable

variable {V T C : Type}

/-- A call of a callback, for the value of a counter. -/
structure Recycling (T C : Type) where
  reference : ℕ
  onRecycled : C
  value : Option T
  deriving DecidableEq, Repr

/-- What was handed to the constructor with a value. -/
structure Made (T C : Type) where
  value : Option T
  onRecycled : Option C
  deriving DecidableEq, Repr

/-- A variable that is not constructed, or destroyed, is `none`. -/
structure Memory (V T C : Type) where
  objects : V → Option (Recyclable T C) := fun _ => none
  counters : ℕ → ℕ := fun _ => 0
  made : List (Made T C) := []
  recycled : List (Recycling T C) := []

namespace Memory

/-! ### `Referenced` -/

def retain (reference : Option ℕ) (s : Memory V T C) : Memory V T C :=
  match reference with
  | none => s
  | some g => { s with counters := Function.update s.counters g (s.counters g + 1) }

/-- `onUnreferenced`. -/
def onUnreferenced (g : ℕ) (r : Recyclable T C) (s : Memory V T C) : Memory V T C :=
  match r.onRecycled with
  | none => s
  | some c => { s with recycled := s.recycled ++ [⟨g, c, r.value⟩] }

/-- The old members of a variable are released. -/
def release (r : Recyclable T C) (s : Memory V T C) : Memory V T C :=
  match r.reference with
  | none => s
  | some g =>
    let s := { s with counters := Function.update s.counters g (s.counters g - 1) }
    if s.counters g = 0 then s.onUnreferenced g r else s

variable [DecidableEq V]

/-- A variable takes new members. -/
def write (v : V) (r : Option (Recyclable T C)) (s : Memory V T C) : Memory V T C :=
  { s with objects := Function.update s.objects v r }

/-! ### `Recyclable` -/

/-- The constructor with a value. -/
def construct (v : V) (value : Option T) (onRecycled : Option C) (s : Memory V T C) :
    Memory V T C :=
  let g := s.made.length
  let s := { s with made := s.made ++ [(⟨value, onRecycled⟩ : Made T C)] }
  (s.retain (some g)).write v (some ⟨some g, value, onRecycled⟩)

/-- The assignment of `nullptr` to a variable that holds `r`. -/
def assignNull (v : V) (r : Recyclable T C) (s : Memory V T C) : Memory V T C :=
  (s.release r).write v (some {})

/-- The copy constructor. -/
def copy (v : V) (other : Recyclable T C) (s : Memory V T C) : Memory V T C :=
  (s.write v (some other)).retain other.reference

/-- The move constructor: a copy, and the other variable becomes null. -/
def move (v w : V) (other : Recyclable T C) (s : Memory V T C) : Memory V T C :=
  (s.copy v other).assignNull w other

/-- The copy assignment. `reset` retains the other before it releases. -/
def assign (v : V) (r other : Recyclable T C) (s : Memory V T C) : Memory V T C :=
  ((s.retain other.reference).release r).write v (some other)

/-- The move assignment, also of a variable to itself. -/
def assignMove (v w : V) (r other : Recyclable T C) (s : Memory V T C) : Memory V T C :=
  (s.assign v r other).assignNull w other

/-- The destructor. -/
def destroy (v : V) (r : Recyclable T C) (s : Memory V T C) : Memory V T C :=
  (s.release r).write v none

end Memory

/-- An operation on the variables. -/
inductive Action (V T C : Type) where
  | constructNull (v : V)
  | construct (v : V) (value : Option T) (onRecycled : Option C)
  | copy (v w : V)
  | move (v w : V)
  | assignNull (v : V)
  | assign (v w : V)
  | assignMove (v w : V)
  | destroy (v : V)
  deriving DecidableEq, Repr

section Steps

variable [DecidableEq V]

/-- A constructor takes a new variable, any other operation variables that are there. -/
def step (s : Memory V T C) : Action V T C → Option (Memory V T C)
  | .constructNull v =>
    match s.objects v with
    | none => some (s.write v (some {}))
    | some _ => none
  | .construct v value onRecycled =>
    match s.objects v with
    | none => some (s.construct v value onRecycled)
    | some _ => none
  | .copy v w =>
    match s.objects v, s.objects w with
    | none, some other => some (s.copy v other)
    | _, _ => none
  | .move v w =>
    match s.objects v, s.objects w with
    | none, some other => some (s.move v w other)
    | _, _ => none
  | .assignNull v => (s.objects v).map fun r => s.assignNull v r
  | .assign v w =>
    match s.objects v, s.objects w with
    | some r, some other => some (s.assign v r other)
    | _, _ => none
  | .assignMove v w =>
    match s.objects v, s.objects w with
    | some r, some other => some (s.assignMove v w r other)
    | _, _ => none
  | .destroy v => (s.objects v).map fun r => s.destroy v r

end Steps

/-! ### The invariant -/

/-- What must have been called for the counter `g`. -/
def Made.recycling (g : ℕ) (m : Made T C) : List (Recycling T C) :=
  match m.onRecycled with
  | none => []
  | some c => [⟨g, c, m.value⟩]

namespace Memory

variable {s : Memory V T C}

/-- The counter that a variable holds. -/
def held (s : Memory V T C) (v : V) : Option ℕ := (s.objects v).bind Recyclable.reference

/-- Whether the variable holds the counter, as a share of it. -/
def share (s : Memory V T C) (g : ℕ) (v : V) : ℕ := if s.held v = some g then 1 else 0

def recycledOf (s : Memory V T C) (g : ℕ) : List (Recycling T C) :=
  s.recycled.filter fun recycling => recycling.reference = g

/-- The members of a `Recyclable` are what was handed in with its counter. -/
def Fits (s : Memory V T C) (r : Recyclable T C) : Prop :=
  ∀ g, r.reference = some g → ∃ m, s.made[g]? = some m ∧ r = ⟨some g, m.value, m.onRecycled⟩

theorem counters_retain (b : Option ℕ) (g : ℕ) :
    (s.retain b).counters g = s.counters g + if b = some g then 1 else 0 := by
  cases b with
  | none => simp [retain]
  | some h =>
    by_cases hg : h = g
    · subst hg
      simp [retain]
    · simp [retain, Function.update_of_ne (Ne.symm hg), hg]

theorem objects_retain (b : Option ℕ) : (s.retain b).objects = s.objects := by
  cases b <;> rfl

theorem made_retain (b : Option ℕ) : (s.retain b).made = s.made := by
  cases b <;> rfl

theorem recycled_retain (b : Option ℕ) : (s.retain b).recycled = s.recycled := by
  cases b <;> rfl

theorem onUnreferenced_eq (g : ℕ) (r : Recyclable T C) : s.onUnreferenced g r =
    { s with recycled := s.recycled ++ Made.recycling g ⟨r.value, r.onRecycled⟩ } := by
  unfold onUnreferenced Made.recycling
  cases r.onRecycled <;> simp

theorem release_eq {r : Recyclable T C} {g : ℕ} (hr : r.reference = some g) : s.release r =
    { s with
      counters := Function.update s.counters g (s.counters g - 1)
      recycled := s.recycled ++ if s.counters g - 1 = 0 then
        Made.recycling g ⟨r.value, r.onRecycled⟩ else [] } := by
  simp only [release, hr, Function.update_self, onUnreferenced_eq]
  split_ifs <;> simp

theorem release_none {r : Recyclable T C} (hr : r.reference = none) : s.release r = s := by
  simp only [release, hr]

variable [DecidableEq V]

/-- The invariant, but for what was called for the counter `b`: nothing yet. -/
structure InvBut (b : Option ℕ) (s : Memory V T C) : Prop where
  fits : ∀ v r, s.objects v = some r → s.Fits r
  tally : ∀ g, Tally (s.counters g) (s.share g)
  recycled : ∀ g m, s.made[g]? = some m → b ≠ some g →
    s.recycledOf g = if s.counters g = 0 then m.recycling g else []
  fresh : ∀ g, b = some g ∨ s.made.length ≤ g → s.recycledOf g = []

/-- A counter is the number of the variables that hold it, and its callback is called when it is
zero. -/
def Inv (s : Memory V T C) : Prop := InvBut none s

theorem Inv.init : Inv ({} : Memory V T C) where
  fits _ _ h := by cases h
  tally _ := Tally.zero
  recycled _ _ h := by cases h
  fresh _ _ := rfl

/-- Nothing was called for a counter that is not zero. -/
theorem Inv.but (h : s.Inv) {g : ℕ} (hpos : 0 < s.counters g) : InvBut (some g) s where
  fits := h.fits
  tally := h.tally
  recycled g' m hm _ := h.recycled g' m hm (by simp)
  fresh g' hg' := by
    obtain hg' | hg' := hg'
    · obtain rfl := Option.some.inj hg'
      cases hm : s.made[g]? with
      | none => exact h.fresh g (.inr (List.getElem?_eq_none_iff.mp hm))
      | some m => rw [h.recycled g m hm (by simp), if_neg hpos.ne']
    · exact h.fresh g' (.inr hg')

theorem InvBut.held_pos {b : Option ℕ} (h : InvBut b s) {v : V} {g : ℕ} (hv : s.held v = some g) :
    0 < s.counters g :=
  (h.tally g).pos_iff.mpr ⟨v, by rw [share, if_pos hv]; exact Nat.one_pos⟩

/-! ### Every operation replaces the members of a variable -/

/-- A variable takes other members: what every operation comes to. -/
def replace (v : V) (old new : Option (Recyclable T C)) (s : Memory V T C) : Memory V T C :=
  match old with
  | none => (s.retain (new.bind Recyclable.reference)).write v new
  | some r => ((s.retain (new.bind Recyclable.reference)).release r).write v new

variable {v : V} {old new : Option (Recyclable T C)}

variable (old new) in
theorem objects_replace : (s.replace v old new).objects = Function.update s.objects v new := by
  cases old with
  | none => simp [replace, write, objects_retain]
  | some r =>
    cases hr : r.reference with
    | none => simp [replace, write, release_none hr, objects_retain]
    | some g => simp [replace, write, release_eq hr, objects_retain]

theorem made_replace : (s.replace v old new).made = s.made := by
  cases old with
  | none => simp [replace, write, made_retain]
  | some r =>
    cases hr : r.reference with
    | none => simp [replace, write, release_none hr, made_retain]
    | some g => simp [replace, write, release_eq hr, made_retain]

variable (new) in
theorem counters_replace (hold : s.objects v = old) (g : ℕ) :
    (s.replace v old new).counters g =
      (s.counters g + if new.bind Recyclable.reference = some g then 1 else 0) - s.share g v := by
  have hheld : s.held v = old.bind Recyclable.reference := by rw [held, hold]
  cases old with
  | none => simp [replace, write, counters_retain, share, hheld]
  | some r =>
    cases hr : r.reference with
    | none => simp [replace, write, release_none hr, counters_retain, share, hheld, hr]
    | some h =>
      by_cases hg : h = g
      · subst hg
        simp [replace, write, release_eq hr, counters_retain, share, hheld, hr]
      · simp [replace, write, release_eq hr, counters_retain, share, hheld, hr, hg,
          Function.update_of_ne (Ne.symm hg)]

theorem filter_recycling (h g : ℕ) (m : Made T C) :
    (m.recycling h).filter (fun recycling => recycling.reference = g) =
      if h = g then m.recycling h else [] := by
  unfold Made.recycling
  cases m.onRecycled with
  | none => simp
  | some c => by_cases hg : h = g <;> simp [hg]

/-- The callback is called when the counter comes to zero. -/
theorem recycledOf_replace (hold : s.objects v = old) (g : ℕ) :
    (s.replace v old new).recycledOf g = s.recycledOf g ++
      (if s.held v = some g ∧ (s.replace v old new).counters g = 0 then
        old.elim [] fun r => Made.recycling g ⟨r.value, r.onRecycled⟩
      else []) := by
  have hheld : s.held v = old.bind Recyclable.reference := by rw [held, hold]
  cases old with
  | none =>
    rw [if_neg (by simp [hheld]), List.append_nil]
    simp only [recycledOf, replace, write, recycled_retain]
  | some r =>
    cases hr : r.reference with
    | none =>
      rw [if_neg (by simp [hheld, hr]), List.append_nil]
      simp only [recycledOf, replace, write, release_none hr, recycled_retain]
    | some h =>
      have hcounter := counters_replace new hold h
      have hshare : s.share h v = 1 := by rw [share, hheld, Option.bind_some, hr, if_pos rfl]
      rw [hshare, ← counters_retain] at hcounter
      have hrecycled : (s.replace v (some r) new).recycled = s.recycled ++
          if (s.replace v (some r) new).counters h = 0 then
            Made.recycling h ⟨r.value, r.onRecycled⟩ else [] := by
        rw [hcounter]
        simp only [replace, write, release_eq hr, recycled_retain]
      rw [recycledOf, hrecycled, List.filter_append, hheld, Option.bind_some, hr]
      by_cases hg : h = g
      · subst hg
        by_cases hzero : (s.replace v (some r) new).counters h = 0
        · rw [if_pos hzero, if_pos ⟨rfl, hzero⟩, filter_recycling, if_pos rfl]
          rfl
        · rw [if_neg hzero, if_neg fun hboth => hzero hboth.2]
          rfl
      · have hnot : ¬(some h = some g ∧ (s.replace v (some r) new).counters g = 0) := by
          intro hboth
          exact hg (Option.some.inj hboth.1)
        rw [if_neg hnot, List.append_nil]
        split_ifs
        · rw [filter_recycling, if_neg hg, List.append_nil]
          rfl
        · rw [List.filter_nil, List.append_nil]
          rfl

variable (new) in
/-- **Every operation keeps the invariant**, if the variable holds no counter whose callback was
called. -/
theorem InvBut.replace (h : InvBut (new.bind Recyclable.reference) s) (hold : s.objects v = old)
    (hnew : ∀ r, new = some r → s.Fits r) : (s.replace v old new).Inv where
  fits w r hw := by
    have hfits : s.Fits r := by
      rw [objects_replace] at hw
      by_cases hwv : w = v
      · subst hwv
        rw [Function.update_self] at hw
        exact hnew r hw
      · rw [Function.update_of_ne hwv] at hw
        exact h.fits w r hw
    intro g hg
    rw [made_replace]
    exact hfits g hg
  tally g := by
    have hset := (h.tally g).set v (if new.bind Recyclable.reference = some g then 1 else 0)
    have hshare : (s.replace v old new).share g =
        Function.update (s.share g) v
          (if new.bind Recyclable.reference = some g then 1 else 0) := by
      funext w
      rw [share, held, objects_replace]
      by_cases hwv : w = v
      · subst hwv
        rw [Function.update_self, Function.update_self]
      · rw [Function.update_of_ne hwv, Function.update_of_ne hwv]
        rfl
    rw [counters_replace new hold, hshare]
    have hle := (h.tally g).share_le v
    rwa [show s.counters g + (if new.bind Recyclable.reference = some g then 1 else 0) -
      s.share g v = s.counters g - s.share g v +
        (if new.bind Recyclable.reference = some g then 1 else 0) by omega]
  recycled g m hm _ := by
    rw [made_replace] at hm
    rw [recycledOf_replace hold, counters_replace new hold]
    by_cases hb : new.bind Recyclable.reference = some g
    · -- Nothing was called for the counter, and the variable keeps it from zero.
      have hpos : s.counters g + 1 - s.share g v ≠ 0 := by
        have hle := (h.tally g).share_le v
        have hone : s.share g v ≤ 1 := by
          rw [share]
          split_ifs <;> omega
        omega
      rw [h.fresh g (.inl hb), if_pos hb, if_neg hpos, if_neg fun hboth => hpos hboth.2]
      rfl
    · rw [h.recycled g m hm hb, if_neg hb, Nat.add_zero]
      by_cases hv : s.held v = some g
      · have hpos : 0 < s.counters g := h.held_pos hv
        rw [if_neg hpos.ne', List.nil_append]
        obtain ⟨r, hr, hg⟩ := Option.bind_eq_some_iff.mp hv
        obtain ⟨m', hm', rfl⟩ := h.fits v r hr g hg
        obtain rfl : m = m' := Option.some.inj (hm.symm.trans hm')
        obtain rfl := hold.symm.trans hr
        simp only [hv, true_and]
        rfl
      · have hnot : ¬(s.held v = some g ∧ s.counters g = 0) := fun hboth => hv hboth.1
        rw [share, if_neg hv, Nat.sub_zero, if_neg hnot, List.append_nil]
  fresh g hg := by
    rw [made_replace] at hg
    have hle : s.made.length ≤ g := hg.resolve_left (by simp)
    have hv : s.held v ≠ some g := by
      intro hv
      obtain ⟨r, hr, hg⟩ := Option.bind_eq_some_iff.mp hv
      obtain ⟨m, hm, -⟩ := h.fits v r hr g hg
      rw [List.getElem?_eq_none hle] at hm
      cases hm
    rw [recycledOf_replace hold, if_neg fun hboth => hv hboth.1, List.append_nil]
    exact h.fresh g (.inr hle)

theorem Inv.but_of_held (h : s.Inv) {w : V} {other : Recyclable T C}
    (hw : s.objects w = some other) : InvBut other.reference s := by
  cases hr : other.reference with
  | none => exact h
  | some g => exact h.but (h.held_pos (by rw [held, hw, Option.bind_some, hr]))

theorem Inv.assignNull (h : s.Inv) {r : Recyclable T C} (hv : s.objects v = some r) :
    (s.assignNull v r).Inv := by
  refine InvBut.replace (some {}) h hv ?_
  intro r' hr' g hg
  obtain rfl := Option.some.inj hr'
  cases hg

theorem made_construct (v : V) (value : Option T) (onRecycled : Option C) :
    (s.construct v value onRecycled).made = s.made ++ [⟨value, onRecycled⟩] := made_retain _

theorem recycled_construct (v : V) (value : Option T) (onRecycled : Option C) :
    (s.construct v value onRecycled).recycled = s.recycled := recycled_retain _

theorem objects_copy {other : Recyclable T C} :
    (s.copy v other).objects = Function.update s.objects v (some other) := objects_retain _

theorem objects_assign {r other : Recyclable T C} :
    (s.assign v r other).objects = Function.update s.objects v (some other) :=
  objects_replace (some r) (some other)

theorem Inv.copy (h : s.Inv) {w : V} {other : Recyclable T C} (hv : s.objects v = none)
    (hw : s.objects w = some other) : (s.copy v other).Inv := by
  have hreplace : s.copy v other = s.replace v none (some other) := by
    simp only [Memory.copy, Memory.replace, Option.bind_some]
    cases other.reference <;> rfl
  rw [hreplace]
  refine InvBut.replace (some other) (h.but_of_held hw) hv ?_
  intro r hr
  obtain rfl := Option.some.inj hr
  exact h.fits w _ hw

theorem Inv.assign (h : s.Inv) {w : V} {r other : Recyclable T C} (hv : s.objects v = some r)
    (hw : s.objects w = some other) : (s.assign v r other).Inv := by
  refine InvBut.replace (some other) (h.but_of_held hw) hv ?_
  intro r' hr'
  obtain rfl := Option.some.inj hr'
  exact h.fits w _ hw

theorem Inv.destroy (h : s.Inv) {r : Recyclable T C} (hv : s.objects v = some r) :
    (s.destroy v r).Inv :=
  InvBut.replace none h hv fun _ hr => by cases hr

/-- Where a call comes from. -/
theorem Inv.mem_recycled (h : s.Inv) {recycling : Recycling T C} (hmem : recycling ∈ s.recycled) :
    ∃ m, s.made[recycling.reference]? = some m ∧ recycling ∈ m.recycling recycling.reference ∧
      s.counters recycling.reference = 0 := by
  have hof : recycling ∈ s.recycledOf recycling.reference := by
    rw [recycledOf, List.mem_filter]
    exact ⟨hmem, by simp⟩
  cases hm : s.made[recycling.reference]? with
  | none =>
    rw [h.fresh _ (.inr (List.getElem?_eq_none_iff.mp hm))] at hof
    cases hof
  | some m =>
    rw [h.recycled _ m hm (by simp)] at hof
    split at hof
    · exact ⟨m, rfl, hof, by assumption⟩
    · cases hof

/-- Before its counter is retained, a value that is handed in has no call. -/
theorem Inv.construct (h : s.Inv) {value : Option T} {onRecycled : Option C}
    (hv : s.objects v = none) : (s.construct v value onRecycled).Inv := by
  have hbut : InvBut (some s.made.length)
      { s with made := s.made ++ [⟨value, onRecycled⟩] } := by
    refine ⟨fun w r hw g hg => ?_, h.tally, fun g m hm hne => ?_, fun g hg => ?_⟩
    · obtain ⟨m, hm, hr⟩ := h.fits w r hw g hg
      exact ⟨m, by rw [List.getElem?_append_left (List.getElem?_eq_some_iff.mp hm).1, hm], hr⟩
    · have hlt : g < s.made.length := by
        have := (List.getElem?_eq_some_iff.mp hm).1
        simp only [List.length_append, List.length_singleton] at this
        have hne' : g ≠ s.made.length := fun heq => hne (heq ▸ rfl)
        omega
      rw [List.getElem?_append_left hlt] at hm
      exact h.recycled g m hm (by simp)
    · refine h.fresh g (.inr ?_)
      obtain hg | hg := hg
      · exact (Option.some.inj hg).le
      · exact Nat.le_of_succ_le (by simpa using hg)
  refine InvBut.replace (some ⟨some s.made.length, value, onRecycled⟩) hbut hv ?_
  intro r hr g hg
  obtain rfl := Option.some.inj hr
  obtain rfl := Option.some.inj hg
  exact ⟨⟨value, onRecycled⟩, by simp, rfl⟩

end Memory

/-! ### Runs -/

/-- Whether a value is handed in. -/
def Action.isConstruct : Action V T C → Bool
  | .construct .. => true
  | _ => false

namespace Memory

variable {s t : Memory V T C}

/-- No value was handed in, and calls may have been added. -/
def Grows (s t : Memory V T C) : Prop := t.made = s.made ∧ s.recycled <+: t.recycled

theorem Grows.trans {u : Memory V T C} (h : s.Grows t) (h' : t.Grows u) : s.Grows u :=
  ⟨h'.1.trans h.1, h.2.trans h'.2⟩

theorem grows_retain (b : Option ℕ) : s.Grows (s.retain b) :=
  ⟨made_retain b, (recycled_retain b).symm ▸ List.prefix_rfl⟩

theorem grows_release (r : Recyclable T C) : s.Grows (s.release r) := by
  cases hr : r.reference with
  | none =>
    rw [release_none hr]
    exact ⟨rfl, List.prefix_rfl⟩
  | some g =>
    rw [release_eq hr]
    exact ⟨rfl, List.prefix_append _ _⟩

variable [DecidableEq V]

theorem grows_assignNull (v : V) (r : Recyclable T C) : s.Grows (s.assignNull v r) :=
  grows_release r

theorem grows_copy (v : V) (other : Recyclable T C) : s.Grows (s.copy v other) :=
  grows_retain (s := s.write v (some other)) other.reference

theorem grows_assign (v : V) (r other : Recyclable T C) : s.Grows (s.assign v r other) :=
  (grows_retain other.reference).trans (grows_release r)

end Memory

/-- Only a constructor hands a value in, and no call is taken back. -/
theorem grows_step [DecidableEq V] {s t : Memory V T C} {action : Action V T C}
    (hconstruct : action.isConstruct = false) (hstep : step s action = some t) : s.Grows t := by
  cases action with
  | constructNull v =>
    simp only [step] at hstep
    split at hstep
    · obtain rfl := Option.some.inj hstep
      exact ⟨rfl, List.prefix_rfl⟩
    · cases hstep
  | construct v value onRecycled => cases hconstruct
  | copy v w =>
    simp only [step] at hstep
    split at hstep
    · obtain rfl := Option.some.inj hstep
      exact Memory.grows_copy v _
    · cases hstep
  | move v w =>
    simp only [step] at hstep
    split at hstep
    · obtain rfl := Option.some.inj hstep
      exact (Memory.grows_copy v _).trans (Memory.grows_assignNull w _)
    · cases hstep
  | assignNull v =>
    obtain ⟨r, -, rfl⟩ := Option.map_eq_some_iff.mp hstep
    exact Memory.grows_assignNull v r
  | assign v w =>
    simp only [step] at hstep
    split at hstep
    · obtain rfl := Option.some.inj hstep
      exact Memory.grows_assign v _ _
    · cases hstep
  | assignMove v w =>
    simp only [step] at hstep
    split at hstep
    · obtain rfl := Option.some.inj hstep
      exact (Memory.grows_assign v _ _).trans (Memory.grows_assignNull w _)
    · cases hstep
  | destroy v =>
    obtain ⟨r, -, rfl⟩ := Option.map_eq_some_iff.mp hstep
    exact Memory.grows_release r

section Runs

variable [DecidableEq V] {s t : Memory V T C}

theorem step_inv (h : s.Inv) (action : Action V T C) (hstep : step s action = some t) : t.Inv := by
  cases action with
  | constructNull v =>
    simp only [step] at hstep
    split at hstep
    · rename_i hv
      obtain rfl := Option.some.inj hstep
      refine Memory.InvBut.replace (some {}) h hv ?_
      intro r hr g hg
      obtain rfl := Option.some.inj hr
      cases hg
    · cases hstep
  | construct v value onRecycled =>
    simp only [step] at hstep
    split at hstep
    · obtain rfl := Option.some.inj hstep
      exact h.construct (by assumption)
    · cases hstep
  | copy v w =>
    simp only [step] at hstep
    split at hstep
    · rename_i other hv hw
      obtain rfl := Option.some.inj hstep
      exact h.copy hv hw
    · cases hstep
  | move v w =>
    simp only [step] at hstep
    split at hstep
    · rename_i other hv hw
      obtain rfl := Option.some.inj hstep
      have hne : w ≠ v := by
        rintro rfl
        rw [hv] at hw
        cases hw
      refine (h.copy hv hw).assignNull ?_
      rw [Memory.objects_copy, Function.update_of_ne hne]
      exact hw
    · cases hstep
  | assignNull v =>
    obtain ⟨r, hr, rfl⟩ := Option.map_eq_some_iff.mp hstep
    exact h.assignNull hr
  | assign v w =>
    simp only [step] at hstep
    split at hstep
    · rename_i r other hv hw
      obtain rfl := Option.some.inj hstep
      exact h.assign hv hw
    · cases hstep
  | assignMove v w =>
    simp only [step] at hstep
    split at hstep
    · rename_i r other hv hw
      obtain rfl := Option.some.inj hstep
      refine (h.assign hv hw).assignNull ?_
      rw [Memory.objects_assign]
      -- A variable that is moved into itself has its own members still.
      by_cases heq : w = v
      · subst heq
        rw [Function.update_self]
      · rw [Function.update_of_ne heq]
        exact hw
    · cases hstep
  | destroy v =>
    obtain ⟨r, hr, rfl⟩ := Option.map_eq_some_iff.mp hstep
    exact h.destroy hr

/-- **A value is recycled once**: in every run, its counter is the number of the variables that hold
it, each with the value and the callback handed in, and the callback is called once, when the last
of them has gone, and not before. -/
theorem recycled_once {actions : List (Action V T C)} (hexec : Run.exec step {} actions = some s)
    {g : ℕ} {m : Made T C} (hm : s.made[g]? = some m) :
    Tally (s.counters g) (s.share g) ∧
      (∀ v r, s.objects v = some r → r.reference = some g → r = ⟨some g, m.value, m.onRecycled⟩) ∧
      ((∃ v, s.held v = some g) → s.recycledOf g = []) ∧
      ((∀ v, s.held v ≠ some g) → s.recycledOf g = m.recycling g) := by
  have h : s.Inv := Run.inv_exec_of_step
    (fun _ action _ hs hstep => step_inv hs action hstep) Memory.Inv.init hexec
  have hrecycled := h.recycled g m hm (by simp)
  refine ⟨h.tally g, fun v r hv hg => ?_, fun ⟨v, hv⟩ => ?_, fun hnone => ?_⟩
  · obtain ⟨m', hm', hr⟩ := h.fits v r hv g hg
    obtain rfl : m = m' := Option.some.inj (hm.symm.trans hm')
    exact hr
  · rw [hrecycled, if_neg (h.held_pos hv).ne']
  · have hzero : s.counters g = 0 := by
      refine (h.tally g).eq_zero_iff.mpr fun v => ?_
      rw [Memory.share, if_neg (hnone v)]
    rw [hrecycled, if_pos hzero]

/-- A value is copied, moved into its own variable and given up by both. -/
def handedOn : List (Action Bool ℕ ℕ) :=
  [.construct false (some 7) (some 9), .copy true false, .assignMove false false, .destroy true]

theorem recycled_once_handedOn :
    ∃ s, Run.exec step {} handedOn = some s ∧ s.recycledOf 0 = [⟨0, 9, some 7⟩] := by
  refine ⟨_, rfl, ?_⟩
  refine (recycled_once (g := 0) (m := ⟨some 7, some 9⟩)
    (rfl : Run.exec step {} handedOn = some _) rfl).2.2.2 ?_
  decide

end Runs

end Recyclable

end Wcdb
