import Mathlib.Data.List.Nodup
import Mathlib.Data.List.Sort

/-!
# `UniqueList` and `TimedQueue`

A timed queue keeps one element for each key, in the order in which the elements expire. Whatever
the branch that `queue` takes, the information that was queued for the key before is gone
(`value?_queue`). Times are numbers of any ordered kind.
-/

namespace Wcdb

/-- `UniqueListElement`. -/
structure UniqueListElement (Key Value : Type) (Order : Type := ℕ) where
  key : Key
  value : Value
  order : Order
  deriving DecidableEq, Repr

/-- `UniqueList`, as the list of its elements. -/
abbrev UniqueList (Key Value : Type) (Order : Type := ℕ) := List (UniqueListElement Key Value Order)

namespace UniqueList

variable {Key Value Order : Type} [DecidableEq Key]

def find (l : UniqueList Key Value Order) (key : Key) :
    Option (UniqueListElement Key Value Order) :=
  l.find? fun element => element.key = key

/-- The loop of `insert`, with its two flags. -/
def insertLoop [LinearOrder Order] (key : Key) (value : Value) (order : Order) :
    Bool → Bool → UniqueList Key Value Order → UniqueList Key Value Order
  | inserted, _, [] => if inserted then [] else [⟨key, value, order⟩]
  | inserted, erased, element :: l =>
    if inserted ∧ erased then element :: l
    else if ¬erased ∧ element.key = key then insertLoop key value order inserted true l
    else if ¬inserted ∧ order < element.order then
      ⟨key, value, order⟩ :: element :: insertLoop key value order true erased l
    else element :: insertLoop key value order inserted erased l

def insert [LinearOrder Order] (l : UniqueList Key Value Order) (key : Key) (value : Value)
    (order : Order) : UniqueList Key Value Order :=
  insertLoop key value order false false l

def erase (l : UniqueList Key Value Order) (key : Key) : UniqueList Key Value Order :=
  l.eraseP fun element => element.key = key

/-- `iter->value() = value` at the element with the key. -/
def assign (key : Key) (value : Value) : UniqueList Key Value Order → UniqueList Key Value Order
  | [] => []
  | element :: l =>
    if element.key = key then { element with value } :: l else element :: assign key value l

/-- No two elements have the same key. -/
def Unique (l : UniqueList Key Value Order) : Prop := (l.map UniqueListElement.key).Nodup

/-- What is queued for a key. -/
def value? (l : UniqueList Key Value Order) (key : Key) : Option Value :=
  (l.find key).map UniqueListElement.value

section Lemmas

variable {key key' : Key} {value : Value} {order : Order} {l : UniqueList Key Value Order}
  {element : UniqueListElement Key Value Order}

@[simp]
theorem value?_nil : value? ([] : UniqueList Key Value Order) key = none := rfl

theorem value?_cons :
    value? (element :: l) key = if element.key = key then some element.value else value? l key := by
  rw [value?, find, List.find?_cons]
  by_cases h : element.key = key <;> simp [h, value?, find]

theorem value?_eq_none : value? l key = none ↔ key ∉ l.map UniqueListElement.key := by
  rw [value?, Option.map_eq_none_iff, find, List.find?_eq_none, List.mem_map]
  simp only [decide_eq_true_eq, not_exists, not_and]

omit [DecidableEq Key] in
theorem Unique.tail (h : Unique (element :: l)) : Unique l := (List.nodup_cons.mp h).2

theorem Unique.value?_tail (h : Unique (element :: l)) : value? l element.key = none :=
  value?_eq_none.mpr (List.nodup_cons.mp h).1

/-! #### Erasing a key -/

theorem erase_cons :
    erase (element :: l) key = if element.key = key then l else element :: l.erase key := by
  by_cases h : element.key = key <;> simp [erase, h]

theorem mem_erase (hunique : Unique l) {other : UniqueListElement Key Value Order} :
    other ∈ l.erase key ↔ other ∈ l ∧ other.key ≠ key := by
  induction l with
  | nil => simp [erase]
  | cons element l ih =>
    have hne : ∀ other ∈ l, other.key ≠ element.key := fun other hmem heq =>
      (List.nodup_cons.mp hunique).1 (heq ▸ List.mem_map_of_mem hmem)
    rw [erase_cons, List.mem_cons]
    split_ifs with hkey
    · constructor
      · exact fun hmem => ⟨Or.inr hmem, hkey ▸ hne other hmem⟩
      · rintro ⟨rfl | hmem, hother⟩
        · exact absurd hkey hother
        · exact hmem
    · rw [List.mem_cons, ih hunique.tail, or_and_right]
      exact or_congr_left ⟨fun heq => ⟨heq, heq ▸ hkey⟩, And.left⟩

theorem Unique.erase (hunique : Unique l) (key : Key) : Unique (l.erase key) :=
  hunique.sublist (List.eraseP_sublist.map _)

theorem value?_erase (hunique : Unique l) :
    value? (l.erase key) key' = if key = key' then none else value? l key' := by
  induction l with
  | nil => simp [UniqueList.erase]
  | cons element l ih =>
    rw [erase_cons, value?_cons]
    by_cases hkey : element.key = key
    · rw [if_pos hkey]
      split_ifs with heq heq'
      · rw [← heq, ← hkey]
        exact hunique.value?_tail
      · exact absurd (hkey.symm.trans heq') heq
      · rfl
    · rw [if_neg hkey, value?_cons, ih hunique.tail]
      split_ifs with heq heq'
      · exact absurd (heq.trans heq'.symm) hkey
      · rfl
      · rfl
      · rfl

/-! #### Inserting -/

variable [LinearOrder Order]

/-- In front of the first larger element. -/
def place (element : UniqueListElement Key Value Order) (l : UniqueList Key Value Order) :
    UniqueList Key Value Order :=
  l.orderedInsert (fun a b => a.order < b.order) element

omit [DecidableEq Key] in
theorem place_cons {new : UniqueListElement Key Value Order} : place new (element :: l) =
    if new.order < element.order then new :: element :: l else element :: place new l :=
  List.orderedInsert_cons ..

/-- The loop when the key was erased and the element inserted. -/
theorem insertLoop_done : insertLoop key value order true true l = l := by
  cases l <;> simp [insertLoop]

/-- The loop after the insertion. -/
theorem insertLoop_inserted : insertLoop key value order true false l = l.erase key := by
  induction l with
  | nil => rfl
  | cons element l ih =>
    rw [insertLoop, erase_cons]
    by_cases hkey : element.key = key <;> simp [hkey, ih, insertLoop_done]

/-- The loop after the key was erased. -/
theorem insertLoop_erased :
    insertLoop key value order false true l = place ⟨key, value, order⟩ l := by
  induction l with
  | nil => rfl
  | cons element l ih =>
    rw [insertLoop, place_cons]
    by_cases horder : order < element.order <;> simp [horder, ih, insertLoop_done]

/-- **An insertion erases the key and then inserts in order.** -/
theorem insert_eq : l.insert key value order = place ⟨key, value, order⟩ (l.erase key) := by
  rw [insert]
  induction l with
  | nil => rfl
  | cons element l ih =>
    rw [insertLoop, erase_cons]
    by_cases hkey : element.key = key
    · simp [hkey, insertLoop_erased]
    · rw [if_neg hkey, place_cons]
      by_cases horder : order < element.order <;> simp [hkey, horder, ih, insertLoop_inserted]

theorem value?_place (hnone : value? l element.key = none) :
    value? (place element l) key' = if element.key = key' then some element.value
      else value? l key' := by
  induction l with
  | nil => rw [place, List.orderedInsert_nil, value?_cons]
  | cons other l ih =>
    rw [value?_cons] at hnone
    split_ifs at hnone with hkey
    rw [place_cons]
    split_ifs with horder heq heq
    · rw [value?_cons, if_pos heq]
    · rw [value?_cons, if_neg heq]
    · rw [value?_cons, ih hnone, if_pos heq, if_neg fun h => hkey (h.trans heq.symm)]
    · rw [value?_cons, value?_cons, ih hnone, if_neg heq]

theorem value?_insert (hunique : Unique l) :
    value? (l.insert key value order) key' = if key = key' then some value else value? l key' := by
  have hnone : value? (l.erase key) key = none := by rw [value?_erase hunique, if_pos rfl]
  rw [insert_eq, value?_place hnone, value?_erase hunique]
  split_ifs <;> rfl

theorem Unique.insert (hunique : Unique l) : Unique (l.insert key value order) := by
  have hperm := (List.perm_orderedInsert (fun a b : UniqueListElement Key Value Order =>
    a.order < b.order) ⟨key, value, order⟩ (l.erase key)).map UniqueListElement.key
  rw [insert_eq, Unique, place, hperm.nodup_iff, List.map_cons, List.nodup_cons]
  refine ⟨value?_eq_none.mp ?_, hunique.erase key⟩
  rw [value?_erase hunique, if_pos rfl]

theorem mem_insert (hunique : Unique l) : element ∈ l.insert key value order ↔
    element = ⟨key, value, order⟩ ∨ element ∈ l ∧ element.key ≠ key := by
  rw [insert_eq, place, List.mem_orderedInsert, mem_erase hunique]

omit [DecidableEq Key] in
/-- An insertion in order keeps a relation between the elements that agrees with their order, if
the new element comes after its equals. -/
theorem pairwise_place
    {R : UniqueListElement Key Value Order → UniqueListElement Key Value Order → Prop}
    (hl : l.Pairwise R) (hle : l.Pairwise fun a b => a.order ≤ b.order)
    (hbefore : ∀ other ∈ l, element.order < other.order → R element other)
    (hafter : ∀ other ∈ l, other.order ≤ element.order → R other element) :
    (place element l).Pairwise R := by
  induction l with
  | nil => exact List.pairwise_singleton R element
  | cons first l ih =>
    rw [List.pairwise_cons] at hl hle
    rw [place_cons]
    split_ifs with horder
    · refine List.pairwise_cons.mpr ⟨fun other hother => hbefore other hother ?_,
        List.pairwise_cons.mpr hl⟩
      rcases List.mem_cons.mp hother with rfl | hother
      · exact horder
      · exact horder.trans_le (hle.1 other hother)
    · refine List.pairwise_cons.mpr ⟨fun other hother => ?_, ih hl.2 hle.2
        (fun other hother => hbefore other (List.mem_cons_of_mem _ hother))
        fun other hother => hafter other (List.mem_cons_of_mem _ hother)⟩
      rw [place, List.mem_orderedInsert] at hother
      rcases hother with rfl | hother
      · exact hafter first List.mem_cons_self (not_lt.mp horder)
      · exact hl.1 other hother

/-! #### Changing a value -/

/-- What places an element in a list. -/
def slot (element : UniqueListElement Key Value Order) : Key × Order := (element.key, element.order)

omit [LinearOrder Order] in
theorem map_slot_assign : (assign key value l).map slot = l.map slot := by
  induction l with
  | nil => rfl
  | cons element l ih =>
    rw [assign]
    split_ifs
    · rfl
    · rw [List.map_cons, ih, List.map_cons]

omit [LinearOrder Order] in
theorem mem_assign (hunique : Unique l) (h : element ∈ assign key value l) :
    element ∈ l ∧ element.key ≠ key ∨
      element.key = key ∧ element.value = value ∧ ∃ old ∈ l, slot old = slot element := by
  induction l with
  | nil => exact absurd h List.not_mem_nil
  | cons first l ih =>
    rw [assign] at h
    split_ifs at h with hkey
    · rcases List.mem_cons.mp h with rfl | h
      · exact Or.inr ⟨hkey, rfl, first, List.mem_cons_self, rfl⟩
      · refine Or.inl ⟨List.mem_cons_of_mem _ h, fun helement => ?_⟩
        refine (List.nodup_cons.mp hunique).1 ?_
        rw [hkey, ← helement]
        exact List.mem_map_of_mem h
    · rcases List.mem_cons.mp h with rfl | h
      · exact Or.inl ⟨List.mem_cons_self, hkey⟩
      · rcases ih hunique.tail h with ⟨hmem, hne⟩ | ⟨helement, hvalue, old, hold, hslot⟩
        · exact Or.inl ⟨List.mem_cons_of_mem _ hmem, hne⟩
        · exact Or.inr ⟨helement, hvalue, old, List.mem_cons_of_mem _ hold, hslot⟩

omit [LinearOrder Order] in
theorem value?_assign :
    value? (assign key value l) key' =
      if key = key' ∧ value? l key ≠ none then some value else value? l key' := by
  induction l with
  | nil => simp [assign]
  | cons element l ih =>
    rw [assign]
    by_cases hkey : element.key = key
    · rw [if_pos hkey, value?_cons, value?_cons, value?_cons, if_pos hkey]
      by_cases h : key = key'
      · rw [if_pos (hkey.trans h), if_pos ⟨h, Option.some_ne_none _⟩]
      · have hne : element.key ≠ key' := by rw [hkey]; exact h
        rw [if_neg hne, if_neg (fun h' => h h'.1), if_neg hne]
    · rw [if_neg hkey, value?_cons, value?_cons, value?_cons, if_neg hkey, ih]
      by_cases h : element.key = key'
      · rw [if_pos h, if_neg (fun h' => hkey (h.trans h'.1.symm)), if_pos h]
      · rw [if_neg h, if_neg h]

omit [LinearOrder Order] in
theorem keys_assign :
    (assign key value l).map UniqueListElement.key = l.map UniqueListElement.key := by
  have hslots : (assign key value l).map slot = l.map slot := map_slot_assign
  have hkeys := congrArg (List.map Prod.fst) hslots
  rwa [List.map_map, List.map_map] at hkeys

omit [LinearOrder Order] in
theorem of_find (h : l.find key = some element) : element ∈ l ∧ element.key = key := by
  have hkey := List.find?_some h
  exact ⟨List.mem_of_find?_eq_some h, of_decide_eq_true hkey⟩

end Lemmas

end UniqueList

/-! ### The queue -/

namespace TimedQueue

inductive Mode where
  | forwardOnly
  | reQueue
  deriving DecidableEq, Repr

variable {Key Info Time : Type} [DecidableEq Key] [LinearOrder Time]

/-- `queue`, at the time `now`. -/
def queue [Add Time] (l : UniqueList Key Info Time) (now : Time) (key : Key) (delay : Time)
    (info : Info) (mode : Mode) : UniqueList Key Info Time :=
  match l.find key with
  | some element =>
    if mode = .forwardOnly ∧ element.order < now + delay then UniqueList.assign key info l
    else l.insert key info (now + delay)
  | none => l.insert key info (now + delay)

/-- What one round of `loop` takes from the queue at the time `now`. -/
def expire (l : UniqueList Key Info Time) (now : Time) :
    Option ((Key × Info) × UniqueList Key Info Time) :=
  match l with
  | [] => none
  | shortest :: l => if shortest.order ≤ now then some ((shortest.key, shortest.value), l) else none

section Lemmas

variable {l : UniqueList Key Info Time} {now delay : Time} {key key' : Key} {info : Info}
  {mode : Mode}

theorem Unique.queue [Add Time] (hunique : l.Unique) :
    (queue l now key delay info mode).Unique := by
  rw [TimedQueue.queue]
  cases l.find key with
  | none => exact hunique.insert
  | some element =>
    dsimp only
    split_ifs
    · rw [UniqueList.Unique, UniqueList.keys_assign]
      exact hunique
    · exact hunique.insert

/-- What is queued takes the place of what was queued for the key before. -/
theorem value?_queue [Add Time] (hunique : l.Unique) :
    (queue l now key delay info mode).value? key' =
      if key = key' then some info else l.value? key' := by
  rw [queue]
  cases hfind : l.find key with
  | none => exact UniqueList.value?_insert hunique
  | some element =>
    dsimp only
    split_ifs with hmode hkey hkey
    · rw [UniqueList.value?_assign, if_pos ⟨hkey, by rw [UniqueList.value?, hfind]; simp⟩]
    · rw [UniqueList.value?_assign, if_neg fun h => hkey h.1]
    · rw [UniqueList.value?_insert hunique, if_pos hkey]
    · rw [UniqueList.value?_insert hunique, if_neg hkey]

/-- What is taken was queued, and the rest stays. -/
theorem expire_spec {rest : UniqueList Key Info Time} (hunique : l.Unique)
    (h : expire l now = some ((key, info), rest)) :
    rest.Unique ∧ l.value? key = some info ∧ rest.value? key = none ∧
      ∀ key', key' ≠ key → rest.value? key' = l.value? key' := by
  cases l with
  | nil => exact nomatch h
  | cons shortest l =>
    rw [expire] at h
    split_ifs at h
    obtain ⟨hpair, rfl⟩ := Prod.mk.inj (Option.some.inj h)
    obtain ⟨rfl, rfl⟩ := Prod.mk.inj hpair
    refine ⟨hunique.tail, ?_, hunique.value?_tail, fun key' hne => ?_⟩
    · rw [UniqueList.value?_cons, if_pos rfl]
    · rw [UniqueList.value?_cons, if_neg (Ne.symm hne)]

end Lemmas

end TimedQueue

end Wcdb
