import Mathlib.Order.Basic
import Mathlib.Order.Defs.LinearOrder
import Mathlib.Data.List.Pairwise
import Mathlib.Data.List.Basic
import Mathlib.Data.List.Induction
import Mathlib.Order.Lattice

/-!
# Maps as sorted lists

A map with ordered keys, as the list of its entries in the order of the keys. Looking a key up after
an insertion needs no invariant (`get?_insertOrAssign`); with it (`Sorted`), the entries are those
that are found (`Sorted.mem_iff`).
-/

namespace SortedMap

variable {κ α : Type} [LinearOrder κ]

/-- Put the value under the key, in place of the value that is there. -/
def insertOrAssign (key : κ) (value : α) : List (κ × α) → List (κ × α)
  | [] => [(key, value)]
  | e :: m =>
    if key < e.1 then (key, value) :: e :: m
    else if e.1 = key then (key, value) :: m
    else e :: insertOrAssign key value m

def get? (m : List (κ × α)) (key : κ) : Option α :=
  (m.find? fun e => e.1 = key).map Prod.snd

def Sorted (m : List (κ × α)) : Prop := m.Pairwise fun a b => a.1 < b.1

variable {key key' : κ} {value : α} {m : List (κ × α)} {e : κ × α}

@[simp]
theorem get?_nil : get? ([] : List (κ × α)) key = none := rfl

theorem get?_cons : get? (e :: m) key = if e.1 = key then some e.2 else get? m key := by
  rw [get?, List.find?_cons]
  by_cases h : e.1 = key <;> simp [h, get?]

theorem get?_insertOrAssign :
    get? (insertOrAssign key value m) key' = if key = key' then some value else get? m key' := by
  induction m with
  | nil => rw [insertOrAssign, get?_cons]
  | cons e m ih =>
    rw [insertOrAssign]
    by_cases hlt : key < e.1
    · rw [if_pos hlt, get?_cons]
    rw [if_neg hlt]
    by_cases hkey : e.1 = key
    · rw [if_pos hkey, get?_cons, get?_cons, hkey]
      by_cases h : key = key'
      · rw [if_pos h, if_pos h]
      · rw [if_neg h, if_neg h, if_neg h]
    · rw [if_neg hkey, get?_cons, get?_cons, ih]
      by_cases h : key = key'
      · rw [if_pos h, if_pos h, if_neg fun heq => hkey (heq.trans h.symm)]
      · simp only [if_neg h]

theorem eq_or_mem_of_mem_insertOrAssign (h : e ∈ insertOrAssign key value m) :
    e = (key, value) ∨ e ∈ m := by
  induction m with
  | nil => exact .inl (List.mem_singleton.mp h)
  | cons e' m ih =>
    rw [insertOrAssign] at h
    split_ifs at h
    · exact List.mem_cons.mp h
    · exact (List.mem_cons.mp h).imp_right (List.mem_cons_of_mem _)
    · rcases List.mem_cons.mp h with rfl | h
      · exact .inr List.mem_cons_self
      · exact (ih h).imp_right (List.mem_cons_of_mem _)

theorem Sorted.tail (h : Sorted (e :: m)) : Sorted m := (List.pairwise_cons.mp h).2

theorem Sorted.insertOrAssign (h : Sorted m) : Sorted (insertOrAssign key value m) := by
  induction m with
  | nil => exact List.pairwise_singleton _ _
  | cons e m ih =>
    have hhead := (List.pairwise_cons.mp h).1
    rw [SortedMap.insertOrAssign]
    split_ifs with hlt hkey
    · refine List.pairwise_cons.mpr ⟨fun e' he' => ?_, h⟩
      rcases List.mem_cons.mp he' with rfl | he'
      · exact hlt
      · exact hlt.trans (hhead e' he')
    · exact List.pairwise_cons.mpr ⟨fun e' he' => hkey ▸ hhead e' he', h.tail⟩
    · refine List.pairwise_cons.mpr ⟨fun e' he' => ?_, ih h.tail⟩
      rcases eq_or_mem_of_mem_insertOrAssign he' with rfl | he'
      · exact lt_of_le_of_ne (not_lt.mp hlt) hkey
      · exact hhead e' he'

theorem Sorted.mem_iff (h : Sorted m) : e ∈ m ↔ get? m e.1 = some e.2 := by
  induction m with
  | nil => simp
  | cons e' m ih =>
    have hhead := (List.pairwise_cons.mp h).1
    rw [get?_cons, List.mem_cons]
    split_ifs with hkey
    · constructor
      · rintro (rfl | hmem)
        · rfl
        · exact absurd hkey (hhead e hmem).ne
      · exact fun heq => .inl (Prod.ext hkey.symm (Option.some.inj heq).symm)
    · rw [← ih h.tail]
      exact ⟨fun hmem => hmem.resolve_left fun heq => hkey (heq ▸ rfl), .inr⟩

/-- The keys of a sorted map are different. -/
theorem Sorted.eq_of_key (h : Sorted m) {e' : κ × α} (he : e ∈ m) (he' : e' ∈ m)
    (hkey : e.1 = e'.1) : e = e' := by
  have hget := h.mem_iff.mp he
  rw [hkey, h.mem_iff.mp he'] at hget
  exact Prod.ext hkey (Option.some.inj hget).symm

/-- What holds between each entry and the later ones holds between keys in their order. -/
theorem Sorted.pairwise_iff (h : Sorted m) {r : κ × α → κ × α → Prop} :
    m.Pairwise r ↔ ∀ e ∈ m, ∀ e' ∈ m, e.1 < e'.1 → r e e' := by
  induction m with
  | nil => simp
  | cons e m ih =>
    have hhead := (List.pairwise_cons.mp h).1
    rw [List.pairwise_cons, ih h.tail]
    constructor
    · rintro ⟨hfirst, hrest⟩ a ha b hb hlt
      rcases List.mem_cons.mp ha with rfl | hmem
      · exact hfirst b ((List.mem_cons.mp hb).resolve_left fun heq => hlt.ne (heq ▸ rfl))
      rcases List.mem_cons.mp hb with rfl | hmem'
      · exact absurd (hhead a hmem) hlt.asymm
      · exact hrest a hmem b hmem' hlt
    · intro hall
      refine ⟨fun b hb => hall e List.mem_cons_self b (List.mem_cons_of_mem _ hb) (hhead b hb), ?_⟩
      exact fun a ha b hb => hall a (List.mem_cons_of_mem _ ha) b (List.mem_cons_of_mem _ hb)

/-- Insert all the entries, from left to right. -/
def ofList (entries : List (κ × α)) : List (κ × α) :=
  entries.foldl (fun m e => insertOrAssign e.1 e.2 m) []

theorem ofList_concat (entries : List (κ × α)) :
    ofList (entries ++ [e]) = insertOrAssign e.1 e.2 (ofList entries) := by
  rw [ofList, List.foldl_append]
  rfl

theorem sorted_ofList (entries : List (κ × α)) : Sorted (ofList entries) := by
  induction entries using List.reverseRecOn with
  | nil => exact List.Pairwise.nil
  | append_singleton entries e ih =>
    rw [ofList_concat]
    exact ih.insertOrAssign

/-- What is found is what was inserted last. -/
theorem get?_ofList_eq_some (entries : List (κ × α)) : get? (ofList entries) key = some value ↔
    ∃ before after, entries = before ++ (key, value) :: after ∧ ∀ e ∈ after, e.1 ≠ key := by
  induction entries using List.reverseRecOn with
  | nil => simp [ofList]
  | append_singleton entries e ih =>
    rw [ofList_concat, get?_insertOrAssign]
    split_ifs with hkey
    · constructor
      · intro h
        refine ⟨entries, [], ?_, fun _ he => nomatch he⟩
        rw [← hkey, ← Option.some.inj h]
      · rintro ⟨before, after, heq, hafter⟩
        rcases List.eq_nil_or_concat after with rfl | ⟨after, last, rfl⟩
        · rw [List.singleton_inj.mp (List.append_inj' heq rfl).2]
        · rw [List.concat_eq_append, ← List.cons_append, ← List.append_assoc] at heq
          have hlast := List.singleton_inj.mp (List.append_inj' heq rfl).2
          refine absurd hkey (hlast ▸ hafter last ?_)
          rw [List.concat_eq_append]
          exact List.mem_append_right _ (List.mem_singleton.mpr rfl)
    · rw [ih]
      constructor
      · rintro ⟨before, after, rfl, hafter⟩
        refine ⟨before, after ++ [e], List.append_assoc _ _ _, fun e' he' => ?_⟩
        rcases List.mem_append.mp he' with he' | he'
        · exact hafter e' he'
        · exact List.mem_singleton.mp he' ▸ hkey
      · rintro ⟨before, after, heq, hafter⟩
        rcases List.eq_nil_or_concat after with rfl | ⟨after, last, rfl⟩
        · exact absurd (congrArg Prod.fst (List.singleton_inj.mp (List.append_inj' heq rfl).2)) hkey
        · rw [List.concat_eq_append, ← List.cons_append, ← List.append_assoc] at heq
          exact ⟨before, after, (List.append_inj' heq rfl).1, fun e' he' => hafter e' (by
            rw [List.concat_eq_append]
            exact List.mem_append_left _ he')⟩

end SortedMap
