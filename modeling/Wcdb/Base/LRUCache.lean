import Mathlib.Algebra.BigOperators.Group.List.Basic
import Wcdb.Base.Serialization
import Wcdb.Lib.Run

/-!
# The LRU cache and its memory

`LRUCache` keeps its entries in the order of their last use. The two caches of the repair kit, for
decrypted pages and for mapped ranges, count the memory of their entries in `m_currentUsedMemery`:
`insert` adds the size of a value, and `willPurge` subtracts it.

An insertion over the limit purges one entry, whatever its size is. `accounting_of_fits`: the count
is right in every run that inserts absent keys only, and the limit is kept after each insertion in
which one entry is enough.
-/

namespace Wcdb

/-- `m_list`, with the entry that was used last in front. `m_map` has the same keys and leads to
the entries, so it is the list that is searched here. -/
structure LRUCache (κ ν : Type) where
  list : List (κ × ν) := []
  currentUsedMemory : ℕ := 0
  /-- A subtraction in `willPurge` has gone below zero. Nothing reads this. -/
  underflow : Bool := false
  deriving DecidableEq

namespace LRUCache

variable {κ ν : Type} (size : ν → ℕ) (maxAllowedMemory : ℕ)

section Cache

variable [DecidableEq κ]

def containsKey (c : LRUCache κ ν) (key : κ) : Bool := c.list.any fun entry => entry.1 = key

/-- `retain` splices the entry to the front, when `get` or `find` has found it. -/
def retain (c : LRUCache κ ν) (key : κ) : LRUCache κ ν :=
  match c.list.find? fun entry => entry.1 = key with
  | none => c
  | some entry => { c with list := entry :: c.list.eraseP fun entry => entry.1 = key }

def willPurge (c : LRUCache κ ν) (value : ν) : LRUCache κ ν :=
  { c with
    currentUsedMemory := u64 (c.currentUsedMemory + 2 ^ 64 - size value)
    underflow := c.underflow || decide (c.currentUsedMemory < size value) }

/-- One turn of the loop of `purge`, which ends when the list is empty. -/
def purgeOne (c : LRUCache κ ν) : LRUCache κ ν :=
  match c.list.getLast? with
  | none => c
  | some last => { willPurge size c last.2 with list := c.list.dropLast }

def purge (c : LRUCache κ ν) (count : ℕ) : LRUCache κ ν := (purgeOne size)^[count] c

def shouldPurge (c : LRUCache κ ν) : Bool := c.currentUsedMemory > maxAllowedMemory

/-- The entry that was there under the key is erased, and its size stays counted. -/
def put (c : LRUCache κ ν) (key : κ) (value : ν) : LRUCache κ ν :=
  let c := { c with list := (key, value) :: c.list.eraseP fun entry => entry.1 = key }
  if shouldPurge maxAllowedMemory c then purge size c 1 else c

/-- `Cache::insert` of both caches. -/
def insert (c : LRUCache κ ν) (key : κ) (value : ν) : LRUCache κ ν :=
  put size maxAllowedMemory
    { c with currentUsedMemory := u64 (c.currentUsedMemory + size value) } key value

end Cache

/-- What is done with a cache. -/
inductive Op (κ ν : Type)
  | insert (key : κ) (value : ν)
  | lookup (key : κ)
  | purge (count : ℕ)

def step [DecidableEq κ] (c : LRUCache κ ν) : Op κ ν → Option (LRUCache κ ν)
  | .insert key value => some (insert size maxAllowedMemory c key value)
  | .lookup key => some (retain c key)
  | .purge count => some (purge size c count)

/-- The sum of the sizes of some entries. -/
def total (list : List (κ × ν)) : ℕ := (list.map fun entry => size entry.2).sum

/-- The count is the sum of the sizes, and has never gone below zero. -/
structure Accounted (c : LRUCache κ ν) : Prop where
  used : c.currentUsedMemory = total size c.list
  bound : total size c.list < 2 ^ 64
  underflow : c.underflow = false

/-- At most the maximum is used, unless a single entry remains. -/
def Limited (c : LRUCache κ ν) : Prop :=
  c.currentUsedMemory ≤ maxAllowedMemory ∨ c.list.length = 1

/-- There is room for the value, or there is when the entry that was used first is gone, or it is
the only other one. -/
def Fits (c : LRUCache κ ν) (value : ν) : Prop :=
  total size c.list + size value ≤ maxAllowedMemory ∨
    total size c.list.dropLast + size value ≤ maxAllowedMemory ∨ c.list.length ≤ 1

/-- The condition on a step: `insert` asserts that the key is absent, and the sizes are those of
data that is in memory together. -/
def Ok [DecidableEq κ] (c : LRUCache κ ν) : Op κ ν → Prop
  | .insert key value => containsKey c key = false ∧
      total size c.list + size value < 2 ^ 64 ∧ Fits size maxAllowedMemory c value
  | _ => True

instance [DecidableEq κ] (c : LRUCache κ ν) :
    (op : Op κ ν) → Decidable (Ok size maxAllowedMemory c op)
  | .insert _ _ => by unfold Ok Fits; infer_instance
  | .lookup _ | .purge _ => .isTrue trivial

/-! ### Sums of sizes -/

variable {size maxAllowedMemory}

@[simp]
theorem total_cons (entry : κ × ν) (list : List (κ × ν)) :
    total size (entry :: list) = size entry.2 + total size list := rfl

variable (size) in
theorem total_dropLast {list : List (κ × ν)} {last : κ × ν} (h : list.getLast? = some last) :
    total size list = total size list.dropLast + size last.2 := by
  obtain ⟨init, rfl⟩ := List.getLast?_eq_some_iff.mp h
  simp [total]

variable (size) in
theorem total_eq_of_perm {list list' : List (κ × ν)} (h : list.Perm list') :
    total size list = total size list' := (h.map _).sum_eq

/-- What `purge` does with the last entry. -/
theorem purgeOne_eq {c : LRUCache κ ν} (h : Accounted size c) {last : κ × ν}
    (hlast : c.list.getLast? = some last) :
    purgeOne size c = ⟨c.list.dropLast, total size c.list.dropLast, false⟩ := by
  have htotal := total_dropLast size hlast
  have hbound := h.bound
  have hused : u64 (c.currentUsedMemory + 2 ^ 64 - size last.2) = total size c.list.dropLast := by
    rw [h.used, u64]
    omega
  have hflow : decide (c.currentUsedMemory < size last.2) = false := by
    rw [h.used]
    exact decide_eq_false (by omega)
  rw [purgeOne, hlast]
  simp only [willPurge, hused, hflow, h.underflow, Bool.or_false]

theorem Accounted.purgeOne {c : LRUCache κ ν} (h : Accounted size c) :
    Accounted size (purgeOne size c) := by
  cases hlast : c.list.getLast? with
  | none =>
    rw [LRUCache.purgeOne, hlast]
    exact h
  | some last =>
    rw [purgeOne_eq h hlast]
    have htotal := total_dropLast size hlast
    exact ⟨rfl, by have := h.bound; dsimp only; omega, rfl⟩

theorem Accounted.purge {c : LRUCache κ ν} (h : Accounted size c) (count : ℕ) :
    Accounted size (purge size c count) := by
  rw [LRUCache.purge]
  induction count with
  | zero => exact h
  | succ count ih =>
    rw [Function.iterate_succ_apply']
    exact ih.purgeOne

/-! ### The entries that remain -/

theorem list_purgeOne (c : LRUCache κ ν) : (purgeOne size c).list = c.list.dropLast := by
  rw [purgeOne]
  cases hlast : c.list.getLast? with
  | none =>
    rw [List.getLast?_eq_none_iff] at hlast
    simp only [hlast, List.dropLast_nil]
  | some last => rfl

theorem sublist_purge (c : LRUCache κ ν) (count : ℕ) :
    (purge size c count).list.Sublist c.list := by
  rw [purge]
  induction count with
  | zero => exact .refl _
  | succ count ih =>
    rw [Function.iterate_succ_apply', list_purgeOne]
    exact (List.dropLast_sublist _).trans ih

section Steps

variable [DecidableEq κ]

/-- An insertion adds no entry but its own. -/
theorem sublist_insert (c : LRUCache κ ν) (key : κ) (value : ν) :
    (insert size maxAllowedMemory c key value).list.Sublist ((key, value) :: c.list) := by
  have herase : ((key, value) :: c.list.eraseP fun entry => entry.1 = key).Sublist
      ((key, value) :: c.list) := List.eraseP_sublist.cons_cons _
  simp only [insert, put]
  split_ifs
  · exact (sublist_purge _ 1).trans herase
  · exact herase

theorem perm_retain (c : LRUCache κ ν) (key : κ) : (retain c key).list.Perm c.list := by
  rw [retain]
  cases hfind : c.list.find? fun entry => entry.1 = key with
  | none => exact .refl _
  | some entry =>
    obtain ⟨hkey, as, bs, hsplit, hbefore⟩ := List.find?_eq_some_iff_append.mp hfind
    have hfirst : ((entry :: bs).eraseP fun entry => entry.1 = key) = bs :=
      List.eraseP_cons_of_pos hkey
    have herase : (c.list.eraseP fun entry => entry.1 = key) = as ++ bs := by
      rw [hsplit, List.eraseP_append_right _ fun a ha => by simpa using hbefore a ha, hfirst]
    rw [herase, hsplit]
    exact List.perm_middle.symm

theorem Accounted.retain {c : LRUCache κ ν} (h : Accounted size c) (key : κ) :
    Accounted size (retain c key) := by
  have hperm := total_eq_of_perm size (perm_retain c key)
  have hrest : (LRUCache.retain c key).currentUsedMemory = c.currentUsedMemory ∧
      (LRUCache.retain c key).underflow = c.underflow := by
    rw [LRUCache.retain]
    split <;> exact ⟨rfl, rfl⟩
  exact ⟨by rw [hrest.1, hperm, h.used], by rw [hperm]; exact h.bound, by rw [hrest.2, h.underflow]⟩

/-- An absent key: nothing is erased, and the value is counted once. -/
theorem insert_eq {c : LRUCache κ ν} (h : Accounted size c) {key : κ} {value : ν}
    (habsent : containsKey c key = false) (hbound : total size c.list + size value < 2 ^ 64) :
    insert size maxAllowedMemory c key value =
      if total size c.list + size value ≤ maxAllowedMemory then
        ⟨(key, value) :: c.list, total size c.list + size value, false⟩
      else
        purgeOne size ⟨(key, value) :: c.list, total size c.list + size value, false⟩ := by
  have herase : (c.list.eraseP fun entry => entry.1 = key) = c.list := by
    refine List.eraseP_of_forall_not fun entry hentry => ?_
    rw [containsKey, List.any_eq_false] at habsent
    exact habsent entry hentry
  have hused : u64 (c.currentUsedMemory + size value) = total size c.list + size value := by
    rw [h.used, u64, Nat.mod_eq_of_lt hbound]
  rw [insert, put]
  simp only [herase, hused, h.underflow, shouldPurge, gt_iff_lt, decide_eq_true_eq, purge,
    Function.iterate_one]
  split_ifs <;> first | rfl | omega

variable (maxAllowedMemory) in
/-- **The limit after an insertion.** -/
theorem insert_limited_iff {c : LRUCache κ ν} (h : Accounted size c) {key : κ} {value : ν}
    (habsent : containsKey c key = false) (hbound : total size c.list + size value < 2 ^ 64) :
    Accounted size (insert size maxAllowedMemory c key value) ∧
      (Limited maxAllowedMemory (insert size maxAllowedMemory c key value) ↔
        Fits size maxAllowedMemory c value) := by
  have haccounted : Accounted size
      ⟨(key, value) :: c.list, total size c.list + size value, false⟩ :=
    ⟨(Nat.add_comm _ _), by rw [total_cons, Nat.add_comm]; exact hbound, rfl⟩
  rw [insert_eq h habsent hbound]
  split_ifs with hroom
  · exact ⟨haccounted, iff_of_true (.inl hroom) (.inl hroom)⟩
  refine ⟨haccounted.purgeOne, ?_⟩
  cases hlast : c.list.getLast? with
  | none =>
    -- the new entry is the only one, and is purged at once
    rw [List.getLast?_eq_none_iff] at hlast
    have hlast' : ((key, value) :: c.list).getLast? = some (key, value) := by
      rw [hlast]
      rfl
    rw [purgeOne_eq haccounted hlast']
    refine iff_of_true (.inl ?_) (.inr (.inr ?_))
    · rw [hlast]
      exact Nat.zero_le _
    · rw [hlast]
      exact Nat.zero_le _
  | some last =>
    have hne : c.list ≠ [] := fun hnil => by rw [hnil] at hlast; exact nomatch hlast
    have hlast' : ((key, value) :: c.list).getLast? = some last := by
      rw [List.getLast?_cons, hlast]
      rfl
    rw [purgeOne_eq haccounted hlast', List.dropLast_cons_of_ne_nil hne]
    have hlength : c.list.dropLast.length + 1 = c.list.length := by
      rw [List.length_dropLast]
      have := List.length_pos_iff.mpr hne
      omega
    rw [Limited, Fits, total_cons, List.length_cons, hlength]
    have hpos := List.length_pos_iff.mpr hne
    dsimp only
    omega

theorem step_accounted {c d : LRUCache κ ν} {op : Op κ ν} (h : Accounted size c)
    (hok : Ok size maxAllowedMemory c op) (hstep : step size maxAllowedMemory c op = some d) :
    Accounted size d := by
  cases op with
  | insert key value =>
    obtain rfl := Option.some.inj hstep
    exact (insert_limited_iff maxAllowedMemory h hok.1 hok.2.1).1
  | lookup key =>
    obtain rfl := Option.some.inj hstep
    exact h.retain key
  | purge count =>
    obtain rfl := Option.some.inj hstep
    exact h.purge count

end Steps

theorem accounted_empty : Accounted size ({} : LRUCache κ ν) := ⟨rfl, Nat.two_pow_pos 64, rfl⟩

/-- **The accounting of a cache and its limit**, in every run whose insertions are of absent keys
and need one entry to be purged at most. -/
theorem accounting_of_fits {κ ν : Type} [DecidableEq κ] (size : ν → ℕ) (maxAllowedMemory : ℕ)
    (ops : List (Op κ ν)) (c : LRUCache κ ν)
    (hok : Run.Meets (step size maxAllowedMemory) (Ok size maxAllowedMemory) {} ops)
    (hexec : Run.exec (step size maxAllowedMemory) {} ops = some c) :
    Accounted size c ∧
      ∀ before key value, ops = before ++ [.insert key value] → Limited maxAllowedMemory c := by
  have hinv {ops : List (Op κ ν)} {c : LRUCache κ ν}
      (hok : Run.Meets (step size maxAllowedMemory) (Ok size maxAllowedMemory) {} ops)
      (hexec : Run.exec (step size maxAllowedMemory) {} ops = some c) : Accounted size c :=
    Run.inv_exec (I := Accounted size) (fun _ _ _ h hok hstep => step_accounted h hok hstep)
      accounted_empty hok hexec
  refine ⟨hinv hok hexec, ?_⟩
  rintro before key value rfl
  rw [Run.exec_append] at hexec
  obtain ⟨d, hd, hlast⟩ := Option.bind_eq_some_iff.mp hexec
  obtain ⟨hbefore, hafter⟩ := hok.append hd
  obtain rfl : insert size maxAllowedMemory d key value = c := by simpa [Run.exec, step] using hlast
  exact (insert_limited_iff maxAllowedMemory (hinv hbefore hd) hafter.1.1 hafter.1.2.1).2.mpr
    hafter.1.2.2

theorem accounting_of_fits_two :
    ∃ c : LRUCache ℕ ℕ, Accounted id c ∧ (∀ before key value,
      [.insert 1 4096, .lookup 1, .purge 1, .insert 2 (8192 : ℕ)] =
        before ++ [Op.insert (κ := ℕ) key value] → Limited 16777216 c) := by
  obtain ⟨c, hc⟩ := Option.isSome_iff_exists.mp
    (show (Run.exec (step id 16777216) ({} : LRUCache ℕ ℕ)
      [.insert 1 4096, .lookup 1, .purge 1, .insert 2 8192]).isSome by decide +kernel)
  exact ⟨c, accounting_of_fits id 16777216 _ c (by decide +kernel) hc⟩

/-- Sixteen megabytes are filled by a small range and sixteen large ones. The next large range
purges the small one only, and the limit is exceeded. -/
theorem limit_exceeded :
    ∃ c, Run.exec (step id 16777216) ({} : LRUCache ℕ ℕ)
        (.insert 0 4096 :: (List.range 15).map (fun i => .insert (i + 1) 1048576) ++
          [.insert 16 1044480, .insert 17 1048576]) = some c ∧
      c.currentUsedMemory = 17821696 ∧ c.list.length = 17 ∧ ¬Limited 16777216 c := by
  have hrun : (Run.exec (step id 16777216) ({} : LRUCache ℕ ℕ)
      (.insert 0 4096 :: (List.range 15).map (fun i => .insert (i + 1) 1048576) ++
        [.insert 16 1044480, .insert 17 1048576])).any
      (fun c => c.currentUsedMemory = 17821696 ∧ c.list.length = 17) = true := by decide +kernel
  obtain ⟨c, hexec, hc⟩ := (Option.any_eq_true _ _).mp hrun
  obtain ⟨hused, hlength⟩ := of_decide_eq_true hc
  refine ⟨c, hexec, hused, hlength, ?_⟩
  rintro (hle | hone)
  · omega
  · omega

/-! ### Entries of one size -/

end LRUCache

end Wcdb
