import Mathlib.Data.Multiset.Filter
import Mathlib.Data.Multiset.Replicate
import Mathlib.Logic.Function.Basic

/-!
# Counters and their shares

A counter is often the sum of what several holders have taken: readers by thread, handles by
owner, references by object. `Tally n f` says that the counter `n` is the sum of the shares `f`,
for any type of holders. The counter and a share change together (`Tally.set`, `Tally.add`,
`Tally.remove`), the counter is positive exactly when some share is (`Tally.pos_iff`), and with one
holder it is that holder's share (`Tally.eq_of_only`).
-/

/-- The counter `n` is the sum of the shares `f`. -/
def Tally {T : Type} [DecidableEq T] (n : ℕ) (f : T → ℕ) : Prop :=
  ∃ holders : Multiset T, holders.card = n ∧ ∀ t, holders.count t = f t

namespace Tally

variable {T : Type} [DecidableEq T] {n : ℕ} {f : T → ℕ}

theorem zero : Tally 0 fun _ : T => 0 := ⟨0, rfl, fun t => Multiset.count_zero t⟩

/-- A share takes another value, and the counter with it. -/
theorem set (h : Tally n f) (t : T) (v : ℕ) : Tally (n - f t + v) (Function.update f t v) := by
  obtain ⟨holders, rfl, hcount⟩ := h
  refine ⟨holders.filter (· ≠ t) + Multiset.replicate v t, ?_, fun u => ?_⟩
  · have hsplit := congrArg Multiset.card (Multiset.filter_add_not (· = t) holders)
    have hshare : (holders.filter (· = t)).card = f t := by
      rw [← hcount, Multiset.count_eq_card_filter_eq]
      simp only [eq_comm]
    rw [Multiset.card_add, hshare] at hsplit
    rw [Multiset.card_add, Multiset.card_replicate]
    simp only [ne_eq]
    omega
  · rw [Multiset.count_add, Multiset.count_replicate]
    by_cases hu : u = t
    · subst hu
      rw [Multiset.count_filter_of_neg (p := fun v => v ≠ u) (by simp), Function.update_self,
        if_pos rfl, Nat.zero_add]
    · rw [Multiset.count_filter_of_pos (p := fun v => v ≠ t) hu, Function.update_of_ne hu,
        if_neg (Ne.symm hu), hcount, Nat.add_zero]

theorem share_le (h : Tally n f) (t : T) : f t ≤ n := by
  obtain ⟨holders, rfl, hcount⟩ := h
  rw [← hcount]
  exact Multiset.count_le_card t holders

theorem add (h : Tally n f) (t : T) : Tally (n + 1) (Function.update f t (f t + 1)) := by
  have hset := h.set t (f t + 1)
  rwa [← Nat.add_assoc, Nat.sub_add_cancel (h.share_le t)] at hset

theorem remove (h : Tally n f) {t : T} (ht : 0 < f t) :
    Tally (n - 1) (Function.update f t (f t - 1)) := by
  have hle := h.share_le t
  have hset := h.set t (f t - 1)
  rwa [show n - f t + (f t - 1) = n - 1 by omega] at hset

theorem pos_iff (h : Tally n f) : 0 < n ↔ ∃ t, 0 < f t := by
  constructor
  · obtain ⟨holders, rfl, hcount⟩ := h
    intro hpos
    obtain ⟨t, ht⟩ := Multiset.card_pos_iff_exists_mem.mp hpos
    exact ⟨t, by rw [← hcount]; exact Multiset.count_pos.mpr ht⟩
  · rintro ⟨t, ht⟩
    exact Nat.lt_of_lt_of_le ht (h.share_le t)

/-- Distinct holders with a share each are no more than the counter. -/
theorem length_le (h : Tally n f) (ts : List T) (hnodup : ts.Nodup) (hpos : ∀ t ∈ ts, 0 < f t) :
    ts.length ≤ n := by
  obtain ⟨holders, rfl, hcount⟩ := h
  have hle : (ts : Multiset T) ≤ holders := by
    refine Multiset.le_iff_count.mpr fun t => ?_
    by_cases ht : t ∈ ts
    · rw [Multiset.coe_count, List.count_eq_one_of_mem hnodup ht, hcount]
      exact hpos t ht
    · rw [Multiset.coe_count, List.count_eq_zero_of_not_mem ht]
      exact Nat.zero_le _
  exact Multiset.card_le_card hle

theorem eq_zero_iff (h : Tally n f) : n = 0 ↔ ∀ t, f t = 0 := by
  constructor
  · intro hzero t
    exact Nat.eq_zero_of_le_zero (hzero ▸ h.share_le t)
  · intro hall
    by_contra hne
    obtain ⟨t, ht⟩ := h.pos_iff.mp (Nat.pos_of_ne_zero hne)
    exact Nat.ne_of_gt ht (hall t)

/-- With one holder, the counter is that holder's share. -/
theorem eq_of_only (h : Tally n f) {t : T} (honly : ∀ u, 0 < f u → u = t) : n = f t := by
  obtain ⟨holders, rfl, hcount⟩ := h
  rw [← hcount]
  refine (Multiset.count_eq_card.mpr fun u hu => ?_).symm
  exact (honly u (by rw [← hcount]; exact Multiset.count_pos.mpr hu)).symm

end Tally
