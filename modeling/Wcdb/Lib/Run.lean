import Mathlib.Data.List.Basic
import Mathlib.Algebra.GroupWithZero.Nat

/-!
# Runs of a step function under a condition on each step

A system is a partial step function `step : σ → A → Option σ`. `Run.exec` executes a list of
actions, and `Run.Meets` says that every action of the run meets a condition in the state in
which it is taken. The invariant rule `Run.inv_exec` is all that is needed to prove a property
of every reachable state: one step lemma, under the condition. `Run.simulates` carries a relation
between two systems from steps to runs.
-/

namespace Run

/-- In a run of two parties, they are numbered by `Fin 2`. -/
instance neZero_two : NeZero 2 := ⟨Nat.succ_ne_zero 1⟩

variable {σ A : Type}

/-- Execute a list of actions; `none` when one of them is not possible. -/
def exec (step : σ → A → Option σ) : σ → List A → Option σ
  | s, [] => some s
  | s, a :: as => (step s a).bind fun t => exec step t as

/-- Every action of the run meets the condition in the state in which it is taken. -/
def Meets (step : σ → A → Option σ) (ok : σ → A → Prop) : σ → List A → Prop
  | _, [] => True
  | s, a :: as => ok s a ∧ ∀ t, step s a = some t → Meets step ok t as

instance Meets.decidable (step : σ → A → Option σ) (ok : σ → A → Prop)
    [∀ s a, Decidable (ok s a)] : (s : σ) → (as : List A) → Decidable (Meets step ok s as)
  | _, [] => inferInstanceAs (Decidable True)
  | s, a :: as =>
      match h : step s a with
      | none => decidable_of_iff (ok s a) (by simp [Meets, h])
      | some t =>
          have := Meets.decidable step ok t as
          decidable_of_iff (ok s a ∧ Meets step ok t as) (by simp [Meets, h])

section Rules

variable {step : σ → A → Option σ} {ok : σ → A → Prop} {I : σ → Prop}

theorem exec_append (s : σ) (as bs : List A) :
    exec step s (as ++ bs) = (exec step s as).bind fun t => exec step t bs := by
  induction as generalizing s with
  | nil => rfl
  | cons a as ih => cases h : step s a <;> simp [exec, h, ih]

theorem Meets.append {s t : σ} {as bs : List A} (h : Meets step ok s (as ++ bs))
    (hexec : exec step s as = some t) : Meets step ok s as ∧ Meets step ok t bs := by
  induction as generalizing s with
  | nil => exact ⟨trivial, Option.some.inj hexec ▸ h⟩
  | cons a as ih =>
    obtain ⟨u, hu, hrest⟩ := Option.bind_eq_some_iff.mp hexec
    obtain ⟨has, hbs⟩ := ih (h.2 u hu) hrest
    refine ⟨⟨h.1, fun w hw => ?_⟩, hbs⟩
    obtain rfl : u = w := Option.some.inj (hu.symm.trans hw)
    exact has

/-- A condition on the actions alone is one on the run. -/
theorem Meets.and_of_forall {P : A → Prop} {s : σ} {as : List A} (h : Meets step ok s as)
    (hall : ∀ a ∈ as, P a) : Meets step (fun s a => ok s a ∧ P a) s as := by
  induction as generalizing s with
  | nil => exact trivial
  | cons a as ih =>
    refine ⟨⟨h.1, hall a List.mem_cons_self⟩, fun t ht => ih (h.2 t ht) fun b hb => ?_⟩
    exact hall b (List.mem_cons_of_mem a hb)

theorem Meets.of_forall {P : A → Prop} {s : σ} {as : List A} (hall : ∀ a ∈ as, P a) :
    Meets step (fun _ => P) s as := by
  induction as generalizing s with
  | nil => exact trivial
  | cons a as ih =>
    exact ⟨hall a List.mem_cons_self, fun t _ => ih fun b hb => hall b (List.mem_cons_of_mem a hb)⟩

/-- **The invariant rule.** -/
theorem inv_exec (hstep : ∀ s a t, I s → ok s a → step s a = some t → I t) {s t : σ}
    {as : List A} (hs : I s) (hok : Meets step ok s as) (hexec : exec step s as = some t) :
    I t := by
  induction as generalizing s with
  | nil => exact Option.some.inj hexec ▸ hs
  | cons a as ih =>
    obtain ⟨u, hu, hrest⟩ := Option.bind_eq_some_iff.mp hexec
    exact ih (hstep s a u hs hok.1 hu) (hok.2 u hu) hrest

/-- The invariant rule where every step keeps the invariant. -/
theorem inv_exec_of_step (hstep : ∀ s a t, I s → step s a = some t → I t) {s t : σ} {as : List A}
    (hs : I s) (hexec : exec step s as = some t) : I t := by
  induction as generalizing s with
  | nil => exact Option.some.inj hexec ▸ hs
  | cons a as ih =>
    obtain ⟨u, hu, hrest⟩ := Option.bind_eq_some_iff.mp hexec
    exact ih (hstep s a u hs hu) hrest

/-- The invariant rule with the number of steps made so far. -/
theorem inv_exec_length {I : ℕ → σ → Prop} {s t : σ} {as : List A} {n : ℕ}
    (hstep : ∀ k s a t, k < n + as.length → I k s → ok s a → step s a = some t → I (k + 1) t)
    (hs : I n s) (hok : Meets step ok s as) (hexec : exec step s as = some t) :
    I (n + as.length) t := by
  induction as generalizing s n with
  | nil => exact Option.some.inj hexec ▸ hs
  | cons a as ih =>
    obtain ⟨u, hu, hrest⟩ := Option.bind_eq_some_iff.mp hexec
    have hlength : n + (a :: as).length = n + 1 + as.length := by
      rw [List.length_cons]
      omega
    rw [hlength] at hstep ⊢
    exact ih hstep (hstep n s a u (by omega) hs hok.1 hu) (hok.2 u hu) hrest

/-- **The simulation rule**: a relation kept by every step is kept by every run. -/
theorem simulates {τ : Type} {step' : τ → A → Option τ} {R : σ → τ → Prop}
    (hstep : ∀ s t a s', R s t → step s a = some s' → ∃ t', step' t a = some t' ∧ R s' t')
    {s s' : σ} {t : τ} {as : List A} (hs : R s t) (hexec : exec step s as = some s') :
    ∃ t', exec step' t as = some t' ∧ R s' t' := by
  induction as generalizing s t with
  | nil => exact ⟨t, rfl, Option.some.inj hexec ▸ hs⟩
  | cons a as ih =>
    obtain ⟨u, hu, hrest⟩ := Option.bind_eq_some_iff.mp hexec
    obtain ⟨v, hv, huv⟩ := hstep s t a u hs hu
    obtain ⟨t', ht', hfinal⟩ := ih huv hrest
    exact ⟨t', by simp [exec, hv, ht'], hfinal⟩

end Rules

end Run
