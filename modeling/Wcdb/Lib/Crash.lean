import Mathlib.Data.List.Basic

/-!
# Programs over faulty calls, and a logic of what survives a stop

A program that talks to an unreliable environment is a tree of calls: `Prog C A α` issues
calls `c : C`, each answered by a value of `A c`, and returns an `α`. The environment is a
`Handler`: given the call, the state and an **oracle value** (the outcome the environment
chose: success, failure, an order of enumeration, …), it computes the answer and the next
state. Runs are therefore indexed by lists of oracle values and are *computable*; a list
shorter than the run is a process that stopped between two calls.

`Prog.Safe` is the program logic: `Safe h ok I p Q s` says that every run of `p` from `s`,
with oracle values admitted by `ok`, keeps the **stop invariant** `I` at every point and, if
it returns, ends in the postcondition `Q`. The composition rules (`Safe.bind`, `Safe.mono`,
`Safe.call`) push a proof through a program; `Safe.inv_trace` brings it down to runs, and
`inv_lifetime` to a first program followed by any number of restarts, each of which may stop
anywhere.
-/

namespace Crash

/-- Programs issuing calls `c : C` answered in `A c` and returning an `α`. -/
inductive Prog (C : Type) (A : C → Type) (α : Type) : Type where
  | done (a : α) : Prog C A α
  | call (c : C) (k : A c → Prog C A α) : Prog C A α

namespace Prog

variable {C : Type} {A : C → Type} {α β : Type}

/-- Sequencing: graft `f` onto every return of the program. -/
def bind : Prog C A α → (α → Prog C A β) → Prog C A β
  | done a, f => f a
  | call c k, f => call c fun a => (k a).bind f

instance : Monad (Prog C A) where
  pure := done
  bind := bind

/-- The program that issues one call and returns its answer. -/
def issue (c : C) : Prog C A (A c) := call c done

@[simp]
theorem pure_eq (a : α) : (pure a : Prog C A α) = done a := rfl

@[simp]
theorem done_bind (a : α) (f : α → Prog C A β) : (done a >>= f) = f a := rfl

@[simp]
theorem call_bind (c : C) (k : A c → Prog C A α) (f : α → Prog C A β) :
    (call c k >>= f) = call c fun a => k a >>= f := rfl

@[simp]
theorem issue_bind (c : C) (f : A c → Prog C A β) :
    (issue c >>= f : Prog C A β) = call c f := rfl

end Prog

/-- An environment: the answer to a call and the next state, given the oracle value the
environment chose for this call. -/
abbrev Handler (C : Type) (A : C → Type) (O σ : Type) := (c : C) → O → σ → A c × σ

variable {C : Type} {A : C → Type} {O σ α β : Type}

namespace Prog

/-- **Execution against a list of oracle values.** One value is consumed per call; the list
running out is the process stopping, and what is left of the program is returned. -/
def trace (h : Handler C A O σ) : List O → Prog C A α → σ → Prog C A α × σ
  | o :: os, call c k, s => trace h os (k (h c o s).1) (h c o s).2
  | [], p, s => (p, s)
  | _ :: _, done a, s => (done a, s)

/-- Every call of the run along `os` gets an oracle value that `ok` admits in the state in
which the call is made. -/
def Admits (h : Handler C A O σ) (ok : C → O → σ → Prop) : List O → Prog C A α → σ → Prop
  | o :: os, call c k, s => ok c o s ∧ Admits h ok os (k (h c o s).1) (h c o s).2
  | [], _, _ => True
  | _ :: _, done _, _ => True

/-- Whether a run is admitted can be decided by running it. -/
instance Admits.decidable (h : Handler C A O σ) (ok : C → O → σ → Prop)
    [∀ c o s, Decidable (ok c o s)] :
    (os : List O) → (p : Prog C A α) → (s : σ) → Decidable (Admits h ok os p s)
  | o :: os, call c k, s =>
      have := Admits.decidable h ok os (k (h c o s).1) (h c o s).2
      inferInstanceAs (Decidable (ok c o s ∧ Admits h ok os (k (h c o s).1) (h c o s).2))
  | [], _, _ => inferInstanceAs (Decidable True)
  | _ :: _, done _, _ => inferInstanceAs (Decidable True)

/-- **The stop-safety judgment**: along every admitted run of `p` from `s` the invariant `I`
holds at every point, and a run that returns ends in `Q`. -/
def Safe (h : Handler C A O σ) (ok : C → O → σ → Prop) (I : σ → Prop) :
    Prog C A α → (α → σ → Prop) → σ → Prop
  | done a, Q, s => I s ∧ Q a s
  | call c k, Q, s => I s ∧ ∀ o, ok c o s → Safe h ok I (k (h c o s).1) Q (h c o s).2

/-- Every value the program can return satisfies `Q`, whatever the answers. -/
def Returns (Q : α → Prop) : Prog C A α → Prop
  | done a => Q a
  | call _ k => ∀ a, Returns Q (k a)

theorem Returns.bind {p : Prog C A α} {f : α → Prog C A β} {Q : α → Prop} {R : β → Prop}
    (hp : Returns Q p) (hf : ∀ a, Q a → Returns R (f a)) : Returns R (p >>= f) := by
  induction p with
  | done a => exact hf a hp
  | call c k ih => exact fun a => ih a (hp a)

theorem returns_true (p : Prog C A α) : Returns (fun _ => True) p := by
  induction p with
  | done a => trivial
  | call c k ih => exact ih

section Rules

variable {h : Handler C A O σ} {ok : C → O → σ → Prop} {I : σ → Prop}

/-- A safe program starts inside the invariant. -/
theorem Safe.inv {p : Prog C A α} {Q : α → σ → Prop} {s : σ} (hs : Safe h ok I p Q s) : I s := by
  cases p with
  | done a => exact hs.1
  | call c k => exact hs.1

/-- One call: the invariant now, and safety of the continuation after every admitted
outcome. -/
theorem Safe.call {c : C} {k : A c → Prog C A α} {Q : α → σ → Prop} {s : σ} (hI : I s)
    (hk : ∀ o, ok c o s → Safe h ok I (k (h c o s).1) Q (h c o s).2) :
    Safe h ok I (Prog.call c k) Q s :=
  ⟨hI, hk⟩

/-- Consequence: the postcondition may be weakened, using that returns lie in `I`. -/
theorem Safe.mono {p : Prog C A α} {Q Q' : α → σ → Prop} {s : σ} (hs : Safe h ok I p Q s)
    (hQ : ∀ a t, I t → Q a t → Q' a t) : Safe h ok I p Q' s := by
  induction p generalizing s with
  | done a => exact ⟨hs.1, hQ a s hs.1 hs.2⟩
  | call c k ih => exact ⟨hs.1, fun o ho => ih _ (hs.2 o ho)⟩

/-- **Sequencing.** -/
theorem Safe.bind {p : Prog C A α} {f : α → Prog C A β} {Q : α → σ → Prop}
    {R : β → σ → Prop} {s : σ} (hp : Safe h ok I p Q s)
    (hf : ∀ a t, I t → Q a t → Safe h ok I (f a) R t) : Safe h ok I (p >>= f) R s := by
  induction p generalizing s with
  | done a => exact hf a s hp.1 hp.2
  | call c k ih => exact ⟨hp.1, fun o ho => ih _ (hp.2 o ho)⟩

/-- Soundness for one run: wherever an admitted run stops, the invariant holds. -/
theorem Safe.inv_trace {p : Prog C A α} {Q : α → σ → Prop} {s : σ} (hs : Safe h ok I p Q s)
    (os : List O) (hok : Admits h ok os p s) : I (trace h os p s).2 := by
  induction os generalizing p s with
  | nil => cases p <;> exact hs.inv
  | cons o os ih =>
    cases p with
    | done a => exact hs.inv
    | call c k => exact ih (hs.2 o hok.1) hok.2

end Rules

end Prog

/-! ### A first program and its restarts -/

/-- The state after a first program that stopped or returned somewhere along `first`,
followed by one restarted `recover` for each further oracle list. -/
def lifetime (h : Handler C A O σ) (p : Prog C A α) (recover : Prog C A β) (first : List O)
    (restarts : List (List O)) (s : σ) : σ :=
  restarts.foldl (fun t os => (Prog.trace h os recover t).2) (Prog.trace h first p s).2

/-- The oracle values of every run of a lifetime are admitted. -/
def AdmitsRestarts (h : Handler C A O σ) (ok : C → O → σ → Prop) (recover : Prog C A β) :
    List (List O) → σ → Prop
  | [], _ => True
  | os :: rest, t =>
      Prog.Admits h ok os recover t ∧ AdmitsRestarts h ok recover rest (Prog.trace h os recover t).2

instance AdmitsRestarts.decidable (h : Handler C A O σ) (ok : C → O → σ → Prop)
    [∀ c o s, Decidable (ok c o s)] (recover : Prog C A β) :
    (restarts : List (List O)) → (t : σ) → Decidable (AdmitsRestarts h ok recover restarts t)
  | [], _ => inferInstanceAs (Decidable True)
  | os :: rest, t =>
      have := AdmitsRestarts.decidable h ok recover rest (Prog.trace h os recover t).2
      inferInstanceAs (Decidable (Prog.Admits h ok os recover t ∧ _))

/-- **The restart rule.** A stop invariant established by the first program and kept by every
restart holds wherever the last run stopped. -/
theorem inv_lifetime {h : Handler C A O σ} {ok : C → O → σ → Prop} {I : σ → Prop}
    {p : Prog C A α} {recover : Prog C A β} {Q : α → σ → Prop} {s : σ}
    (hp : Prog.Safe h ok I p Q s)
    (hr : ∀ t, I t → Prog.Safe h ok I recover (fun _ _ => True) t)
    (first : List O) (restarts : List (List O)) (hfirst : Prog.Admits h ok first p s)
    (hrest : AdmitsRestarts h ok recover restarts (Prog.trace h first p s).2) :
    I (lifetime h p recover first restarts s) := by
  have hI := hp.inv_trace first hfirst
  unfold lifetime
  generalize (Prog.trace h first p s).2 = t at hI hrest
  induction restarts generalizing t with
  | nil => exact hI
  | cons os rest ih => exact ih _ ((hr t hI).inv_trace os hrest.1) hrest.2

end Crash
