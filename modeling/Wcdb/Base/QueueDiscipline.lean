import Mathlib.Algebra.Order.Ring.Int
import Mathlib.Data.List.Count
import Mathlib.Logic.Function.Basic
import Mathlib.Order.Bounds.Basic
import Wcdb.Base.TimedQueue
import Wcdb.Lib.Run

/-!
# The discipline of `TimedQueue`

Any thread queues and removes keys; one thread takes the expired elements out of the queue, with
the lock, and hands them to a callback, without it. `step` is one call or one of these two halves of
a pass.

`record` writes down, beside the run, what the discipline is about: the requests for each key since
it was last absent or last queued in the mode `ReQueue`, the insertions into the list, how often
each key was queued while it was absent, and what was delivered. `disciplined_of_exec`: the queue
is disciplined in every state that a run reaches.
-/

namespace Wcdb.QueueDiscipline

variable {Key Info : Type} [DecidableEq Key]

/-! ### The queue -/

/-- The queue and what it depends on. The clock is that of `steady_clock`, in nanoseconds, and
`expireds` is on its way to the callback. -/
structure State (Key Info : Type) where
  list : UniqueList Key Info ℤ := []
  isStopped : Bool := false
  expireds : Option (Key × Info) := none
  isExiting : Bool := false
  now : ℤ := 0

inductive Act (Key Info : Type) where
  | tick (elapsed : ℕ)
  | exit
  | queue (key : Key) (delay : ℤ) (info : Info) (mode : TimedQueue.Mode)
  | remove (key : Key)
  | stop
  /-- A pass of the loop up to the end of the lock. -/
  | expire
  /-- The rest of the pass. -/
  | deliver

namespace State

variable (σ : State Key Info)

/-- The list is not used any more. -/
def isClosed : Bool := σ.isExiting || σ.isStopped

omit [DecidableEq Key] in
def stop : State Key Info := { σ with list := [], isStopped := true }

def queue (key : Key) (delay : ℤ) (info : Info) (mode : TimedQueue.Mode) : State Key Info :=
  if σ.isExiting then σ.stop
  else if σ.isStopped then σ
  else { σ with list := TimedQueue.queue σ.list σ.now key delay info mode }

def remove (key : Key) : State Key Info :=
  if σ.isStopped then σ
  else if σ.isExiting then { σ with list := σ.list.erase key }.stop
  else { σ with list := σ.list.erase key }

/-- What the loop takes from the list. -/
def expired : Option ((Key × Info) × UniqueList Key Info ℤ) :=
  if σ.isClosed then none else TimedQueue.expire σ.list σ.now

def expire : State Key Info :=
  match σ.expired with
  | none => σ
  | some (pair, list) => { σ with list, expireds := some pair }

end State

/-- The loop begins a pass when it has ended the one before. -/
def step (σ : State Key Info) : Act Key Info → Option (State Key Info)
  | .tick elapsed => some { σ with now := σ.now + elapsed }
  | .exit => some { σ with isExiting := true }
  | .queue key delay info mode => some (σ.queue key delay info mode)
  | .remove key => some (σ.remove key)
  | .stop => some σ.stop
  | .expire => if σ.expireds.isNone then some σ.expire else none
  | .deliver => if σ.expireds.isNone then none else some { σ with expireds := none }

/-! ### The record of a run -/

/-- An element that was delivered. `others` are the deadlines that stayed in the queue when it was
taken out. -/
structure Delivery (Key Info : Type) where
  key : Key
  info : Info
  deadline : ℤ
  others : List ℤ
  time : ℤ

structure History (Key Info : Type) where
  /-- The requests for a key, deadline and info, since it was last absent or last queued in the
  mode `ReQueue`. -/
  requests : Key → List (ℤ × Info) := fun _ => []
  insertions : ℕ := 0
  /-- Which insertion placed a key. -/
  inserted : Key → ℕ := fun _ => 0
  /-- How often a key was queued while it was absent. -/
  absences : Key → ℕ := fun _ => 0
  /-- The deadline of what is on its way, and the deadlines that stayed. -/
  taken : Option (ℤ × List ℤ) := none
  delivered : List (Delivery Key Info) := []

namespace History

variable (h : History Key Info)

def request (absent : Bool) (key : Key) (expired : ℤ) (info : Info) (mode : TimedQueue.Mode) :
    History Key Info :=
  { h with
    requests := Function.update h.requests key
      (if absent ∨ mode = .reQueue then [(expired, info)] else h.requests key ++ [(expired, info)])
    absences := if absent then Function.update h.absences key (h.absences key + 1) else h.absences }

def insertion (key : Key) : History Key Info :=
  { h with
    insertions := h.insertions + 1
    inserted := Function.update h.inserted key h.insertions }

end History

/-- Whether a request is an insertion into the list. -/
def inserts (σ : State Key Info) (key : Key) (delay : ℤ) (mode : TimedQueue.Mode) : Bool :=
  match σ.list.find key with
  | none => true
  | some element => !(mode = .forwardOnly ∧ element.order < σ.now + delay)

def record (σ : State Key Info) (h : History Key Info) : Act Key Info → History Key Info
  | .queue key delay info mode =>
      if σ.isClosed then h
      else
        let requested := h.request (σ.list.find key).isNone key (σ.now + delay) info mode
        if inserts σ key delay mode then requested.insertion key else requested
  | .expire =>
      match σ.expired, σ.list with
      | some (_, list), shortest :: _ =>
          { h with taken := some (shortest.order, list.map UniqueListElement.order) }
      | _, _ => h
  | .deliver =>
      match σ.expireds, h.taken with
      | some (key, info), some (deadline, others) =>
          { h with
            taken := none
            delivered := if σ.isExiting then h.delivered
              else h.delivered ++ [⟨key, info, deadline, others, σ.now⟩] }
      | _, _ => h
  | _ => h

/-- A step with its record. -/
def recorded (s : State Key Info × History Key Info) (a : Act Key Info) :
    Option (State Key Info × History Key Info) :=
  (step s.1 a).map fun σ => (σ, record s.1 s.2 a)

/-! ### The discipline -/

/-- The order of the queue. -/
def Before (h : History Key Info) (a b : UniqueListElement Key Info ℤ) : Prop :=
  a.order < b.order ∨ a.order = b.order ∧ h.inserted a.key < h.inserted b.key

/-- **The discipline of the queue.** -/
structure Disciplined (σ : State Key Info) (h : History Key Info) : Prop where
  unique : σ.list.Unique
  ordered : σ.list.Pairwise (Before h)
  deadline : ∀ element ∈ σ.list,
    IsLeast {d | ∃ info, (d, info) ∈ h.requests element.key} element.order
  info : ∀ element ∈ σ.list, (h.requests element.key).getLast?.map Prod.snd = some element.value
  once : ∀ key, (h.delivered.map Delivery.key).count key ≤ h.absences key
  due : ∀ d ∈ h.delivered, d.deadline ≤ d.time
  earliest : ∀ d ∈ h.delivered, ∀ other ∈ d.others, d.deadline ≤ other

/-- What every step keeps. -/
structure Inv (σ : State Key Info) (h : History Key Info) : Prop where
  unique : σ.list.Unique
  ordered : σ.list.Pairwise (Before h)
  earlier : ∀ element ∈ σ.list, h.inserted element.key < h.insertions
  deadline : ∀ element ∈ σ.list,
    IsLeast {d | ∃ info, (d, info) ∈ h.requests element.key} element.order
  info : ∀ element ∈ σ.list, (h.requests element.key).getLast?.map Prod.snd = some element.value
  counted : ∀ key, (h.delivered.map Delivery.key).count key +
    (σ.expireds.toList.map Prod.fst).count key +
    (σ.list.map UniqueListElement.key).count key ≤ h.absences key
  taken : ∀ t ∈ h.taken, t.1 ≤ σ.now ∧ ∀ other ∈ t.2, t.1 ≤ other
  delivered : ∀ d ∈ h.delivered, d.deadline ≤ d.time ∧ ∀ other ∈ d.others, d.deadline ≤ other

theorem Inv.disciplined {σ : State Key Info} {h : History Key Info} (hinv : Inv σ h) :
    Disciplined σ h where
  unique := hinv.unique
  ordered := hinv.ordered
  deadline := hinv.deadline
  info := hinv.info
  once key := ((Nat.le_add_right _ _).trans (Nat.le_add_right _ _)).trans (hinv.counted key)
  due d hd := (hinv.delivered d hd).1
  earliest d hd := (hinv.delivered d hd).2

/-! ### What a step keeps -/

variable {σ σ' : State Key Info} {h : History Key Info} {key : Key} {delay : ℤ} {info : Info}
  {mode : TimedQueue.Mode}

/-- Elements leave the list, and time passes. -/
theorem Inv.of_sublist (hinv : Inv σ h) (hsub : σ'.list.Sublist σ.list)
    (hexpireds : σ'.expireds = σ.expireds) (hnow : σ.now ≤ σ'.now) : Inv σ' h where
  unique := hinv.unique.sublist (hsub.map _)
  ordered := hinv.ordered.sublist hsub
  earlier element hmem := hinv.earlier element (hsub.subset hmem)
  deadline element hmem := hinv.deadline element (hsub.subset hmem)
  info element hmem := hinv.info element (hsub.subset hmem)
  counted k := by
    rw [hexpireds]
    exact (Nat.add_le_add_left ((hsub.map _).count_le k) _).trans (hinv.counted k)
  taken t ht := ⟨(hinv.taken t ht).1.trans hnow, (hinv.taken t ht).2⟩
  delivered := hinv.delivered

/-! #### Requests -/

theorem requests_request_self (absent : Bool) (expired : ℤ) :
    (h.request absent key expired info mode).requests key =
      if absent ∨ mode = .reQueue then [(expired, info)]
      else h.requests key ++ [(expired, info)] := Function.update_self ..

theorem requests_request_of_ne (absent : Bool) (expired : ℤ) {k : Key} (hk : k ≠ key) :
    (h.request absent key expired info mode).requests k = h.requests k :=
  Function.update_of_ne hk ..

/-- The info of a key is that of the last request. -/
theorem last_request (absent : Bool) (expired : ℤ) :
    ((h.request absent key expired info mode).requests key).getLast?.map Prod.snd = some info := by
  rw [requests_request_self]
  split_ifs <;> simp

theorem absences_request (absent : Bool) (expired : ℤ) (k : Key) :
    (h.request absent key expired info mode).absences k =
      h.absences k + if absent = true ∧ k = key then 1 else 0 := by
  cases absent with
  | false => simp [History.request]
  | true =>
    by_cases hk : k = key
    · subst hk
      simp [History.request]
    · simp [History.request, hk]

theorem inserted_insertion_self : (h.insertion key).inserted key = h.insertions :=
  Function.update_self ..

theorem inserted_insertion_of_ne {k : Key} (hk : k ≠ key) :
    (h.insertion key).inserted k = h.inserted k := Function.update_of_ne hk ..

theorem find_isNone {l : UniqueList Key Info ℤ} :
    (l.find key).isNone = true ↔ key ∉ l.map UniqueListElement.key := by
  rw [← UniqueList.value?_eq_none, UniqueList.value?, Option.map_eq_none_iff,
    Option.isNone_iff_eq_none]

theorem count_insert {l : UniqueList Key Info ℤ} (hunique : l.Unique) (expired : ℤ) (k : Key) :
    ((l.insert key info expired).map UniqueListElement.key).count k ≤
      (l.map UniqueListElement.key).count k +
        if (l.find key).isNone = true ∧ k = key then 1 else 0 := by
  have hmem : k ∈ (l.insert key info expired).map UniqueListElement.key →
      k = key ∨ k ∈ l.map UniqueListElement.key := by
    intro hk
    obtain ⟨element, helement, rfl⟩ := List.mem_map.mp hk
    rcases (UniqueList.mem_insert hunique).mp helement with rfl | ⟨hold, -⟩
    · exact Or.inl rfl
    · exact Or.inr (List.mem_map_of_mem hold)
  by_cases hk : k ∈ (l.insert key info expired).map UniqueListElement.key
  · have hunique' : (l.insert key info expired).Unique := hunique.insert
    refine (List.nodup_iff_count_le_one.mp hunique' k).trans ?_
    by_cases hold : k ∈ l.map UniqueListElement.key
    · exact (List.one_le_count_iff.mpr hold).trans (Nat.le_add_right _ _)
    · obtain rfl := (hmem hk).resolve_right hold
      rw [if_pos ⟨find_isNone.mpr hold, rfl⟩]
      exact Nat.le_add_left _ _
  · rw [List.count_eq_zero.mpr hk]
    exact Nat.zero_le _

/-- **A request that is an insertion.** The deadline is the least one requested. -/
theorem Inv.insertion (hinv : Inv σ h)
    (hleast : IsLeast {d | ∃ i,
      (d, i) ∈ (h.request (σ.list.find key).isNone key (σ.now + delay) info
      mode).requests key} (σ.now + delay)) :
    Inv { σ with list := σ.list.insert key info (σ.now + delay) }
      ((h.request (σ.list.find key).isNone key (σ.now + delay) info mode).insertion key) := by
  have hmem : ∀ element ∈ σ.list.insert key info (σ.now + delay),
      element = ⟨key, info, σ.now + delay⟩ ∨ element ∈ σ.list ∧ element.key ≠ key :=
    fun element => (UniqueList.mem_insert hinv.unique).mp
  constructor
  case unique => exact hinv.unique.insert
  case ordered =>
    rw [UniqueList.insert_eq]
    have hold : ∀ element ∈ σ.list.erase key, element ∈ σ.list ∧ element.key ≠ key :=
      fun element => (UniqueList.mem_erase hinv.unique).mp
    generalize hh : h.request _ key _ info mode = h'
    have hinserted : h'.inserted = h.inserted := by rw [← hh]; rfl
    have hinsertions : h'.insertions = h.insertions := by rw [← hh]; rfl
    have hstays : ∀ element ∈ σ.list.erase key,
        (h'.insertion key).inserted element.key = h.inserted element.key := fun element helement =>
      (inserted_insertion_of_ne (hold element helement).2).trans (congrFun hinserted _)
    have hordered :=
      hinv.ordered.sublist (List.eraseP_sublist (p := fun element => element.key = key))
    refine UniqueList.pairwise_place ?_ ?_ ?_ ?_
    · refine hordered.imp_of_mem fun {a b} ha hb hab => hab.imp_right fun heq => ⟨heq.1, ?_⟩
      exact ((hstays a ha).trans_lt heq.2).trans_eq (hstays b hb).symm
    · exact hordered.imp fun hab => hab.elim le_of_lt fun heq => heq.1.le
    · exact fun other _ horder => Or.inl horder
    · intro other hother horder
      refine horder.lt_or_eq.imp_right fun heq => ⟨heq, ?_⟩
      rw [hstays other hother, inserted_insertion_self, hinsertions]
      exact hinv.earlier other (hold other hother).1
  case earlier =>
    intro element helement
    rcases hmem element helement with rfl | ⟨hold, hne⟩
    · rw [inserted_insertion_self]
      exact Nat.lt_succ_self _
    · rw [inserted_insertion_of_ne hne]
      exact Nat.lt_succ_of_lt (hinv.earlier element hold)
  case deadline =>
    intro element helement
    rcases hmem element helement with rfl | ⟨hold, hne⟩
    · exact hleast
    · simp only [History.insertion, requests_request_of_ne _ _ hne]
      exact hinv.deadline element hold
  case info =>
    intro element helement
    rcases hmem element helement with rfl | ⟨hold, hne⟩
    · exact last_request _ _
    · simp only [History.insertion, requests_request_of_ne _ _ hne]
      exact hinv.info element hold
  case counted =>
    intro k
    have hcount :
      ((σ.list.insert key info (σ.now + delay)).map UniqueListElement.key).count k ≤ _ :=
      count_insert hinv.unique (σ.now + delay) k
    have hbefore := hinv.counted k
    have habsences :
      (h.request (σ.list.find key).isNone key (σ.now + delay) info mode).absences k = _ :=
      absences_request (σ.list.find key).isNone (σ.now + delay) k
    calc _ ≤ (h.delivered.map Delivery.key).count k + (σ.expireds.toList.map Prod.fst).count k +
          ((σ.list.map UniqueListElement.key).count k +
            if (σ.list.find key).isNone = true ∧ k = key then 1 else 0) :=
        Nat.add_le_add_left hcount _
      _ ≤ h.absences k + if (σ.list.find key).isNone = true ∧ k = key then 1 else 0 := by omega
      _ = _ := habsences.symm
  case taken => exact hinv.taken
  case delivered => exact hinv.delivered

omit [DecidableEq Key] in
/-- A request that is not earlier than the least one. -/
theorem isLeast_append {requests : List (ℤ × Info)} {least expired : ℤ}
    (hleast : IsLeast {d | ∃ i, (d, i) ∈ requests} least) (hle : least ≤ expired) :
    IsLeast {d | ∃ i, (d, i) ∈ requests ++ [(expired, info)]} least := by
  obtain ⟨⟨i, hi⟩, hlower⟩ := hleast
  refine ⟨⟨i, List.mem_append_left _ hi⟩, ?_⟩
  rintro d ⟨j, hj⟩
  rcases List.mem_append.mp hj with hj | hj
  · exact hlower ⟨j, hj⟩
  · cases List.mem_singleton.mp hj
    exact hle

/-- **A request that only changes the info.** The deadline that is queued is earlier. -/
theorem Inv.assign (hinv : Inv σ h) {element : UniqueListElement Key Info ℤ}
    (hfind : σ.list.find key = some element) (hearlier : element.order < σ.now + delay) :
    Inv { σ with list := UniqueList.assign key info σ.list }
      (h.request false key (σ.now + delay) info .forwardOnly) := by
  obtain ⟨hin, hkey⟩ := UniqueList.of_find hfind
  have hslots :
    (UniqueList.assign key info σ.list).map UniqueList.slot = σ.list.map UniqueList.slot :=
    UniqueList.map_slot_assign
  have hsame : ∀ a ∈ UniqueList.assign key info σ.list, ∃ b ∈ σ.list,
      UniqueList.slot b = UniqueList.slot a := fun a ha =>
    List.mem_map.mp (hslots ▸ List.mem_map_of_mem ha)
  constructor
  case unique =>
    rw [UniqueList.Unique, UniqueList.keys_assign]
    exact hinv.unique
  case ordered =>
    -- the order looks at keys and deadlines only
    have hpairs : ∀ l : UniqueList Key Info ℤ, l.Pairwise (Before h) ↔
        (l.map UniqueList.slot).Pairwise fun a b =>
          a.2 < b.2 ∨ a.2 = b.2 ∧ h.inserted a.1 < h.inserted b.1 := fun l => by
      rw [List.pairwise_map]
      rfl
    refine (hpairs _).mpr ?_
    rw [hslots]
    exact (hpairs _).mp hinv.ordered
  case earlier =>
    intro a ha
    obtain ⟨b, hb, hslot⟩ := hsame a ha
    have hkeys : b.key = a.key := congrArg Prod.fst hslot
    exact hkeys ▸ hinv.earlier b hb
  case deadline =>
    intro a ha
    rcases UniqueList.mem_assign hinv.unique ha with ⟨hold, hne⟩ | ⟨heq, -, old, hold, hslot⟩
    · rw [requests_request_of_ne _ _ hne]
      exact hinv.deadline a hold
    · have hsame : old = element :=
        List.inj_on_of_nodup_map hinv.unique hold hin
          ((congrArg Prod.fst hslot).trans (heq.trans hkey.symm))
      have horder : a.order = element.order := (congrArg Prod.snd (hsame ▸ hslot)).symm
      have hleast := hinv.deadline element hin
      rw [hkey] at hleast
      rw [heq, requests_request_self, if_neg (by decide), horder]
      exact isLeast_append hleast hearlier.le
  case info =>
    intro a ha
    rcases UniqueList.mem_assign hinv.unique ha with ⟨hold, hne⟩ | ⟨heq, hvalue, -⟩
    · rw [requests_request_of_ne _ _ hne]
      exact hinv.info a hold
    · rw [heq, last_request, hvalue]
  case counted =>
    intro k
    rw [UniqueList.keys_assign]
    exact hinv.counted k
  case taken => exact hinv.taken
  case delivered => exact hinv.delivered

/-- A request that is earlier than the least one, or that counts alone. -/
theorem isLeast_request {absent : Bool} {expired : ℤ}
    (hearlier : absent = true ∨ mode = .reQueue ∨
      ∃ least, IsLeast {d | ∃ i, (d, i) ∈ h.requests key} least ∧ expired ≤ least) :
    IsLeast {d | ∃ i, (d, i) ∈ (h.request absent key expired info mode).requests key} expired := by
  rw [requests_request_self]
  split_ifs with halone
  · refine ⟨⟨info, List.mem_singleton_self _⟩, ?_⟩
    rintro d ⟨i, hd⟩
    cases List.mem_singleton.mp hd
    exact le_rfl
  · obtain ⟨least, hleast, hle⟩ := (or_assoc.mpr hearlier).resolve_left halone
    refine ⟨⟨info, List.mem_append_right _ (List.mem_singleton_self _)⟩, ?_⟩
    rintro d ⟨i, hd⟩
    rcases List.mem_append.mp hd with hd | hd
    · exact hle.trans (hleast.2 ⟨i, hd⟩)
    · cases List.mem_singleton.mp hd
      exact le_rfl

theorem Inv.queue (hinv : Inv σ h) : Inv (σ.queue key delay info mode)
    (record σ h (.queue key delay info mode)) := by
  rw [State.queue, record, State.isClosed]
  by_cases hexiting : σ.isExiting = true
  · rw [if_pos hexiting, hexiting, Bool.true_or, if_pos rfl]
    exact hinv.of_sublist (List.nil_sublist _) rfl le_rfl
  by_cases hstopped : σ.isStopped = true
  · rw [if_neg hexiting, if_pos hstopped, hstopped, Bool.or_true, if_pos rfl]
    exact hinv
  have hclosed : ¬(σ.isExiting || σ.isStopped) = true := by simp [hexiting, hstopped]
  rw [if_neg hexiting, if_neg hstopped, if_neg hclosed]
  have hinsertion : _ → Inv { σ with list := σ.list.insert key info (σ.now + delay) }
      ((h.request (σ.list.find key).isNone key (σ.now + delay) info mode).insertion key) :=
    hinv.insertion
  rw [TimedQueue.queue, inserts]
  cases hfind : σ.list.find key with
  | none =>
    rw [hfind] at hinsertion
    exact hinsertion (isLeast_request (Or.inl rfl))
  | some element =>
    rw [hfind] at hinsertion
    by_cases hkeeps : mode = .forwardOnly ∧ element.order < σ.now + delay
    · have hassign : Inv { σ with list := UniqueList.assign key info σ.list } _ :=
        hinv.assign hfind hkeeps.2
      simpa [hkeeps.1, hkeeps.2] using hassign
    · have hleast : IsLeast {d | ∃ i, (d, i) ∈ (h.request false key (σ.now + delay) info
          mode).requests key} (σ.now + delay) := by
        refine isLeast_request (Or.inr ?_)
        obtain ⟨hin, rfl⟩ := UniqueList.of_find hfind
        cases mode with
        | reQueue => exact Or.inl rfl
        | forwardOnly =>
          exact Or.inr ⟨_, hinv.deadline element hin, not_lt.mp fun hlt => hkeeps ⟨rfl, hlt⟩⟩
      simpa [hkeeps] using hinsertion hleast

/-! #### The loop -/

theorem Inv.expire (hinv : Inv σ h) (hnone : σ.expireds.isNone = true) :
    Inv σ.expire (record σ h .expire) := by
  rw [State.expire, record]
  cases hexpired : σ.expired with
  | none => exact hinv
  | some result =>
    obtain ⟨pair, list⟩ := result
    rw [State.expired] at hexpired
    split_ifs at hexpired
    cases hlist : σ.list with
    | nil =>
      rw [hlist] at hexpired
      cases hexpired
    | cons shortest rest =>
      rw [hlist, TimedQueue.expire] at hexpired
      split_ifs at hexpired with hdue
      cases hexpired
      have hsub : List.Sublist list σ.list := hlist ▸ List.sublist_cons_self shortest list
      have hordered := hinv.ordered
      rw [hlist, List.pairwise_cons] at hordered
      constructor
      case unique => exact hinv.unique.sublist (hsub.map _)
      case ordered => exact hordered.2
      case earlier => exact fun element hmem => hinv.earlier element (hsub.subset hmem)
      case deadline => exact fun element hmem => hinv.deadline element (hsub.subset hmem)
      case info => exact fun element hmem => hinv.info element (hsub.subset hmem)
      case counted =>
        -- the element is on its way, and no longer in the list
        intro k
        have hbefore := hinv.counted k
        rw [Option.isNone_iff_eq_none.mp hnone, hlist, List.map_cons, List.count_cons] at hbefore
        simp only [Option.toList_some, List.map_cons, List.map_nil, List.count_singleton,
          Option.toList_none, List.count_nil] at hbefore ⊢
        omega
      case taken =>
        rintro t ⟨⟩
        refine ⟨hdue, fun other hother => ?_⟩
        obtain ⟨element, hmem, rfl⟩ := List.mem_map.mp hother
        exact (hordered.1 element hmem).elim le_of_lt fun heq => heq.1.le
      case delivered => exact hinv.delivered

theorem Inv.deliver (hinv : Inv σ h) : Inv { σ with expireds := none } (record σ h .deliver) := by
  -- what is on its way is dropped, or delivered
  have hdrop : ∀ k, (h.delivered.map Delivery.key).count k +
      (σ.list.map UniqueListElement.key).count k ≤ h.absences k := fun k =>
    (Nat.add_le_add_right (Nat.le_add_right _ _) _).trans (hinv.counted k)
  rw [record]
  cases hexpireds : σ.expireds with
  | none => exact { hinv with counted := by simpa [hexpireds] using hinv.counted }
  | some pair =>
    cases htaken : h.taken with
    | none => exact { hinv with counted := hdrop }
    | some t =>
      obtain ⟨hdue, hothers⟩ := hinv.taken t htaken
      refine { hinv with
        counted := fun k => ?_, taken := (fun t ht => nomatch ht), delivered := ?_ }
      · have hbefore := hinv.counted k
        rw [hexpireds] at hbefore
        dsimp only
        split_ifs
        · exact hdrop k
        · simpa [List.count_append, Nat.add_assoc] using hbefore
      · dsimp only
        split_ifs
        · exact hinv.delivered
        · refine List.forall_mem_append.mpr ⟨hinv.delivered, List.forall_mem_singleton.mpr ?_⟩
          exact ⟨hdue, hothers⟩

/-- **Every step keeps the invariant.** -/
theorem inv_recorded {s s' : State Key Info × History Key Info} {a : Act Key Info}
    (hinv : Inv s.1 s.2) (hstep : recorded s a = some s') : Inv s'.1 s'.2 := by
  obtain ⟨σ, h⟩ := s
  obtain ⟨τ, hτ, rfl⟩ := Option.map_eq_some_iff.mp hstep
  cases a with
  | tick elapsed =>
    cases hτ
    exact hinv.of_sublist (List.Sublist.refl _) rfl
      (Int.le_add_of_nonneg_right (Int.natCast_nonneg _))
  | exit =>
    cases hτ
    exact hinv.of_sublist (List.Sublist.refl _) rfl le_rfl
  | queue key delay info mode =>
    cases hτ
    exact hinv.queue
  | remove key =>
    cases hτ
    refine hinv.of_sublist ?_ ?_ ?_ <;> dsimp only [State.remove] <;> split_ifs
    · exact List.Sublist.refl _
    · exact List.nil_sublist _
    · exact List.eraseP_sublist
    all_goals rfl
  | stop =>
    cases hτ
    exact hinv.of_sublist (List.nil_sublist _) rfl le_rfl
  | expire =>
    rw [step] at hτ
    split_ifs at hτ with hnone
    cases hτ
    exact hinv.expire hnone
  | deliver =>
    rw [step] at hτ
    split_ifs at hτ
    cases hτ
    exact hinv.deliver

theorem inv_empty : Inv ({} : State Key Info) {} where
  unique := List.nodup_nil
  ordered := List.Pairwise.nil
  earlier _ hmem := absurd hmem List.not_mem_nil
  deadline _ hmem := absurd hmem List.not_mem_nil
  info _ hmem := absurd hmem List.not_mem_nil
  counted _ := le_rfl
  taken _ ht := nomatch ht
  delivered _ hmem := absurd hmem List.not_mem_nil

/-- **The queue is disciplined** in every state that a run reaches. -/
theorem disciplined_of_exec {acts : List (Act Key Info)} {σ : State Key Info} {h : History Key Info}
    (hexec : Run.exec recorded ({}, {}) acts = some (σ, h)) : Disciplined σ h :=
  (Run.inv_exec_of_step (I := fun s => Inv s.1 s.2) (fun _ _ _ => inv_recorded) inv_empty
    hexec).disciplined

/-- Two keys are queued, the first one again and later, and the second one expires. -/
def twoKeys : List (Act ℕ String) :=
  [.queue 1 5 "a" .forwardOnly, .queue 2 3 "b" .reQueue, .queue 1 9 "c" .forwardOnly, .tick 4,
    .expire, .deliver]

theorem disciplined_of_exec_twoKeys :
    ∃ (σ : State ℕ String) (h : History ℕ String), Disciplined σ h ∧
      σ.list = [⟨1, "c", 5⟩] ∧ h.delivered.map Delivery.key = [2] := by
  obtain ⟨s, hexec, hlist, hdelivered⟩ : ∃ s, Run.exec recorded ({}, {}) twoKeys = some s ∧
      s.1.list = [⟨1, "c", 5⟩] ∧ s.2.delivered.map Delivery.key = [2] := ⟨_, rfl, rfl, rfl⟩
  exact ⟨s.1, s.2, disciplined_of_exec hexec, hlist, hdelivered⟩

end Wcdb.QueueDiscipline
