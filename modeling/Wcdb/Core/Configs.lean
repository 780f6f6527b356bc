import Mathlib.Data.Int.Order.Basic
import Wcdb.Base.TimedQueue
import Wcdb.Lib.Run

/-!
# Configs of a handle

`open` and `reconfigure` bring the configs that a handle has invoked to those that are asked for:
all are uninvoked, the last one first, and the new ones are invoked in their order. Any of these
calls can fail. Two configs reopen the handle from within. If the basic config fails because the
main database is not writable, the handle is closed and opened again with the permission to write.
The config of the vacuum mode does the same in its `invoke`, in the middle of the loop over the
configs: when the loop goes on, all configs are invoked already, and the rest of them is invoked
once more.

The recursion of `open` is unrolled here, since a handle that can write is not opened again;
`openHandle_eq` is the equation of the source.

The calls are written down as they are made, and `Connection.act` follows them: it refuses a config
that is invoked on a closed connection or uninvoked while one of a higher order is in effect.
`configured_of_exec`: in every run the configs in effect are those that the handle keeps, and a
handle that is set up has the configs that were asked for, no more and no others.
-/

namespace Wcdb.UniqueList

variable {Key Value : Type} [DecidableEq Key] {element : UniqueListElement Key Value ℤ}
  {key : Key} {value : Value} {order o : ℤ} {l l' : UniqueList Key Value ℤ}

theorem erase_eq_filter (hunique : Unique l) : l.erase key = l.filter fun e => e.key ≠ key := by
  induction l with
  | nil => rfl
  | cons other l ih =>
    rw [erase_cons, List.filter_cons, ih hunique.tail]
    by_cases hkey : other.key = key
    · rw [if_pos hkey, if_neg (by simpa using hkey)]
      have hne : ∀ e ∈ l, e.key ≠ key := by
        intro e he heq
        exact (List.nodup_cons.mp hunique).1 (hkey ▸ heq ▸ List.mem_map_of_mem he)
      exact (List.filter_eq_self.mpr fun e he => by simpa using hne e he).symm
    · rw [if_neg hkey, if_pos (by simpa using hkey)]

theorem sorted_insert (hsorted : l.Pairwise fun a b => a.order ≤ b.order) :
    (l.insert key value order).Pairwise fun a b => a.order ≤ b.order := by
  have hsub : (l.erase key).Pairwise fun a b => a.order ≤ b.order :=
    hsorted.sublist List.eraseP_sublist
  rw [insert_eq]
  exact pairwise_place hsub hsub (fun _ _ hlt => hlt.le) fun _ _ hle => hle

/-- The elements of one order. -/
def group (l : UniqueList Key Value ℤ) (o : ℤ) : UniqueList Key Value ℤ :=
  l.filter fun e => e.order = o

omit [DecidableEq Key] in
theorem group_append : group (l ++ l') o = group l o ++ group l' o := List.filter_append ..

omit [DecidableEq Key] in
theorem group_cons : group (element :: l) o =
    if element.order = o then element :: group l o else group l o := by
  simp only [group, List.filter_cons, decide_eq_true_eq]

omit [DecidableEq Key] in
/-- An element is placed behind its equals. -/
theorem group_place (hsorted : l.Pairwise fun a b => a.order ≤ b.order) :
    group (place element l) o = group l o ++ group [element] o := by
  induction l with
  | nil => rfl
  | cons other l ih =>
    obtain ⟨hother, hl⟩ := List.pairwise_cons.mp hsorted
    rw [place_cons]
    split_ifs with hlt
    · -- nothing of the order of the element follows
      rw [group_cons, group_cons (l := [])]
      by_cases ho : element.order = o
      · have hnone : group (other :: l) o = [] := by
          refine List.filter_eq_nil_iff.mpr fun e he => ?_
          rcases List.mem_cons.mp he with rfl | he
          · simpa using fun heq => (ho ▸ hlt).ne' heq
          · simpa using fun heq => ((ho ▸ hlt).trans_le (hother e he)).ne' heq
        rw [if_pos ho, if_pos ho, hnone]
        rfl
      · rw [if_neg ho, if_neg ho]
        exact (List.append_nil _).symm
    · rw [group_cons, group_cons, ih hl]
      split_ifs <;> rfl

omit [DecidableEq Key] in
/-- A sorted list is determined by its groups. -/
theorem eq_of_group (hl : l.Pairwise fun a b => a.order ≤ b.order)
    (hl' : l'.Pairwise fun a b => a.order ≤ b.order) (h : ∀ o, group l o = group l' o) :
    l = l' := by
  have hmem : ∀ e, e ∈ l ↔ e ∈ l' := by
    intro e
    have hmem : e ∈ group l e.order ↔ e ∈ group l' e.order := by rw [h]
    simpa [group] using hmem
  induction l generalizing l' with
  | nil =>
    cases l' with
    | nil => rfl
    | cons b l' => exact absurd ((hmem b).mpr List.mem_cons_self) List.not_mem_nil
  | cons a l ih =>
    cases l' with
    | nil => exact absurd ((hmem a).mp List.mem_cons_self) List.not_mem_nil
    | cons b l' =>
      obtain ⟨ha, hltail⟩ := List.pairwise_cons.mp hl
      obtain ⟨hb, hltail'⟩ := List.pairwise_cons.mp hl'
      have hab : a.order = b.order := by
        refine le_antisymm ?_ ?_
        · rcases List.mem_cons.mp ((hmem b).mpr List.mem_cons_self) with rfl | hmem
          · exact le_rfl
          · exact ha b hmem
        · rcases List.mem_cons.mp ((hmem a).mp List.mem_cons_self) with rfl | hmem
          · exact le_rfl
          · exact hb a hmem
      have hhead := h a.order
      rw [group_cons, group_cons, if_pos rfl, if_pos hab.symm] at hhead
      obtain ⟨rfl, -⟩ := List.cons.inj hhead
      have hrest : ∀ o, group l o = group l' o := by
        intro o
        have hcons := h o
        rw [group_cons, group_cons] at hcons
        split_ifs at hcons
        · exact (List.cons.inj hcons).2
        · exact hcons
      refine congrArg (a :: ·) (ih hltail hltail' hrest fun e => ?_)
      have hmem : e ∈ group l e.order ↔ e ∈ group l' e.order := by rw [hrest]
      simpa [group] using hmem

theorem group_insert (hunique : Unique l) (hsorted : l.Pairwise fun a b => a.order ≤ b.order) :
    group (l.insert element.key element.value element.order) o =
      (group l o).filter (fun e => e.key ≠ element.key) ++ group [element] o := by
  have hsub : (l.erase element.key).Pairwise fun a b => a.order ≤ b.order :=
    hsorted.sublist List.eraseP_sublist
  rw [insert_eq, group_place hsub, erase_eq_filter hunique, group, group, List.filter_comm]
  rfl

omit [DecidableEq Key] in
theorem perm_place : (place element l).Perm (element :: l) := List.perm_orderedInsert ..

end Wcdb.UniqueList

namespace Wcdb.InnerHandle

abbrev Element (Key Config : Type) := UniqueListElement Key Config ℤ

/-! ### `Configs` -/

/-- A list that is sorted by the orders of its elements and has a key once. -/
structure Configs (Key Config : Type) where
  elements : UniqueList Key Config ℤ
  unique : elements.Unique
  sorted : elements.Pairwise fun a b => a.order ≤ b.order

namespace Configs

variable {Key Config : Type}

@[ext]
theorem ext {c d : Configs Key Config} (h : c.elements = d.elements) : c = d := by
  obtain ⟨elements, unique, sorted⟩ := c
  obtain ⟨elements', unique', sorted'⟩ := d
  obtain rfl : elements = elements' := h
  rfl

instance decidableEq [DecidableEq Key] [DecidableEq Config] : DecidableEq (Configs Key Config) :=
  fun c d => decidable_of_iff (c.elements = d.elements) ⟨ext, congrArg elements⟩

def empty : Configs Key Config := ⟨[], List.nodup_nil, .nil⟩

def popBack (c : Configs Key Config) : Configs Key Config :=
  ⟨c.elements.dropLast, c.unique.sublist ((List.dropLast_sublist _).map _),
    c.sorted.sublist (List.dropLast_sublist _)⟩

theorem elements_popBack (c : Configs Key Config) : c.popBack.elements = c.elements.dropLast := rfl

variable [DecidableEq Key]

def insert (c : Configs Key Config) (element : Element Key Config) : Configs Key Config :=
  ⟨c.elements.insert element.key element.value element.order, c.unique.insert,
    UniqueList.sorted_insert c.sorted⟩

end Configs

/-! ### The handle -/

/-- What a handle does to its connection and the configs. -/
inductive Act (Key Config : Type) where
  | opened
  | closed
  | invoked (element : Element Key Config)
  | uninvoked (element : Element Key Config)

/-- `canWriteMainDB` is the flag for the next opening. `asked` counts the calls that can fail. -/
structure Handle (Key Config : Type) where
  isOpened : Bool := false
  canWriteMainDB : Bool := false
  pendings : Configs Key Config := .empty
  invokeds : Configs Key Config := .empty
  asked : ℕ := 0
  trace : List (Act Key Config) := []

section Handle

variable {Key Config : Type} [DecidableEq Key] [DecidableEq Config] (isBasic : Key → Bool)
  (isAutoVacuum : Config → Bool) (answers : ℕ → Bool)

namespace Handle

variable (h : Handle Key Config)

/-- A call that can fail is made. -/
def ask : Handle Key Config := { h with asked := h.asked + 1 }

def enableWriteMainDB (enable : Bool) : Handle Key Config := { h with canWriteMainDB := enable }

/-- `AbstractHandle::open`. -/
def openConnection : Bool × Handle Key Config :=
  if h.isOpened then (true, h)
  else if answers h.asked then
    (true, { h.ask with isOpened := true, trace := h.trace ++ [.opened] })
  else (false, h.ask)

/-- The last config has been uninvoked. -/
def uninvoked (last : Element Key Config) : Handle Key Config :=
  { h with invokeds := h.invokeds.popBack, trace := h.trace ++ [.uninvoked last] }

/-- A config has been invoked. -/
def invoked (element : Element Key Config) : Handle Key Config :=
  { h with invokeds := h.invokeds.insert element, trace := h.trace ++ [.invoked element] }

/-- The loop of `configure` over what has to be uninvoked, from the back. -/
def uninvokeAll : List (Element Key Config) → Handle Key Config → Bool × Handle Key Config
  | [], h => (true, h)
  | last :: rest, h =>
    if answers h.asked then uninvokeAll rest (h.ask.uninvoked last) else (false, h.ask)

/-- The loop of `close`, which ignores errors. -/
def uninvokeIgnoring : List (Element Key Config) → Handle Key Config → Handle Key Config
  | [], h => h
  | last :: rest, h => uninvokeIgnoring rest (h.ask.uninvoked last)

def close : Handle Key Config :=
  if h.isOpened then
    let h := uninvokeIgnoring h.invokeds.elements.reverse h
    { h with isOpened := false, trace := h.trace ++ [.closed] }
  else h

/-- `Config::invoke`, where `again` is the call of `open` in the one of the vacuum mode: it asks for
the current mode, compares it, and sets the wanted one. -/
def invokeConfig (again : Handle Key Config → Bool × Handle Key Config) (config : Config)
    (h : Handle Key Config) : Bool × Handle Key Config :=
  if ¬isAutoVacuum config ∨ ¬answers h.asked then (answers h.asked, h.ask)
  else if answers h.ask.asked then (true, h.ask.ask)
  else if h.canWriteMainDB then (answers h.ask.ask.asked, h.ask.ask.ask)
  else
    match again (h.ask.ask.enableWriteMainDB true).close with
    | (false, h) => (false, h.enableWriteMainDB false)
    | (true, h) => (answers h.asked, (h.enableWriteMainDB false).ask)

/-- The loop of `configure` over the pending configs; the element is the one that failed. -/
def invokeAll (again : Handle Key Config → Bool × Handle Key Config) :
    List (Element Key Config) → Handle Key Config → Option (Element Key Config) × Handle Key Config
  | [], h => (none, h)
  | element :: rest, h =>
    match invokeConfig isAutoVacuum answers again element.value h with
    | (true, h) => invokeAll again rest (h.invoked element)
    | (false, h) => (some element, h)

/-- `configure`, where `again` is its call of `open`. -/
def configureWith (again : Handle Key Config → Bool × Handle Key Config) (h : Handle Key Config) :
    Bool × Handle Key Config :=
  if h.pendings = h.invokeds then (true, h)
  else
    match uninvokeAll answers h.invokeds.elements.reverse h with
    | (false, h) => (false, h)
    | (true, h) =>
      match invokeAll isAutoVacuum answers again h.pendings.elements h with
      | (none, h) => (true, { h with pendings := h.invokeds })
      | (some failed, h) =>
        if isBasic failed.key ∧ ¬h.canWriteMainDB then
          let (success, h) := again (h.enableWriteMainDB true).close
          (success, h.enableWriteMainDB false)
        else (false, h)

def openWith (again : Handle Key Config → Bool × Handle Key Config) (h : Handle Key Config) :
    Bool × Handle Key Config :=
  match h.openConnection answers with
  | (false, h) => (false, h)
  | (true, h) =>
    match configureWith isBasic isAutoVacuum answers again h with
    | (true, h) => (true, h)
    | (false, h) => (false, h.close)

/-- `open`. The handle that is opened again can write to the main database, and is not opened a
third time from there. -/
def openHandle : Handle Key Config → Bool × Handle Key Config :=
  openWith isBasic isAutoVacuum answers
    (openWith isBasic isAutoVacuum answers fun h => (false, h))

def configure : Handle Key Config → Bool × Handle Key Config :=
  configureWith isBasic isAutoVacuum answers (openHandle isBasic isAutoVacuum answers)

def reconfigure (newConfigs : Configs Key Config) : Bool × Handle Key Config :=
  if newConfigs = h.pendings then (true, h)
  else if h.isOpened then
    configure isBasic isAutoVacuum answers { h with pendings := newConfigs }
  else (true, { h with pendings := newConfigs })

/-- What is called on a handle from outside. -/
inductive Event (Key Config : Type) where
  | reconfigured (configs : Configs Key Config)
  | opened
  | closed
  | enabledWriteMainDB (enable : Bool)

def step (h : Handle Key Config) : Event Key Config → Option (Handle Key Config)
  | .reconfigured configs => some (h.reconfigure isBasic isAutoVacuum answers configs).2
  | .opened => some (openHandle isBasic isAutoVacuum answers h).2
  | .closed => some h.close
  | .enabledWriteMainDB enable => some (h.enableWriteMainDB enable)

end Handle

end Handle

/-! ### The configs in effect -/

section Effect

variable {Key Config : Type} [DecidableEq Key] [DecidableEq Config]

/-- A connection and the configs that are in effect on it. -/
structure Connection (Key Config : Type) where
  isOpened : Bool := false
  configs : List (Element Key Config) := []

def Connection.act (c : Connection Key Config) : Act Key Config → Option (Connection Key Config)
  | .opened => if c.isOpened then none else some { c with isOpened := true }
  | .closed => if c.isOpened ∧ c.configs.isEmpty then some { c with isOpened := false } else none
  | .invoked element =>
    if c.isOpened then
      some { c with configs := c.configs.filter (fun e => e.key ≠ element.key) ++ [element] }
    else none
  | .uninvoked element =>
    if c.isOpened ∧ element ∈ c.configs ∧ ∀ e ∈ c.configs, e.order ≤ element.order then
      some { c with configs := c.configs.filter fun e => e.key ≠ element.key }
    else none

namespace Handle

/-- The configs that the handle keeps are those in effect, and there are none without a
connection. -/
structure Tracks (h : Handle Key Config) : Prop where
  replayed : ∃ configs, Run.exec Connection.act {} h.trace = some ⟨h.isOpened, configs⟩ ∧
    configs.Perm h.invokeds.elements
  nothing : h.isOpened = false → h.invokeds.elements = []

/-- A call has left the rest as it is. -/
structure Keeps (h h' : Handle Key Config) : Prop where
  tracks : h.Tracks → h'.Tracks
  pendings : h'.pendings = h.pendings
  canWriteMainDB : h'.canWriteMainDB = h.canWriteMainDB

/-- What an opening reports. -/
structure Opens (h : Handle Key Config) (r : Bool × Handle Key Config) : Prop where
  keeps : h.Keeps r.2
  opened : r.1 = true → r.2.isOpened = true ∧ r.2.invokeds = h.pendings
  closed : r.1 = false → r.2.isOpened = false

variable {h h' h'' : Handle Key Config} {element last : Element Key Config}

theorem Keeps.refl : h.Keeps h := ⟨id, rfl, rfl⟩

theorem Keeps.trans (hkeeps : h.Keeps h') (hkeeps' : h'.Keeps h'') : h.Keeps h'' :=
  ⟨fun htracks => hkeeps'.tracks (hkeeps.tracks htracks), hkeeps'.pendings.trans hkeeps.pendings,
    hkeeps'.canWriteMainDB.trans hkeeps.canWriteMainDB⟩

theorem Tracks.ask (htracks : h.Tracks) : h.ask.Tracks := ⟨htracks.replayed, htracks.nothing⟩

theorem keeps_ask : h.Keeps h.ask := ⟨Tracks.ask, rfl, rfl⟩

theorem Tracks.enableWriteMainDB (htracks : h.Tracks) (enable : Bool) :
    (h.enableWriteMainDB enable).Tracks := ⟨htracks.replayed, htracks.nothing⟩

theorem replay_append {configs : List (Element Key Config)} {act : Act Key Config}
    (hexec : Run.exec Connection.act {} h.trace = some ⟨h.isOpened, configs⟩) :
    Run.exec Connection.act {} (h.trace ++ [act]) = Connection.act ⟨h.isOpened, configs⟩ act := by
  rw [Run.exec_append, hexec, Option.bind_some, Run.exec]
  exact Option.bind_fun_some _

omit [DecidableEq Config] in
theorem filter_perm {configs : List (Element Key Config)} {l : UniqueList Key Config ℤ}
    {key : Key} (hunique : l.Unique) (hperm : configs.Perm l) :
    (configs.filter fun e => e.key ≠ key).Perm (l.erase key) := by
  rw [UniqueList.erase_eq_filter hunique]
  exact hperm.filter _

/-- The last config goes out of effect. -/
theorem Tracks.uninvoked (htracks : h.Tracks) {init : List (Element Key Config)}
    (hlast : h.invokeds.elements = init ++ [last]) : (h.uninvoked last).Tracks := by
  obtain ⟨⟨configs, hexec, hperm⟩, hnothing⟩ := htracks
  have hopened : h.isOpened = true := by
    by_contra hclosed
    rw [hnothing (Bool.eq_false_iff.mpr hclosed)] at hlast
    exact List.append_ne_nil_of_right_ne_nil _ (List.cons_ne_nil _ _) hlast.symm
  have hmem : last ∈ configs := by
    rw [hperm.mem_iff, hlast]
    exact List.mem_append_right _ (List.mem_singleton_self _)
  have hmax : ∀ e ∈ configs, e.order ≤ last.order := by
    intro e he
    have hsorted := h.invokeds.sorted
    rw [hperm.mem_iff, hlast] at he
    rw [hlast, List.pairwise_append] at hsorted
    rcases List.mem_append.mp he with he | he
    · exact hsorted.2.2 e he last (List.mem_singleton_self _)
    · rw [List.mem_singleton.mp he]
  have hpop : h.invokeds.popBack.elements = h.invokeds.elements.erase last.key := by
    have hunique := h.invokeds.unique
    rw [UniqueList.erase_eq_filter hunique, Configs.elements_popBack, hlast, List.filter_append]
    rw [hlast, UniqueList.Unique, List.map_append, List.nodup_append] at hunique
    have hne : ∀ e ∈ init, e.key ≠ last.key := by
      intro e he
      exact hunique.2.2 _ (List.mem_map_of_mem he) _ (List.mem_singleton_self _)
    rw [List.filter_eq_self.mpr fun e he => by simpa using hne e he]
    simp
  refine ⟨⟨configs.filter fun e => e.key ≠ last.key, ?_, ?_⟩, fun hclosed => ?_⟩
  · exact (replay_append hexec).trans (if_pos ⟨hopened, hmem, hmax⟩)
  · exact (filter_perm h.invokeds.unique hperm).trans (List.Perm.of_eq hpop.symm)
  · exact absurd hclosed (by simpa [Handle.uninvoked] using hopened)

/-- A config comes into effect. -/
theorem Tracks.invoked (htracks : h.Tracks) (hopened : h.isOpened = true) :
    (h.invoked element).Tracks := by
  obtain ⟨⟨configs, hexec, hperm⟩, -⟩ := htracks
  refine ⟨⟨configs.filter (fun e => e.key ≠ element.key) ++ [element], ?_, ?_⟩, fun hclosed => ?_⟩
  · exact (replay_append hexec).trans (if_pos hopened)
  · refine List.perm_append_comm.trans ?_
    change (element :: configs.filter fun e => e.key ≠ element.key).Perm
      (h.invokeds.elements.insert element.key element.value element.order)
    rw [UniqueList.insert_eq]
    exact ((filter_perm h.invokeds.unique hperm).cons element).trans UniqueList.perm_place.symm
  · exact absurd (hopened.symm.trans hclosed) Bool.noConfusion

/-! ### Uninvoking and closing -/

section Calls

variable {isBasic : Key → Bool} {isAutoVacuum : Config → Bool} {answers : ℕ → Bool}
  {again : Handle Key Config → Bool × Handle Key Config}

omit [DecidableEq Key] [DecidableEq Config] in
theorem elements_uninvoked {rest : List (Element Key Config)}
    (hl : h.invokeds.elements.reverse = last :: rest) :
    h.invokeds.elements = rest.reverse ++ [last] ∧
      (h.uninvoked last).invokeds.elements.reverse = rest := by
  have hlast : h.invokeds.elements = rest.reverse ++ [last] := by
    rw [← List.reverse_reverse h.invokeds.elements, hl, List.reverse_cons]
  refine ⟨hlast, ?_⟩
  change h.invokeds.elements.dropLast.reverse = rest
  rw [hlast, List.dropLast_concat, List.reverse_reverse]

theorem keeps_uninvoked {rest : List (Element Key Config)}
    (hl : h.invokeds.elements.reverse = last :: rest) : h.Keeps (h.uninvoked last) :=
  ⟨fun htracks => htracks.uninvoked (elements_uninvoked hl).1, rfl, rfl⟩

variable (answers) in
theorem uninvokeAll_spec {l : List (Element Key Config)} (hl : h.invokeds.elements.reverse = l) :
    h.Keeps (uninvokeAll answers l h).2 ∧ (uninvokeAll answers l h).2.isOpened = h.isOpened ∧
      ((uninvokeAll answers l h).1 = true →
        (uninvokeAll answers l h).2.invokeds.elements = []) := by
  induction l generalizing h with
  | nil => exact ⟨.refl, rfl, fun _ => List.reverse_eq_nil_iff.mp hl⟩
  | cons last rest ih =>
    rw [uninvokeAll]
    split_ifs
    · obtain ⟨hkeeps, hopened, hnothing⟩ := ih (elements_uninvoked (h := h.ask) hl).2
      exact ⟨(keeps_ask.trans (keeps_uninvoked hl)).trans hkeeps, hopened, hnothing⟩
    · exact ⟨keeps_ask, rfl, fun hfalse => hfalse.elim⟩

theorem uninvokeIgnoring_spec {l : List (Element Key Config)}
    (hl : h.invokeds.elements.reverse = l) : h.Keeps (uninvokeIgnoring l h) ∧
      (uninvokeIgnoring l h).isOpened = h.isOpened ∧
      (uninvokeIgnoring l h).invokeds.elements = [] := by
  induction l generalizing h with
  | nil => exact ⟨.refl, rfl, List.reverse_eq_nil_iff.mp hl⟩
  | cons last rest ih =>
    obtain ⟨hkeeps, hopened, hnothing⟩ := ih (elements_uninvoked (h := h.ask) hl).2
    exact ⟨(keeps_ask.trans (keeps_uninvoked hl)).trans hkeeps, hopened, hnothing⟩

omit [DecidableEq Key] [DecidableEq Config] in
theorem isOpened_close : h.close.isOpened = false := by
  rw [close]
  split_ifs with hopened
  · rfl
  · exact Bool.eq_false_iff.mpr hopened

theorem keeps_close : h.Keeps h.close := by
  rw [close]
  split_ifs with hopened
  · obtain ⟨hkeeps, hstill, hnothing⟩ := uninvokeIgnoring_spec (h := h) rfl
    refine ⟨fun htracks => ?_, hkeeps.pendings, hkeeps.canWriteMainDB⟩
    obtain ⟨configs, hexec, hperm⟩ := (hkeeps.tracks htracks).replayed
    rw [hnothing] at hperm
    obtain rfl := hperm.eq_nil
    refine ⟨⟨[], ?_, (List.Perm.of_eq hnothing.symm)⟩, fun _ => hnothing⟩
    exact (replay_append hexec).trans (if_pos ⟨hstill.trans hopened, rfl⟩)
  · exact .refl

/-! ### Invoking -/

variable (h answers) in
theorem openConnection_spec : h.Keeps (h.openConnection answers).2 ∧
    (h.openConnection answers).2.isOpened = (h.openConnection answers).1 := by
  rw [openConnection]
  split_ifs with hopened
  · exact ⟨.refl, hopened⟩
  · refine ⟨⟨fun htracks => ?_, rfl, rfl⟩, rfl⟩
    obtain ⟨⟨configs, hexec, hperm⟩, -⟩ := htracks
    refine ⟨⟨configs, (replay_append hexec).trans (if_neg hopened), hperm⟩, fun hclosed => ?_⟩
    exact absurd hclosed Bool.noConfusion
  · exact ⟨keeps_ask, Bool.eq_false_iff.mpr hopened⟩

/-- `open` is called on a handle that has been closed to be able to write. -/
theorem opens_again (hagain : ∀ h : Handle Key Config, h.isOpened = false → h.Opens (again h))
    (hcannot : ¬h.canWriteMainDB = true) {r : Bool × Handle Key Config}
    (hr : again (h.enableWriteMainDB true).close = r) :
    h.Opens (r.1, r.2.enableWriteMainDB false) := by
  obtain ⟨hkeeps, hopened, hclosed⟩ := hagain _ (h.enableWriteMainDB true).isOpened_close
  rw [hr] at hkeeps hopened hclosed
  have hclose : (h.enableWriteMainDB true).Keeps (h.enableWriteMainDB true).close := keeps_close
  refine ⟨⟨fun htracks => ?_, ?_, ?_⟩, fun htrue => ?_, hclosed⟩
  · exact (hkeeps.tracks (hclose.tracks (htracks.enableWriteMainDB true))).enableWriteMainDB false
  · exact hkeeps.pendings.trans hclose.pendings
  · exact (Bool.eq_false_iff.mpr hcannot).symm
  · exact ⟨(hopened htrue).1, (hopened htrue).2.trans hclose.pendings⟩

/-- A config that has been invoked has left those before it, or all have been invoked. -/
theorem invokeConfig_spec
    (hagain : ∀ h : Handle Key Config, h.isOpened = false → h.Opens (again h))
    (hopened : h.isOpened = true) {config : Config} {r : Bool × Handle Key Config}
    (hr : invokeConfig isAutoVacuum answers again config h = r) : h.Keeps r.2 ∧
      (r.1 = true → r.2.isOpened = true ∧
        (r.2.invokeds = h.invokeds ∨ r.2.invokeds = h.pendings)) := by
  have hasks : h.Keeps h.ask.ask := keeps_ask.trans keeps_ask
  rw [invokeConfig] at hr
  split_ifs at hr with hplain hsame hcan
  · subst hr
    exact ⟨keeps_ask, fun _ => ⟨hopened, .inl rfl⟩⟩
  · subst hr
    exact ⟨hasks, fun _ => ⟨hopened, .inl rfl⟩⟩
  · subst hr
    exact ⟨hasks.trans keeps_ask, fun _ => ⟨hopened, .inl rfl⟩⟩
  · -- the handle is opened again
    generalize hopen : again (h.ask.ask.enableWriteMainDB true).close = r' at hr
    obtain ⟨hkeeps, hdone, -⟩ := opens_again (h := h.ask.ask) hagain hcan hopen
    obtain ⟨success, h'⟩ := r'
    cases success with
    | false =>
      subst hr
      exact ⟨hasks.trans hkeeps, fun htrue => absurd htrue Bool.noConfusion⟩
    | true =>
      subst hr
      exact ⟨(hasks.trans hkeeps).trans keeps_ask, fun _ => ⟨(hdone rfl).1, .inr (hdone rfl).2⟩⟩

/-- What is invoked in the middle of the loop: those before the config that reopened, if there was
one, then the configs that are invoked already and come once more, and those that have come. -/
def Staged (done rest : List (Element Key Config)) (invokeds : Configs Key Config) : Prop :=
  ∃ before twice after, done = before ++ after ∧ (twice = rest ∨ twice = []) ∧
    ∀ o, UniqueList.group invokeds.elements o = UniqueList.group (before ++ twice ++ after) o

omit [DecidableEq Key] [DecidableEq Config] in
/-- All configs are invoked at once. -/
theorem staged_all {done rest : List (Element Key Config)} {configs : Configs Key Config}
    (helements : configs.elements = done ++ rest) : Staged done rest configs := by
  refine ⟨done, rest, [], (List.append_nil _).symm, .inl rfl, fun o => ?_⟩
  rw [helements, List.append_nil]

omit [DecidableEq Config] in
theorem Staged.insert {done rest : List (Element Key Config)} {invokeds : Configs Key Config}
    (hstaged : Staged done (element :: rest) invokeds)
    (hunique : UniqueList.Unique (done ++ element :: rest)) :
    Staged (done ++ [element]) rest (invokeds.insert element) := by
  obtain ⟨before, twice, after, rfl, htwice, hgroup⟩ := hstaged
  refine ⟨before, twice.tail, after ++ [element], List.append_assoc .., ?_, fun o => ?_⟩
  · rcases htwice with rfl | rfl
    · exact .inl rfl
    · exact .inr rfl
  · have hne : ∀ e ∈ before ++ twice.tail ++ after, e.key ≠ element.key := by
      intro e he heq
      have hperm : (before ++ after ++ element :: rest).Perm
          (element :: (before ++ rest ++ after)) := by
        refine List.perm_middle.trans (List.Perm.cons element ?_)
        rw [List.append_assoc, List.append_assoc]
        exact List.perm_append_comm.append_left before
      have hnodup := (hperm.map UniqueListElement.key).nodup_iff.mp hunique
      refine (List.nodup_cons.mp hnodup).1 (heq ▸ List.mem_map_of_mem ?_)
      rcases htwice with rfl | rfl
      · exact he
      · simp only [List.tail_nil, List.append_nil, List.mem_append] at he ⊢
        tauto
    have hkept : (before ++ twice ++ after).filter (fun e => e.key ≠ element.key) =
        before ++ twice.tail ++ after := by
      have hself := List.filter_eq_self.mpr fun e he => decide_eq_true (hne e he)
      refine Eq.trans ?_ hself
      rcases htwice with rfl | rfl
      · simp
      · rfl
    change UniqueList.group (invokeds.elements.insert element.key element.value element.order) o = _
    rw [UniqueList.group_insert invokeds.unique invokeds.sorted, hgroup, UniqueList.group,
      List.filter_comm, hkept, ← List.append_assoc, UniqueList.group_append]
    rfl

omit [DecidableEq Key] [DecidableEq Config] in
theorem Staged.eq {done : List (Element Key Config)} {invokeds configs : Configs Key Config}
    (hstaged : Staged done [] invokeds) (helements : configs.elements = done) :
    invokeds = configs := by
  obtain ⟨before, twice, after, rfl, htwice, hgroup⟩ := hstaged
  obtain rfl : twice = [] := htwice.elim id id
  refine Configs.ext (UniqueList.eq_of_group invokeds.sorted configs.sorted fun o => ?_)
  rw [hgroup, helements, List.append_nil]

theorem invokeAll_spec
    (hagain : ∀ h : Handle Key Config, h.isOpened = false → h.Opens (again h))
    {done rest : List (Element Key Config)} (hopened : h.isOpened = true)
    (helements : h.pendings.elements = done ++ rest) (hstaged : Staged done rest h.invokeds)
    {r : Option (Element Key Config) × Handle Key Config}
    (hr : invokeAll isAutoVacuum answers again rest h = r) :
    h.Keeps r.2 ∧ (r.1 = none → r.2.isOpened = true ∧ r.2.invokeds = h.pendings) := by
  induction rest generalizing h done with
  | nil =>
    subst hr
    exact ⟨.refl, fun _ => ⟨hopened, hstaged.eq (helements.trans (List.append_nil done))⟩⟩
  | cons element rest ih =>
    rw [invokeAll] at hr
    generalize hinvoke : invokeConfig isAutoVacuum answers again element.value h = r' at hr
    obtain ⟨hkeeps, hdone⟩ := invokeConfig_spec hagain hopened hinvoke
    obtain ⟨success, h'⟩ := r'
    cases success with
    | false =>
      subst hr
      exact ⟨hkeeps, fun hnone => absurd hnone (Option.some_ne_none _)⟩
    | true =>
      obtain ⟨hopened', hinvokeds⟩ := hdone rfl
      have hstaged' : Staged done (element :: rest) h'.invokeds := by
        rcases hinvokeds with heq | heq
        · rwa [heq]
        · rw [heq]
          exact staged_all helements
      have hunique := h.pendings.unique
      rw [helements] at hunique
      have hinvoked : h'.Keeps (h'.invoked element) :=
        ⟨fun htracks => htracks.invoked hopened', rfl, rfl⟩
      have hpendings := hkeeps.pendings
      have hpendings' : h'.pendings.elements = (done ++ [element]) ++ rest := by
        rw [hpendings, helements, List.append_assoc]
        rfl
      obtain ⟨hkeeps', hdone'⟩ := ih (h := h'.invoked element) hopened'
        hpendings' (hstaged'.insert hunique) hr
      exact ⟨(hkeeps.trans hinvoked).trans hkeeps', fun hnone =>
        ⟨(hdone' hnone).1, (hdone' hnone).2.trans hpendings⟩⟩

/-! ### Opening -/

theorem configureWith_spec
    (hagain : ∀ h : Handle Key Config, h.isOpened = false → h.Opens (again h))
    (hopened : h.isOpened = true) {r : Bool × Handle Key Config}
    (hr : configureWith isBasic isAutoVacuum answers again h = r) :
    h.Keeps r.2 ∧ (r.1 = true → r.2.isOpened = true ∧ r.2.invokeds = h.pendings) := by
  rw [configureWith] at hr
  split_ifs at hr with hsame
  · subst hr
    exact ⟨.refl, fun _ => ⟨hopened, hsame.symm⟩⟩
  obtain ⟨hkeeps, hstill, hnothing⟩ := uninvokeAll_spec (h := h) answers rfl
  generalize uninvokeAll answers h.invokeds.elements.reverse h = r' at hr hkeeps hstill hnothing
  obtain ⟨success, h'⟩ := r'
  cases success with
  | false =>
    subst hr
    exact ⟨hkeeps, fun htrue => absurd htrue Bool.noConfusion⟩
  | true =>
    have hstaged : Staged [] h'.pendings.elements h'.invokeds :=
      ⟨[], [], [], rfl, .inr rfl, fun o => by rw [hnothing rfl]; rfl⟩
    simp only at hr
    generalize hinvoke : invokeAll isAutoVacuum answers again h'.pendings.elements h' = r' at hr
    obtain ⟨hkeeps', hdone⟩ := invokeAll_spec hagain (hstill.trans hopened) rfl hstaged hinvoke
    obtain ⟨failed, h''⟩ := r'
    have hboth := hkeeps.trans hkeeps'
    cases failed with
    | none =>
      subst hr
      have heq : h''.invokeds = h.pendings := (hdone rfl).2.trans hkeeps.pendings
      refine ⟨⟨fun htracks => ?_, heq, hboth.canWriteMainDB⟩, fun _ => ⟨(hdone rfl).1, heq⟩⟩
      exact ⟨(hboth.tracks htracks).replayed, (hboth.tracks htracks).nothing⟩
    | some failed =>
      simp only at hr
      split_ifs at hr with hbasic
      · subst hr
        obtain ⟨hkeeps'', hopens, -⟩ := opens_again hagain hbasic.2 rfl
        exact ⟨hboth.trans hkeeps'', fun htrue =>
          ⟨(hopens htrue).1, (hopens htrue).2.trans hboth.pendings⟩⟩
      · subst hr
        exact ⟨hboth, fun htrue => absurd htrue Bool.noConfusion⟩

theorem openWith_spec
    (hagain : ∀ h : Handle Key Config, h.isOpened = false → h.Opens (again h)) :
    h.Opens (openWith isBasic isAutoVacuum answers again h) := by
  obtain ⟨hkeeps, hopened⟩ := openConnection_spec h answers
  rw [openWith]
  generalize h.openConnection answers = r at hkeeps hopened
  obtain ⟨success, h'⟩ := r
  cases success with
  | false => exact ⟨hkeeps, fun htrue => absurd htrue Bool.noConfusion, fun _ => hopened⟩
  | true =>
    generalize hconfigure : configureWith isBasic isAutoVacuum answers again h' = r
    obtain ⟨hkeeps', hdone⟩ := configureWith_spec hagain hopened hconfigure
    obtain ⟨success, h''⟩ := r
    simp only [hconfigure]
    cases success with
    | false =>
      exact ⟨(hkeeps.trans hkeeps').trans keeps_close, fun htrue => absurd htrue Bool.noConfusion,
        fun _ => isOpened_close⟩
    | true =>
      exact ⟨hkeeps.trans hkeeps', fun _ =>
        ⟨(hdone rfl).1, (hdone rfl).2.trans hkeeps.pendings⟩, fun hfalse =>
          absurd hfalse Bool.noConfusion⟩

variable (isBasic isAutoVacuum answers h) in
theorem openHandle_spec : h.Opens (openHandle isBasic isAutoVacuum answers h) := by
  refine openWith_spec fun h _ => openWith_spec fun h hclosed => ?_
  exact ⟨.refl, fun htrue => absurd htrue Bool.noConfusion, fun _ => hclosed⟩

/-! ### The recursion of `open` -/

section Recursion

variable {again' : Handle Key Config → Bool × Handle Key Config}

/-- Two calls of `open` cannot be told apart from a handle: it can write, or they agree where one
can. -/
def Agree (again again' : Handle Key Config → Bool × Handle Key Config) (h : Handle Key Config) :
    Prop :=
  h.canWriteMainDB = true ∨
    ∀ h' : Handle Key Config, h'.canWriteMainDB = true → again h' = again' h'

omit [DecidableEq Key] [DecidableEq Config] in
theorem Agree.of_eq (hagree : Agree again again' h)
    (hcan : h.canWriteMainDB = true → h'.canWriteMainDB = true) : Agree again again' h' :=
  hagree.imp_left hcan

theorem Agree.close (hagree : Agree again again' h) (hcannot : ¬h.canWriteMainDB = true) :
    again (h.enableWriteMainDB true).close = again' (h.enableWriteMainDB true).close :=
  hagree.resolve_left hcannot _ keeps_close.canWriteMainDB

variable (isAutoVacuum answers) in
theorem invokeConfig_congr (hagree : Agree again again' h) (config : Config) :
    invokeConfig isAutoVacuum answers again config h =
        invokeConfig isAutoVacuum answers again' config h ∧
      (h.canWriteMainDB = true →
        (invokeConfig isAutoVacuum answers again config h).2.canWriteMainDB = true) := by
  rw [invokeConfig, invokeConfig]
  split_ifs with hplain hsame hcan
  · exact ⟨rfl, id⟩
  · exact ⟨rfl, id⟩
  · exact ⟨rfl, id⟩
  · have hclose := Agree.close (h := h.ask.ask) hagree hcan
    rw [hclose]
    exact ⟨rfl, fun htrue => absurd htrue hcan⟩

variable (isAutoVacuum answers) in
theorem invokeAll_congr (l : List (Element Key Config)) (hagree : Agree again again' h) :
    invokeAll isAutoVacuum answers again l h = invokeAll isAutoVacuum answers again' l h ∧
      (h.canWriteMainDB = true →
        (invokeAll isAutoVacuum answers again l h).2.canWriteMainDB = true) := by
  induction l generalizing h with
  | nil => exact ⟨rfl, id⟩
  | cons element rest ih =>
    obtain ⟨heq, hcan⟩ := invokeConfig_congr isAutoVacuum answers hagree element.value
    rw [invokeAll, invokeAll, ← heq]
    generalize invokeConfig isAutoVacuum answers again element.value h = r at hcan
    obtain ⟨success, h'⟩ := r
    cases success with
    | false => exact ⟨rfl, hcan⟩
    | true =>
      have hstep := ih (h := h'.invoked element) (hagree.of_eq hcan)
      exact ⟨hstep.1, fun htrue => hstep.2 (hcan htrue)⟩

theorem openWith_congr (hagree : Agree again again' h) :
    openWith isBasic isAutoVacuum answers again h =
      openWith isBasic isAutoVacuum answers again' h := by
  have hconnect := (openConnection_spec h answers).1.canWriteMainDB
  rw [openWith, openWith]
  generalize h.openConnection answers = r at hconnect
  obtain ⟨success, h₁⟩ := r
  cases success with
  | false => rfl
  | true =>
    suffices hconfigure : configureWith isBasic isAutoVacuum answers again h₁ =
        configureWith isBasic isAutoVacuum answers again' h₁ by simp only [hconfigure]
    have huninvoke :=
      (uninvokeAll_spec (h := h₁) answers rfl).1.canWriteMainDB.trans hconnect
    rw [configureWith, configureWith]
    split_ifs
    · rfl
    generalize uninvokeAll answers h₁.invokeds.elements.reverse h₁ = r at huninvoke
    obtain ⟨success, h₂⟩ := r
    cases success with
    | false => rfl
    | true =>
      obtain ⟨heq, hcan⟩ := invokeAll_congr isAutoVacuum answers h₂.pendings.elements
        (hagree.of_eq huninvoke.trans)
      simp only
      rw [← heq]
      generalize invokeAll isAutoVacuum answers again h₂.pendings.elements h₂ = r at hcan
      obtain ⟨failed, h₃⟩ := r
      cases failed with
      | none => rfl
      | some failed =>
        simp only
        split_ifs with hbasic
        · have hagree' : Agree again again' h₃ :=
            hagree.of_eq fun htrue => hcan (huninvoke.trans htrue)
          rw [hagree'.close hbasic.2]
        · rfl

/-- The equation of the source: a handle that is opened again is opened by `open`. -/
theorem openHandle_eq : openHandle isBasic isAutoVacuum answers h =
    openWith isBasic isAutoVacuum answers (openHandle isBasic isAutoVacuum answers) h :=
  openWith_congr (.inr fun _ hcan => openWith_congr (.inl hcan))

end Recursion

theorem reconfigure_spec {configs : Configs Key Config} {r : Bool × Handle Key Config}
    (hr : h.reconfigure isBasic isAutoVacuum answers configs = r) : (h.Tracks → r.2.Tracks) ∧
      r.2.pendings = configs ∧ r.2.canWriteMainDB = h.canWriteMainDB := by
  rw [reconfigure] at hr
  split_ifs at hr with hsame hopened
  · subst hr
    exact ⟨id, hsame.symm, rfl⟩
  · have hkeeps := (configureWith_spec (h := { h with pendings := configs })
      (fun h _ => openHandle_spec h _ _ _) hopened hr).1
    refine ⟨fun htracks => hkeeps.tracks ⟨htracks.replayed, htracks.nothing⟩, hkeeps.pendings, ?_⟩
    exact hkeeps.canWriteMainDB
  · subst hr
    exact ⟨fun htracks => ⟨htracks.replayed, htracks.nothing⟩, rfl, rfl⟩

theorem Tracks.tracks_step {event : Event Key Config} (htracks : h.Tracks)
    (hstep : h.step isBasic isAutoVacuum answers event = some h') : h'.Tracks := by
  cases event with
  | reconfigured configs =>
    obtain rfl := Option.some.inj hstep
    exact (reconfigure_spec rfl).1 htracks
  | opened =>
    obtain rfl := Option.some.inj hstep
    exact (openHandle_spec h _ _ _).keeps.tracks htracks
  | closed =>
    obtain rfl := Option.some.inj hstep
    exact keeps_close.tracks htracks
  | enabledWriteMainDB enable =>
    obtain rfl := Option.some.inj hstep
    exact htracks.enableWriteMainDB enable

end Calls

end Handle

/-- **The configs of a handle.** In every run, whatever fails in it, the configs that the handle
keeps are those in effect on its connection. If it is then set up, whatever `reconfigure` reports,
it has the configs that were asked for or is closed without any, and its next opening is as writable
as before. -/
theorem configured_of_exec {isBasic : Key → Bool} {isAutoVacuum : Config → Bool}
    {answers : ℕ → Bool} {events : List (Handle.Event Key Config)} {h : Handle Key Config}
    (hexec : Run.exec (Handle.step isBasic isAutoVacuum answers) {} events = some h) :
    h.Tracks ∧ ∀ configs,
      let r := Handle.openHandle isBasic isAutoVacuum answers
        (h.reconfigure isBasic isAutoVacuum answers configs).2
      r.2.Tracks ∧ r.2.canWriteMainDB = h.canWriteMainDB ∧
        if r.1 then r.2.isOpened = true ∧ r.2.invokeds = configs
        else r.2.isOpened = false ∧ r.2.invokeds = .empty := by
  have htracks : h.Tracks := by
    refine Run.inv_exec_of_step (fun s a t hs hstep => hs.tracks_step hstep) ?_ hexec
    exact ⟨⟨[], rfl, .nil⟩, fun _ => rfl⟩
  refine ⟨htracks, fun configs => ?_⟩
  generalize hr : h.reconfigure isBasic isAutoVacuum answers configs = r
  obtain ⟨hkeeps, hpendings, hcan⟩ := Handle.reconfigure_spec hr
  obtain ⟨hopens, hopened, hclosed⟩ :=
    r.2.openHandle_spec isBasic isAutoVacuum answers
  have htracks' := hopens.tracks (hkeeps htracks)
  refine ⟨htracks', hopens.canWriteMainDB.trans hcan, ?_⟩
  split_ifs with hsuccess
  · exact ⟨(hopened hsuccess).1, (hopened hsuccess).2.trans hpendings⟩
  · have hnot := hclosed (Bool.eq_false_iff.mpr hsuccess)
    exact ⟨hnot, Configs.ext (htracks'.nothing hnot)⟩

/-- The basic config, that of the vacuum mode, and another one of its order. -/
def threeConfigs : Configs ℕ ℕ :=
  ((Configs.empty.insert ⟨0, 1, -5⟩).insert ⟨1, 7, 0⟩).insert ⟨2, 3, 0⟩

/-- The vacuum mode is another one: the handle is opened again, and two configs are invoked
twice. -/
theorem configured_of_exec_autoVacuum : ∃ h, Run.exec
    (Handle.step (fun key => key = 0) (fun config => config = 7) fun n => n ≠ 3) {}
      [.reconfigured threeConfigs, .opened] = some h ∧
    h.trace = [.opened, .invoked ⟨0, 1, -5⟩, .uninvoked ⟨0, 1, -5⟩, .closed, .opened,
      .invoked ⟨0, 1, -5⟩, .invoked ⟨1, 7, 0⟩, .invoked ⟨2, 3, 0⟩, .invoked ⟨1, 7, 0⟩,
      .invoked ⟨2, 3, 0⟩] ∧ h.Tracks := by
  have hrun : ∃ h, Run.exec
      (Handle.step (fun key => key = 0) (fun config => config = 7) fun n => n ≠ 3) {}
        [.reconfigured threeConfigs, .opened] = some h := ⟨_, rfl⟩
  obtain ⟨h, hexec⟩ := hrun
  refine ⟨h, hexec, ?_, (configured_of_exec hexec).1⟩
  obtain rfl := Option.some.inj hexec
  rfl

end Effect

end Wcdb.InnerHandle
