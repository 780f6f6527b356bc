import Wcdb.Core.MergeFTSIndex

/-!
# Notifications of corruption

`handleError` queues a notification when the corruption of a file is confirmed by an integrity check
for the first time and its path is registered; the thread of the queue looks the callback up when it
runs. Registering, errors and the thread take turns in any order here; a step is a critical section
of the source.

Two steps break what is expected. If the callback is cleared while a notification waits,
`doNotifyCorruption` calls an empty function. If the file at the path is replaced and the corruption
of the new file is confirmed while the notification for the old one waits, the queue keeps one
element for a path, so that the old one is lost. In a run without these steps every callback called
was registered for its path, no file is notified twice, and when the queue has no notification left,
every file confirmed while its path was registered is notified, or its callback was cleared first
(`notified_of_orderly`).
-/

namespace Wcdb.CorruptionNotification

open MergeFTSIndex (Operation)

/-! ### The queue and its thread -/

/-- `Error::Level`. -/
inductive Level where
  | ignore
  | debug
  | notice
  | warning
  | error
  | fatal
  deriving DecidableEq, Repr

def Level.value : Level → ℕ
  | ignore => 1
  | debug => 2
  | notice => 3
  | warning => 4
  | error => 5
  | fatal => 6

/-- What `handleError` reads of an error. `path` is the text in its infos. -/
structure Error where
  level : Level := .error
  isCorruption : Bool := true
  path : Option String
  fromIntegrity : Bool := false
  deriving DecidableEq, Repr

variable {Callback : Type}

/-- What the thread of the queue does: an operation it has taken from the queue, or a callback it
has copied, with the lock released. -/
inductive Thread (Callback : Type) where
  | idle
  | taken (operation : Operation String) (identifier : ℕ)
  | calling (notification : Option Callback) (path : String) (identifier : ℕ)

/-- A call of `notification(path, identifier)`; an empty function is called with `none`. -/
structure Invocation (Callback : Type) where
  notification : Option Callback
  file : String × ℕ

/-- The state of the queue. The last four fields are history: the callbacks registered so far, the
calls made, the files first confirmed while their path was registered, and those among them whose
callback was cleared before they were notified. -/
structure State (Callback : Type) where
  now : ℕ := 0
  corrupteds : List ℕ := []
  notifications : String → Option Callback := fun _ => none
  queue : UniqueList (Operation String) ℕ := []
  thread : Thread Callback := .idle
  registered : List (String × Callback) := []
  invoked : List (Invocation Callback) := []
  confirmed : List (String × ℕ) := []
  cleared : List (String × ℕ) := []

namespace State

variable (s : State Callback)

/-- The files that were notified. -/
def notified : List (String × ℕ) := s.invoked.map Invocation.file

/-- `async` with `Parameter::identifier`. -/
def async (operation : Operation String) (delay identifier : ℕ) : State Callback :=
  { s with queue := TimedQueue.queue s.queue s.now operation delay identifier .forwardOnly }

def setNotificationWhenCorrupted (path : String) : Option Callback → State Callback
  | some notification =>
    { s with
      notifications := Function.update s.notifications path (some notification)
      registered := s.registered ++ [(path, notification)] }
  | none =>
    { s with
      notifications := Function.update s.notifications path none
      cleared := s.cleared ++ s.confirmed.filter fun file =>
        file.1 = path ∧ file ∉ s.notified }

def asyncNotifyCorruption (path : String) (identifier : ℕ) : State Callback :=
  s.async (.notifyCorruption path) 0 identifier

def asyncCheckIntegrity (path : String) (identifier : ℕ) : State Callback :=
  if identifier ∈ s.corrupteds then s else s.async (.integrity path) 0 0

/-- A corruption reported by an integrity check. -/
def confirm (path : String) (identifier : ℕ) : State Callback :=
  if identifier ∈ s.corrupteds then s
  else
    let t := { s with corrupteds := identifier :: s.corrupteds }
    if (s.notifications path).isSome then
      { t.asyncNotifyCorruption path identifier with confirmed := t.confirmed ++
        [(path, identifier)] }
    else t

/-- `handleError` on a thread that skips the integrity check of `skipPath`, with what
`getFileIdentifier` returns. -/
def handleError (error : Error) (skipPath : String) (identifier : Option ℕ) : State Callback :=
  if error.level.value < Level.warning.value ∨ ¬error.isCorruption then s
  else
    match error.path with
    | none => s
    | some path =>
      if path = "" then s
      else if path = skipPath then s
      else
        match identifier with
        | none => s
        | some identifier =>
          if error.fromIntegrity then s.confirm path identifier
          else s.asyncCheckIntegrity path identifier

/-- The thread executes what it has taken. Of the operations, only the notification is followed. -/
def onTimed (operation : Operation String) (identifier : ℕ) : State Callback :=
  match operation with
  | .notifyCorruption path =>
    { s with thread := .calling (s.notifications path) path identifier }
  | _ => { s with thread := .idle }

end State

/-- What can happen. `async` is any other part of the library that queues an operation. -/
inductive Event (Callback : Type) where
  | setNotification (path : String) (notification : Option Callback)
  | handleError (error : Error) (skipPath : String) (identifier : Option ℕ)
  | async (operation : Operation String) (delay identifier : ℕ)
  | tick (duration : ℕ)
  | expire
  | onTimed
  | call

def step (s : State Callback) : Event Callback → Option (State Callback)
  | .setNotification path notification => some (s.setNotificationWhenCorrupted path notification)
  | .handleError error skipPath identifier => some (s.handleError error skipPath identifier)
  | .async operation delay identifier =>
    match operation with
    | .notifyCorruption _ => none
    | operation => some (s.async operation delay identifier)
  | .tick duration => some { s with now := s.now + duration }
  | .expire =>
    match s.thread with
    | .idle => (TimedQueue.expire s.queue s.now).map fun r =>
        { s with thread := .taken r.1.1 r.1.2, queue := r.2 }
    | _ => none
  | .onTimed =>
    match s.thread with
    | .taken operation identifier => some (s.onTimed operation identifier)
    | _ => none
  | .call =>
    match s.thread with
    | .calling notification path identifier =>
      some { s with thread := .idle, invoked := s.invoked ++ [⟨notification, path, identifier⟩] }
    | _ => none

/-! ### Orderly steps -/

/-- A file is confirmed for its path, which is registered, and is the first with its identifier. -/
def State.Confirms (s : State Callback) (error : Error) (skipPath : String) (path : String)
    (identifier : ℕ) : Prop :=
  Level.warning.value ≤ error.level.value ∧ error.isCorruption ∧ error.path = some path ∧
    path ≠ "" ∧ path ≠ skipPath ∧ error.fromIntegrity ∧ identifier ∉ s.corrupteds ∧
      (s.notifications path).isSome

/-- A file that is still to be notified. -/
def State.Owed (s : State Callback) (file : String × ℕ) : Prop :=
  file ∈ s.confirmed ∧ file ∉ s.cleared ∧ file ∉ s.notified

/-- **The condition on a step.** A notification finds a callback, and a file is not confirmed while
the notification of another one at the path waits, unless that one's callback was cleared. -/
def Orderly (s : State Callback) : Event Callback → Prop
  | .handleError error skipPath (some identifier) => ∀ path other,
      s.Confirms error skipPath path identifier →
        s.queue.value? (.notifyCorruption path) = some other → ¬s.Owed (path, other)
  | .onTimed => ∀ path identifier,
      s.thread = .taken (.notifyCorruption path) identifier → (s.notifications path).isSome
  | _ => True

/-- No notification waits, and the thread executes none. -/
def State.Quiet (s : State Callback) : Prop :=
  s.thread = .idle ∧ ∀ path, s.queue.value? (.notifyCorruption path) = none

/-! ### The invariant -/

/-- The file whose notification the thread executes. -/
def Thread.file? : Thread Callback → Option (String × ℕ)
  | .taken (.notifyCorruption path) identifier => some (path, identifier)
  | .calling _ path identifier => some (path, identifier)
  | _ => none

namespace State

variable (s : State Callback)

/-- The identifier of the file at the path whose notification waits. -/
def waiting (path : String) : Option ℕ := s.queue.value? (.notifyCorruption path)

/-- An identifier is with one notification at most, waiting, executed or done, and a file that is
still to be notified is with one. -/
structure Inv : Prop where
  unique : s.queue.Unique
  waiting : ∀ path identifier, s.waiting path = some identifier → identifier ∈ s.corrupteds ∧
    identifier ∉ s.notified.map Prod.snd ∧ ∀ file, s.thread.file? = some file → file.2 ≠ identifier
  distinct : ∀ path path' identifier, s.waiting path = some identifier →
    s.waiting path' = some identifier → path = path'
  executed : ∀ file, s.thread.file? = some file → file.2 ∈ s.corrupteds ∧
    file.2 ∉ s.notified.map Prod.snd
  notified : ∀ file ∈ s.notified, file.2 ∈ s.corrupteds
  nodup : (s.notified.map Prod.snd).Nodup
  owed : ∀ file, s.Owed file → s.waiting file.1 = some file.2 ∨ s.thread.file? = some file
  notification : ∀ path notification, s.notifications path = some notification →
    (path, notification) ∈ s.registered
  copied : ∀ notification path identifier, s.thread = .calling notification path identifier →
    ∃ callback, notification = some callback ∧ (path, callback) ∈ s.registered
  invoked : ∀ invocation ∈ s.invoked, ∃ callback, invocation.notification = some callback ∧
    (invocation.file.1, callback) ∈ s.registered

end State

section Steps

variable {s t : State Callback} {path : String} {identifier : ℕ}

theorem State.Inv.init : State.Inv ({} : State Callback) where
  unique := List.nodup_nil
  waiting _ _ h := nomatch h
  distinct _ _ _ h := nomatch h
  executed _ h := nomatch h
  notified _ h := nomatch h
  nodup := List.nodup_nil
  owed _ h := nomatch h.1
  notification _ _ h := nomatch h
  copied _ _ _ h := nomatch h
  invoked _ h := nomatch h

/-- Of the queue the invariant reads only what waits for each path. -/
theorem State.Inv.setQueue (h : s.Inv) {queue : UniqueList (Operation String) ℕ}
    (hunique : queue.Unique)
    (hwaiting : ∀ path, queue.value? (.notifyCorruption path) = s.waiting path) :
    State.Inv { s with queue } where
  unique := hunique
  waiting path identifier hw := h.waiting path identifier (hwaiting path ▸ hw)
  distinct path path' identifier hw hw' :=
    h.distinct path path' identifier (hwaiting path ▸ hw) (hwaiting path' ▸ hw')
  executed := h.executed
  notified := h.notified
  nodup := h.nodup
  owed file hfile := (h.owed file hfile).imp_left fun hw => (hwaiting file.1).trans hw
  notification := h.notification
  copied := h.copied
  invoked := h.invoked

theorem State.Inv.async (h : s.Inv) {operation : Operation String} (delay : ℕ)
    (hother : ∀ path, operation ≠ .notifyCorruption path) :
    (s.async operation delay identifier).Inv := by
  refine h.setQueue (TimedQueue.Unique.queue h.unique) fun path => ?_
  rw [TimedQueue.value?_queue h.unique, if_neg (hother path)]
  rfl

theorem State.notifications_setNotification (notification : Option Callback) :
    (s.setNotificationWhenCorrupted path notification).notifications =
      Function.update s.notifications path notification := by
  cases notification <;> rfl

theorem State.Inv.setNotification (h : s.Inv) (notification : Option Callback) :
    (s.setNotificationWhenCorrupted path notification).Inv := by
  cases notification with
  | none =>
    exact
      { unique := h.unique
        waiting := h.waiting
        distinct := h.distinct
        executed := h.executed
        notified := h.notified
        nodup := h.nodup
        owed := fun file hfile => h.owed file
          ⟨hfile.1, fun hcleared => hfile.2.1 (List.mem_append_left _ hcleared), hfile.2.2⟩
        notification := fun path' notification hn => by
          rw [State.notifications_setNotification] at hn
          by_cases hpath : path' = path
          · rw [hpath, Function.update_self] at hn
            exact nomatch hn
          · rw [Function.update_of_ne hpath] at hn
            exact h.notification path' notification hn
        copied := h.copied
        invoked := h.invoked }
  | some callback =>
    have hmono {path' : String} {callback' : Callback} (hmem : (path', callback') ∈ s.registered) :
        (path', callback') ∈ s.registered ++ [(path, callback)] := List.mem_append_left _ hmem
    exact
      { unique := h.unique
        waiting := h.waiting
        distinct := h.distinct
        executed := h.executed
        notified := h.notified
        nodup := h.nodup
        owed := h.owed
        notification := fun path' notification hn => by
          rw [State.notifications_setNotification] at hn
          by_cases hpath : path' = path
          · rw [hpath, Function.update_self] at hn
            rw [hpath, ← Option.some.inj hn]
            exact List.mem_append_right _ (List.mem_singleton.mpr rfl)
          · rw [Function.update_of_ne hpath] at hn
            exact hmono (h.notification path' notification hn)
        copied := fun notification path' identifier hcalling => by
          obtain ⟨callback', heq, hmem⟩ := h.copied notification path' identifier hcalling
          exact ⟨callback', heq, hmono hmem⟩
        invoked := fun invocation hmem => by
          obtain ⟨callback', heq, hmem⟩ := h.invoked invocation hmem
          exact ⟨callback', heq, hmono hmem⟩ }

theorem State.Inv.tick (h : s.Inv) (duration : ℕ) :
    State.Inv { s with now := s.now + duration } :=
  ⟨h.unique, h.waiting, h.distinct, h.executed, h.notified, h.nodup, h.owed, h.notification,
    h.copied, h.invoked⟩

/-- A file is confirmed whose path is not registered. -/
theorem State.Inv.addCorrupted (h : s.Inv) (identifier : ℕ) :
    State.Inv { s with corrupteds := identifier :: s.corrupteds } where
  unique := h.unique
  waiting path identifier' hw :=
    let ⟨hmem, hrest⟩ := h.waiting path identifier' hw
    ⟨List.mem_cons_of_mem _ hmem, hrest⟩
  distinct := h.distinct
  executed file hfile :=
    let ⟨hmem, hrest⟩ := h.executed file hfile
    ⟨List.mem_cons_of_mem _ hmem, hrest⟩
  notified file hfile := List.mem_cons_of_mem _ (h.notified file hfile)
  nodup := h.nodup
  owed := h.owed
  notification := h.notification
  copied := h.copied
  invoked := h.invoked

/-- What waits after a notification is queued. -/
theorem State.waiting_async (path : String) (identifier : ℕ) (hunique : s.queue.Unique) (delay : ℕ)
    (path' : String) :
    (s.async (.notifyCorruption path) delay identifier).waiting path' =
      if path = path' then some identifier else s.waiting path' := by
  rw [State.waiting, State.async, TimedQueue.value?_queue hunique, State.waiting]
  by_cases hpath : path = path' <;> simp [hpath]

theorem State.Inv.confirm (h : s.Inv)
    (hfree : identifier ∉ s.corrupteds → (s.notifications path).isSome →
      ∀ other, s.waiting path = some other → ¬s.Owed (path, other)) :
    (s.confirm path identifier).Inv := by
  rw [State.confirm]
  split_ifs with hmem hregistered
  · exact h
  · have hadd := h.addCorrupted identifier
    have hwaiting := State.waiting_async path identifier hadd.unique 0
    have hnew : identifier ∉ s.notified.map Prod.snd := fun hnotified => by
      obtain ⟨file, hfile, rfl⟩ := List.mem_map.mp hnotified
      exact hmem (h.notified file hfile)
    exact
      { unique := TimedQueue.Unique.queue hadd.unique
        waiting := fun path' identifier' hw => by
          replace hw := (hwaiting path').symm.trans hw
          split_ifs at hw with hpath
          · obtain rfl := Option.some.inj hw
            exact ⟨List.mem_cons_self, hnew, fun file hfile heq =>
              hmem (heq ▸ (h.executed file hfile).1)⟩
          · exact hadd.waiting path' identifier' hw
        distinct := fun path₁ path₂ identifier' hw₁ hw₂ => by
          replace hw₁ := (hwaiting path₁).symm.trans hw₁
          replace hw₂ := (hwaiting path₂).symm.trans hw₂
          split_ifs at hw₁ hw₂ with hpath₁ hpath₂ hpath₂
          · exact hpath₁.symm.trans hpath₂
          · exact absurd (h.waiting path₂ _ hw₂).1 (Option.some.inj hw₁ ▸ hmem)
          · exact absurd (h.waiting path₁ _ hw₁).1 (Option.some.inj hw₂ ▸ hmem)
          · exact h.distinct path₁ path₂ identifier' hw₁ hw₂
        executed := hadd.executed
        notified := hadd.notified
        nodup := h.nodup
        owed := fun file hfile => by
          obtain ⟨hconfirmed, hcleared, hnotified⟩ := hfile
          refine Or.imp_left (fun hw => (hwaiting file.1).trans hw) ?_
          rcases List.mem_append.mp hconfirmed with hold | hlast
          · have howed : s.Owed file := ⟨hold, hcleared, hnotified⟩
            rcases h.owed file howed with hw | hthread
            · -- what waited at the path is owed to nobody
              have hpath : path ≠ file.1 := fun heq =>
                hfree hmem hregistered file.2 (heq ▸ hw) (heq ▸ howed)
              exact .inl ((if_neg hpath).trans hw)
            · exact .inr hthread
          · obtain rfl := List.mem_singleton.mp hlast
            exact .inl (if_pos rfl)
        notification := h.notification
        copied := h.copied
        invoked := h.invoked }
  · exact h.addCorrupted identifier

theorem State.Inv.expire (h : s.Inv) (hidle : s.thread = .idle) {operation : Operation String}
    {queue : UniqueList (Operation String) ℕ}
    (hexpire : TimedQueue.expire s.queue s.now = some ((operation, identifier), queue)) :
    State.Inv { s with thread := .taken operation identifier, queue } := by
  obtain ⟨hunique, htaken, hgone, hrest⟩ := TimedQueue.expire_spec h.unique hexpire
  have hthread : s.thread.file? = none := by rw [hidle]; rfl
  have hstays {path' : String} {identifier' : ℕ}
      (hw : queue.value? (.notifyCorruption path') = some identifier') :
      s.waiting path' = some identifier' ∧ operation ≠ .notifyCorruption path' := by
    have hne : operation ≠ .notifyCorruption path' := fun heq => by
      rw [← heq, hgone] at hw
      exact nomatch hw
    exact ⟨(hrest _ hne.symm).symm.trans hw, hne⟩
  have hfile {file : String × ℕ}
    (hfile : Thread.file? (.taken operation identifier : Thread Callback) =
      some file) : operation = .notifyCorruption file.1 ∧ identifier = file.2 := by
    cases operation with
    | notifyCorruption path =>
      obtain rfl := Option.some.inj hfile
      exact ⟨rfl, rfl⟩
    | _ => exact nomatch hfile
  exact
    { unique := hunique
      waiting := fun path' identifier' hw => by
        obtain ⟨hbefore, hne⟩ := hstays hw
        obtain ⟨hmem, hnotified, -⟩ := h.waiting path' identifier' hbefore
        refine ⟨hmem, hnotified, fun file hf heq => ?_⟩
        obtain ⟨rfl, rfl⟩ := hfile hf
        exact hne (congrArg _ (h.distinct file.1 path' identifier' (heq ▸ htaken) hbefore))
      distinct := fun path₁ path₂ identifier' hw₁ hw₂ =>
        h.distinct path₁ path₂ identifier' (hstays hw₁).1 (hstays hw₂).1
      executed := fun file hf => by
        obtain ⟨rfl, rfl⟩ := hfile hf
        obtain ⟨hmem, hnotified, -⟩ := h.waiting file.1 file.2 htaken
        exact ⟨hmem, hnotified⟩
      notified := h.notified
      nodup := h.nodup
      owed := fun file howed => by
        have hw := (h.owed file howed).resolve_right (by rw [hthread]; exact nofun)
        by_cases heq : operation = .notifyCorruption file.1
        · subst heq
          have hid : identifier = file.2 := Option.some.inj (htaken.symm.trans hw)
          exact .inr (by rw [hid]; rfl)
        · exact .inl ((hrest _ (Ne.symm heq)).trans hw)
      notification := h.notification
      copied := fun _ _ _ hcalling => nomatch hcalling
      invoked := h.invoked }

/-- The thread goes on with the same notification. -/
theorem State.Inv.setThread (h : s.Inv) {thread : Thread Callback}
    (hfile : thread.file? = s.thread.file?)
    (hcopied : ∀ notification path identifier, thread = .calling notification path identifier →
      ∃ callback, notification = some callback ∧ (path, callback) ∈ s.registered) :
    State.Inv { s with thread } where
  unique := h.unique
  waiting path identifier hw :=
    let ⟨hmem, hnotified, hthread⟩ := h.waiting path identifier hw
    ⟨hmem, hnotified, fun file hf => hthread file (hfile ▸ hf)⟩
  distinct := h.distinct
  executed file hf := h.executed file (hfile ▸ hf)
  notified := h.notified
  nodup := h.nodup
  owed file howed := (h.owed file howed).imp_right fun hf => hfile.trans hf
  notification := h.notification
  copied := hcopied
  invoked := h.invoked

theorem State.Inv.onTimed (h : s.Inv) {operation : Operation String}
    (hthread : s.thread = .taken operation identifier)
    (hregistered : ∀ path, operation = .notifyCorruption path → (s.notifications path).isSome) :
    (s.onTimed operation identifier).Inv := by
  cases operation with
  | notifyCorruption path =>
    refine h.setThread (by rw [hthread]; rfl) fun notification path' identifier' hcalling => ?_
    obtain ⟨rfl, rfl, rfl⟩ := Thread.calling.inj hcalling
    obtain ⟨callback, hcallback⟩ := Option.isSome_iff_exists.mp (hregistered path rfl)
    exact ⟨callback, hcallback, h.notification path callback hcallback⟩
  | _ => exact h.setThread (by rw [hthread]; rfl) fun _ _ _ hcalling => nomatch hcalling

theorem State.Inv.call (h : s.Inv) {notification : Option Callback}
    (hthread : s.thread = .calling notification path identifier) :
    State.Inv { s with
      thread := .idle
      invoked := s.invoked ++ [⟨notification, path, identifier⟩] } := by
  have hfile : s.thread.file? = some (path, identifier) := by rw [hthread]; rfl
  obtain ⟨hmem, hnew⟩ := h.executed _ hfile
  have hnotified (file : String × ℕ) : file ∈ (s.invoked ++
      [(⟨notification, path, identifier⟩ : Invocation Callback)]).map Invocation.file ↔
        file ∈ s.notified ∨ file = (path, identifier) := by
    rw [List.map_append, List.mem_append, List.map_singleton, List.mem_singleton, State.notified]
  have hids : ((s.invoked ++ [(⟨notification, path, identifier⟩ : Invocation Callback)]).map
      Invocation.file).map Prod.snd = s.notified.map Prod.snd ++ [identifier] := by
    rw [List.map_append, List.map_append, List.map_singleton, List.map_singleton, State.notified]
  exact
    { unique := h.unique
      waiting := fun path' identifier' hw => by
        obtain ⟨hmem', hnotified', hother⟩ := h.waiting path' identifier' hw
        refine ⟨hmem', fun hin => ?_, fun _ hf => nomatch hf⟩
        rcases List.mem_append.mp (hids ▸ hin) with hin | hlast
        · exact hnotified' hin
        · exact hother _ hfile (List.mem_singleton.mp hlast).symm
      distinct := h.distinct
      executed := fun _ hf => nomatch hf
      notified := fun file hin => by
        rcases (hnotified file).mp hin with hin | rfl
        · exact h.notified file hin
        · exact hmem
      nodup := by
        refine hids ▸ List.nodup_append.mpr ⟨h.nodup, List.nodup_singleton _,
          fun id hid id' hid' => ?_⟩
        rintro rfl
        exact hnew (List.mem_singleton.mp hid' ▸ hid)
      owed := fun file howed => by
        obtain ⟨hconfirmed, hcleared, hin⟩ := howed
        have hbefore : file ∉ s.notified := fun hold => hin ((hnotified file).mpr (.inl hold))
        refine .inl ((h.owed file ⟨hconfirmed, hcleared, hbefore⟩).resolve_right fun hf => ?_)
        exact hin ((hnotified file).mpr (.inr (Option.some.inj (hfile.symm.trans hf)).symm))
      notification := h.notification
      copied := fun _ _ _ hcalling => nomatch hcalling
      invoked := fun invocation hin => by
        rcases List.mem_append.mp hin with hin | hlast
        · exact h.invoked invocation hin
        · obtain ⟨callback, heq, hregistered⟩ := h.copied _ _ _ hthread
          rw [List.mem_singleton.mp hlast]
          exact ⟨callback, heq, hregistered⟩ }

theorem State.Inv.handleError (h : s.Inv) {error : Error} {skipPath : String}
    {identifier : Option ℕ} (horderly : Orderly s (.handleError error skipPath identifier)) :
    (s.handleError error skipPath identifier).Inv := by
  rw [State.handleError]
  by_cases hlevel : error.level.value < Level.warning.value ∨ ¬error.isCorruption
  · rw [if_pos hlevel]
    exact h
  rw [if_neg hlevel]
  obtain ⟨hlevel, hcorruption⟩ := not_or.mp hlevel
  cases hpath : error.path with
  | none => exact h
  | some path =>
    dsimp only
    by_cases hempty : path = ""
    · rw [if_pos hempty]
      exact h
    rw [if_neg hempty]
    by_cases hskip : path = skipPath
    · rw [if_pos hskip]
      exact h
    rw [if_neg hskip]
    cases identifier with
    | none => exact h
    | some identifier =>
      dsimp only
      split_ifs with hintegrity
      · refine h.confirm fun hmem hregistered other hw => horderly path other ?_ hw
        exact ⟨not_lt.mp hlevel, not_not.mp hcorruption, hpath, hempty, hskip, hintegrity, hmem,
          hregistered⟩
      · rw [State.asyncCheckIntegrity]
        split_ifs
        · exact h
        · exact h.async 0 fun _ heq => nomatch heq

end Steps

theorem step_inv (s : State Callback) (event : Event Callback) (t : State Callback) (h : s.Inv)
    (horderly : Orderly s event) (hstep : step s event = some t) : t.Inv := by
  cases event with
  | setNotification path notification =>
    obtain rfl := Option.some.inj hstep
    exact h.setNotification notification
  | handleError error skipPath identifier =>
    obtain rfl := Option.some.inj hstep
    exact h.handleError horderly
  | async operation delay identifier =>
    cases operation with
    | notifyCorruption path => exact nomatch hstep
    | _ =>
      obtain rfl := Option.some.inj hstep
      exact h.async delay fun _ heq => nomatch heq
  | tick duration =>
    obtain rfl := Option.some.inj hstep
    exact h.tick duration
  | expire =>
    rw [step] at hstep
    split at hstep
    · next hidle =>
      obtain ⟨⟨⟨operation, identifier⟩, queue⟩, hexpire, rfl⟩ := Option.map_eq_some_iff.mp hstep
      exact h.expire hidle hexpire
    · exact nomatch hstep
  | onTimed =>
    rw [step] at hstep
    split at hstep
    · next operation identifier hthread =>
      obtain rfl := Option.some.inj hstep
      refine h.onTimed hthread fun path heq => horderly path identifier ?_
      rw [hthread, heq]
    · exact nomatch hstep
  | call =>
    rw [step] at hstep
    split at hstep
    · next notification path identifier hthread =>
      obtain rfl := Option.some.inj hstep
      exact h.call hthread
    · exact nomatch hstep

/-- **Notifications of corruption in an orderly run**: every callback that is called was registered
for the path; no file is notified twice; and when the queue is quiet, every file first confirmed
while its path was registered has been notified, or its callback was cleared first. -/
theorem notified_of_orderly {events : List (Event Callback)} {s : State Callback}
    (hmeets : Run.Meets step Orderly {} events) (hexec : Run.exec step {} events = some s) :
    (∀ invocation ∈ s.invoked, ∃ callback, invocation.notification = some callback ∧
      (invocation.file.1, callback) ∈ s.registered) ∧
    s.notified.Nodup ∧
    (s.Quiet → ∀ file ∈ s.confirmed, file ∈ s.notified ∨ file ∈ s.cleared) := by
  have h := Run.inv_exec step_inv State.Inv.init hmeets hexec
  refine ⟨h.invoked, List.Nodup.of_map _ h.nodup, fun hquiet file hconfirmed => ?_⟩
  by_contra hnot
  obtain ⟨hnotified, hcleared⟩ := not_or.mp hnot
  rcases h.owed file ⟨hconfirmed, hcleared, hnotified⟩ with hwaiting | hthread
  · exact nomatch (hquiet.2 file.1).symm.trans hwaiting
  · rw [hquiet.1] at hthread
    exact nomatch hthread

/-- The corruption of the file with the identifier is confirmed at the path `db`. -/
def confirming (identifier : ℕ) : Event ℕ :=
  .handleError { path := some "db", fromIntegrity := true } "" (some identifier)

/-- The callback 1 is registered, and the thread notifies a corruption after it is replaced by 2. -/
def replacedCallback : List (Event ℕ) :=
  [.setNotification "db" (some 1), confirming 7, .setNotification "db" (some 2), .expire, .onTimed,
    .call]

theorem notified_of_orderly_replacedCallback :
    ∃ s, Run.exec step {} replacedCallback = some s ∧ s.notified.Nodup ∧
      ∀ file ∈ s.confirmed, file ∈ s.notified ∨ file ∈ s.cleared := by
  have hmeets : Run.Meets step Orderly {} replacedCallback := by
    refine ⟨trivial, fun _ h₁ => ⟨?_, fun _ h₂ => ⟨trivial, fun _ h₃ => ⟨trivial, fun _ h₄ =>
      ⟨?_, fun _ h₅ => ⟨trivial, fun _ _ => trivial⟩⟩⟩⟩⟩⟩
    · obtain rfl := Option.some.inj h₁
      exact fun path other _ hw => nomatch hw
    · obtain rfl := Option.some.inj h₁
      obtain rfl := Option.some.inj h₂
      obtain rfl := Option.some.inj h₃
      obtain rfl := Option.some.inj h₄
      intro path identifier hthread
      obtain ⟨hoperation, -⟩ := Thread.taken.inj hthread
      obtain rfl := Operation.notifyCorruption.inj hoperation
      rfl
  obtain ⟨s, hs⟩ : ∃ s, Run.exec step {} replacedCallback = some s := ⟨_, rfl⟩
  have hquiet : s.Quiet := by
    obtain rfl := Option.some.inj hs
    exact ⟨rfl, fun _ => rfl⟩
  obtain ⟨-, hnodup, hall⟩ := notified_of_orderly hmeets hs
  exact ⟨s, hs, hnodup, hall hquiet⟩

/-- The callback is cleared while the notification waits. -/
def clearedCallback : List (Event ℕ) :=
  [.setNotification "db" (some 1), confirming 7, .setNotification "db" none, .expire,
    .onTimed, .call]

/-- The file is replaced while its notification waits. -/
def replacedFile : List (Event ℕ) :=
  [.setNotification "db" (some 1), confirming 7, confirming 8, .expire, .onTimed, .call]

/-- In the first run an empty function is called; in the second nothing waits at the end, and the
first file has not been notified. -/
theorem not_notified :
    (Run.exec step {} clearedCallback).map (fun s => s.invoked.map Invocation.notification) =
        some [none] ∧
      (Run.exec step {} replacedFile).map (fun s => (s.confirmed, s.notified, s.cleared)) =
        some ([("db", 7), ("db", 8)], [("db", 8)], []) ∧
      (Run.exec step {} replacedFile).map (fun s => s.queue.length) = some 0 := by
  refine ⟨?_, ?_, ?_⟩
  all_goals decide +kernel

end Wcdb.CorruptionNotification
