import Wcdb.Base.QueueDiscipline
import Wcdb.Core.CorruptionNotification

/-!
# `OperationQueue`: what is done in the background

Any thread registers paths and asks for operations; one thread takes what is due from the timed
queue and executes it. A path has to be registered for what is asked, and an operation that did not
finish or failed is asked for again by the thread itself. A critical section is one step: between
the end of an operation and its repetition, or between a look at the clock and a purge, other
threads go on.

The callbacks of `OperationEvent` end with any result after any time. `Record()` leaves
`registeredForMergeFTSIndex` as it finds it, so that a step that creates a record says what was
there (`fresh`). `handleError` is in `CorruptionNotification`; what it queues can come here at any
time.

`step_asks` says what a step of another thread does to the queue, and `expire_cases`,
`deliver_cases` and `operated_asks` what the thread of the queue does. Everything that is proved
about runs is derived from them.
-/

namespace Wcdb.OperationQueue

open CorruptionNotification (Level)
open MergeFTSIndex (Operation)

/-! ### What is queued -/

/-- In nanoseconds, as the clock of the queue. -/
def second : ℤ := 1000000000

def timeIntervalForRetringAfterFailure : ℤ := 5 * second

def timeIntervalForMigration : ℤ := 2 * second

def tolerableFailuresForMigration : ℕ := 5

def timeIntervalForCompression : ℤ := 200000000

def tolerableFailuresForCompression : ℕ := 5

def timeIntervalForPurgingAgain : ℤ := 30 * second

def timeIntervalForCheckpoint : ℤ := 10 * second

def timeIntervalForBackup : ℤ := 600 * second

def timeIntervalForMergeFTSIndex : ℤ := 1871000000

/-- `Parameter::Source`. -/
inductive Source where
  | other
  | memoryWarning
  | fileDescriptorsWarning
  | outOfMaxAllowedFileDescriptors
  deriving DecidableEq, Repr

structure Parameter where
  source : Source := .other
  numberOfFailures : ℕ := 0
  identifier : ℕ := 0
  numberOfFileDescriptors : ℕ := 0
  newTables : Option (List String) := none
  modifiedTables : Option (List String) := none
  deriving DecidableEq, Repr

/-- A value in the infos of an error. -/
inductive Info where
  | text (value : String)
  | integer (value : ℕ)
  deriving DecidableEq, Repr

/-- What the queue reports. -/
structure Error where
  level : Level
  message : String
  infos : List (String × Info) := []
  deriving DecidableEq, Repr

/-- What a path is registered for. -/
inductive Kind where
  | migration
  | compression
  | mergeFTSIndex
  | backup
  | checkpoint
  deriving DecidableEq, Repr

def Kind.operation : Kind → String → Operation String
  | migration => .migrate
  | compression => .compress
  | mergeFTSIndex => .mergeIndex
  | backup => .backup
  | checkpoint => .checkpoint

structure Record where
  registeredForMigration : Bool := false
  registeredForCompression : Bool := false
  registeredForBackup : Bool := false
  registeredForCheckpoint : Bool := false
  registeredForMergeFTSIndex : Bool
  deriving DecidableEq, Repr

namespace Record

def registered (record : Record) : Kind → Bool
  | .migration => record.registeredForMigration
  | .compression => record.registeredForCompression
  | .mergeFTSIndex => record.registeredForMergeFTSIndex
  | .backup => record.registeredForBackup
  | .checkpoint => record.registeredForCheckpoint

def setRegistered (record : Record) (value : Bool) : Kind → Record
  | .migration => { record with registeredForMigration := value }
  | .compression => { record with registeredForCompression := value }
  | .mergeFTSIndex => { record with registeredForMergeFTSIndex := value }
  | .backup => { record with registeredForBackup := value }
  | .checkpoint => { record with registeredForCheckpoint := value }

theorem registered_setRegistered (record : Record) (value : Bool) (kind kind' : Kind) :
    (record.setRegistered value kind).registered kind' =
      if kind' = kind then value else record.registered kind' := by
  cases kind <;> cases kind' <;> rfl

end Record

/-! ### The queue -/

/-- `onTimed` is what the thread executes, from the call of `onTimed` to its return. -/
structure State where
  timedQueue : QueueDiscipline.State (Operation String) Parameter := {}
  records : String → Option Record := fun _ => none
  lastPurge : ℤ := 0
  onTimed : Option (Operation String × Parameter) := none
  maxAllowedNumberOfFileDescriptors : ℕ := 1024
  notified : List Error := []

namespace State

variable (s : State)

def now : ℤ := s.timedQueue.now

/-- What waits for an operation. -/
def waiting (operation : Operation String) : Option Parameter :=
  s.timedQueue.list.value? operation

/-- What the thread has taken, or executes. -/
def inHand : Option (Operation String × Parameter) :=
  match s.onTimed with
  | some taken => some taken
  | none => s.timedQueue.expireds

def notify (error : Error) : State := { s with notified := s.notified ++ [error] }

def async (operation : Operation String) (delay : ℤ) (parameter : Parameter) : State :=
  { s with timedQueue := s.timedQueue.queue operation delay parameter .forwardOnly }

def remove (operation : Operation String) : State :=
  { s with timedQueue := s.timedQueue.remove operation }

/-! #### Records -/

/-- `m_records[path]`, which creates the record if there is none. -/
def record (path : String) (fresh : Bool) : Record :=
  (s.records path).getD { registeredForMergeFTSIndex := fresh }

def setRecord (path : String) (record : Record) : State :=
  { s with records := Function.update s.records path (some record) }

/-- Whether the path is registered, without creating a record. -/
def registered (kind : Kind) (path : String) : Bool :=
  (s.records path).any fun record => record.registered kind

/-- `registerAsRequiredMigration` and its like. -/
def registerAsRequired (kind : Kind) (path : String) (fresh : Bool) : State :=
  s.setRecord path ((s.record path fresh).setRegistered true kind)

/-- `registerAsNoMigrationRequired` and its like. -/
def registerAsNoRequired (kind : Kind) (path : String) (fresh : Bool) : State :=
  (s.setRecord path ((s.record path fresh).setRegistered false kind)).remove (kind.operation path)

def isAutoBackup (path : String) (fresh : Bool) : Bool × State :=
  ((s.record path fresh).registeredForBackup, s.setRecord path (s.record path fresh))

/-- An operation that creates the record if it has to. -/
def asyncRegistered (kind : Kind) (path : String) (delay : ℤ) (parameter : Parameter)
    (fresh : Bool) : State :=
  let created := s.setRecord path (s.record path fresh)
  if (s.record path fresh).registered kind then created.async (kind.operation path) delay parameter
  else created

/-- An operation for a record that is there. -/
def asyncFound (kind : Kind) (path : String) (delay : ℤ) (parameter : Parameter) : State :=
  if s.registered kind path then s.async (kind.operation path) delay parameter else s

/-! #### Migration and compression -/

def asyncMigrate (path : String) (delay : ℤ) (numberOfFailures : ℕ) (fresh : Bool) : State :=
  s.asyncRegistered .migration path delay { numberOfFailures } fresh

def asyncCompress (path : String) (delay : ℤ) (numberOfFailures : ℕ) (fresh : Bool) : State :=
  s.asyncRegistered .compression path delay { numberOfFailures } fresh

end State

/-- The error that a migration of the path is given up. -/
def migrationStopped (path : String) : Error where
  level := .notice
  message := "Auto migration is stopped due to too many errors."
  infos := [("Path", .text path), ("Type", .text "Migrate")]

def compressionStopped (path : String) : Error where
  level := .notice
  message := "Auto compression is stopped due to too many errors."
  infos := [("Path", .text path), ("Type", .text "Compress")]

namespace State

variable (s : State)

/-- The body of `doMigrate` and of `doCompress`. What the callback has returned is `done`, with
`none` for a failure. -/
def doRepeated (kind : Kind) (path : String) (interval : ℤ) (tolerableFailures : ℕ)
    (stopped : Error)
    (numberOfFailures : ℕ) (done : Option Bool) (fresh : Bool) : State :=
  match done with
  | some true => s
  | some false => s.asyncRegistered kind path interval { numberOfFailures } fresh
  | none =>
    if numberOfFailures + 1 < tolerableFailures then
      s.asyncRegistered kind path timeIntervalForRetringAfterFailure
        { numberOfFailures := numberOfFailures + 1 } fresh
    else s.notify stopped

def doMigrate (path : String) (numberOfFailures : ℕ) (done : Option Bool) (fresh : Bool) : State :=
  s.doRepeated .migration path timeIntervalForMigration tolerableFailuresForMigration
    (migrationStopped path) numberOfFailures done fresh

def doCompress (path : String) (numberOfFailures : ℕ) (done : Option Bool) (fresh : Bool) : State :=
  s.doRepeated .compression path timeIntervalForCompression tolerableFailuresForCompression
    (compressionStopped path) numberOfFailures done fresh

/-! #### The other operations -/

def asyncMergeFTSIndex (path : String) (newTables modifiedTables : Option (List String))
    (fresh : Bool) : State :=
  s.asyncRegistered .mergeFTSIndex path timeIntervalForMergeFTSIndex { newTables, modifiedTables }
    fresh

def asyncBackup (path : String) (incremental : Bool) : State :=
  s.asyncFound .backup path (if incremental then 0 else timeIntervalForBackup) {}

def asyncCheckpoint (path : String) : State :=
  s.asyncFound .checkpoint path timeIntervalForCheckpoint {}

def asyncPurge (parameter : Parameter) : State :=
  if timeIntervalForPurgingAgain < s.now - s.lastPurge then s.async .purge 0 parameter else s

/-- The error with which a purge begins. -/
def purgeWarning (parameter : Parameter) : Error :=
  match parameter.source with
  | .memoryWarning => { level := .warning, message := "Purge due to memory warning." }
  | .fileDescriptorsWarning =>
    { level := .warning
      message := "Purge due to file descriptors warning."
      infos := [("MaxAllowedFileDescriptors", .integer s.maxAllowedNumberOfFileDescriptors),
        ("FileDescriptor", .integer parameter.numberOfFileDescriptors)] }
  | _ =>
    { level := .warning
      message := "Purge due to out of max allowed file descriptors."
      infos := [("MaxAllowedFileDescriptors", .integer s.maxAllowedNumberOfFileDescriptors)] }

def stopAllDatabaseEvent (path : String) : State :=
  (((((s.remove (.integrity path)).remove (.checkpoint path)).remove (.backup path)).remove
    (.migrate path)).remove (.compress path)).remove (.mergeIndex path)

/-! #### The thread -/

/-- The thread calls `onTimed`, unless the process exits; a purge begins with its warning. -/
def deliver (operation : Operation String) (parameter : Parameter) : State :=
  let handed := { s with timedQueue := { s.timedQueue with expireds := none } }
  if s.timedQueue.isExiting then handed
  else
    let started := { handed with onTimed := some (operation, parameter) }
    if operation = .purge then started.notify (s.purgeWarning parameter) else started

/-- The callback of the operation has returned `done`. -/
def operated (operation : Operation String) (parameter : Parameter) (done : Option Bool)
    (fresh : Bool) : State :=
  let ended := { s with onTimed := none }
  match operation with
  | .migrate path => ended.doMigrate path parameter.numberOfFailures done fresh
  | .compress path => ended.doCompress path parameter.numberOfFailures done fresh
  | .purge => { ended with lastPurge := s.now }
  | _ => ended

end State

/-- What can happen. `report` is what `handleError` queues. -/
inductive Event where
  | tick (elapsed : ℕ)
  | exit
  | stop
  | registerAsRequired (kind : Kind) (path : String) (fresh : Bool)
  | registerAsNoRequired (kind : Kind) (path : String) (fresh : Bool)
  | isAutoBackup (path : String) (fresh : Bool)
  | asyncMigrate (path : String) (fresh : Bool)
  | asyncCompress (path : String) (fresh : Bool)
  | asyncMergeFTSIndex (path : String) (newTables modifiedTables : Option (List String))
      (fresh : Bool)
  | asyncBackup (path : String) (incremental : Bool)
  | asyncCheckpoint (path : String)
  | asyncPurge (parameter : Parameter)
  | report (notify : Bool) (path : String) (identifier : ℕ)
  | stopMigrate (path : String)
  | stopCompress (path : String)
  | stopAllDatabaseEvent (path : String)
  | expire
  | deliver
  | operated (done : Option Bool) (fresh : Bool)

def step (s : State) : Event → Option State
  | .tick elapsed => some { s with timedQueue := { s.timedQueue with now := s.now + elapsed } }
  | .exit => some { s with timedQueue := { s.timedQueue with isExiting := true } }
  | .stop => some { s with timedQueue := s.timedQueue.stop }
  | .registerAsRequired kind path fresh => some (s.registerAsRequired kind path fresh)
  | .registerAsNoRequired kind path fresh => some (s.registerAsNoRequired kind path fresh)
  | .isAutoBackup path fresh => some (s.isAutoBackup path fresh).2
  | .asyncMigrate path fresh => some (s.asyncMigrate path timeIntervalForMigration 0 fresh)
  | .asyncCompress path fresh => some (s.asyncCompress path timeIntervalForCompression 0 fresh)
  | .asyncMergeFTSIndex path newTables modifiedTables fresh =>
    some (s.asyncMergeFTSIndex path newTables modifiedTables fresh)
  | .asyncBackup path incremental => some (s.asyncBackup path incremental)
  | .asyncCheckpoint path => some (s.asyncCheckpoint path)
  | .asyncPurge parameter => if parameter.source = .other then none
      else some (s.asyncPurge parameter)
  | .report notify path identifier =>
    some (s.async (if notify then .notifyCorruption path else .integrity path) 0 { identifier })
  | .stopMigrate path => some (s.remove (.migrate path))
  | .stopCompress path => some (s.remove (.compress path))
  | .stopAllDatabaseEvent path => some (s.stopAllDatabaseEvent path)
  | .expire =>
    if s.inHand.isNone then some { s with timedQueue := s.timedQueue.expire } else none
  | .deliver => s.timedQueue.expireds.map fun taken => s.deliver taken.1 taken.2
  | .operated done fresh => s.onTimed.map fun taken => s.operated taken.1 taken.2 done fresh

/-! ### The record of a run -/

/-- The error with which an operation that is repeated is given up. -/
def stoppedError : Operation String → Option Error
  | .migrate path => some (migrationStopped path)
  | .compress path => some (compressionStopped path)
  | _ => none

structure Purge where
  began : ℤ
  ended : ℤ
  deriving DecidableEq, Repr

structure History where
  /-- How often an operation was asked for from outside and queued. -/
  requests : Operation String → ℕ := fun _ => 0
  executed : Operation String → ℕ := fun _ => 0
  failures : Operation String → ℕ := fun _ => 0
  /-- When the thread began what it executes. -/
  began : ℤ := 0
  /-- The purges that have ended, the last one first. -/
  purges : List Purge := []

/-- Count an operation once more. -/
def more (operation : Operation String) (count : Operation String → ℕ) : Operation String → ℕ :=
  Function.update count operation (count operation + 1)

namespace History

variable (h : History)

def request (s : State) (kind : Kind) (path : String) (fresh : Bool) : History :=
  if (s.record path fresh).registered kind ∧ ¬s.timedQueue.isClosed then
    { h with requests := more (kind.operation path) h.requests }
  else h

def operated (now : ℤ) (operation : Operation String) (done : Option Bool) : History :=
  if operation = .purge then { h with purges := ⟨h.began, now⟩ :: h.purges }
  else if done.isSome then h
  else { h with failures := more operation h.failures }

end History

def record (s : State) (h : History) : Event → History
  | .asyncMigrate path fresh => h.request s .migration path fresh
  | .asyncCompress path fresh => h.request s .compression path fresh
  | .deliver =>
    match s.timedQueue.expireds with
    | some (operation, _) =>
      if s.timedQueue.isExiting then h
      else { h with executed := more operation h.executed, began := s.now }
    | none => h
  | .operated done _ =>
    match s.onTimed with
    | some (operation, _) => h.operated s.now operation done
    | none => h
  | _ => h

/-- A step with its record. -/
def recorded (s : State × History) (event : Event) : Option (State × History) :=
  (step s.1 event).map fun t => (t, record s.1 s.2 event)

/-! ### What a step asks for -/

/-- What the thread has in hand of an operation. -/
def State.taken (s : State) (operation : Operation String) : Option Parameter :=
  match s.inHand with
  | some (operation', parameter) => if operation' = operation then some parameter else none
  | none => none

/-- What the queue and its thread keep. -/
structure State.Base (s : State) : Prop where
  unique : s.timedQueue.list.Unique
  stopped : s.timedQueue.isStopped → s.timedQueue.list = []
  thread : s.onTimed.isSome → s.timedQueue.expireds = none

/-- A stretch that leaves the thread alone. What waits afterwards was `asked` for, or it waited
before and the path is registered as it was. -/
structure Asks (asked : Operation String → Parameter → Prop) (s t : State) : Prop where
  base : t.Base
  waiting : ∀ operation parameter, t.waiting operation = some parameter →
    asked operation parameter ∨ s.waiting operation = some parameter ∧
      ∀ kind path, operation = Kind.operation kind path → s.registered kind path →
        t.registered kind path
  expireds : t.timedQueue.expireds = s.timedQueue.expireds
  onTimed : t.onTimed = s.onTimed
  lastPurge : t.lastPurge = s.lastPurge
  notified : t.notified = s.notified
  now : s.now ≤ t.now

section Primitives

variable {s t u : State} {operation : Operation String} {parameter : Parameter} {kind : Kind}
  {path : String} {fresh : Bool} {delay : ℤ} {asked asked' : Operation String → Parameter → Prop}

theorem operation_inj {kind' : Kind} {path' : String} :
    kind.operation path = kind'.operation path' ↔ kind = kind' ∧ path = path' := by
  cases kind <;> cases kind' <;> simp [Kind.operation]

theorem State.Base.init : State.Base {} where
  unique := List.nodup_nil
  stopped _ := rfl
  thread _ := rfl

theorem Asks.refl (hs : s.Base) : Asks asked s s where
  base := hs
  waiting _ _ h := .inr ⟨h, fun _ _ _ hregistered => hregistered⟩
  expireds := rfl
  onTimed := rfl
  lastPurge := rfl
  notified := rfl
  now := le_rfl

theorem Asks.trans (h : Asks asked s t) (h' : Asks asked t u) : Asks asked s u where
  base := h'.base
  waiting operation parameter hu := by
    obtain hasked | ⟨ht, hkept'⟩ := h'.waiting operation parameter hu
    · exact .inl hasked
    · refine (h.waiting operation parameter ht).imp_right fun ⟨hs, hkept⟩ => ⟨hs, ?_⟩
      intro kind path hkind hregistered
      exact hkept' kind path hkind (hkept kind path hkind hregistered)
  expireds := h'.expireds.trans h.expireds
  onTimed := h'.onTimed.trans h.onTimed
  lastPurge := h'.lastPurge.trans h.lastPurge
  notified := h'.notified.trans h.notified
  now := h.now.trans h'.now

theorem Asks.mono (h : Asks asked s t) (himp : ∀ operation parameter, asked operation parameter →
    asked' operation parameter) : Asks asked' s t :=
  { h with waiting := fun operation parameter ht =>
      (h.waiting operation parameter ht).imp_left (himp operation parameter) }

/-- **An operation is queued**, unless the queue is closed. -/
theorem asks_async (hs : s.Base) : Asks (fun operation' parameter' => operation' = operation ∧
    parameter' = parameter ∧ ¬s.timedQueue.isClosed) s (s.async operation delay parameter) := by
  have hclosed : s.timedQueue.isExiting = true ∨ s.timedQueue.isExiting = false ∧
      (s.timedQueue.isStopped = true ∨ s.timedQueue.isStopped = false) := by
    cases s.timedQueue.isExiting <;> simp
  rcases hclosed with hexiting | ⟨hexiting, hstopped | hstopped⟩
  · have hasync :
      s.async operation delay parameter = { s with timedQueue := s.timedQueue.stop } := by
      rw [State.async, QueueDiscipline.State.queue, if_pos hexiting]
    rw [hasync]
    exact ⟨⟨List.nodup_nil, fun _ => rfl, hs.thread⟩, fun _ _ h => absurd h (by simp [State.waiting,
      QueueDiscipline.State.stop]), rfl, rfl, rfl, rfl, le_rfl⟩
  · have hasync : s.async operation delay parameter = s := by
      rw [State.async, QueueDiscipline.State.queue, if_neg (by simp [hexiting]), if_pos hstopped]
    rw [hasync]
    exact .refl hs
  · have hasync : s.async operation delay parameter = { s with timedQueue := { s.timedQueue with
        list := TimedQueue.queue s.timedQueue.list s.timedQueue.now operation delay parameter
          .forwardOnly } } := by
      rw [State.async, QueueDiscipline.State.queue, if_neg (by simp [hexiting]),
        if_neg (by simp [hstopped])]
    rw [hasync]
    refine ⟨⟨TimedQueue.Unique.queue hs.unique, fun h => ?_, hs.thread⟩,
      fun operation' parameter' h => ?_,
      rfl, rfl, rfl, rfl, le_rfl⟩
    · exact absurd h (by simp [hstopped])
    · rw [State.waiting, TimedQueue.value?_queue hs.unique] at h
      split at h
      · rename_i heq
        refine .inl ⟨heq.symm, (Option.some.inj h).symm, ?_⟩
        simp [QueueDiscipline.State.isClosed, hexiting, hstopped]
      · exact .inr ⟨h, fun _ _ _ hregistered => hregistered⟩

/-- What is removed does not wait any more. -/
theorem waiting_remove (hs : s.Base) {operation' : Operation String}
    (h : (s.remove operation).waiting operation' = some parameter) :
    operation' ≠ operation ∧ s.waiting operation' = some parameter := by
  rw [State.waiting, State.remove, QueueDiscipline.State.remove] at h
  split at h
  · rename_i hstopped
    simp only [hs.stopped hstopped, UniqueList.value?_nil] at h
    cases h
  · split at h
    · cases h
    · simp only [UniqueList.value?_erase hs.unique] at h
      split at h
      · cases h
      · rename_i hne
        exact ⟨fun heq => hne heq.symm, h⟩

theorem base_remove (hs : s.Base) : (s.remove operation).Base := by
  rw [State.remove, QueueDiscipline.State.remove]
  split
  · exact ⟨hs.unique, hs.stopped, hs.thread⟩
  · rename_i hstopped
    split
    · exact ⟨List.nodup_nil, fun _ => rfl, hs.thread⟩
    · exact ⟨hs.unique.erase operation, fun h => absurd h hstopped, hs.thread⟩

theorem timedQueue_remove : (s.remove operation).timedQueue.expireds = s.timedQueue.expireds ∧
    (s.remove operation).now = s.now := by
  rw [State.now, State.remove, QueueDiscipline.State.remove]
  split
  · exact ⟨rfl, rfl⟩
  · split <;> exact ⟨rfl, rfl⟩

theorem asks_remove (hs : s.Base) : Asks asked s (s.remove operation) where
  base := base_remove hs
  waiting _ _ h := .inr ⟨(waiting_remove hs h).2, fun _ _ _ hregistered => hregistered⟩
  expireds := timedQueue_remove.1
  onTimed := rfl
  lastPurge := rfl
  notified := rfl
  now := timedQueue_remove.2.ge

theorem Asks.remove (h : Asks asked s t) : Asks asked s (t.remove operation) :=
  h.trans (asks_remove h.base)

/-! #### Records -/

theorem registered_setRecord (record : Record) {kind' : Kind} {path' : String} :
    (s.setRecord path record).registered kind' path' =
      if path' = path then record.registered kind' else s.registered kind' path' := by
  rw [State.registered, State.setRecord]
  split_ifs with hpath
  · simp [hpath]
  · simp [State.registered, hpath]

/-- A record that is created is registered for no less than no record. -/
theorem registered_record (h : s.registered kind path = true) :
    (s.record path fresh).registered kind = true := by
  rw [State.registered, Option.any_eq_true] at h
  obtain ⟨record, hrecord, hregistered⟩ := h
  rw [State.record, hrecord, Option.getD_some]
  exact hregistered

/-- The records change and keep what they are registered for. -/
theorem asks_setRecord (hs : s.Base) {record : Record}
    (hkept : ∀ kind, s.registered kind path = true → record.registered kind = true) :
    Asks asked s (s.setRecord path record) where
  base := ⟨hs.unique, hs.stopped, hs.thread⟩
  waiting operation parameter h := by
    refine .inr ⟨h, fun kind path' _ hregistered => ?_⟩
    rw [registered_setRecord]
    split_ifs with hpath
    · exact hkept kind (hpath ▸ hregistered)
    · exact hregistered
  expireds := rfl
  onTimed := rfl
  lastPurge := rfl
  notified := rfl
  now := le_rfl

theorem asks_registerAsRequired (hs : s.Base) :
    Asks asked s (s.registerAsRequired kind path fresh) := by
  refine asks_setRecord hs fun kind' hregistered => ?_
  rw [Record.registered_setRegistered]
  split_ifs
  · rfl
  · exact registered_record hregistered

/-- The operation of the kind goes before its registration. -/
theorem asks_registerAsNoRequired (hs : s.Base) :
    Asks asked s (s.registerAsNoRequired kind path fresh) := by
  have hbase : (s.setRecord path ((s.record path fresh).setRegistered false kind)).Base :=
    ⟨hs.unique, hs.stopped, hs.thread⟩
  refine ⟨base_remove hbase, fun operation parameter h => .inr ?_, timedQueue_remove.1,
    rfl, rfl, rfl,
    timedQueue_remove.2.ge⟩
  obtain ⟨hne, hwaiting⟩ := waiting_remove hbase h
  refine ⟨hwaiting, fun kind' path' heq hregistered => ?_⟩
  change (s.setRecord path _).registered kind' path' = true
  rw [registered_setRecord]
  split_ifs with hpath
  · subst hpath
    rw [Record.registered_setRegistered, if_neg ?_]
    · exact registered_record hregistered
    · rintro rfl
      exact hne heq
  · exact hregistered

theorem asks_asyncRegistered (hs : s.Base) : Asks (fun operation' parameter' =>
    operation' = kind.operation path ∧ parameter' = parameter ∧
      ((s.record path fresh).registered kind = true ∧ ¬s.timedQueue.isClosed) ∧
      (s.asyncRegistered kind path delay parameter fresh).registered kind path) s
    (s.asyncRegistered kind path delay parameter fresh) := by
  have hcreated {asked : Operation String → Parameter → Prop} :
      Asks asked s (s.setRecord path (s.record path fresh)) :=
    asks_setRecord hs fun _ => registered_record
  rw [State.asyncRegistered]
  split_ifs with hregistered
  · have hbase : (s.setRecord path (s.record path fresh)).Base := ⟨hs.unique, hs.stopped, hs.thread⟩
    refine hcreated.trans ((asks_async hbase).mono fun operation' parameter' h => ?_)
    refine ⟨h.1, h.2.1, ⟨hregistered, h.2.2⟩, ?_⟩
    change (s.setRecord path _).registered kind path = true
    rw [registered_setRecord, if_pos rfl]
    exact hregistered
  · exact hcreated

theorem asks_asyncFound (hs : s.Base) : Asks (fun operation' _ =>
    operation' = kind.operation path ∧
      (s.asyncFound kind path delay parameter).registered kind path) s
    (s.asyncFound kind path delay parameter) := by
  rw [State.asyncFound]
  split_ifs with hregistered
  · exact (asks_async hs).mono fun operation' parameter' h => ⟨h.1, hregistered⟩
  · exact .refl hs

theorem asks_stopAllDatabaseEvent (hs : s.Base) : Asks asked s (s.stopAllDatabaseEvent path) :=
  (((((asks_remove hs).remove).remove).remove).remove).remove

end Primitives

/-- The thread of the queue is at it. -/
def Event.isThread : Event → Bool
  | .expire => true
  | .deliver => true
  | .operated .. => true
  | _ => false

/-- **What another thread may ask for**: an operation whose path is registered, with no failure and
counted, or a purge when the last one is long enough ago. -/
structure Event.Asked (event : Event) (s t : State) (operation : Operation String)
    (parameter : Parameter) : Prop where
  registered : ∀ kind path, operation = Kind.operation kind path → t.registered kind path
  retried : stoppedError operation ≠ none → parameter.numberOfFailures = 0 ∧
    ∀ h, (record s h event).requests operation = h.requests operation + 1
  purge : operation = .purge → timeIntervalForPurgingAgain < s.now - s.lastPurge

section Asked

variable {s t : State} {h : History} {event : Event} {operation : Operation String}
  {parameter : Parameter} {kind : Kind} {path : String} {fresh : Bool}

theorem requests_request (hregistered : (s.record path fresh).registered kind = true)
    (hclosed : ¬s.timedQueue.isClosed) :
    (h.request s kind path fresh).requests (kind.operation path) =
      h.requests (kind.operation path) + 1 := by
  rw [History.request, if_pos ⟨hregistered, hclosed⟩]
  exact Function.update_self ..

/-- An operation of a kind is asked for. -/
theorem Event.Asked.of_kind (hregistered : t.registered kind path = true)
    (hretried : stoppedError (kind.operation path) ≠ none → parameter.numberOfFailures = 0 ∧
      ∀ h, (record s h event).requests (kind.operation path) =
        h.requests (kind.operation path) + 1) :
    event.Asked s t (kind.operation path) parameter where
  registered kind' path' heq := by
    obtain ⟨rfl, rfl⟩ := operation_inj.mp heq
    exact hregistered
  retried := hretried
  purge h := by cases kind <;> cases h

/-- **What a step of another thread does.** -/
theorem step_asks (hs : s.Base) (hthread : event.isThread = false) (hstep : step s event = some t) :
    Asks (event.Asked s t) s t := by
  have hnone {kind : Kind} {path : String} (h : stoppedError (kind.operation path) = none)
      {P : Prop} (h' : stoppedError (kind.operation path) ≠ none) : P := absurd h h'
  cases event with
  | tick elapsed =>
    obtain rfl := Option.some.inj hstep
    exact ⟨⟨hs.unique, hs.stopped, hs.thread⟩, fun _ _ h => .inr ⟨h, fun _ _ _ h' => h'⟩, rfl, rfl,
      rfl, rfl, Int.le_add_of_nonneg_right (Int.natCast_nonneg elapsed)⟩
  | exit =>
    obtain rfl := Option.some.inj hstep
    exact ⟨⟨hs.unique, hs.stopped, hs.thread⟩, fun _ _ h => .inr ⟨h, fun _ _ _ h' => h'⟩, rfl, rfl,
      rfl, rfl, le_rfl⟩
  | stop =>
    obtain rfl := Option.some.inj hstep
    exact ⟨⟨List.nodup_nil, fun _ => rfl, hs.thread⟩, fun _ _ h => absurd h (by simp [State.waiting,
      QueueDiscipline.State.stop]), rfl, rfl, rfl, rfl, le_rfl⟩
  | registerAsRequired kind path fresh =>
    obtain rfl := Option.some.inj hstep
    exact asks_registerAsRequired hs
  | registerAsNoRequired kind path fresh =>
    obtain rfl := Option.some.inj hstep
    exact asks_registerAsNoRequired hs
  | isAutoBackup path fresh =>
    obtain rfl := Option.some.inj hstep
    exact asks_setRecord hs fun _ => registered_record
  | asyncMigrate | asyncCompress =>
    obtain rfl := Option.some.inj hstep
    refine (asks_asyncRegistered hs).mono fun operation parameter h => ?_
    obtain ⟨rfl, rfl, ⟨hregistered, hclosed⟩, hafter⟩ := h
    exact .of_kind hafter fun _ => ⟨rfl, fun _ => requests_request hregistered hclosed⟩
  | asyncMergeFTSIndex path newTables modifiedTables fresh =>
    obtain rfl := Option.some.inj hstep
    refine (asks_asyncRegistered hs).mono fun operation parameter h => ?_
    obtain ⟨rfl, rfl, -, hafter⟩ := h
    exact .of_kind hafter fun h => hnone rfl h
  | asyncBackup | asyncCheckpoint =>
    obtain rfl := Option.some.inj hstep
    refine (asks_asyncFound hs).mono fun operation parameter h => ?_
    obtain ⟨rfl, hafter⟩ := h
    exact .of_kind hafter fun h => hnone rfl h
  | asyncPurge parameter =>
    simp only [step, Option.ite_none_left_eq_some] at hstep
    obtain rfl := Option.some.inj hstep.2
    rw [State.asyncPurge]
    split_ifs with hinterval
    · refine (asks_async hs).mono fun operation parameter h => ?_
      obtain ⟨rfl, -, -⟩ := h
      refine ⟨fun kind path heq => ?_, fun h => absurd rfl h, fun _ => hinterval⟩
      cases kind <;> cases heq
    · exact .refl hs
  | report notify path identifier =>
    obtain rfl := Option.some.inj hstep
    refine (asks_async hs).mono fun operation parameter h => ?_
    obtain ⟨rfl, -, -⟩ := h
    refine ⟨fun kind path heq => ?_, fun h => ?_, fun h => ?_⟩
    · cases notify <;> cases kind <;> cases heq
    · cases notify <;> exact absurd rfl h
    · cases notify <;> cases h
  | stopMigrate | stopCompress =>
    obtain rfl := Option.some.inj hstep
    exact asks_remove hs
  | stopAllDatabaseEvent path =>
    obtain rfl := Option.some.inj hstep
    exact asks_stopAllDatabaseEvent hs
  | expire => cases hthread
  | deliver => cases hthread
  | operated done fresh => cases hthread

/-- What another thread does is no execution. -/
theorem record_of_asks (hthread : event.isThread = false) :
    (record s h event).executed = h.executed ∧ (record s h event).failures = h.failures ∧
      (record s h event).began = h.began ∧ (record s h event).purges = h.purges ∧
      ∀ operation, h.requests operation ≤ (record s h event).requests operation := by
  have hrequest (kind : Kind) (path : String) (fresh : Bool) :
      (h.request s kind path fresh).executed = h.executed ∧
        (h.request s kind path fresh).failures = h.failures ∧
        (h.request s kind path fresh).began = h.began ∧
        (h.request s kind path fresh).purges = h.purges ∧
        ∀ operation, h.requests operation ≤ (h.request s kind path fresh).requests operation := by
    rw [History.request]
    split_ifs
    · refine ⟨rfl, rfl, rfl, rfl, fun operation => ?_⟩
      simp only [more, Function.update_apply]
      split_ifs with heq
      · rw [heq]
        exact Nat.le_succ _
      · exact le_rfl
    · exact ⟨rfl, rfl, rfl, rfl, fun _ => le_rfl⟩
  cases event with
  | asyncMigrate path fresh => exact hrequest ..
  | asyncCompress path fresh => exact hrequest ..
  | expire => cases hthread
  | deliver => cases hthread
  | operated done fresh => cases hthread
  | _ => exact ⟨rfl, rfl, rfl, rfl, fun _ => le_rfl⟩

end Asked

/-! ### What the thread does -/

section Thread

variable {s t : State} {h : History} {operation : Operation String} {parameter : Parameter}
  {done : Option Bool} {fresh : Bool}

/-- The thread takes one operation that waits, or none. -/
theorem expire_cases (hs : s.Base) (hstep : step s .expire = some t) :
    s.inHand = none ∧ (t = s ∨ ∃ timedQueue operation parameter,
      t = { s with timedQueue } ∧ timedQueue.expireds = some (operation, parameter) ∧
        timedQueue.now = s.now ∧ t.Base ∧ s.waiting operation = some parameter ∧
        t.waiting operation = none ∧
        ∀ operation', operation' ≠ operation → t.waiting operation' = s.waiting operation') := by
  simp only [step, Option.ite_none_right_eq_some, Option.isNone_iff_eq_none] at hstep
  obtain ⟨hnone, heq⟩ := hstep
  obtain rfl := Option.some.inj heq
  refine ⟨hnone, ?_⟩
  have honTimed : s.onTimed = none := by
    rw [State.inHand] at hnone
    split at hnone
    · cases hnone
    · assumption
  cases hexpired : s.timedQueue.expired with
  | none =>
    refine .inl ?_
    rw [QueueDiscipline.State.expire, hexpired]
  | some taken =>
    obtain ⟨⟨operation, parameter⟩, list⟩ := taken
    refine .inr ⟨s.timedQueue.expire, operation, parameter, rfl, ?_⟩
    rw [QueueDiscipline.State.expire, hexpired]
    simp only [QueueDiscipline.State.expired, Option.ite_none_left_eq_some] at hexpired
    obtain ⟨hclosed, hexpired⟩ := hexpired
    obtain ⟨hunique, hwaiting, hgone, hothers⟩ := TimedQueue.expire_spec hs.unique hexpired
    refine ⟨rfl, rfl, ⟨hunique, fun hstopped => ?_, fun hsome => ?_⟩, hwaiting, hgone, hothers⟩
    · exact absurd (Bool.or_eq_true _ _ ▸ .inr hstopped) hclosed
    · simp [honTimed] at hsome

/-- What was handed over is executed, unless the process exits. -/
theorem deliver_cases (hs : s.Base) (hstep : step s .deliver = some t) :
    ∃ operation parameter, s.timedQueue.expireds = some (operation, parameter) ∧ s.onTimed = none ∧
      t = s.deliver operation parameter := by
  obtain ⟨⟨operation, parameter⟩, hexpireds, rfl⟩ := Option.map_eq_some_iff.mp hstep
  refine ⟨operation, parameter, hexpireds, ?_, rfl⟩
  cases honTimed : s.onTimed with
  | none => rfl
  | some taken =>
    rw [hs.thread (by simp [honTimed])] at hexpireds
    cases hexpireds

theorem timedQueue_deliver :
    (s.deliver operation parameter).timedQueue = { s.timedQueue with expireds := none } := by
  rw [State.deliver]
  dsimp only
  split_ifs <;> rfl

theorem records_deliver : (s.deliver operation parameter).records = s.records ∧
    (s.deliver operation parameter).lastPurge = s.lastPurge := by
  rw [State.deliver]
  dsimp only
  split_ifs <;> exact ⟨rfl, rfl⟩

theorem onTimed_deliver : (s.deliver operation parameter).onTimed =
    if s.timedQueue.isExiting then s.onTimed else some (operation, parameter) := by
  rw [State.deliver]
  dsimp only
  split_ifs <;> rfl

theorem base_deliver (hs : s.Base) : (s.deliver operation parameter).Base where
  unique := by
    rw [timedQueue_deliver]
    exact hs.unique
  stopped h := by
    rw [timedQueue_deliver] at h ⊢
    exact hs.stopped h
  thread _ := by rw [timedQueue_deliver]

/-- How often an operation was given up. -/
def State.stops (s : State) (operation : Operation String) : ℕ :=
  match stoppedError operation with
  | some error => s.notified.count error
  | none => 0

/-- The warning of a purge says nothing about an operation that is repeated. -/
theorem stops_deliver (operation' : Operation String) :
    (s.deliver operation parameter).stops operation' = s.stops operation' := by
  have hlevel (error : Error) (herror : stoppedError operation' = some error) :
      s.purgeWarning parameter ≠ error := by
    have hnotice : error.level = .notice := by
      cases operation' <;> cases herror <;> rfl
    have hwarning : (s.purgeWarning parameter).level = .warning := by
      rw [State.purgeWarning]
      split <;> rfl
    rintro rfl
    rw [hwarning] at hnotice
    cases hnotice
  rw [State.stops, State.stops, State.deliver]
  cases hstopped : stoppedError operation' with
  | none => rfl
  | some error =>
    dsimp only
    split_ifs
    · rfl
    · rw [State.notify]
      dsimp only
      rw [List.count_append, List.count_singleton, if_neg (by simpa using hlevel error hstopped),
        Nat.add_zero]
    · rfl

/-- The thread has ended an operation. -/
theorem operated_cases (hstep : step s (.operated done fresh) = some t) :
    ∃ operation parameter, s.onTimed = some (operation, parameter) ∧
      t = s.operated operation parameter done fresh := by
  obtain ⟨⟨operation, parameter⟩, honTimed, rfl⟩ := Option.map_eq_some_iff.mp hstep
  exact ⟨operation, parameter, honTimed, rfl⟩

/-- The operation is given up. -/
def GivenUp (parameter : Parameter) (done : Option Bool) : Prop :=
  done = none ∧ ¬parameter.numberOfFailures + 1 < 5

instance GivenUp.decidable (parameter : Parameter) (done : Option Bool) :
    Decidable (GivenUp parameter done) := instDecidableAnd

/-- The state in which the thread asks for the operation again. -/
def State.ended (s : State) (operation : Operation String) (parameter : Parameter)
    (done : Option Bool) : State :=
  { s with
    onTimed := none
    lastPurge := if operation = .purge then s.now else s.lastPurge
    notified := match stoppedError operation with
      | some error => if GivenUp parameter done then s.notified ++ [error] else s.notified
      | none => s.notified }

/-- What the thread asks for again. -/
structure Again (t : State) (operation : Operation String) (parameter : Parameter)
    (done : Option Bool) (operation' : Operation String) (parameter' : Parameter) : Prop where
  same : operation' = operation
  retried : stoppedError operation ≠ none
  failures : done = some false ∧ parameter'.numberOfFailures = parameter.numberOfFailures ∨
    done = none ∧ parameter.numberOfFailures + 1 < 5 ∧
      parameter'.numberOfFailures = parameter.numberOfFailures + 1
  registered : ∀ kind path, operation' = Kind.operation kind path → t.registered kind path

theorem base_ended (hs : s.Base) : (s.ended operation parameter done).Base :=
  ⟨hs.unique, hs.stopped, fun h => by cases h⟩

/-- An operation of a kind is repeated. -/
theorem asks_again {kind : Kind} {path : String} {delay : ℤ} {numberOfFailures : ℕ} (hs : s.Base)
    (hretried : stoppedError (kind.operation path) ≠ none)
    (hfailures : done = some false ∧ numberOfFailures = parameter.numberOfFailures ∨
      done = none ∧ parameter.numberOfFailures + 1 < 5 ∧
        numberOfFailures = parameter.numberOfFailures + 1) :
    Asks (Again (s.asyncRegistered kind path delay { numberOfFailures } fresh) (kind.operation path)
      parameter done) s (s.asyncRegistered kind path delay { numberOfFailures } fresh) := by
  refine (asks_asyncRegistered hs).mono fun operation' parameter' h => ?_
  obtain ⟨rfl, rfl, -, hregistered⟩ := h
  refine ⟨rfl, hretried, hfailures, fun kind' path' heq => ?_⟩
  obtain ⟨rfl, rfl⟩ := operation_inj.mp heq
  exact hregistered

/-- **The end of a migration or compression.** It is repeated, given up, or done. -/
theorem asks_doRepeated {kind : Kind} {path : String} {interval : ℤ} {error : Error} (hs : s.Base)
    (herror : stoppedError (kind.operation path) = some error) :
    Asks (Again (({ s with onTimed := none } : State).doRepeated kind path interval 5 error
        parameter.numberOfFailures done fresh) (kind.operation path) parameter done)
      (s.ended (kind.operation path) parameter done)
      (({ s with onTimed := none } : State).doRepeated kind path interval 5 error
        parameter.numberOfFailures done fresh) := by
  have hbase : (s.ended (kind.operation path) parameter done).Base := base_ended hs
  have hpurge : kind.operation path ≠ .purge := by cases kind <;> simp [Kind.operation]
  have hended : s.ended (kind.operation path) parameter done = { s with
      onTimed := none
      notified := if GivenUp parameter done then s.notified ++ [error] else s.notified } := by
    rw [State.ended, if_neg hpurge, herror]
  have hretried : stoppedError (kind.operation path) ≠ none := by simp [herror]
  obtain _ | _ | _ := done
  · by_cases hagain : parameter.numberOfFailures + 1 < 5
    · rw [hended, if_neg fun h => h.2 hagain] at hbase ⊢
      rw [State.doRepeated, if_pos hagain]
      exact asks_again hbase hretried (.inr ⟨rfl, hagain, rfl⟩)
    · rw [hended, if_pos ⟨rfl, hagain⟩] at hbase ⊢
      rw [State.doRepeated, if_neg hagain]
      exact .refl hbase
  · rw [hended, if_neg fun h => by cases h.1] at hbase ⊢
    exact asks_again hbase hretried (.inl ⟨rfl, rfl⟩)
  · rw [hended, if_neg fun h => by cases h.1] at hbase ⊢
    exact .refl hbase

/-- **The end of an operation.** -/
theorem operated_asks (hs : s.Base) :
    Asks (Again (s.operated operation parameter done fresh) operation parameter done)
      (s.ended operation parameter done) (s.operated operation parameter done fresh) := by
  cases operation with
  | migrate path => exact @asks_doRepeated s parameter done fresh .migration path _ _ hs rfl
  | compress path => exact @asks_doRepeated s parameter done fresh .compression path _ _ hs rfl
  | _ => exact .refl (base_ended hs)

theorem base_step {event : Event} (hs : s.Base) (hstep : step s event = some t) : t.Base := by
  by_cases hthread : event.isThread
  · cases event with
    | expire =>
      obtain ⟨-, rfl | ⟨timedQueue, operation, parameter, rfl, -, -, hbase, -⟩⟩ :=
        expire_cases hs hstep
      · exact hs
      · exact hbase
    | deliver =>
      obtain ⟨operation, parameter, -, -, rfl⟩ := deliver_cases hs hstep
      exact base_deliver hs
    | operated done fresh =>
      obtain ⟨operation, parameter, -, rfl⟩ := operated_cases hstep
      exact (operated_asks hs).base
    | _ => cases hthread
  · exact (step_asks hs (Bool.eq_false_iff.mpr hthread) hstep).base

theorem State.taken_of_inHand {operation' : Operation String}
    (hinHand : s.inHand = some (operation, parameter)) :
    s.taken operation' = if operation = operation' then some parameter else none := by
  rw [State.taken, hinHand]

theorem State.taken_of_none (hinHand : s.inHand = none) : s.taken operation = none := by
  rw [State.taken, hinHand]

theorem Asks.taken {asked : Operation String → Parameter → Prop} (h : Asks asked s t) :
    t.taken operation = s.taken operation := by
  rw [State.taken, State.taken, State.inHand, State.inHand, h.onTimed, h.expireds]

/-- What holds in the beginning and is kept by every step of a queue in order holds after a run. -/
theorem inv_run {I : State → History → Prop} (hinit : I {} {})
    (hkeep : ∀ s h event t, State.Base s → I s h → step s event = some t → I t (record s h event))
    {events : List Event} (hexec : Run.exec recorded ({}, {}) events = some (s, h)) :
    s.Base ∧ I s h := by
  refine Run.inv_exec_of_step (I := fun s : State × History => s.1.Base ∧ I s.1 s.2) ?_
    ⟨State.Base.init, hinit⟩ hexec
  intro s event t hinv hrecorded
  obtain ⟨u, hstep, rfl⟩ := Option.map_eq_some_iff.mp hrecorded
  exact ⟨base_step hinv.1 hstep, hkeep _ _ _ _ hinv.1 hinv.2 hstep⟩

end Thread

end Wcdb.OperationQueue
