import Wcdb.Core.Compression
import Wcdb.Lib.Run
import Mathlib.Data.Fintype.Basic

/-!
# `CompressionCenter`: the dictionaries of a process

The dictionaries of a process are in one array, which is filled while other threads compress and
decompress. `registerDict` looks at the entry of a dictionary and sets it later: these are two
steps, every other call is one. The memory of a dictionary that compresses can be damaged by a stray
write at any time (`Action.damage`). Its hashes were recorded, and `tryMemoryVerification` compares
them at every tenth use.

The compression library is the parameter `Library`, and `Library.Lawful` is what its documentation
promises. `State.zstd` is what the writers and readers of cells see of it in one state.

* `decompressed_of_exec`: what is compressed in some state is decompressed in every later one.
* `served_of_exec`: a dictionary that is intact is never refused, and one whose hashes differ is
  used nine times more at the most, as long as its count neither overflows nor is raised by two
  threads at the same time.
-/

namespace Wcdb.CompressionCenter

/-! ### Dictionaries -/

/-- `Error::Code`. -/
inductive Code where
  | zstdError
  | noMemory
  deriving DecidableEq, Repr

/-- `Error`, as it is notified. -/
structure Error where
  code : Code := .zstdError
  message : String
  infos : List (String × ℕ) := []
  deriving DecidableEq, Repr

/-- What is used of the compression library. `C` is the memory of a dictionary that compresses and
`D` a dictionary that decompresses. `none` is the context alone. -/
structure Library (C D : Type) where
  createCDict : List UInt8 → Option C
  createDDict : List UInt8 → Option D
  getDictID : D → ℕ
  /-- The hash of each block of the memory. -/
  hash : C → List UInt32
  compressBound : ℕ → Except ℕ ℕ
  /-- Into a buffer of a size. -/
  compress : Option C → ℕ → List UInt8 → Except ℕ (List UInt8)
  getFrameContentSize : List UInt8 → Except ℕ ℕ
  getDictIDFromFrame : List UInt8 → ℕ
  decompress : Option D → ℕ → List UInt8 → Except ℕ (List UInt8)
  getErrorName : ℕ → String

/-- `ZSTDDict`. `data` is what it was loaded from. The count of its uses is an `int`. -/
structure ZSTDDict (C D : Type) where
  dictId : ℕ
  cDict : C
  dDict : D
  memory : List UInt32
  dictUseCount : Int32 := 0
  data : List UInt8

def kDictMaxUseCountBeforeCheck : ℕ := 10

section Dictionary

variable {C D : Type} (z : Library C D)

/-- `ZSTDDict::loadData`. The id is cut to sixteen bits. -/
def loadData (data : List UInt8) : Except Error (ZSTDDict C D) :=
  if data = [] then .error { message := "Empty dict!" }
  else
    match z.createCDict data with
    | none =>
      .error { message := "Create compress dict failed!", infos := [("DictSize", data.length)] }
    | some cDict =>
      match z.createDDict data with
      | none =>
        .error { message := "Create decompress dict failed!", infos := [("DictSize", data.length)] }
      | some dDict =>
        let dictId := z.getDictID dDict % 65536
        if dictId = 0 then
          .error { message := "The dictionary is not conformant to ZSTD specification"
                   infos := [("DictSize", data.length)] }
        else .ok { dictId, cDict, dDict, memory := z.hash cDict, data }

/-- `ZSTDDict::tryMemoryVerification`. -/
def ZSTDDict.tryMemoryVerification (dict : ZSTDDict C D) : Bool × ZSTDDict C D :=
  let dict := { dict with dictUseCount := dict.dictUseCount + 1 }
  if dict.dictUseCount.toInt < (kDictMaxUseCountBeforeCheck : ℤ) then (true, dict)
  else if z.hash dict.cDict = dict.memory then (true, { dict with dictUseCount := 0 })
  -- The count stays, so that the next use is verified as well.
  else (false, dict)

end Dictionary

/-! ### The buffer of a thread -/

/-- `ZSTDContext`. `buffer` is the size of the memory at `m_buffer`. -/
structure ZSTDContext where
  buffer : Option ℕ := none
  bufferSize : ℕ := 0
  deriving DecidableEq, Repr

def maxBufferSize : ℕ := 1024 * 1024

/-- The memory that is asked for; `malloc` tells whether there is any. -/
def ZSTDContext.allocated (size : ℕ) (malloc : Bool) : ZSTDContext :=
  { buffer := if malloc then some size else none, bufferSize := size }

/-- `ZSTDContext::getOrCreateBuffer`. -/
def ZSTDContext.getOrCreateBuffer (size : ℕ) (malloc : Bool) (context : ZSTDContext) :
    ZSTDContext :=
  let context :=
    -- Free accidentally large buffer
    if size < maxBufferSize ∧ maxBufferSize ≤ context.bufferSize then
      { context with buffer := none }
    else context
  if size < context.bufferSize ∧ context.buffer.isSome then context
  else .allocated size malloc

/-- A buffer has the size that is recorded for it. -/
def ZSTDContext.Sized (context : ZSTDContext) : Prop :=
  ∀ capacity, context.buffer = some capacity → capacity = context.bufferSize

namespace ZSTDContext

variable {context : ZSTDContext}

theorem Sized.allocated (size : ℕ) (malloc : Bool) : (allocated size malloc).Sized := by
  intro capacity hcapacity
  exact (Option.some.inj (Option.ite_none_right_eq_some.mp hcapacity).2).symm

/-- What is left of the buffer, or a new one. -/
theorem getOrCreateBuffer_cases (size : ℕ) (malloc : Bool) (context : ZSTDContext) :
    (context.getOrCreateBuffer size malloc = context ∧ size < context.bufferSize ∧
      context.buffer.isSome) ∨
    context.getOrCreateBuffer size malloc = .allocated size malloc := by
  simp only [getOrCreateBuffer]
  by_cases hlarge : size < maxBufferSize ∧ maxBufferSize ≤ context.bufferSize
  · rw [if_pos hlarge, if_neg (by simp)]
    exact .inr rfl
  · rw [if_neg hlarge]
    by_cases hfits : size < context.bufferSize ∧ context.buffer.isSome = true
    · rw [if_pos hfits]
      exact .inl ⟨rfl, hfits⟩
    · rw [if_neg hfits]
      exact .inr rfl

theorem Sized.getOrCreateBuffer (h : context.Sized) (size : ℕ) (malloc : Bool) :
    (context.getOrCreateBuffer size malloc).Sized := by
  obtain ⟨heq, -⟩ | heq := getOrCreateBuffer_cases size malloc context
  · rwa [heq]
  · rw [heq]
    exact .allocated size malloc

/-- **A buffer is as large as it was asked for.** -/
theorem Sized.size_le (h : context.Sized) {size capacity : ℕ} {malloc : Bool}
    (hbuffer : (context.getOrCreateBuffer size malloc).buffer = some capacity) :
    size ≤ capacity := by
  have hcapacity := h.getOrCreateBuffer size malloc capacity hbuffer
  obtain ⟨heq, hlt, -⟩ | heq := getOrCreateBuffer_cases size malloc context
  · rw [hcapacity, heq]
    exact hlt.le
  · rw [hcapacity, heq]
    exact le_rfl

/-- Where there is memory, there is a buffer. -/
theorem buffer_getOrCreateBuffer (size : ℕ) (context : ZSTDContext) :
    (context.getOrCreateBuffer size true).buffer ≠ none := by
  obtain ⟨heq, -, hsome⟩ | heq := getOrCreateBuffer_cases size true context
  · rw [heq]
    exact Option.isSome_iff_ne_none.mp hsome
  · rw [heq]
    exact Option.some_ne_none size

end ZSTDContext

/-! ### The center -/

def maxDictId : ℕ := 1000

/-- `m_dicts` and `m_ctxes`. -/
structure State (C D Thread : Type) where
  dicts : ℕ → Option (ZSTDDict C D) := fun _ => none
  contexts : Thread → ZSTDContext := fun _ => {}
  /-- What a thread is about to put into the array. -/
  registering : Thread → Option (ZSTDDict C D) := fun _ => none
  /-- The ids of the dictionaries that compressed. -/
  served : List ℕ := []

section Center

variable {C D Thread : Type} (z : Library C D)

namespace State

/-- `CompressionCenter::getDict`. -/
def getDict (id : ℕ) (s : State C D Thread) : Option (ZSTDDict C D) :=
  if maxDictId ≤ id ∨ id = 0 then none else s.dicts id

/-- `CompressionCenter::registerDict`, without its last line. -/
def checkDict (dictId : ℕ) (data : List UInt8) (s : State C D Thread) :
    Except Error (ZSTDDict C D) :=
  match loadData z data with
  | .error error => .error error
  | .ok dict =>
    if dictId ≠ dict.dictId then
      .error { message := "DictId mismatch!"
               infos := [("GivenDictId", dictId), ("ActualDictId", dict.dictId)] }
    else if maxDictId ≤ dict.dictId ∨ dict.dictId = 0 then
      .error { message := "DictId must be an integer between 1 and 999!"
               infos := [("CurrendDictId", dict.dictId)] }
    else if (s.dicts dict.dictId).isSome then
      .error { message := "Duplicate dictid!", infos := [("DictId", dict.dictId)] }
    else .ok dict

/-- The dictionary that `compressContent` uses, if any. -/
def useDict (dictId : ℕ) (s : State C D Thread) : Except Error (Option C) × State C D Thread :=
  if dictId = 0 then (.ok none, s)
  else
    match s.getDict dictId with
    | none => (.error { message := "Can not find compress dict with id: " ++ toString dictId }, s)
    | some dict =>
      let verified := dict.tryMemoryVerification z
      let s := { s with dicts := Function.update s.dicts dictId (some verified.2) }
      if verified.1 then (.ok (some dict.cDict), { s with served := s.served ++ [dictId] })
      else (.error { message := "Dict with id " ++ toString dictId ++ " is corrupted" }, s)

variable [DecidableEq Thread]

def getOrCreateBuffer (thread : Thread) (size : ℕ) (malloc : Bool) (s : State C D Thread) :
    State C D Thread :=
  let context := (s.contexts thread).getOrCreateBuffer size malloc
  { s with contexts := Function.update s.contexts thread context }

/-- `CompressionCenter::compressContent`. The message of a compression that fails names the error of
the bound, which is none. -/
def compressContent (thread : Thread) (data : List UInt8) (dictId : ℕ) (malloc : Bool)
    (s : State C D Thread) : Except Error (List UInt8) × State C D Thread :=
  if data = [] then (.ok data, s)
  else
    match z.compressBound data.length with
    | .error code => (.error { message := "Compress bound fail: " ++ z.getErrorName code }, s)
    | .ok boundSize =>
      let s := s.getOrCreateBuffer thread boundSize malloc
      if (s.contexts thread).buffer = none then
        (.error { code := .noMemory, message := "Compress fail due to no memory" }, s)
      else
        let used := s.useDict z dictId
        match used.1 with
        | .error error => (.error error, used.2)
        | .ok cDict =>
          match z.compress cDict boundSize data with
          | .error _ =>
            (.error { message := "Compress fail: " ++ z.getErrorName boundSize }, used.2)
          | .ok frame => (.ok (if data.length ≤ frame.length then data else frame), used.2)

/-- The dictionary that `decompressContent` uses, if any. -/
def findDict (data : List UInt8) (usingDict : Bool) (s : State C D Thread) :
    Except Error (Option D) :=
  if usingDict then
    let dictId := z.getDictIDFromFrame data % 65536
    if dictId = 0 then .error { message := "Can not decode dictid" }
    else
      match s.getDict dictId with
      | none => .error { message := "Can not find decompress dict with id: " ++ toString dictId }
      | some dict => .ok (some dict.dDict)
  else .ok none

/-- `CompressionCenter::decompressContent`. -/
def decompressContent (thread : Thread) (data : List UInt8) (usingDict malloc : Bool)
    (s : State C D Thread) : Except Error (List UInt8) × State C D Thread :=
  match z.getFrameContentSize data with
  | .error code =>
    (.error { message := "Get compress content frame size fail: " ++ z.getErrorName code }, s)
  | .ok frameSize =>
    let s := s.getOrCreateBuffer thread frameSize malloc
    if (s.contexts thread).buffer = none then
      (.error { code := .noMemory, message := "Decompress fail due to no memory" }, s)
    else
      match s.findDict z data usingDict with
      | .error error => (.error error, s)
      | .ok dDict =>
        match z.decompress dDict frameSize data with
        -- The data is corrupted and not recoverable. Just ignore it.
        | .error _ => (.ok [], s)
        | .ok content => (.ok content, s)

end State

/-- What happens next. -/
inductive Action (C Thread : Type) where
  | check (thread : Thread) (dictId : ℕ) (data : List UInt8)
  | store (thread : Thread)
  | compress (thread : Thread) (data : List UInt8) (dictId : ℕ) (malloc : Bool)
  | decompress (thread : Thread) (data : List UInt8) (usingDict malloc : Bool)
  | damage (dictId : ℕ) (memory : C)

variable [DecidableEq Thread]

/-- A thread makes one call at a time. -/
def step (s : State C D Thread) : Action C Thread → Option (State C D Thread)
  | .check thread dictId data =>
    if (s.registering thread).isSome then none
    else
      match s.checkDict z dictId data with
      | .error _ => some s
      | .ok dict => some { s with registering := Function.update s.registering thread (some dict) }
  | .store thread =>
    (s.registering thread).map fun dict =>
      { s with
        dicts := Function.update s.dicts dict.dictId (some dict)
        registering := Function.update s.registering thread none }
  | .compress thread data dictId malloc =>
    if (s.registering thread).isSome then none
    else some (s.compressContent z thread data dictId malloc).2
  | .decompress thread data usingDict malloc =>
    if (s.registering thread).isSome then none
    else some (s.decompressContent z thread data usingDict malloc).2
  | .damage dictId memory =>
    (s.dicts dictId).map fun dict =>
      { s with dicts := Function.update s.dicts dictId (some { dict with cDict := memory }) }

end Center

/-! ### What the library promises -/

section Laws

variable {C D : Type} (z : Library C D)

/-- No dictionaries, or two that were created from the same data. -/
inductive Library.Pairs : Option C → Option D → Prop where
  | context : Pairs none none
  | dict {data : List UInt8} {c : C} {d : D} (hc : z.createCDict data = some c)
      (hd : z.createDDict data = some d) : Pairs (some c) (some d)

/-- A frame is not empty; it records the size of the content and the id of the dictionary; and
it is decompressed to what was compressed. -/
structure Library.Lawful : Prop where
  frame_ne_nil : ∀ c d size data frame, z.Pairs c d → z.compress c size data = .ok frame →
    frame ≠ []
  frame_size : ∀ c d size data frame, z.Pairs c d → z.compress c size data = .ok frame →
    z.getFrameContentSize frame = .ok data.length
  frame_dictID : ∀ c d size data frame, z.Pairs c d → z.compress c size data = .ok frame →
    z.getDictIDFromFrame frame = (d.map z.getDictID).getD 0
  inverse : ∀ c d size data frame, z.Pairs c d → z.compress c size data = .ok frame →
    z.decompress d data.length frame = .ok data

namespace ZSTDDict

/-- What `loadData` leaves, but for the memory of the dictionary that compresses. -/
structure Loaded (dict : ZSTDDict C D) : Prop where
  memory : ∃ c, z.createCDict dict.data = some c ∧ dict.memory = z.hash c
  dDict : z.createDDict dict.data = some dict.dDict
  dictId : dict.dictId = z.getDictID dict.dDict % 65536

/-- The memory is as it was created. -/
def Intact (dict : ZSTDDict C D) : Prop :=
  z.createCDict dict.data = some dict.cDict

/-- The same dictionary, perhaps with another memory or another count. -/
structure Same (dict dict' : ZSTDDict C D) : Prop where
  data : dict'.data = dict.data
  dDict : dict'.dDict = dict.dDict
  memory : dict'.memory = dict.memory
  dictId : dict'.dictId = dict.dictId

theorem Same.refl (dict : ZSTDDict C D) : dict.Same dict := ⟨rfl, rfl, rfl, rfl⟩

theorem Same.trans {dict dict' dict'' : ZSTDDict C D} (h : dict.Same dict')
    (h' : dict'.Same dict'') : dict.Same dict'' :=
  ⟨h'.data.trans h.data, h'.dDict.trans h.dDict, h'.memory.trans h.memory,
    h'.dictId.trans h.dictId⟩

variable {z} {dict dict' : ZSTDDict C D}

theorem Loaded.same (h : dict.Loaded z) (hsame : dict.Same dict') : dict'.Loaded z := by
  obtain ⟨hdata, hdDict, hmemory, hdictId⟩ := hsame
  exact ⟨by rw [hdata, hmemory]; exact h.memory, by rw [hdata, hdDict]; exact h.dDict,
    by rw [hdictId, hdDict]; exact h.dictId⟩

/-- Memory that is intact has the hashes that were recorded. -/
theorem Intact.hash_eq (h : dict.Intact z) (hloaded : dict.Loaded z) :
    z.hash dict.cDict = dict.memory := by
  obtain ⟨c, hc, hmemory⟩ := hloaded.memory
  obtain rfl := Option.some.inj (hc.symm.trans h)
  exact hmemory.symm

theorem Intact.pairs (h : dict.Intact z) (hloaded : dict.Loaded z) :
    z.Pairs (some dict.cDict) (some dict.dDict) :=
  .dict h hloaded.dDict

/-- A verification changes the count at most. -/
theorem same_tryMemoryVerification (dict : ZSTDDict C D) :
    dict.Same (dict.tryMemoryVerification z).2 := by
  simp only [tryMemoryVerification]
  split_ifs <;> exact ⟨rfl, rfl, rfl, rfl⟩

/-- A dictionary with the hashes that were recorded passes. -/
theorem tryMemoryVerification_of_hash (h : z.hash dict.cDict = dict.memory) :
    (dict.tryMemoryVerification z).1 = true := by
  simp only [tryMemoryVerification]
  split_ifs <;> rfl

/-- A dictionary with other hashes passes only if its use is not the tenth. -/
theorem tryMemoryVerification_of_ne (h : z.hash dict.cDict ≠ dict.memory) :
    (dict.tryMemoryVerification z).1 =
        decide ((dict.dictUseCount + 1).toInt < (kDictMaxUseCountBeforeCheck : ℤ)) ∧
      (dict.tryMemoryVerification z).2.dictUseCount = dict.dictUseCount + 1 := by
  simp only [tryMemoryVerification]
  split_ifs with hcount
  · exact ⟨(decide_eq_true hcount).symm, rfl⟩
  · exact ⟨(decide_eq_false hcount).symm, rfl⟩

/-- A verification raises the count, or sets it back. -/
theorem dictUseCount_tryMemoryVerification (dict : ZSTDDict C D) :
    (dict.tryMemoryVerification z).2.dictUseCount = dict.dictUseCount + 1 ∨
      (dict.tryMemoryVerification z).2.dictUseCount = 0 := by
  simp only [tryMemoryVerification]
  split_ifs <;> simp

/-- The count is one of at most so many uses. -/
def Counted (n : ℕ) (dict : ZSTDDict C D) : Prop :=
  0 ≤ dict.dictUseCount.toInt ∧ dict.dictUseCount.toInt ≤ n

/-- The next count, short of the overflow. -/
theorem Counted.toInt_succ {n : ℕ} (h : dict.Counted n) (hlt : n + 1 < 2 ^ 31) :
    (dict.dictUseCount + 1).toInt = dict.dictUseCount.toInt + 1 := by
  obtain ⟨hnonneg, hle⟩ := h
  have hone : (1 : Int32).toInt = 1 := rfl
  rw [Int32.toInt_add, hone]
  exact Int.bmod_eq_of_le (by omega) (by omega)

theorem Counted.tryMemoryVerification {n : ℕ} (h : dict.Counted n) (hlt : n + 1 < 2 ^ 31) :
    (dict.tryMemoryVerification z).2.Counted (n + 1) := by
  have hsucc := h.toInt_succ hlt
  obtain ⟨hnonneg, hle⟩ := h
  rw [Counted]
  rcases dictUseCount_tryMemoryVerification dict with heq | heq
  · rw [heq, hsucc]
    omega
  · rw [heq]
    have hzero : (0 : Int32).toInt = 0 := rfl
    omega

theorem Counted.mono {n m : ℕ} (h : dict.Counted n) (hle : n ≤ m) : dict.Counted m :=
  ⟨h.1, h.2.trans (by exact_mod_cast hle)⟩

end ZSTDDict

theorem loadData_ok {data : List UInt8} {dict : ZSTDDict C D}
    (h : loadData z data = .ok dict) :
    dict.Loaded z ∧ dict.Intact z ∧ dict.dictUseCount = 0 := by
  simp only [loadData] at h
  split_ifs at h
  split at h
  · cases h
  · rename_i cDict hcDict
    split at h
    · cases h
    · rename_i dDict hdDict
      split_ifs at h
      cases h
      exact ⟨⟨⟨cDict, hcDict, rfl⟩, hdDict, rfl⟩, hcDict, rfl⟩

end Laws

/-! ### What the calls do to the array -/

section Calls

variable {C D Thread : Type} {z : Library C D}

namespace State

variable {s t : State C D Thread} {id : ℕ}

/-- The same dictionaries in the array. -/
structure Agrees (s t : State C D Thread) : Prop where
  dicts : ∀ id, Option.Rel ZSTDDict.Same (s.dicts id) (t.dicts id)
  registering : t.registering = s.registering

theorem Agrees.refl (s : State C D Thread) : s.Agrees s := by
  refine ⟨fun id => ?_, rfl⟩
  cases s.dicts id with
  | none => exact .none
  | some dict => exact .some (.refl dict)

theorem Agrees.kept (h : s.Agrees t) {dict : ZSTDDict C D} (hdict : s.dicts id = some dict) :
    ∃ dict', t.dicts id = some dict' ∧ dict.Same dict' := by
  have hrel := h.dicts id
  rw [hdict] at hrel
  generalize t.dicts id = found at hrel ⊢
  cases hrel with
  | some hsame => exact ⟨_, rfl, hsame⟩

theorem Agrees.known (h : s.Agrees t) {dict' : ZSTDDict C D} (hdict : t.dicts id = some dict') :
    ∃ dict, s.dicts id = some dict ∧ dict.Same dict' := by
  have hrel := h.dicts id
  rw [hdict] at hrel
  generalize s.dicts id = found at hrel ⊢
  cases hrel with
  | some hsame => exact ⟨_, rfl, hsame⟩

/-- One entry is replaced. -/
theorem Agrees.update {dict dict' : ZSTDDict C D} (hdict : s.dicts id = some dict)
    (hsame : dict.Same dict') (hdicts : t.dicts = Function.update s.dicts id (some dict'))
    (hregistering : t.registering = s.registering) : s.Agrees t := by
  refine ⟨fun i => ?_, hregistering⟩
  rw [hdicts]
  by_cases hi : i = id
  · rw [hi, Function.update_self, hdict]
    exact .some hsame
  · rw [Function.update_of_ne hi]
    exact (Agrees.refl s).dicts i

theorem getDict_eq_some {dict : ZSTDDict C D} :
    s.getDict id = some dict ↔ 0 < id ∧ id < maxDictId ∧ s.dicts id = some dict := by
  rw [getDict]
  constructor
  · intro h
    obtain ⟨hid, hdict⟩ := Option.ite_none_left_eq_some.mp h
    exact ⟨by omega, by omega, hdict⟩
  · rintro ⟨hpos, hlt, hdict⟩
    rw [if_neg (by omega), hdict]

/-- **What the use of a dictionary is**: none is asked for; it is missing; or it is verified. -/
theorem useDict_cases (z : Library C D) (id : ℕ) (s : State C D Thread) :
    (id = 0 ∧ s.useDict z id = (.ok none, s)) ∨
    (id ≠ 0 ∧ s.getDict id = none ∧ ∃ error, s.useDict z id = (.error error, s)) ∨
    ∃ dict t, s.getDict id = some dict ∧
      t.dicts = Function.update s.dicts id (some (dict.tryMemoryVerification z).2) ∧
      t.registering = s.registering ∧ t.contexts = s.contexts ∧
      (((dict.tryMemoryVerification z).1 = true ∧ t.served = s.served ++ [id] ∧
          s.useDict z id = (.ok (some dict.cDict), t)) ∨
        ((dict.tryMemoryVerification z).1 = false ∧ t.served = s.served ∧
          ∃ error, s.useDict z id = (.error error, t))) := by
  by_cases hid : id = 0
  · exact .inl ⟨hid, if_pos hid⟩
  · refine .inr ?_
    simp only [useDict, if_neg hid]
    cases hdict : s.getDict id with
    | none => exact .inl ⟨hid, rfl, _, rfl⟩
    | some dict =>
      refine .inr ?_
      cases hverified : (dict.tryMemoryVerification z).1 with
      | true =>
        exact ⟨dict, { s with
            dicts := Function.update s.dicts id (some (dict.tryMemoryVerification z).2)
            served := s.served ++ [id] }, rfl, rfl, rfl, rfl,
          .inl ⟨hverified, rfl, by simp only [hverified, if_true]⟩⟩
      | false =>
        exact ⟨dict, { s with
            dicts := Function.update s.dicts id (some (dict.tryMemoryVerification z).2) },
          rfl, rfl, rfl, rfl, .inr ⟨hverified, rfl, _, by simp only [hverified]; rfl⟩⟩

theorem agrees_useDict (z : Library C D) (id : ℕ) (s : State C D Thread) :
    s.Agrees (s.useDict z id).2 ∧ (s.useDict z id).2.contexts = s.contexts := by
  obtain ⟨-, heq⟩ | ⟨-, -, error, heq⟩ |
    ⟨dict, t, hdict, hdicts, hregistering, hcontexts, hserved⟩ := useDict_cases z id s
  · rw [heq]
    exact ⟨.refl s, rfl⟩
  · rw [heq]
    exact ⟨.refl s, rfl⟩
  · have heq : (s.useDict z id).2 = t := by
      obtain ⟨-, -, heq⟩ | ⟨-, -, error, heq⟩ := hserved <;> rw [heq]
    rw [heq]
    exact ⟨.update (getDict_eq_some.mp hdict).2.2 (dict.same_tryMemoryVerification) hdicts
      hregistering, hcontexts⟩

theorem useDict_ok {cDict : Option C} (h : (s.useDict z id).1 = .ok cDict) :
    (id = 0 ∧ cDict = none) ∨ ∃ dict, s.getDict id = some dict ∧ cDict = some dict.cDict := by
  obtain ⟨hid, heq⟩ | ⟨-, -, error, heq⟩ | ⟨dict, t, hdict, -, -, -, hserved⟩ :=
    useDict_cases z id s
  · rw [heq] at h
    exact .inl ⟨hid, (Except.ok.inj h).symm⟩
  · rw [heq] at h
    cases h
  · obtain ⟨-, -, heq⟩ | ⟨-, -, error, heq⟩ := hserved
    · rw [heq] at h
      exact .inr ⟨dict, hdict, (Except.ok.inj h).symm⟩
    · rw [heq] at h
      cases h

variable [DecidableEq Thread] {thread : Thread} {data frame : List UInt8} {malloc : Bool}

/-- **What a compression does to the state.** -/
theorem compressContent_cases (z : Library C D) (thread : Thread) (data : List UInt8) (id : ℕ)
    (malloc : Bool) (s : State C D Thread) :
    (s.compressContent z thread data id malloc).2 = s ∨
    ∃ size, (s.compressContent z thread data id malloc).2 = s.getOrCreateBuffer thread size malloc ∨
      (s.compressContent z thread data id malloc).2 =
        ((s.getOrCreateBuffer thread size malloc).useDict z id).2 := by
  rw [compressContent]
  split_ifs
  · exact .inl rfl
  · split
    · exact .inl rfl
    · rename_i size hsize
      refine .inr ⟨size, ?_⟩
      dsimp only
      split_ifs
      · exact .inl rfl
      · refine .inr ?_
        split
        · rfl
        · split <;> rfl

theorem decompressContent_cases (z : Library C D) (thread : Thread) (data : List UInt8)
    (usingDict malloc : Bool) (s : State C D Thread) :
    (s.decompressContent z thread data usingDict malloc).2 = s ∨
    ∃ size, (s.decompressContent z thread data usingDict malloc).2 =
      s.getOrCreateBuffer thread size malloc := by
  rw [decompressContent]
  split
  · exact .inl rfl
  · rename_i size hsize
    refine .inr ⟨size, ?_⟩
    dsimp only
    split_ifs
    · rfl
    · split
      · rfl
      · split <;> rfl

/-- A frame that is not the data itself comes from the library. -/
theorem compressContent_ok (h : (s.compressContent z thread data id malloc).1 = .ok frame)
    (hne : frame ≠ data) : ∃ size cDict, z.compressBound data.length = .ok size ∧
      ((s.getOrCreateBuffer thread size malloc).useDict z id).1 = .ok cDict ∧
      z.compress cDict size data = .ok frame := by
  rw [compressContent] at h
  split_ifs at h with hnil
  · exact absurd (Except.ok.inj h).symm hne
  · split at h
    · cases h
    · rename_i size hsize
      dsimp only at h
      split_ifs at h
      split at h
      · cases h
      · rename_i cDict hcDict
        split at h
        · cases h
        · rename_i compressed hcompressed
          split_ifs at h
          · exact absurd (Except.ok.inj h).symm hne
          · exact ⟨size, cDict, hsize, hcDict, Except.ok.inj h ▸ hcompressed⟩

end State

end Calls

/-! ### The invariant -/

section Invariant

variable {C D Thread : Type} {z : Library C D}

namespace State

variable {s t : State C D Thread} {id : ℕ}

variable (z) in
/-- Every entry is a dictionary under its own id, and nobody is about to replace one. -/
structure Inv (s : State C D Thread) : Prop where
  entry : ∀ id dict, s.dicts id = some dict →
    dict.Loaded z ∧ dict.dictId = id ∧ 0 < id ∧ id < maxDictId
  pending : ∀ thread dict, s.registering thread = some dict →
    dict.Loaded z ∧ 0 < dict.dictId ∧ dict.dictId < maxDictId ∧ s.dicts dict.dictId = none
  apart : ∀ thread thread' dict dict', s.registering thread = some dict →
    s.registering thread' = some dict' → dict.dictId = dict'.dictId → thread = thread'
  contexts : ∀ thread, (s.contexts thread).Sized

theorem Inv.init : Inv z ({} : State C D Thread) where
  entry _ _ h := by cases h
  pending _ _ h := by cases h
  apart _ _ _ _ h := by cases h
  contexts _ _ h := by cases h

theorem Inv.agrees (h : s.Inv z) (hagrees : s.Agrees t)
    (hcontexts : ∀ thread, (t.contexts thread).Sized) : t.Inv z where
  entry id dict hdict := by
    obtain ⟨dict', hdict', hsame⟩ := hagrees.known hdict
    obtain ⟨hloaded, hid, hrange⟩ := h.entry id dict' hdict'
    exact ⟨hloaded.same hsame, hsame.dictId.trans hid, hrange⟩
  pending thread dict hpending := by
    rw [hagrees.registering] at hpending
    obtain ⟨hloaded, hpos, hlt, hnone⟩ := h.pending thread dict hpending
    refine ⟨hloaded, hpos, hlt, Option.eq_none_iff_forall_ne_some.mpr fun dict' hdict' => ?_⟩
    obtain ⟨dict'', hdict'', -⟩ := hagrees.known hdict'
    rw [hnone] at hdict''
    cases hdict''
  apart := by
    rw [hagrees.registering]
    exact h.apart
  contexts := hcontexts

theorem Inv.getDict_eq (h : s.Inv z) (id : ℕ) : s.getDict id = s.dicts id := by
  cases hdict : s.dicts id with
  | none =>
    rw [getDict, hdict, ite_self]
  | some dict =>
    obtain ⟨-, -, hpos, hlt⟩ := h.entry id dict hdict
    exact getDict_eq_some.mpr ⟨hpos, hlt, hdict⟩

theorem checkDict_ok {dictId : ℕ} {data : List UInt8} {dict : ZSTDDict C D}
    (h : s.checkDict z dictId data = .ok dict) : dict.Loaded z ∧ dict.dictId = dictId ∧
      0 < dict.dictId ∧ dict.dictId < maxDictId ∧ s.dicts dict.dictId = none ∧
      dict.dictUseCount = 0 := by
  rw [checkDict] at h
  split at h
  · cases h
  · rename_i loaded hloaded
    split_ifs at h with hid hrange hsome
    obtain rfl := Except.ok.inj h
    exact ⟨(loadData_ok z hloaded).1, (not_not.mp hid).symm, by omega, by omega,
      Option.not_isSome_iff_eq_none.mp hsome, (loadData_ok z hloaded).2.2⟩

theorem Inv.useDict (h : s.Inv z) (id : ℕ) : (s.useDict z id).2.Inv z := by
  obtain ⟨hagrees, hcontexts⟩ := agrees_useDict z id s
  refine h.agrees hagrees ?_
  rw [hcontexts]
  exact h.contexts

variable [DecidableEq Thread]

theorem agrees_getOrCreateBuffer (thread : Thread) (size : ℕ) (malloc : Bool)
    (s : State C D Thread) : s.Agrees (s.getOrCreateBuffer thread size malloc) :=
  ⟨(Agrees.refl s).dicts, rfl⟩

theorem Inv.getOrCreateBuffer (h : s.Inv z) (thread : Thread) (size : ℕ) (malloc : Bool) :
    (s.getOrCreateBuffer thread size malloc).Inv z := by
  refine h.agrees (agrees_getOrCreateBuffer ..) fun i => ?_
  simp only [State.getOrCreateBuffer]
  by_cases hi : i = thread
  · rw [hi, Function.update_self]
    exact (h.contexts thread).getOrCreateBuffer size malloc
  · rw [Function.update_of_ne hi]
    exact h.contexts i

end State

/-- Nobody else is registering a dictionary of the same id. -/
def Alone (s : State C D Thread) : Action C Thread → Prop
  | .check _ dictId _ => ∀ thread dict, s.registering thread = some dict → dict.dictId ≠ dictId
  | _ => True

instance Alone.decidable [Fintype Thread] (s : State C D Thread) :
    (action : Action C Thread) → Decidable (Alone s action)
  | .check _ dictId _ =>
    inferInstanceAs (Decidable (∀ thread, ∀ dict ∈ s.registering thread, dict.dictId ≠ dictId))
  | .store _ => inferInstanceAs (Decidable True)
  | .compress .. => inferInstanceAs (Decidable True)
  | .decompress .. => inferInstanceAs (Decidable True)
  | .damage .. => inferInstanceAs (Decidable True)

section Steps

variable [DecidableEq Thread] {s t : State C D Thread} {action : Action C Thread}

/-- A call that does not end a registration leaves the same dictionaries. -/
theorem step_agrees (h : s.Inv z) (hstep : step z s action = some t)
    (hcheck : ∀ thread dictId data, action ≠ .check thread dictId data)
    (hstore : ∀ thread, action ≠ .store thread) : s.Agrees t ∧ t.Inv z := by
  cases action with
  | check thread dictId data => exact absurd rfl (hcheck thread dictId data)
  | store thread => exact absurd rfl (hstore thread)
  | compress thread data dictId malloc =>
    obtain ⟨-, hstep⟩ := Option.ite_none_left_eq_some.mp hstep
    obtain rfl := Option.some.inj hstep
    obtain heq | ⟨size, heq | heq⟩ := State.compressContent_cases z thread data dictId malloc s
    · rw [heq]
      exact ⟨.refl s, h⟩
    · rw [heq]
      exact ⟨State.agrees_getOrCreateBuffer .., h.getOrCreateBuffer ..⟩
    · rw [heq]
      obtain ⟨hagrees, -⟩ := State.agrees_useDict z dictId (s.getOrCreateBuffer thread size malloc)
      exact ⟨⟨hagrees.dicts, hagrees.registering⟩, (h.getOrCreateBuffer ..).useDict dictId⟩
  | decompress thread data usingDict malloc =>
    obtain ⟨-, hstep⟩ := Option.ite_none_left_eq_some.mp hstep
    obtain rfl := Option.some.inj hstep
    obtain heq | ⟨size, heq⟩ := State.decompressContent_cases z thread data usingDict malloc s
    · rw [heq]
      exact ⟨.refl s, h⟩
    · rw [heq]
      exact ⟨State.agrees_getOrCreateBuffer .., h.getOrCreateBuffer ..⟩
  | damage dictId memory =>
    obtain ⟨dict, hdict, rfl⟩ := Option.map_eq_some_iff.mp hstep
    have hsame : dict.Same { dict with cDict := memory } := ⟨rfl, rfl, rfl, rfl⟩
    have hagrees : s.Agrees { s with
        dicts := Function.update s.dicts dictId (some { dict with cDict := memory }) } :=
      .update hdict hsame rfl rfl
    exact ⟨hagrees, h.agrees hagrees h.contexts⟩

/-- The first half of a registration. -/
theorem inv_check (h : s.Inv z) {thread : Thread} {dictId : ℕ} {data : List UInt8}
    (halone : Alone s (.check thread dictId data))
    (hstep : step z s (.check thread dictId data) = some t) :
    t.Inv z ∧ t.dicts = s.dicts ∧ t.served = s.served := by
  obtain ⟨-, hstep⟩ := Option.ite_none_left_eq_some.mp hstep
  split at hstep
  · obtain rfl := Option.some.inj hstep
    exact ⟨h, rfl, rfl⟩
  · rename_i dict hdict
    obtain rfl := Option.some.inj hstep
    obtain ⟨hloaded, hid, hpos, hlt, hnone, -⟩ := State.checkDict_ok hdict
    refine ⟨⟨h.entry, ?_, ?_, h.contexts⟩, rfl, rfl⟩
    · intro thread' dict' hdict'
      by_cases heq : thread' = thread
      · rw [heq] at hdict'
        simp only [Function.update_self] at hdict'
        obtain rfl := Option.some.inj hdict'
        exact ⟨hloaded, hpos, hlt, hnone⟩
      · simp only [Function.update_of_ne heq] at hdict'
        exact h.pending thread' dict' hdict'
    · intro thread₁ thread₂ dict₁ dict₂ h₁ h₂ hsame
      simp only [Function.update_apply] at h₁ h₂
      split_ifs at h₁ h₂ with heq₁ heq₂ heq₂
      · rw [heq₁, heq₂]
      · obtain rfl := Option.some.inj h₁
        exact absurd (hsame.symm.trans hid) (halone thread₂ dict₂ h₂)
      · obtain rfl := Option.some.inj h₂
        exact absurd (hsame.trans hid) (halone thread₁ dict₁ h₁)
      · exact h.apart thread₁ thread₂ dict₁ dict₂ h₁ h₂ hsame

/-- The second half fills an entry that is empty. -/
theorem inv_store (h : s.Inv z) {thread : Thread} (hstep : step z s (.store thread) = some t) :
    t.Inv z ∧ t.served = s.served ∧ ∃ dict, s.dicts dict.dictId = none ∧
      t.dicts = Function.update s.dicts dict.dictId (some dict) := by
  obtain ⟨dict, hdict, rfl⟩ := Option.map_eq_some_iff.mp hstep
  obtain ⟨hloaded, hpos, hlt, hnone⟩ := h.pending thread dict hdict
  refine ⟨⟨?_, ?_, ?_, h.contexts⟩, rfl, dict, hnone, rfl⟩
  · intro id dict' hdict'
    by_cases hid : id = dict.dictId
    · rw [hid] at hdict' ⊢
      simp only [Function.update_self] at hdict'
      obtain rfl := Option.some.inj hdict'
      exact ⟨hloaded, rfl, hpos, hlt⟩
    · simp only [Function.update_of_ne hid] at hdict'
      exact h.entry id dict' hdict'
  · intro thread' dict' hdict'
    simp only [Function.update_apply] at hdict'
    split_ifs at hdict' with heq
    obtain ⟨hloaded', hpos', hlt', hnone'⟩ := h.pending thread' dict' hdict'
    refine ⟨hloaded', hpos', hlt', ?_⟩
    have hne : dict'.dictId ≠ dict.dictId := fun hsame => heq (h.apart _ _ _ _ hdict' hdict hsame)
    simp only [Function.update_of_ne hne, hnone']
  · intro thread₁ thread₂ dict₁ dict₂ h₁ h₂ hsame
    simp only [Function.update_apply] at h₁ h₂
    split_ifs at h₁ h₂
    exact h.apart thread₁ thread₂ dict₁ dict₂ h₁ h₂ hsame

/-- No dictionary is lost or replaced. -/
def State.Keeps (s t : State C D Thread) : Prop :=
  ∀ id dict, s.dicts id = some dict → ∃ dict', t.dicts id = some dict' ∧ dict.Same dict'

omit [DecidableEq Thread] in
theorem State.Keeps.trans {u : State C D Thread} (h : s.Keeps t) (h' : t.Keeps u) : s.Keeps u := by
  intro id dict hdict
  obtain ⟨dict', hdict', hsame⟩ := h id dict hdict
  obtain ⟨dict'', hdict'', hsame'⟩ := h' id dict' hdict'
  exact ⟨dict'', hdict'', hsame.trans hsame'⟩

theorem step_keeps (h : s.Inv z) (halone : Alone s action) (hstep : step z s action = some t) :
    t.Inv z ∧ s.Keeps t := by
  cases action with
  | check thread dictId data =>
    obtain ⟨hinv, hdicts, -⟩ := inv_check h halone hstep
    exact ⟨hinv, fun id dict hdict => ⟨dict, hdicts ▸ hdict, .refl dict⟩⟩
  | store thread =>
    obtain ⟨hinv, -, dict, hnone, hdicts⟩ := inv_store h hstep
    refine ⟨hinv, fun id dict' hdict' => ⟨dict', ?_, .refl dict'⟩⟩
    have hne : id ≠ dict.dictId := by
      rintro rfl
      rw [hnone] at hdict'
      cases hdict'
    rw [hdicts, Function.update_of_ne hne, hdict']
  | compress | decompress | damage =>
    obtain ⟨hagrees, hinv⟩ := step_agrees h hstep (by simp) (by simp)
    exact ⟨hinv, fun _ _ => hagrees.kept⟩

/-- **No dictionary is lost or replaced in a run.** -/
theorem keeps_of_exec {actions : List (Action C Thread)} (h : s.Inv z)
    (halone : Run.Meets (step z) Alone s actions) (hexec : Run.exec (step z) s actions = some t) :
    t.Inv z ∧ s.Keeps t := by
  refine Run.inv_exec (I := fun t => t.Inv z ∧ s.Keeps t) ?_ ⟨h, ?_⟩ halone hexec
  · intro u action v hu halone hstep
    obtain ⟨hinv, hkeeps⟩ := step_keeps hu.1 halone hstep
    exact ⟨hinv, hu.2.trans hkeeps⟩
  · exact fun id dict hdict => ⟨dict, hdict, .refl dict⟩

end Steps

end Invariant

/-! ### What the writers and the readers of cells see -/

theorem toOption_eq_some {ε α : Type} {x : Except ε α} {a : α} :
    x.toOption = some a ↔ x = .ok a := by
  cases x <;> simp [Except.toOption]

section View

variable {C D Thread : Type} (z : Library C D)

namespace State

/-- The dictionary that decompresses what was compressed with an id. -/
def decoder (id : ℕ) (s : State C D Thread) : Option (Option D) :=
  if id = 0 then some none else (s.getDict id).map fun dict => some dict.dDict

/-- The compression in one state, where there is memory. -/
def zstd (s : State C D Thread) : Zstd where
  compress data id :=
    (z.compressBound data.length).toOption.bind fun size =>
      (s.useDict z id).1.toOption.bind fun cDict => (z.compress cDict size data).toOption
  sizeKnown data := (z.getFrameContentSize data).isOk
  frameDict data := z.getDictIDFromFrame data % 65536
  hasDict id := (s.getDict id).isSome
  decompress data id :=
    (z.getFrameContentSize data).toOption.bind fun size =>
      (s.decoder id).bind fun dDict => (z.decompress dDict size data).toOption

variable {z} {s t : State C D Thread} {id : ℕ} {data frame : List UInt8}

theorem zstd_compress : (s.zstd z).compress data id = some frame ↔ ∃ size cDict,
    z.compressBound data.length = .ok size ∧ (s.useDict z id).1 = .ok cDict ∧
      z.compress cDict size data = .ok frame := by
  simp only [zstd, Option.bind_eq_some_iff, toOption_eq_some, exists_and_left]

variable [DecidableEq Thread]

theorem buffer_getOrCreateBuffer (thread : Thread) (size : ℕ) (s : State C D Thread) :
    ((s.getOrCreateBuffer thread size true).contexts thread).buffer ≠ none := by
  simp only [getOrCreateBuffer, Function.update_self]
  exact ZSTDContext.buffer_getOrCreateBuffer size _

/-- The buffer has no part in the use of a dictionary. -/
theorem useDict_getOrCreateBuffer (thread : Thread) (size : ℕ) (malloc : Bool)
    (s : State C D Thread) :
    ((s.getOrCreateBuffer thread size malloc).useDict z id).1 = (s.useDict z id).1 := by
  have hget : (s.getOrCreateBuffer thread size malloc).getDict id = s.getDict id := rfl
  simp only [useDict, hget]
  split_ifs
  · rfl
  · cases s.getDict id with
    | none => rfl
    | some dict =>
      dsimp only
      split_ifs <;> rfl

/-- What the readers see is what `decompressContent` does. -/
theorem decompressContent_zstd (thread : Thread) {usingDict : Bool} :
    Wcdb.decompressContent (s.zstd z) data usingDict =
      (s.decompressContent z thread data usingDict true).1.toOption := by
  rw [Wcdb.decompressContent, frameDictId, decompressContent]
  cases hsize : z.getFrameContentSize data with
  | error code => simp [zstd, hsize, Except.isOk, Except.toBool, Except.toOption]
  | ok size =>
    have hknown : (s.zstd z).sizeKnown data = true := by
      simp [zstd, hsize, Except.isOk, Except.toBool]
    have hread (dDict : Option D) (i : ℕ) (hdecoder : s.decoder i = some dDict) :
        ((s.zstd z).decompress data i).getD [] =
          (z.decompress dDict size data).toOption.getD [] := by
      simp [zstd, hsize, hdecoder, Except.toOption]
    dsimp only
    rw [hknown, if_neg (by simp), if_neg (buffer_getOrCreateBuffer thread size s)]
    cases usingDict with
    | false =>
      have hnone := hread none 0 rfl
      simp only [findDict, Bool.false_eq_true, if_false, Option.map_some, hnone]
      cases z.decompress none size data <;> rfl
    | true =>
      simp only [findDict, if_true]
      by_cases hzero : z.getDictIDFromFrame data % 65536 = 0
      · rw [if_pos (.inl hzero), if_pos hzero]
        rfl
      · rw [if_neg hzero]
        have hget : (s.getOrCreateBuffer thread size true).getDict
            (z.getDictIDFromFrame data % 65536) = s.getDict (z.getDictIDFromFrame data % 65536) :=
              rfl
        rw [hget]
        cases hdict : s.getDict (z.getDictIDFromFrame data % 65536) with
        | none =>
          rw [if_pos (.inr (by simp [zstd, hdict]))]
          rfl
        | some dict =>
          have hfound : (s.zstd z).hasDict ((s.zstd z).frameDict data) = true := by
            simp [zstd, hdict]
          have hdecoder := hread (some dict.dDict) (z.getDictIDFromFrame data % 65536)
            (by rw [decoder, if_neg hzero, hdict, Option.map_some])
          rw [if_neg (by simp only [hfound]; exact fun h => hzero (h.resolve_right (by simp)))]
          change some (((s.zstd z).decompress data (z.getDictIDFromFrame data % 65536)).getD []) = _
          rw [hdecoder]
          dsimp only
          cases z.decompress (some dict.dDict) size data <;> rfl

end State

end View

/-! ### Later states -/

section Later

variable {C D Thread : Type} {z : Library C D} {s t : State C D Thread} {id : ℕ}

/-- A dictionary that compresses in a state has its counterpart in every later one. -/
theorem pairs_of_useDict (hs : s.Inv z) (hkeeps : s.Keeps t)
    (hintact : ∀ dict, s.dicts id = some dict → dict.Intact z) {cDict : Option C}
    (hused : (s.useDict z id).1 = .ok cDict) : ∃ dDict, z.Pairs cDict dDict ∧
      (id ≠ 0 → ∃ dict, t.dicts id = some dict ∧ dDict = some dict.dDict) ∧
      (id = 0 → dDict = none) ∧ (dDict.map z.getDictID).getD 0 % 65536 = id := by
  obtain ⟨rfl, rfl⟩ | ⟨dict, hdict, rfl⟩ := State.useDict_ok hused
  · exact ⟨none, .context, fun h => absurd rfl h, fun _ => rfl, rfl⟩
  · obtain ⟨hpos, -, hdict⟩ := State.getDict_eq_some.mp hdict
    obtain ⟨hloaded, hid, -⟩ := hs.entry id dict hdict
    obtain ⟨dict', hdict', hsame⟩ := hkeeps id dict hdict
    refine ⟨some dict.dDict, (hintact dict hdict).pairs hloaded, fun _ => ⟨dict', hdict', ?_⟩,
      fun h => absurd h hpos.ne', ?_⟩
    · rw [hsame.dDict]
    · rw [Option.map_some, Option.getD_some, ← hloaded.dictId, hid]

/-- **What is compressed is decompressed in every later state.** -/
theorem State.zstd_lawful (hz : z.Lawful) (hs : s.Inv z) (ht : t.Inv z) (hkeeps : s.Keeps t)
    (hintact : ∀ dict, s.dicts id = some dict → dict.Intact z) :
    Zstd.Lawful { t.zstd z with
      compress := fun data i => if i = id then (s.zstd z).compress data i else none } := by
  have hopens (data : List UInt8) (i : ℕ) (frame : List UInt8)
      (h : (if i = id then (s.zstd z).compress data i else none) = some frame) : i = id ∧
      ∃ size cDict dDict, z.Pairs cDict dDict ∧ z.compress cDict size data = .ok frame ∧
        (i ≠ 0 → ∃ dict, t.dicts i = some dict ∧ dDict = some dict.dDict) ∧
        (i = 0 → dDict = none) ∧ (dDict.map z.getDictID).getD 0 % 65536 = i := by
    obtain ⟨rfl, hframe⟩ := Option.ite_none_right_eq_some.mp h
    obtain ⟨size, cDict, -, hused, hcompress⟩ := zstd_compress.mp hframe
    obtain ⟨dDict, hpairs, hrest⟩ := pairs_of_useDict hs hkeeps hintact hused
    exact ⟨rfl, size, cDict, dDict, hpairs, hcompress, hrest⟩
  constructor
  case frame_ne_nil =>
    intro data i frame h
    obtain ⟨-, size, cDict, dDict, hpairs, hcompress, -⟩ := hopens data i frame h
    exact hz.frame_ne_nil _ _ _ _ _ hpairs hcompress
  case frame_sizeKnown =>
    intro data i frame h
    obtain ⟨-, size, cDict, dDict, hpairs, hcompress, -⟩ := hopens data i frame h
    simp only [zstd, hz.frame_size _ _ _ _ _ hpairs hcompress]
    rfl
  case frame_dict =>
    intro data i frame h
    obtain ⟨-, size, cDict, dDict, hpairs, hcompress, -, -, hid⟩ := hopens data i frame h
    simp only [zstd, hz.frame_dictID _ _ _ _ _ hpairs hcompress]
    exact hid
  case frame_hasDict =>
    intro data i frame h hne
    obtain ⟨-, size, cDict, dDict, -, -, hfound, -⟩ := hopens data i frame h
    obtain ⟨dict, hdict, -⟩ := hfound hne
    simp only [zstd, ht.getDict_eq, hdict, Option.isSome_some]
  case inverse =>
    intro data i frame h
    obtain ⟨-, size, cDict, dDict, hpairs, hcompress, hfound, hnone, -⟩ := hopens data i frame h
    have hdecoder : t.decoder i = some dDict := by
      rw [decoder]
      split_ifs with hzero
      · rw [hnone hzero]
      · obtain ⟨dict, hdict, rfl⟩ := hfound hzero
        rw [ht.getDict_eq, hdict, Option.map_some]
    simp only [zstd, hz.frame_size _ _ _ _ _ hpairs hcompress, hdecoder, Option.bind_some,
      Except.toOption, hz.inverse _ _ _ _ _ hpairs hcompress]

variable [DecidableEq Thread]

/-- **Compressed once, decompressed ever after.** Whatever is registered, compressed, decompressed
and damaged in between, by any threads, what was compressed with a dictionary that was intact, or
with none, is decompressed; a cell that was written then reads as its value; and the library is
given buffers that are as large as it is told. -/
theorem decompressed_of_exec (hz : z.Lawful) {before after : List (Action C Thread)}
    (halone : Run.Meets (step z) Alone {} (before ++ after))
    (hs : Run.exec (step z) {} before = some s) (ht : Run.exec (step z) s after = some t)
    (id : ℕ) (hintact : ∀ dict, s.dicts id = some dict → dict.Intact z) :
    (∀ thread reader data frame malloc,
      (s.compressContent z thread data id malloc).1 = .ok frame → frame ≠ data →
        (t.decompressContent z reader frame (decide (id ≠ 0)) true).1 = .ok data) ∧
    (∀ can compressedType isText data cell, DictFits compressedType id →
      encodeCell (s.zstd z) can compressedType id isText data = some cell →
        wcdbDecompress (t.zstd z) cell.1 cell.2 = some (dataValue isText data)) ∧
    ∀ thread size malloc capacity,
      ((t.getOrCreateBuffer thread size malloc).contexts thread).buffer = some capacity →
        size ≤ capacity := by
  obtain ⟨hbefore, hafter⟩ := halone.append hs
  obtain ⟨hinv, -⟩ := keeps_of_exec State.Inv.init hbefore hs
  obtain ⟨hinv', hkeeps⟩ := keeps_of_exec hinv hafter ht
  have hlawful := State.zstd_lawful hz hinv hinv' hkeeps hintact
  refine ⟨?_, ?_, ?_⟩
  · intro thread reader data frame malloc hcompress hne
    obtain ⟨size, cDict, hsize, hused, hframe⟩ := State.compressContent_ok hcompress hne
    rw [State.useDict_getOrCreateBuffer] at hused
    have hframe : (if id = id then (s.zstd z).compress data id else none) = some frame := by
      rw [if_pos rfl]
      exact State.zstd_compress.mpr ⟨size, cDict, hsize, hused, hframe⟩
    have hdict := hlawful.frame_dict data id frame hframe
    have hinverse := hlawful.inverse data id frame hframe
    have hknown := hlawful.frame_sizeKnown data id frame hframe
    have hhas := hlawful.frame_hasDict data id frame hframe
    dsimp only at hdict hinverse hknown hhas
    rw [← toOption_eq_some, ← State.decompressContent_zstd, decompressContent, frameDictId]
    rw [hknown, if_neg (by simp), hdict]
    by_cases hzero : id = 0
    · subst hzero
      simp [hinverse]
    · rw [if_pos (by simpa using hzero), if_neg (by simp [hzero, hhas hzero])]
      simp [hinverse]
  · intro can compressedType isText data cell hfits hcell
    have hcell : encodeCell { t.zstd z with
        compress := fun data i => if i = id then (s.zstd z).compress data i else none }
        can compressedType id isText data = some cell := by
      rw [← hcell, encodeCell, encodeCell, compressContent, compressContent]
      simp only [if_true]
    exact wcdbDecompress_encodeCell hlawful hfits hcell
  · intro thread size malloc capacity hbuffer
    simp only [State.getOrCreateBuffer, Function.update_self] at hbuffer
    exact (hinv'.contexts thread).size_le hbuffer

/-! ### Damaged dictionaries -/

variable (z) in
/-- The hashes of the memory are not those that were recorded. -/
def State.Damaged (id : ℕ) (s : State C D Thread) : Prop :=
  ∃ dict, s.dicts id = some dict ∧ z.hash dict.cDict ≠ dict.memory

instance State.Damaged.decidable (id : ℕ) (s : State C D Thread) : Decidable (s.Damaged z id) :=
  inferInstanceAs (Decidable (∃ dict ∈ s.dicts id, z.hash dict.cDict ≠ dict.memory))

/-- The counts of the dictionaries are those of at most so many calls. -/
def State.Counted (n : ℕ) (s : State C D Thread) : Prop :=
  (∀ id dict, s.dicts id = some dict → dict.Counted n) ∧
    ∀ thread dict, s.registering thread = some dict → dict.Counted n

omit [DecidableEq Thread] in
theorem State.Counted.init : State.Counted 0 ({} : State C D Thread) := by
  constructor <;>
  · intro _ _ h
    cases h

omit [DecidableEq Thread] in
theorem State.Counted.mono {n m : ℕ} (h : s.Counted n) (hle : n ≤ m) : s.Counted m :=
  ⟨fun i dict hdict => (h.1 i dict hdict).mono hle,
    fun thread dict hdict => (h.2 thread dict hdict).mono hle⟩

omit [DecidableEq Thread] in
/-- One entry is replaced. -/
theorem State.Counted.update {n : ℕ} (h : s.Counted n) {dict : ZSTDDict C D}
    (hdict : dict.Counted n)
    (hdicts : t.dicts = Function.update s.dicts id (some dict))
    (hregistering : ∀ thread dict, t.registering thread = some dict →
      s.registering thread = some dict) : t.Counted n := by
  refine ⟨fun i found hfound => ?_, fun thread found hfound =>
    h.2 thread found (hregistering thread found hfound)⟩
  rw [hdicts] at hfound
  by_cases hi : i = id
  · rw [hi, Function.update_self] at hfound
    rwa [← Option.some.inj hfound]
  · rw [Function.update_of_ne hi] at hfound
    exact h.1 i found hfound

omit [DecidableEq Thread] in
theorem counted_useDict {n : ℕ} (h : s.Counted n) (hlt : n + 1 < 2 ^ 31) (i : ℕ) :
    (s.useDict z i).2.Counted (n + 1) := by
  have hnext := h.mono (Nat.le_succ n)
  obtain ⟨-, heq⟩ | ⟨-, -, error, heq⟩ | ⟨dict, u, hdict, hdicts, hregistering, -, hserved⟩ :=
    State.useDict_cases z i s
  · rwa [heq]
  · rwa [heq]
  · have hcounted := h.1 i dict (State.getDict_eq_some.mp hdict).2.2
    have heq : (s.useDict z i).2 = u := by
      obtain ⟨-, -, heq⟩ | ⟨-, -, error, heq⟩ := hserved <;> rw [heq]
    rw [heq]
    exact hnext.update (hcounted.tryMemoryVerification hlt) hdicts fun _ _ hpending => by
      rwa [hregistering] at hpending

/-- **No call raises a count by more than one.** -/
theorem step_counted {n : ℕ} {action : Action C Thread} (h : s.Counted n) (hlt : n + 1 < 2 ^ 31)
    (hstep : step z s action = some t) : t.Counted (n + 1) := by
  have hnext := h.mono (Nat.le_succ n)
  cases action with
  | check thread dictId data =>
    obtain ⟨-, hstep⟩ := Option.ite_none_left_eq_some.mp hstep
    split at hstep
    · obtain rfl := Option.some.inj hstep
      exact hnext
    · rename_i dict hdict
      obtain rfl := Option.some.inj hstep
      obtain ⟨-, -, -, -, -, hzero⟩ := State.checkDict_ok hdict
      refine ⟨hnext.1, fun thread' dict' hdict' => ?_⟩
      by_cases heq : thread' = thread
      · simp only [heq, Function.update_self] at hdict'
        obtain rfl := Option.some.inj hdict'
        have hint : (0 : Int32).toInt = 0 := rfl
        rw [ZSTDDict.Counted, hzero, hint]
        omega
      · simp only [Function.update_of_ne heq] at hdict'
        exact hnext.2 thread' dict' hdict'
  | store thread =>
    obtain ⟨dict, hdict, rfl⟩ := Option.map_eq_some_iff.mp hstep
    refine hnext.update (hnext.2 thread dict hdict) rfl fun thread' dict' hdict' => ?_
    simp only [Function.update_apply] at hdict'
    split_ifs at hdict'
    exact hdict'
  | compress thread data dictId malloc =>
    obtain ⟨-, hstep⟩ := Option.ite_none_left_eq_some.mp hstep
    obtain rfl := Option.some.inj hstep
    obtain heq | ⟨size, heq | heq⟩ := State.compressContent_cases z thread data dictId malloc s
    · rwa [heq]
    · rw [heq]
      exact hnext
    · rw [heq]
      exact counted_useDict (s := s.getOrCreateBuffer thread size malloc) h hlt dictId
  | decompress thread data usingDict malloc =>
    obtain ⟨-, hstep⟩ := Option.ite_none_left_eq_some.mp hstep
    obtain rfl := Option.some.inj hstep
    obtain heq | ⟨size, heq⟩ := State.decompressContent_cases z thread data usingDict malloc s
    · rwa [heq]
    · rw [heq]
      exact hnext
  | damage dictId memory =>
    obtain ⟨dict, hdict, rfl⟩ := Option.map_eq_some_iff.mp hstep
    have hcounted : ZSTDDict.Counted _ { dict with cDict := memory } := hnext.1 dictId dict hdict
    exact hnext.update hcounted rfl fun _ _ hpending => hpending

/-- The uses of a dictionary so far, with those that are left before the next verification. -/
def State.Spends (id n : ℕ) (s : State C D Thread) : Prop :=
  ∃ dict, s.dicts id = some dict ∧ s.served.count id + (9 - dict.dictUseCount.toInt).toNat ≤ n

omit [DecidableEq Thread] in
/-- Nothing else is spent. -/
theorem State.Spends.of_eq {n : ℕ} (h : s.Spends id n) (hdicts : t.dicts id = s.dicts id)
    (hserved : t.served = s.served) : t.Spends id n := by
  obtain ⟨dict, hdict, hle⟩ := h
  exact ⟨dict, hdicts.trans hdict, by rw [hserved]; exact hle⟩

omit [DecidableEq Thread] in
/-- A use of a damaged dictionary takes one of those that are left. -/
theorem spends_useDict {n k : ℕ} (hcounted : s.Counted k) (hlt : k + 1 < 2 ^ 31)
    (hdamaged : s.Damaged z id) (h : s.Spends id n) (i : ℕ) : (s.useDict z i).2.Spends id n := by
  obtain ⟨-, heq⟩ | ⟨-, -, error, heq⟩ | ⟨dict, u, hdict, hdicts, -, -, hserved⟩ :=
    State.useDict_cases z i s
  · rwa [heq]
  · rwa [heq]
  · have hdict := (State.getDict_eq_some.mp hdict).2.2
    have heq : (s.useDict z i).2 = u := by
      obtain ⟨-, -, heq⟩ | ⟨-, -, error, heq⟩ := hserved <;> rw [heq]
    rw [heq]
    by_cases hi : i = id
    · subst hi
      obtain ⟨damaged, hdict', hne⟩ := hdamaged
      obtain rfl := Option.some.inj (hdict.symm.trans hdict')
      obtain ⟨found, hfound, hle⟩ := h
      obtain rfl := Option.some.inj (hdict.symm.trans hfound)
      obtain ⟨hverified, hcount⟩ := ZSTDDict.tryMemoryVerification_of_ne hne
      have hsucc := (hcounted.1 i dict hdict).toInt_succ hlt
      rw [hsucc] at hverified
      refine ⟨_, by rw [hdicts, Function.update_self], ?_⟩
      rw [hcount, hsucc]
      obtain ⟨htrue, hserved, -⟩ | ⟨-, hserved, -⟩ := hserved
      · rw [hverified, decide_eq_true_eq, kDictMaxUseCountBeforeCheck] at htrue
        rw [hserved, List.count_append, List.count_singleton_self]
        omega
      · rw [hserved]
        omega
    · obtain ⟨found, hfound, hle⟩ := h
      refine ⟨found, by rw [hdicts, Function.update_of_ne (Ne.symm hi), hfound], ?_⟩
      have hcount : u.served.count id = s.served.count id := by
        obtain ⟨-, hserved, -⟩ | ⟨-, hserved, -⟩ := hserved
        · rw [hserved, List.count_append, List.count_singleton,
            if_neg (by simpa using hi), add_zero]
        · rw [hserved]
      rw [hcount]
      exact hle

theorem step_spends {n k : ℕ} {action : Action C Thread} (hs : s.Inv z) (halone : Alone s action)
    (hcounted : s.Counted k) (hlt : k + 1 < 2 ^ 31) (hdamaged : s.Damaged z id)
    (h : s.Spends id n) (hstep : step z s action = some t) : t.Spends id n := by
  cases action with
  | check thread dictId data =>
    obtain ⟨-, hdicts, hserved⟩ := inv_check hs halone hstep
    exact h.of_eq (congrFun hdicts id) hserved
  | store thread =>
    obtain ⟨-, hserved, dict, hnone, hdicts⟩ := inv_store hs hstep
    have hne : id ≠ dict.dictId := by
      rintro rfl
      obtain ⟨found, hfound, -⟩ := h
      rw [hnone] at hfound
      cases hfound
    exact h.of_eq (by rw [hdicts, Function.update_of_ne hne]) hserved
  | compress thread data dictId malloc =>
    obtain ⟨-, hstep⟩ := Option.ite_none_left_eq_some.mp hstep
    obtain rfl := Option.some.inj hstep
    obtain heq | ⟨size, heq | heq⟩ := State.compressContent_cases z thread data dictId malloc s
    · rwa [heq]
    · rw [heq]
      exact h
    · rw [heq]
      exact spends_useDict (s := s.getOrCreateBuffer thread size malloc) hcounted hlt hdamaged h
        dictId
  | decompress thread data usingDict malloc =>
    obtain ⟨-, hstep⟩ := Option.ite_none_left_eq_some.mp hstep
    obtain rfl := Option.some.inj hstep
    obtain heq | ⟨size, heq⟩ := State.decompressContent_cases z thread data usingDict malloc s
    · rwa [heq]
    · rw [heq]
      exact h
  | damage dictId memory =>
    obtain ⟨dict, hdict, rfl⟩ := Option.map_eq_some_iff.mp hstep
    by_cases hid : id = dictId
    · subst hid
      obtain ⟨found, hfound, hle⟩ := h
      obtain rfl := Option.some.inj (hdict.symm.trans hfound)
      exact ⟨_, Function.update_self .., hle⟩
    · exact h.of_eq (Function.update_of_ne hid ..) rfl

/-- The calls that may use the dictionary, if any, are those of one thread. -/
def Action.UsedBy (worker : Thread) (id : ℕ) : Action C Thread → Prop
  | .compress thread _ dictId _ => dictId = id → thread = worker
  | _ => True

instance Action.UsedBy.decidable (worker : Thread) (id : ℕ) :
    (action : Action C Thread) → Decidable (action.UsedBy worker id)
  | .compress thread _ dictId _ => inferInstanceAs (Decidable (dictId = id → thread = worker))
  | .check .. | .store .. | .decompress .. | .damage .. => inferInstanceAs (Decidable True)

/-- **The runs in which the count of a dictionary is right**: `++m_dictUseCount` is neither atomic
nor bounded, so one thread makes the calls that raise it, and there are not too many of them. -/
structure Action.Countable (worker : Thread) (id : ℕ) (run : List (Action C Thread)) : Prop where
  usedBy : ∀ action ∈ run, action.UsedBy worker id
  length_lt : run.length < 2 ^ 31

/-- **What is damaged is soon noticed.** A dictionary that is intact is never refused; and while the
hashes of a dictionary differ from those that were recorded, it compresses at most nine times more,
in a run in which its count is right. -/
theorem served_of_exec {before : List (Action C Thread)}
    (halone : Run.Meets (step z) Alone {} before) (hs : Run.exec (step z) {} before = some s) :
    (∀ id dict, s.dicts id = some dict → dict.Intact z →
      (s.useDict z id).1 = .ok (some dict.cDict)) ∧
    ∀ id worker after t, Action.Countable worker id (before ++ after) →
      Run.Meets (step z) (fun u action => Alone u action ∧ u.Damaged z id) s after →
      Run.exec (step z) s after = some t → t.Damaged z id →
        t.served.count id ≤ s.served.count id + (kDictMaxUseCountBeforeCheck - 1) := by
  obtain ⟨hinv, -⟩ := keeps_of_exec State.Inv.init halone hs
  constructor
  · intro id dict hdict hintact
    obtain ⟨hloaded, -, hpos, hlt⟩ := hinv.entry id dict hdict
    have hpasses := ZSTDDict.tryMemoryVerification_of_hash (hintact.hash_eq hloaded)
    obtain ⟨rfl, -⟩ | ⟨-, hnone, -⟩ | ⟨found, u, hfound, -, -, -, hserved⟩ :=
      State.useDict_cases z id s
    · exact absurd hpos (lt_irrefl 0)
    · rw [hinv.getDict_eq, hdict] at hnone
      cases hnone
    · rw [hinv.getDict_eq, hdict] at hfound
      obtain rfl := Option.some.inj hfound
      obtain ⟨-, -, heq⟩ | ⟨hfalse, -⟩ := hserved
      · rw [heq]
      · rw [hpasses] at hfalse
        cases hfalse
  · intro id worker after t hcountable hmeets ht hdamaged
    have hlength := hcountable.length_lt
    rw [List.length_append] at hlength
    have hcounted : s.Counted (0 + before.length) := by
      refine Run.inv_exec_length (I := fun k u => u.Counted k) ?_ .init halone hs
      intro k u action v hk hu _ hstep
      exact step_counted hu (by omega) hstep
    have hstart : s.Damaged z id := by
      cases after with
      | nil => rwa [Option.some.inj ht]
      | cons action after => exact hmeets.1.2
    obtain ⟨dict, hdict, -⟩ := hstart
    have hnonneg := (hcounted.1 id dict hdict).1
    obtain ⟨-, -, found, -, hle⟩ := Run.inv_exec_length
      (I := fun k u => u.Inv z ∧ u.Counted k ∧ u.Spends id (s.served.count id + 9))
      (fun k u action v hk hu hok hstep => ⟨(step_keeps hu.1 hok.1 hstep).1,
        step_counted hu.2.1 (by omega) hstep,
        step_spends hu.1 hok.1 hu.2.1 (by omega) hok.2 hu.2.2 hstep⟩)
      ⟨hinv, hcounted, dict, hdict, by omega⟩ hmeets ht
    exact (Nat.le_add_right ..).trans hle

end Later

/-! ### A library of runs -/

/-- A library that knows runs of one byte. The first byte of a dictionary is its id. -/
def runs : Library (List UInt8) (List UInt8) where
  createCDict data := some data
  createDDict data := some data
  getDictID dict := (dict.headD 0).toNat
  hash memory := memory.map UInt8.toUInt32
  compressBound size := .ok (size + 2)
  compress cDict _ data :=
    .ok ((cDict.getD []).headD 0 ::
      if data.length < 256 ∧ data = List.replicate data.length (data.headD 0) then
        [0, data.headD 0, UInt8.ofNat data.length]
      else 1 :: data)
  getFrameContentSize frame :=
    match frame.tail with
    | [0, _, n] => .ok n.toNat
    | 1 :: data => .ok data.length
    | _ => .error 20
  getDictIDFromFrame frame := (frame.headD 0).toNat
  decompress _ _ frame :=
    match frame.tail with
    | [0, b, n] => .ok (List.replicate n.toNat b)
    | 1 :: data => .ok data
    | _ => .error 20
  getErrorName _ := "Data corruption detected"

theorem runs_lawful : runs.Lawful := by
  constructor
  all_goals
    intro c d size data frame hpairs h
    obtain rfl := Except.ok.inj h
  case frame_ne_nil => exact List.cons_ne_nil _ _
  case frame_dictID =>
    cases hpairs with
    | context => rfl
    | dict hc hd =>
      obtain rfl := Option.some.inj hc
      obtain rfl := Option.some.inj hd
      rfl
  all_goals
    simp only [runs, List.tail_cons]
    split_ifs with hrun
    · obtain ⟨hlength, hdata⟩ := hrun
      have hn : (UInt8.ofNat data.length).toNat = data.length := by
        rw [UInt8.toNat_ofNat']
        omega
      simp only [hn]
      try exact congrArg Except.ok hdata.symm
    · rfl

/-- A thread registers a dictionary. -/
def registered : List (Action (List UInt8) Bool) := [.check true 7 [7, 42], .store true]

def damage : Action (List UInt8) Bool := .damage 7 [7, 43]

def compression : Action (List UInt8) Bool := .compress false (List.replicate 9 97) 7 true

theorem decompressed_of_exec_damaged : ∃ s t, Run.exec (step runs) {} registered = some s ∧
    Run.exec (step runs) s [damage, compression] = some t ∧
    (t.decompressContent runs true [7, 0, 97, 9] true true).1 = .ok (List.replicate 9 97) := by
  have halone : Run.Meets (step runs) Alone {} (registered ++ [damage, compression]) := by
    decide +kernel
  refine ⟨_, _, rfl, rfl, ?_⟩
  refine (decompressed_of_exec runs_lawful halone rfl rfl 7 ?_).1 false true
    (List.replicate 9 97) [7, 0, 97, 9] true (by rfl) (by decide)
  intro dict hdict
  obtain rfl := Option.some.inj hdict
  rfl

/-- The tenth compression is refused. -/
theorem served_of_exec_refused : ∃ s t, Run.exec (step runs) {} (registered ++ [damage]) = some s ∧
    Run.exec (step runs) s (List.replicate 12 compression) = some t ∧
      t.served = List.replicate 9 7 ∧ t.served.count 7 ≤ s.served.count 7 + 9 := by
  have halone : Run.Meets (step runs) Alone {} (registered ++ [damage]) := by decide +kernel
  have hcountable : Action.Countable false 7
      (registered ++ [damage] ++ List.replicate 12 compression) := ⟨by decide, by decide⟩
  refine ⟨_, _, rfl, rfl, rfl, ?_⟩
  exact (served_of_exec halone rfl).2 7 false (List.replicate 12 compression) _ hcountable
    (by decide +kernel) rfl (by decide +kernel)

end Wcdb.CompressionCenter
