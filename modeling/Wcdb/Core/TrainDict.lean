import Mathlib.Data.List.Basic
import Mathlib.Data.List.Range
import Mathlib.Algebra.BigOperators.Group.List.Basic
import Mathlib.Algebra.GroupWithZero.Nat

/-!
# Dictionary training

`CompressionCenter::trainDict` fetches samples until the enumerator returns null, and copies them
into one buffer. An empty sample is skipped by a `continue` that does not fetch the next one, so the
loop stays at it for ever: training returns if and only if every empty sample lies behind one at
which the loop stops (`returns_iff`). The trainer of the compression library is a parameter.
-/

namespace Wcdb.TrainDict

/-- A buffer in the address space, so that no sum of sizes below wraps around. -/
structure Sample where
  bytes : List UInt8
  size_lt : bytes.length < 2 ^ 63

namespace Sample

def size (sample : Sample) : ℕ := sample.bytes.length

/-- The sample without a byte. -/
def empty : Sample := ⟨[], by decide⟩

theorem size_eq_zero {sample : Sample} : sample.size = 0 ↔ sample = empty := by
  obtain ⟨bytes, hsize⟩ := sample
  rw [size, List.length_eq_zero_iff, empty, mk.injEq]

end Sample

def maxDictId : ℕ := 1000

def kMaxTrainDataSize : ℕ := 4 * 1024 * 1024 * 1024

/-- The size of the buffer for the dictionary. -/
def dictSize : ℕ := 100 * 1024

/-- The size of the buffer for the samples, to begin with. -/
def initialSize : ℕ := 1024 * 1024

/-- The variables of the loop. `data` is the sample fetched last with the number of its call, and
`consumed` has the numbers of the samples copied. -/
structure State where
  data : Option (ℕ × Sample)
  calls : ℕ
  totalSize : ℕ := 0
  allSize : ℕ := initialSize
  allData : List UInt8 := []
  dataSizes : List ℕ := []
  consumed : List ℕ := []

/-- How the body of the loop ends. -/
inductive Next where
  | again (s : State)
  | left (s : State)
  | noMemory (s : State)

/-- What `trainDict` returns, and the samples it has consumed. -/
structure Result where
  dict : Option (List UInt8)
  consumed : List ℕ

section Model

variable (alloc : ℕ → Bool) (train : List UInt8 → List ℕ → Option (List UInt8))
  (enumerate : ℕ → Option Sample)

/-- A call of the enumerator. -/
def fetch (calls : ℕ) : Option (ℕ × Sample) := (enumerate calls).map (calls, ·)

/-- `Data::resize` of a buffer that it owns. -/
def resize (size newSize : ℕ) : Bool := decide (newSize ≤ size) || alloc newSize

/-- The size the buffer is given before `dataSize` bytes are copied to it. -/
def grown (totalSize allSize dataSize : ℕ) : ℕ :=
  if totalSize + dataSize > allSize then max (2 * allSize) (allSize + dataSize) else allSize

/-- The body of the `while` loop, with its condition. -/
def body (s : State) : Next :=
  match s.data with
  | none => .left s
  | some (number, sample) =>
    -- `continue`: the condition is evaluated again, with the same sample
    if sample.size = 0 then .again s
    else if s.totalSize + sample.size > kMaxTrainDataSize then .left s
    else if resize alloc s.allSize (grown s.totalSize s.allSize sample.size) then
      .again
        { data := fetch enumerate s.calls
          calls := s.calls + 1
          totalSize := s.totalSize + sample.size
          allSize := grown s.totalSize s.allSize sample.size
          allData := s.allData ++ sample.bytes
          dataSizes := s.dataSizes ++ [sample.size]
          consumed := s.consumed ++ [number] }
    else .noMemory s

/-- The loop and what follows it; `none` when the fuel does not suffice. -/
def loop : ℕ → State → Option Result
  | 0, _ => none
  | fuel + 1, s =>
    match body alloc enumerate s with
    | .again t => loop fuel t
    | .left t => some ⟨train t.allData t.dataSizes, t.consumed⟩
    | .noMemory t => some ⟨none, t.consumed⟩

def trainDict (fuel dictId : ℕ) : Option Result :=
  if dictId = 0 ∨ dictId ≥ maxDictId then some ⟨none, []⟩
  else if alloc dictSize = false then some ⟨none, []⟩
  else if alloc initialSize = false then some ⟨none, []⟩
  else loop alloc train enumerate fuel { data := fetch enumerate 0, calls := 1 }

end Model

/-! ### The samples before a call -/

/-- The bytes of the samples copied. -/
def total (samples : List Sample) : ℕ := (samples.map Sample.size).sum

/-- The size of the buffer they are copied to. -/
def allSize (samples : List Sample) : ℕ :=
  (samples.foldl (fun s sample => (s.1 + sample.size, grown s.1 s.2 sample.size))
    (0, initialSize)).2

/-- The loop ends at the sample: with the samples before it there are more than 4G, or there is no
memory for a larger buffer. -/
def Stops (alloc : ℕ → Bool) (before : List Sample) (sample : Sample) : Prop :=
  kMaxTrainDataSize < total before + sample.size ∨
    allSize before < total before + sample.size ∧
      alloc (max (2 * allSize before) (allSize before + sample.size)) = false

/-- **Every empty sample lies behind one at which the loop ends.** -/
def Guarded (alloc : ℕ → Bool) (samples : List Sample) : Prop :=
  ∀ before after, samples = before ++ .empty :: after →
    ∃ first sample rest, before = first ++ sample :: rest ∧ Stops alloc first sample

/-- No sample is empty, and none ends the loop. -/
def Passed (alloc : ℕ → Bool) (samples : List Sample) : Prop :=
  ∀ first sample rest, samples = first ++ sample :: rest →
    sample ≠ .empty ∧ ¬Stops alloc first sample

section Lemmas

variable {alloc : ℕ → Bool} {train : List UInt8 → List ℕ → Option (List UInt8)}
  {enumerate : ℕ → Option Sample} {samples before rest : List Sample} {sample : Sample}

theorem total_concat : total (before ++ [sample]) = total before + sample.size := by
  simp [total]

theorem foldl_grown (s : ℕ) (t : ℕ) :
    (samples.foldl (fun s sample => (s.1 + sample.size, grown s.1 s.2 sample.size)) (s, t)).1 =
      s + total samples := by
  induction samples generalizing s t with
  | nil => rfl
  | cons sample samples ih =>
    rw [List.foldl_cons, ih, total, total, List.map_cons, List.sum_cons, Nat.add_assoc]

theorem allSize_concat :
    allSize (before ++ [sample]) = grown (total before) (allSize before) sample.size := by
  rw [allSize, List.foldl_append, List.foldl_cons, List.foldl_nil, foldl_grown, Nat.zero_add,
    allSize]

theorem Passed.concat (h : Passed alloc before) (hne : sample ≠ .empty)
    (hstop : ¬Stops alloc before sample) : Passed alloc (before ++ [sample]) := by
  intro first sample' rest heq
  rcases List.eq_nil_or_concat rest with rfl | ⟨rest, last, rfl⟩
  · obtain ⟨rfl, hlast⟩ := List.append_inj' heq rfl
    obtain rfl := List.singleton_inj.mp hlast
    exact ⟨hne, hstop⟩
  · rw [List.concat_eq_append, ← List.cons_append, ← List.append_assoc] at heq
    exact h first sample' rest (List.append_inj' heq rfl).1

/-- The state in which the loop has copied the samples of `before`. -/
def stateAt (enumerate : ℕ → Option Sample) (before : List Sample) : State where
  data := fetch enumerate before.length
  calls := before.length + 1
  totalSize := total before
  allSize := allSize before
  allData := before.flatMap Sample.bytes
  dataSizes := before.map Sample.size
  consumed := List.range before.length

theorem initialSize_le : initialSize ≤ allSize before := by
  induction before using List.reverseRecOn with
  | nil => exact le_rfl
  | append_singleton before sample ih =>
    rw [allSize_concat, grown]
    split_ifs
    · omega
    · exact ih

theorem resize_grown : resize alloc (allSize before)
    (grown (total before) (allSize before) sample.size) = false ↔
      allSize before < total before + sample.size ∧
        alloc (max (2 * allSize before) (allSize before + sample.size)) = false := by
  have hpos : 0 < allSize before := Nat.lt_of_lt_of_le (by decide) initialSize_le
  rw [resize, grown]
  split_ifs with hlarge
  · rw [Bool.or_eq_false_iff, decide_eq_false_iff_not]
    exact ⟨fun h => ⟨hlarge, h.2⟩, fun h => ⟨by omega, h.2⟩⟩
  · simp [hlarge]

/-- At an empty sample nothing changes. -/
theorem body_of_empty (hsample : enumerate before.length = some .empty) :
    body alloc enumerate (stateAt enumerate before) = .again (stateAt enumerate before) := by
  simp only [body, stateAt, fetch, hsample, Option.map_some, Sample.size_eq_zero.mpr rfl, if_true]

theorem body_of_stops (hsample : enumerate before.length = some sample) (hne : sample ≠ .empty)
    (hstops : Stops alloc before sample) :
    body alloc enumerate (stateAt enumerate before) = .left (stateAt enumerate before) ∨
      body alloc enumerate (stateAt enumerate before) = .noMemory (stateAt enumerate before) := by
  have hsize : sample.size ≠ 0 := fun h => hne (Sample.size_eq_zero.mp h)
  simp only [body, stateAt, fetch, hsample, Option.map_some, if_neg hsize]
  split_ifs with hlarge hresize
  · exact .inl rfl
  · have hgrown := resize_grown.mpr (hstops.resolve_left hlarge)
    exact absurd (hresize.symm.trans hgrown) Bool.noConfusion
  · exact .inr rfl

theorem body_of_not_stops (hsample : enumerate before.length = some sample) (hne : sample ≠ .empty)
    (hstops : ¬Stops alloc before sample) :
    body alloc enumerate (stateAt enumerate before) =
      .again (stateAt enumerate (before ++ [sample])) := by
  have hsize : sample.size ≠ 0 := fun h => hne (Sample.size_eq_zero.mp h)
  have hlarge : ¬total before + sample.size > kMaxTrainDataSize := fun h => hstops (.inl h)
  have hresize : resize alloc (allSize before)
      (grown (total before) (allSize before) sample.size) = true := by
    rw [← Bool.not_eq_false]
    exact fun h => hstops (.inr (resize_grown.mp h))
  simp only [body, stateAt, fetch, hsample, Option.map_some, if_neg hsize, if_neg hlarge,
    if_pos hresize, total_concat, allSize_concat, List.length_append, List.length_singleton,
    List.flatMap_append, List.flatMap_singleton, List.map_append, List.map_singleton,
    List.range_succ]

/-- The loop returns from a state whose next sample is empty with no fuel. -/
theorem loop_of_empty (alloc : ℕ → Bool) (train : List UInt8 → List ℕ → Option (List UInt8))
    (hsample : enumerate before.length = some .empty) (fuel : ℕ) :
    loop alloc train enumerate fuel (stateAt enumerate before) = none := by
  induction fuel with
  | zero => rfl
  | succ fuel ih => rw [loop, body_of_empty hsample]; exact ih

/-- What the loop returns behind these samples, if no sample before was empty or ended it. -/
theorem loop_returns_iff
    (train : List UInt8 → List ℕ →
    Option (List UInt8)) (henumerate : ∀ call, enumerate call = samples[call]?)
    (hsamples : samples = before ++ rest) (hpassed : Passed alloc before) :
    (∃ fuel result, loop alloc train enumerate fuel (stateAt enumerate before) = some result ∧
      result.consumed.Nodup) ↔ Guarded alloc samples := by
  induction rest generalizing before with
  | nil =>
    rw [List.append_nil] at hsamples
    subst hsamples
    have hdata : enumerate samples.length = none := by
      rw [henumerate, List.getElem?_eq_none le_rfl]
    constructor
    · intro _ first after heq
      exact absurd rfl (hpassed first .empty after heq).1
    · intro _
      have hbody : body alloc enumerate (stateAt enumerate samples) =
          .left (stateAt enumerate samples) := by
        simp only [body, stateAt, fetch, hdata, Option.map_none]
      exact ⟨1, _, by rw [loop, hbody], List.nodup_range⟩
  | cons sample rest ih =>
    have hsample : enumerate before.length = some sample := by
      rw [henumerate, hsamples, List.getElem?_append_right le_rfl, Nat.sub_self,
        List.getElem?_cons_zero]
    by_cases hne : sample = .empty
    · subst hne
      constructor
      · rintro ⟨fuel, result, hloop, -⟩
        rw [loop_of_empty alloc train hsample] at hloop
        exact nomatch hloop
      · intro hguarded
        obtain ⟨first, stop, between, rfl, hstops⟩ := hguarded before rest hsamples
        exact absurd hstops (hpassed first stop between rfl).2
    by_cases hstops : Stops alloc before sample
    · constructor
      · intro _ first after heq
        -- an empty sample is not among those before, and it is not the one that stops the loop
        rw [hsamples, List.append_eq_append_iff] at heq
        rcases heq with ⟨between, rfl, hrest⟩ | ⟨between, rfl, hrest⟩
        · cases between with
          | nil => exact absurd (List.cons.inj hrest).1 hne
          | cons stop between =>
            obtain ⟨rfl, -⟩ := List.cons.inj hrest
            exact ⟨before, sample, between, rfl, hstops⟩
        · cases between with
          | nil => exact absurd (List.cons.inj hrest).1.symm hne
          | cons stop between =>
            obtain ⟨rfl, -⟩ := List.cons.inj hrest
            exact absurd rfl (hpassed first .empty between rfl).1
      · intro _
        rcases body_of_stops hsample hne hstops with hbody | hbody
        · exact ⟨1, _, by rw [loop, hbody], List.nodup_range⟩
        · exact ⟨1, _, by rw [loop, hbody], List.nodup_range⟩
    · have hsamples' : samples = (before ++ [sample]) ++ rest := by
        rw [hsamples, List.append_assoc]
        rfl
      rw [← ih hsamples' (hpassed.concat hne hstops)]
      constructor
      · rintro ⟨_ | fuel, result, hloop, hnodup⟩
        · exact nomatch hloop
        · rw [loop, body_of_not_stops hsample hne hstops] at hloop
          exact ⟨fuel, result, hloop, hnodup⟩
      · rintro ⟨fuel, result, hloop, hnodup⟩
        exact ⟨fuel + 1, result, by rw [loop, body_of_not_stops hsample hne hstops]; exact hloop,
          hnodup⟩

end Lemmas

/-- **When training returns**: it does, having consumed no sample twice, exactly if the id is
refused, if there is no memory to begin with, or if every empty sample lies behind one that ends the
loop. -/
theorem returns_iff (alloc : ℕ → Bool) (train : List UInt8 → List ℕ → Option (List UInt8))
    (enumerate : ℕ → Option Sample) (samples : List Sample) (dictId : ℕ)
    (henumerate : ∀ call, enumerate call = samples[call]?) :
    (∃ fuel result, trainDict alloc train enumerate fuel dictId = some result ∧
      result.consumed.Nodup) ↔
      (dictId = 0 ∨ dictId ≥ maxDictId) ∨ alloc dictSize = false ∨ alloc initialSize = false ∨
        Guarded alloc samples := by
  have hpassed : Passed alloc [] := fun _ _ _ h => nomatch List.append_eq_nil_iff.mp h.symm
  rw [← loop_returns_iff train henumerate (List.nil_append samples).symm hpassed]
  by_cases hid : dictId = 0 ∨ dictId ≥ maxDictId
  · exact iff_of_true ⟨0, ⟨none, []⟩, by rw [trainDict, if_pos hid], List.nodup_nil⟩ (.inl hid)
  by_cases hdict : alloc dictSize = false
  · exact iff_of_true ⟨0, ⟨none, []⟩, by rw [trainDict, if_neg hid, if_pos hdict], List.nodup_nil⟩
      (.inr (.inl hdict))
  by_cases hdata : alloc initialSize = false
  · exact iff_of_true ⟨0, ⟨none, []⟩, by rw [trainDict, if_neg hid, if_neg hdict, if_pos hdata],
      List.nodup_nil⟩ (.inr (.inr (.inl hdata)))
  have hloop : ∀ fuel, trainDict alloc train enumerate fuel dictId =
      loop alloc train enumerate fuel (stateAt enumerate []) := fun fuel => by
    rw [trainDict, if_neg hid, if_neg hdict, if_neg hdata]
    rfl
  simp only [hloop, hid, hdict, hdata, Bool.true_eq_false, false_or]

/-- Two samples, of one byte each. -/
theorem returns_twoSamples :
    ∃ fuel result, trainDict (fun _ => true) (fun data _ => some data)
      (fun call => [⟨[1], by decide⟩, ⟨[2], by decide⟩][call]?) fuel 1 = some result ∧
        result.consumed.Nodup := by
  refine (returns_iff _ _ _ [⟨[1], by decide⟩, ⟨[2], by decide⟩] 1 fun _ => rfl).mpr
    (.inr (.inr (.inr ?_)))
  intro before after heq
  have hmem : Sample.empty ∈ [⟨[1], by decide⟩, ⟨[2], by decide⟩] := by
    rw [heq]
    exact List.mem_append_right _ List.mem_cons_self
  simp [Sample.empty] at hmem

/-- One sample without a byte: there is no fuel that suffices. -/
theorem not_returns : ¬∃ fuel result, trainDict (fun _ => true) (fun data _ => some data)
    (fun call => [Sample.empty][call]?) fuel 1 = some result := by
  rintro ⟨fuel, result, htrain⟩
  have hsample : (fun call => [Sample.empty][call]?) ([] : List Sample).length =
    some Sample.empty := rfl
  have hloop := loop_of_empty (fun _ => true) (fun data _ => some data) hsample fuel
  exact nomatch hloop.symm.trans htrain

end Wcdb.TrainDict
