import Mathlib.Algebra.Order.Ring.Int
import Mathlib.Data.List.Basic
import Mathlib.Data.List.TakeDrop

/-!
# Reading and writing a whole file

`FileHandle::read` and `FileHandle::write` call `::read` and `::write` until everything is moved.
The results of these calls are a parameter (`System`): any short count, and any error. The offset of
the descriptor, the remaining size, the pointer and the count of the bytes moved before are advanced
each on its own; `ReadInv` and `WriteInv` say that they stay in step.

A call that is interrupted is made again; another error makes `read` return nothing at all, not the
bytes it has (`read_fails`). At the end of the file `read` looks at `errno` as well, which then has
the value that an earlier call has left.
-/

namespace Wcdb

/-- `UnsafeData::subdata`, empty where it crosses the border of the data. -/
def subdata (data : List UInt8) (offset size : ℕ) : List UInt8 :=
  if offset + size ≤ data.length then (data.drop offset).take size else []

/-- The values of `errno` that the loops tell apart. -/
inductive Errno where
  | eintr
  | edeverr
  | eilseq
  | einval
  | other (code : ℕ)
  deriving DecidableEq, Repr

/-- "This file may be permanently damaged". -/
def Errno.damaged (e : Errno) : Bool := e = .edeverr || e = .eilseq || e = .einval

namespace FileHandle

/-- The result of a call, before it is cut to what is possible. -/
inductive Answer where
  | count (n : ℕ)
  | error (e : Errno)
  deriving DecidableEq, Repr

/-- The system: the answers to the calls of a loop, whether `lseek` succeeds, and the blocks that
`malloc` returns, with whatever is in them. -/
structure System where
  results : ℕ → Answer
  seeks : Bool
  malloc : ℕ → Option (List UInt8)
  length_malloc : ∀ n block, malloc n = some block → block.length = n ∧ n < 2 ^ 63

/-- The bytes from `offset` on replaced by `bytes`. -/
def overwrite (contents : List UInt8) (offset : ℕ) (bytes : List UInt8) : List UInt8 :=
  contents.take offset ++ (bytes ++ contents.drop (offset + bytes.length))

section Model

variable (sys : System)

/-! ### Reading -/

/-- `::read`: at least one byte, except at the end of the file. -/
def readCall (file : List UInt8) (offset count : ℕ) : Answer → Except Errno (List UInt8)
  | .count n => .ok ((file.drop offset).take (min (max n 1) count))
  | .error e => .error e

/-- The variables of the loop of `read`; `offset` is that of the descriptor and `buffer` the pointer
into `data`. -/
structure ReadState where
  calls : ℕ := 0
  errno : Errno
  offset : ℕ := 0
  readSize : ℕ
  prior : ℕ := 0
  buffer : ℕ := 0
  data : List UInt8

/-- The loop of `read`, with `got` as it is at the end. -/
def readLoop (file : List UInt8) : ℕ → ReadState → Option (ℤ × ReadState)
  | 0, _ => none
  | fuel + 1, s =>
    match readCall file s.offset s.readSize (sys.results s.calls) with
    | .ok bytes =>
      let s := { s with
        calls := s.calls + 1
        offset := s.offset + bytes.length
        data := overwrite s.data s.buffer bytes }
      if bytes.length = s.readSize then some (bytes.length, s)
      else if bytes.length = 0 then
        -- `errno` is looked at although the call has not failed
        if s.errno.damaged then some (0, { s with prior := 0 }) else some (0, s)
      else
        readLoop file fuel { s with
          readSize := s.readSize - bytes.length
          prior := s.prior + bytes.length
          buffer := s.buffer + bytes.length }
    | .error e =>
      let s := { s with calls := s.calls + 1, errno := e }
      if e.damaged then some (-1, { s with prior := 0 })
      else if e = .eintr then readLoop file fuel s
      else some (-1, { s with prior := 0 })

/-- The bytes returned and the number of calls made. -/
structure ReadResult where
  bytes : List UInt8
  calls : ℕ
  deriving DecidableEq, Repr

def read (file : List UInt8) (errno : Errno) (fuel size : ℕ) : Option ReadResult :=
  if size = 0 then some ⟨[], 0⟩
  else
    match sys.malloc size with
    | none => some ⟨[], 0⟩
    | some block =>
      if sys.seeks then
        match readLoop sys file fuel { errno, readSize := size, data := block } with
        | none => none
        | some (got, s) =>
          let length := ((got + s.prior) % 2 ^ 64).toNat
          if length = size then some ⟨s.data, s.calls⟩ else some ⟨subdata s.data 0 length, s.calls⟩
      else some ⟨[], 0⟩

/-! ### Writing -/

def writeCall (count : ℕ) : Answer → Except Errno ℕ
  | .count n => .ok (min n count)
  | .error e => .error e

structure WriteState where
  calls : ℕ := 0
  offset : ℕ := 0
  size : ℕ
  prior : ℕ := 0
  buffer : ℕ := 0
  file : List UInt8

/-- The loop of `write`, with `wrote` as it is at the end. -/
def writeLoop (unsafeData : List UInt8) : ℕ → WriteState → Option (ℤ × WriteState)
  | 0, _ => none
  | fuel + 1, s =>
    match writeCall s.size (sys.results s.calls) with
    | .ok wrote =>
      let s := { s with
        calls := s.calls + 1
        offset := s.offset + wrote
        file := overwrite s.file s.offset ((unsafeData.drop s.buffer).take wrote) }
      if wrote = s.size then some (wrote, s)
      else if wrote = 0 then some (0, s)
      else
        writeLoop unsafeData fuel { s with
          size := s.size - wrote
          prior := s.prior + wrote
          buffer := s.buffer + wrote }
    | .error e =>
      let s := { s with calls := s.calls + 1 }
      if e = .eintr then writeLoop unsafeData fuel s else some (-1, s)

/-- What `write` returns, and the file after it. -/
def write (file unsafeData : List UInt8) (fuel : ℕ) : Option (Bool × List UInt8) :=
  if sys.seeks then
    match writeLoop sys unsafeData fuel { size := unsafeData.length, file } with
    | none => none
    | some (wrote, s) =>
      some (decide (((wrote + s.prior) % 2 ^ 64).toNat = unsafeData.length), s.file)
  else some (false, file)

end Model

/-! ### Overwriting -/

section Overwrite

variable {contents bytes : List UInt8} {offset : ℕ}

theorem take_overwrite (bytes : List UInt8) (h : offset ≤ contents.length) :
    (overwrite contents offset bytes).take (offset + bytes.length) =
      contents.take offset ++ bytes := by
  have hlen : (contents.take offset ++ bytes).length = offset + bytes.length := by
    rw [List.length_append, List.length_take, Nat.min_eq_left h]
  rw [overwrite, ← List.append_assoc, ← hlen, List.take_left]

theorem length_overwrite (h : offset ≤ contents.length) :
    (overwrite contents offset bytes).length = max contents.length (offset + bytes.length) := by
  simp only [overwrite, List.length_append, List.length_take, List.length_drop]
  omega

end Overwrite

/-! ### What a loop returns -/

section Lemmas

variable {sys : System} {file data : List UInt8} {size first : ℕ}

/-- The variables of the loop of `read` are in step: what was read is at the front of the block. -/
structure ReadInv (file : List UInt8) (size : ℕ) (s : ReadState) : Prop where
  offset : s.offset = s.prior
  buffer : s.buffer = s.prior
  readSize : s.readSize + s.prior = size
  pos : 0 < s.readSize
  length : s.data.length = size
  front : s.data.take s.prior = file.take s.prior
  inside : s.prior ≤ file.length
  errno : s.errno.damaged = false

/-- How the loop ends: with the bytes of the file, or with an error other than an interruption. -/
def ReadEnds (sys : System) (file : List UInt8) (size : ℕ) (got : ℤ) (s : ReadState) : Prop :=
  s.data.length = size ∧
    ((got + s.prior = min size file.length ∧
        s.data.take (min size file.length) = file.take size) ∨
      got = -1 ∧ s.prior = 0 ∧ ∃ i < s.calls, ∃ e, sys.results i = .error e ∧ e ≠ .eintr)

/-- The bytes of a call are those that follow in the file, and there are none only at its end. -/
theorem length_readCall {offset count n : ℕ} {bytes : List UInt8} (hcount : 0 < count)
    (h : readCall file offset count (.count n) = .ok bytes) :
    bytes = (file.drop offset).take bytes.length ∧ bytes.length ≤ count ∧
      bytes.length ≤ file.length - offset ∧ (bytes.length = 0 → file.length ≤ offset) := by
  obtain rfl := Except.ok.inj h
  have hlen : ((file.drop offset).take (min (max n 1) count)).length =
      min (min (max n 1) count) (file.length - offset) := by
    rw [List.length_take, List.length_drop]
  refine ⟨?_, by omega, by omega, by omega⟩
  rw [hlen, ← List.length_drop, ← List.take_eq_take_min]

/-- The bytes of a call are stored behind those that are there. -/
theorem ReadInv.front_overwrite {s : ReadState} (hs : ReadInv file size s) {bytes : List UInt8}
    (hbytes : bytes = (file.drop s.offset).take bytes.length) :
    (overwrite s.data s.buffer bytes).take (s.prior + bytes.length) =
      file.take (s.prior + bytes.length) := by
  have hle : s.buffer ≤ s.data.length := by
    have := hs.readSize
    rw [hs.buffer, hs.length]
    omega
  have htake := take_overwrite bytes hle
  rw [hs.buffer, hs.front] at htake
  rw [hs.buffer, htake, List.take_add, ← hs.offset, ← hbytes]

theorem ReadInv.length_overwrite {s : ReadState} (hs : ReadInv file size s) {bytes : List UInt8}
    (hle : bytes.length ≤ s.readSize) : (overwrite s.data s.buffer bytes).length = size := by
  have hsize := hs.readSize
  rw [FileHandle.length_overwrite (by rw [hs.buffer, hs.length]; omega), hs.buffer, hs.length]
  omega

theorem readLoop_ends (hfinite : ∀ i ≥ first, sys.results i ≠ .error .eintr) {fuel : ℕ}
    {s : ReadState} (hs : ReadInv file size s) (hfuel : (first - s.calls) + s.readSize < fuel) :
    ∃ got t, readLoop sys file fuel s = some (got, t) ∧ ReadEnds sys file size got t := by
  induction fuel generalizing s with
  | zero => exact absurd hfuel (Nat.not_lt_zero _)
  | succ fuel ih =>
    have hsize := hs.readSize
    have hpos := hs.pos
    have hinside := hs.inside
    rw [readLoop]
    cases hresult : sys.results s.calls with
    | count n =>
      obtain ⟨bytes, hread⟩ : ∃ bytes, readCall file s.offset s.readSize (.count n) = .ok bytes :=
        ⟨_, rfl⟩
      obtain ⟨hbytes, hcount, hfile, hend⟩ := length_readCall hpos hread
      have hfront := hs.front_overwrite hbytes
      have hlength := hs.length_overwrite hcount
      rw [hs.offset] at hfile hend
      rw [hread]
      dsimp only
      split_ifs with hall hzero hdamaged
      · -- everything is there
        refine ⟨_, _, rfl, hlength, .inl ⟨?_, ?_⟩⟩
        · push_cast
          omega
        · rw [show min size file.length = s.prior + bytes.length by omega, hfront]
          congr 1
          omega
      · exact absurd (hs.errno.symm.trans hdamaged) Bool.false_ne_true
      · -- the end of the file
        have hprior : s.prior = file.length := by
          have := hend hzero
          omega
        refine ⟨_, _, rfl, hlength, .inl ⟨?_, ?_⟩⟩
        · push_cast
          omega
        · rw [hzero, Nat.add_zero] at hfront
          rw [show min size file.length = s.prior by omega, hfront,
            List.take_of_length_le hprior.ge, List.take_of_length_le (by omega)]
      · have hnext := ih (s := { s with
            calls := s.calls + 1
            offset := s.offset + bytes.length
            data := overwrite s.data s.buffer bytes
            readSize := s.readSize - bytes.length
            prior := s.prior + bytes.length
            buffer := s.buffer + bytes.length })
          ⟨by rw [← hs.offset], by rw [← hs.buffer], by dsimp only; omega, by dsimp only; omega,
            hlength, hfront, by dsimp only; omega, hs.errno⟩ (by dsimp only; omega)
        exact hnext
    | error e =>
      dsimp only [readCall]
      split_ifs with hdamaged hintr
      · exact ⟨_, _, rfl, hs.length, .inr ⟨rfl, rfl, s.calls, Nat.lt_succ_self _, e, hresult, by
          rintro rfl
          exact absurd hdamaged (by decide)⟩⟩
      · subst hintr
        have hlt : s.calls < first := by
          by_contra hge
          exact hfinite s.calls (Nat.le_of_not_lt hge) hresult
        exact ih (s := { s with calls := s.calls + 1, errno := .eintr })
          ⟨hs.offset, hs.buffer, hs.readSize, hs.pos, hs.length, hs.front, hs.inside, rfl⟩
          (by dsimp only; omega)
      · exact ⟨_, _, rfl, hs.length,
          .inr ⟨rfl, rfl, s.calls, Nat.lt_succ_self _, e, hresult, hintr⟩⟩

/-- The variables of the loop of `write` are in step: what was written is at the front of the
file. -/
structure WriteInv (data : List UInt8) (s : WriteState) : Prop where
  offset : s.offset = s.prior
  buffer : s.buffer = s.prior
  size : s.size + s.prior = data.length
  front : s.file.take s.prior = data.take s.prior
  inside : s.prior ≤ s.file.length

/-- How the loop ends: with all bytes in the file, or with a count that is not their number. -/
def WriteEnds (data : List UInt8) (wrote : ℤ) (s : WriteState) : Prop :=
  (wrote + s.prior = data.length ∧ s.file.take data.length = data) ∨
    -1 ≤ wrote + s.prior ∧ wrote + s.prior < data.length

theorem WriteInv.front_overwrite {s : WriteState} (hs : WriteInv data s) {wrote : ℕ}
    (hle : wrote ≤ s.size) :
    (overwrite s.file s.offset ((data.drop s.buffer).take wrote)).take (s.prior + wrote) =
        data.take (s.prior + wrote) ∧
      s.prior + wrote ≤ (overwrite s.file s.offset ((data.drop s.buffer).take wrote)).length := by
  have hsize := hs.size
  have hlen : ((data.drop s.buffer).take wrote).length = wrote := by
    rw [List.length_take, List.length_drop, hs.buffer]
    omega
  have hoffset : s.offset ≤ s.file.length := hs.offset ▸ hs.inside
  have htake := take_overwrite ((data.drop s.buffer).take wrote) hoffset
  rw [hlen, hs.offset, hs.front] at htake
  refine ⟨?_, ?_⟩
  · rw [hs.offset, htake, hs.buffer, List.take_add]
  · rw [FileHandle.length_overwrite hoffset, hlen, hs.offset]
    exact Nat.le_max_right _ _

theorem writeLoop_ends (hfinite : ∀ i ≥ first, sys.results i ≠ .error .eintr) {fuel : ℕ}
    {s : WriteState} (hs : WriteInv data s) (hfuel : (first - s.calls) + s.size < fuel) :
    ∃ wrote t, writeLoop sys data fuel s = some (wrote, t) ∧ WriteEnds data wrote t := by
  induction fuel generalizing s with
  | zero => exact absurd hfuel (Nat.not_lt_zero _)
  | succ fuel ih =>
    have hsize := hs.size
    rw [writeLoop]
    cases hresult : sys.results s.calls with
    | count n =>
      obtain ⟨wrote, hwrite, hle⟩ : ∃ wrote, writeCall s.size (.count n) = .ok wrote ∧
          wrote ≤ s.size := ⟨_, rfl, Nat.min_le_right _ _⟩
      obtain ⟨hfront, hlength⟩ := hs.front_overwrite hle
      rw [hwrite]
      dsimp only
      split_ifs with hall hzero
      · refine ⟨_, _, rfl, .inl ⟨?_, ?_⟩⟩
        · push_cast
          omega
        · rw [show data.length = s.prior + wrote by omega, hfront,
            List.take_of_length_le (by omega)]
      · refine ⟨_, _, rfl, .inr ⟨?_, ?_⟩⟩
        · push_cast
          omega
        · push_cast
          omega
      · exact ih (s := { s with
            calls := s.calls + 1
            offset := s.offset + wrote
            file := overwrite s.file s.offset ((data.drop s.buffer).take wrote)
            size := s.size - wrote
            prior := s.prior + wrote
            buffer := s.buffer + wrote })
          ⟨by rw [← hs.offset], by rw [← hs.buffer], by dsimp only; omega, hfront, hlength⟩
          (by dsimp only; omega)
    | error e =>
      dsimp only [writeCall]
      split_ifs with hintr
      · subst hintr
        have hlt : s.calls < first := by
          by_contra hge
          exact hfinite s.calls (Nat.le_of_not_lt hge) hresult
        exact ih (s := { s with calls := s.calls + 1 })
          ⟨hs.offset, hs.buffer, hs.size, hs.front, hs.inside⟩ (by dsimp only; omega)
      · refine ⟨_, _, rfl, .inr ⟨?_, ?_⟩⟩
        · push_cast
          omega
        · push_cast
          omega

end Lemmas

/-! ### The results of the functions -/

/-- `read` returns the bytes of the file up to the size, or nothing after a failure: there is no
memory, `lseek` fails, or a call does for another reason than an interruption. -/
def ReadResult.Correct (sys : System) (file : List UInt8) (size : ℕ) (r : ReadResult) : Prop :=
  r.bytes = file.take size ∨ r.bytes = [] ∧ (sys.malloc size = none ∨ sys.seeks = false ∨
    ∃ i < r.calls, ∃ e, sys.results i = .error e ∧ e ≠ .eintr)

section Results

variable {sys : System} {first : ℕ}

theorem read_correct (hfinite : ∀ i ≥ first, sys.results i ≠ .error .eintr) (file : List UInt8)
    {errno : Errno} (herrno : errno.damaged = false) (size : ℕ) :
    ∃ fuel r, read sys file errno fuel size = some r ∧ r.Correct sys file size := by
  refine ⟨first + size + 1, ?_⟩
  rw [read]
  by_cases hzero : size = 0
  · rw [if_pos hzero, hzero]
    exact ⟨_, rfl, .inl rfl⟩
  rw [if_neg hzero]
  cases hmalloc : sys.malloc size with
  | none => exact ⟨_, rfl, .inr ⟨rfl, .inl hmalloc⟩⟩
  | some block =>
    obtain ⟨hblock, hsize⟩ := sys.length_malloc size block hmalloc
    cases hseeks : sys.seeks with
    | false => exact ⟨_, rfl, .inr ⟨rfl, .inr (.inl hseeks)⟩⟩
    | true =>
      have hinv : ReadInv file size { errno, readSize := size, data := block } :=
        ⟨rfl, rfl, rfl, Nat.pos_of_ne_zero hzero, hblock, rfl, Nat.zero_le _, herrno⟩
      have hfuel : first - 0 + size < first + size + 1 := by omega
      obtain ⟨got, t, hloop, hends⟩ := readLoop_ends hfinite hinv hfuel
      simp only [hloop, if_true]
      obtain ⟨hlength, ⟨hcount, hfront⟩ | ⟨rfl, hprior, hfailed⟩⟩ := hends
      · have hresult : ((got + t.prior) % 2 ^ 64).toNat = min size file.length := by
          rw [hcount]
          omega
        rw [hresult]
        split_ifs with hall
        · refine ⟨_, rfl, .inl ?_⟩
          rw [hall, List.take_of_length_le hlength.le] at hfront
          exact hfront
        · refine ⟨_, rfl, .inl ?_⟩
          rw [subdata, if_pos (by omega), List.drop_zero, hfront]
      · have hresult : ((-1 + (t.prior : ℤ)) % 2 ^ 64).toNat = 2 ^ 64 - 1 := by
          rw [hprior]
          rfl
        rw [hresult, if_neg (by omega)]
        exact ⟨_, rfl, .inr ⟨if_neg (by omega), .inr (.inr hfailed)⟩⟩

theorem write_correct (hfinite : ∀ i ≥ first, sys.results i ≠ .error .eintr) (file : List UInt8)
    {data : List UInt8} (hdata : data.length < 2 ^ 63) :
    ∃ fuel result, write sys file data fuel = some result ∧
      (result.1 = true → result.2.take data.length = data) := by
  refine ⟨first + data.length + 1, ?_⟩
  rw [write]
  cases hseeks : sys.seeks with
  | false => exact ⟨_, rfl, fun h => absurd h Bool.false_ne_true⟩
  | true =>
    have hinv : WriteInv data { size := data.length, file } :=
      ⟨rfl, rfl, rfl, rfl, Nat.zero_le _⟩
    have hfuel : first - 0 + data.length < first + data.length + 1 := by omega
    obtain ⟨wrote, t, hloop, hends⟩ := writeLoop_ends hfinite hinv hfuel
    simp only [hloop, if_true]
    refine ⟨_, rfl, fun h => ?_⟩
    rcases hends with ⟨-, hfront⟩ | ⟨hlow, hhigh⟩
    · exact hfront
    · have hcount := of_decide_eq_true h
      omega

end Results

/-- **Short counts are handled**: if only finitely many calls are interrupted, and `errno` does not
happen to name a damaged file, then `read` returns the bytes of the file up to the size, or nothing
after a failure; and `write` returns, with `true` only if the file has all bytes in their places. -/
theorem short_counts_handled (sys : System) (file data : List UInt8) (errno : Errno)
    (size first : ℕ)
    (hfinite : ∀ i ≥ first, sys.results i ≠ .error .eintr) (herrno : errno.damaged = false)
    (hdata : data.length < 2 ^ 63) :
    (∃ fuel r, read sys file errno fuel size = some r ∧ r.Correct sys file size) ∧
      ∃ fuel result, write sys file data fuel = some result ∧
        (result.1 = true → result.2.take data.length = data) :=
  ⟨read_correct hfinite file herrno size, write_correct hfinite file hdata⟩

/-- A system with memory, where the calls have these answers and then fail. -/
def System.ofAnswers (answers : List Answer) : System where
  results i := answers.getD i (.error (.other 5))
  seeks := true
  malloc n := if n < 2 ^ 63 then some (List.replicate n 0) else none
  length_malloc n block h := by
    split_ifs at h with hlt
    rw [← Option.some.inj h, List.length_replicate]
    exact ⟨rfl, hlt⟩

/-- A call is interrupted, and the others move one byte each. -/
theorem short_counts_handled_interrupted :
    (∃ fuel r, read (.ofAnswers [.error .eintr, .count 1, .count 1]) [1, 2, 3] (.other 0) fuel 2 =
        some r ∧ r.Correct (.ofAnswers [.error .eintr, .count 1, .count 1]) [1, 2, 3] 2) ∧
      ∃ fuel result, write (.ofAnswers [.error .eintr, .count 1, .count 1]) [1, 2, 3] [4, 5] fuel =
        some result ∧ (result.1 = true → result.2.take 2 = [4, 5]) := by
  refine short_counts_handled _ [1, 2, 3] [4, 5] (.other 0) 2 3 ?_ rfl (by decide)
  intro i hi
  dsimp only [System.ofAnswers]
  rw [List.getD_eq_getElem?_getD, List.getElem?_eq_none hi]
  decide

/-- An error behind the first byte: the byte is not returned, and no fuel returns anything else. -/
theorem read_fails :
    (∀ fuel, read (.ofAnswers [.count 1]) [1, 2] (.other 0) (fuel + 2) 2 = some ⟨[], 2⟩) ∧
      [1, 2].take 2 = [1, 2] := by
  refine ⟨fun fuel => rfl, rfl⟩

end FileHandle

end Wcdb
