import Wcdb.Base.FixedInt
import Mathlib.Algebra.Order.Ring.Int
import Mathlib.Data.Int.Order.Basic

/-!
# Reading the write-ahead log

`Wal::doInitialize` decides which pages of the log a repair sees. It asks the `-shm` file how
far the log is checkpointed (`backfill`) and how far it is valid (`maxFrame`), checks the header
of the log, and walks over the frames from `backfill + 1` on: each must carry the **salt** of the
header and continue the chain of **checksums**. The pages of a transaction are buffered and
folded into `pages2Frames` at its commit frame.

Files are a size and a function from offsets to bytes, so that a log of any length is a value.
The `int` arithmetic of the source is kept: the size of the log is cast to 32 bits before the
frames are counted (`numberOfFramesInFile`), and the `uint32_t` fields of the `-shm` file become
signed ones on the way.
-/

namespace Wcdb.Repair

open Deserialization (get4BytesUInt)

/-- `std::numeric_limits<int>::max()`. -/
def maxInt : ℤ := 2 ^ 31 - 1

/-- The bytes of a file. -/
structure FileData where
  size : ℕ
  byte : ℕ → UInt8

/-- `FileHandle::map`, which has to deliver all the bytes asked for. -/
def FileData.map (f : FileData) (offset : ℤ) (size : ℕ) : Option (List UInt8) :=
  if 0 ≤ offset ∧ offset.toNat + size ≤ f.size then
    some ((List.range size).map fun i => f.byte (offset.toNat + i))
  else none

/-- What `stat` and `open` find at a path. -/
inductive OnDisk where
  | unreadable
  | missing
  | file (opens : Bool) (data : FileData)

/-- `FileManager::getFileSize`: a missing file has size zero. -/
def OnDisk.getFileSize : OnDisk → Option ℕ
  | .unreadable => none
  | .missing => some 0
  | .file _ data => some data.size

/-- `FileHandle::open`, read-only. -/
def OnDisk.open? : OnDisk → Option FileData
  | .file true data => some data
  | _ => none

abbrev Salt := UInt32 × UInt32

abbrev Checksum := UInt32 × UInt32

/-- The first word of the bytes, in the order of the host. -/
def hostWord (isBigEndian : Bool) : List UInt8 → UInt32
  | a :: b :: c :: d :: _ =>
      if isBigEndian then get4BytesUInt [a, b, c, d] else get4BytesUInt [d, c, b, a]
  | _ => 0

/-! ### The `-shm` file -/

/-- The fields of `Shm` that are read. -/
structure Shm where
  maxFrame : UInt32
  backfill : UInt32
  salt : Salt
  deriving DecidableEq, Repr

/-- A `Shm` before `doInitialize`: `maxFrame` is the largest `uint32_t`, the checkpoint
information is zeroed, and nothing is written to the salt, which holds what its memory held. -/
def Shm.fresh (memory : Salt) : Shm := ⟨0xFFFFFFFF, 0, memory⟩

/-- `Shm::doInitialize`; `none` when it returns `false`. -/
def Shm.doInitialize (isBigEndian : Bool) (disk : OnDisk) (memory : Salt) : Option Shm := do
  let fileSize ← disk.getFileSize
  if fileSize = 0 then return Shm.fresh memory
  let file ← disk.open?
  if fileSize < 48 then none
  let data ← file.map 0 136
  if hostWord isBigEndian data ≠ 3007000 then none
  return { maxFrame := hostWord isBigEndian (data.drop 16)
           backfill := hostWord isBigEndian (data.drop 96)
           salt := (get4BytesUInt (data.drop 32), get4BytesUInt (data.drop 36)) }

/-! ### Frames -/

/-- What decides how a log is read: the byte order of the host and the page size of the database,
which `Pager::doInitialize` has checked. -/
structure LogFormat where
  isBigEndian : Bool
  pageSize : ℕ
  pageSize_ge : 512 ≤ pageSize

/-- The bytes of a log. -/
structure Log extends LogFormat where
  file : FileData

def byteSwap32 (x : UInt32) : UInt32 :=
  ((x &&& 0xFF) <<< 24) + ((x &&& 0xFF00) <<< 8) + ((x &&& 0xFF0000) >>> 8) +
    ((x &&& 0xFF000000) >>> 24)

/-- The loop of `Wal::calculateChecksum`, two words at a time. -/
def checksumLoop (load : List UInt8 → UInt32) : List UInt8 → Checksum → Checksum
  | a :: b :: c :: d :: e :: f :: g :: h :: rest, (first, second) =>
      let first := first + (load [a, b, c, d] + second)
      let second := second + (load [e, f, g, h] + first)
      checksumLoop load rest (first, second)
  | _, checksum => checksum

namespace Frame

/-! The fields of a frame, from its bytes. -/

def pageno (data : List UInt8) : ℤ := int32 (get4BytesUInt data).toNat

def truncate (data : List UInt8) : UInt32 := get4BytesUInt (data.drop 4)

def salt (data : List UInt8) : Salt := (get4BytesUInt (data.drop 8), get4BytesUInt (data.drop 12))

def checksum (data : List UInt8) : Checksum :=
  (get4BytesUInt (data.drop 16), get4BytesUInt (data.drop 20))

end Frame

namespace Log

variable (L : Log)

def headerSize : ℕ := 32

def frameSize : ℕ := 24 + L.pageSize

/-- The 32 bytes of the header. -/
def header : List UInt8 := (List.range headerSize).map L.file.byte

def magic : UInt32 := get4BytesUInt L.header

def isNativeChecksum : Bool := decide (L.magic &&& 1 = 1) == L.isBigEndian

/-- The salt in the header. -/
def salt : Salt := (get4BytesUInt (L.header.drop 16), get4BytesUInt (L.header.drop 20))

/-- The checksum in the header. -/
def headerChecksum : Checksum :=
  (get4BytesUInt (L.header.drop 24), get4BytesUInt (L.header.drop 28))

/-- How `calculateChecksum` loads a word. -/
def load (bytes : List UInt8) : UInt32 :=
  if L.isNativeChecksum then hostWord L.isBigEndian bytes
  else byteSwap32 (hostWord L.isBigEndian bytes)

def calculateChecksum (data : List UInt8) (checksum : Checksum) : Checksum :=
  checksumLoop L.load data checksum

/-- The place of a frame in the file; frames are counted from one. -/
def frameOffset (frameno : ℤ) : ℤ := headerSize + L.frameSize * (frameno - 1)

/-- `Wal::acquireFrameData`. -/
def acquireFrameData (frameno : ℤ) : Option (List UInt8) :=
  L.file.map (L.frameOffset frameno) L.frameSize

/-- `Frame::doInitialize`: the bytes of a frame that carries the salt. -/
def initializeFrame (salt : Salt) (frameno : ℤ) : Option (List UInt8) := do
  let data ← L.acquireFrameData frameno
  if Frame.salt data ≠ salt then none
  return data

/-- `Frame::calculateChecksum`: the page number and the size, then the page. -/
def frameChecksum (data : List UInt8) (source : Checksum) : Checksum :=
  L.calculateChecksum ((data.drop 24).take L.pageSize) (L.calculateChecksum (data.take 8) source)

end Log

/-! ### `Wal::doInitialize` -/

/-- The state of `Wal`. Maps and sets of page numbers are functions. -/
structure Wal where
  fileSize : ℕ
  truncate : UInt32
  nbackfill : ℤ
  maxFrame : ℤ
  salt : Salt
  pages2Frames : ℤ → Option ℤ
  disposedPages : ℤ → Bool

namespace Wal

/-- A `Wal` with the salt and the backfill that were set from outside. -/
def fresh (salt : Salt) (nbackfill : ℤ) : Wal where
  fileSize := 0
  truncate := 0xFFFFFFFF
  nbackfill := nbackfill
  maxFrame := 0
  salt := salt
  pages2Frames := fun _ => none
  disposedPages := fun _ => false

def isCheckpointIncreasedSalt (before after : Salt) : Bool :=
  before.1 + 1 = after.1 ∧ before.2 ≠ after.2

def dispose (w : Wal) : Wal :=
  { w with
    disposedPages := fun p => w.disposedPages p || (w.pages2Frames p).isSome
    pages2Frames := fun _ => none
    truncate := 0xFFFFFFFF
    fileSize := 0
    maxFrame := 0
    salt := (0, 0) }

/-- How the walk over the frames ends. -/
inductive ScanEnd where
  | finished
  | unreadable
  | corrupted
  deriving DecidableEq, Repr

/-- What the walk over the frames changes. -/
structure Scan where
  checksum : Checksum
  committedRecords : ℤ → Option ℤ
  truncate : UInt32
  maxFrame : ℤ
  pages2Frames : ℤ → Option ℤ

/-- One frame that carries the salt and continues the chain. A commit frame folds the buffered
records in. -/
def Scan.frame (s : Scan) (frameno : ℤ) (data : List UInt8) : Scan :=
  let records := fun p => if p = Frame.pageno data then some frameno else s.committedRecords p
  if Frame.truncate data ≠ 0 then
    { checksum := Frame.checksum data
      committedRecords := fun _ => none
      truncate := Frame.truncate data
      maxFrame := frameno
      pages2Frames := fun p => (records p).or (s.pages2Frames p) }
  else { s with checksum := Frame.checksum data, committedRecords := records }

/-- The loop over the frames. A broken chain is a corruption when the `-shm` file is trusted and
the end of the log otherwise. -/
def scanFrames (L : Log) (shmLegality : Bool) (salt : Salt) : List ℤ → Scan → ScanEnd × Scan
  | [], s => (.finished, s)
  | frameno :: rest, s =>
    match L.initializeFrame salt frameno with
    | none => (.unreadable, s)
    | some data =>
      if L.frameChecksum data s.checksum ≠ Frame.checksum data then
        (if shmLegality then .corrupted else .finished, s)
      else scanFrames L shmLegality salt rest (s.frame frameno data)

/-- The frame numbers `nbackfill + 1, …, maxWalFrame`. -/
def frameNumbers (nbackfill maxWalFrame : ℤ) : List ℤ :=
  (List.range (maxWalFrame - nbackfill).toNat).map fun i : ℕ => nbackfill + 1 + i

/-- The number of frames, from the size of the file cast to `int`. -/
def numberOfFramesInFile (L : Log) : ℤ :=
  (int32 L.file.size - Log.headerSize).tdiv L.frameSize

/-- The backfill and the bound on the frames, when the salt at hand is that of another log than
the one with salt `salt`: nothing of it holds. -/
def reconcile (known : Salt) (nbackfill maxWalFrame : ℤ) (salt : Salt) : ℤ × ℤ :=
  if known ≠ (0, 0) ∧ known ≠ salt ∧ ¬ (isCheckpointIncreasedSalt known salt ∧ 0 < nbackfill) then
    (0, maxInt)
  else (nbackfill, maxWalFrame)

/-- The checksum the first frame has to continue. -/
def chainStart (L : Log) (salt : Salt) (nbackfill : ℤ) : Option Checksum :=
  if 0 < nbackfill then (L.initializeFrame salt nbackfill).map Frame.checksum
  else some L.headerChecksum

/-- The part of `doInitialize` after the log is opened and its header read. -/
def readFrames (L : Log) (shmLegality : Bool) (maxWalFrame : ℤ) (w : Wal) : Bool × Wal :=
  if w.nbackfill ≥ maxWalFrame then (true, w)
  else if L.calculateChecksum (L.header.take 24) (0, 0) ≠ L.headerChecksum then (false, w)
  else
    match chainStart L w.salt w.nbackfill with
    | none => (false, w.dispose)
    | some checksum =>
      match scanFrames L shmLegality w.salt (frameNumbers w.nbackfill maxWalFrame)
          ⟨checksum, fun _ => none, w.truncate, w.maxFrame, w.pages2Frames⟩ with
      | (outcome, s) =>
        let w := { w with
          truncate := s.truncate, maxFrame := s.maxFrame, pages2Frames := s.pages2Frames }
        match outcome with
        | .unreadable => (false, w.dispose)
        | .corrupted => (false, w)
        | .finished =>
          (true, { w with
            disposedPages := fun p => w.disposedPages p || (s.committedRecords p).isSome })

/-- The part of `doInitialize` after the `-shm` file is read: `w` holds the salt and the backfill
at hand. -/
def readLog (format : LogFormat) (disk : OnDisk) (shmLegality : Bool) (maxWalFrame : ℤ) (w : Wal) :
    Bool × Wal :=
  match disk.getFileSize with
  | none => (false, w)
  | some fileSize =>
    let w := { w with fileSize := fileSize }
    if fileSize = 0 then (true, w)
    else
      match disk.open? with
      | none => (false, w)
      | some file =>
        let L : Log := ⟨format, file⟩
        if file.size < Log.headerSize then (false, w)
        else if L.magic &&& 0xFFFFFFFE ≠ 0x377F0682 then (false, w)
        else
          let (nbackfill, bound) := reconcile w.salt w.nbackfill maxWalFrame L.salt
          readFrames L shmLegality (min (numberOfFramesInFile L) bound)
            { w with nbackfill := nbackfill, salt := L.salt }

/-- The salt, the backfill and the bound on the frames at hand before the log is opened: those of
the `-shm` file when it is trusted, and `known`, set from outside, when it is not. -/
def atHand (isBigEndian : Bool) (shm : OnDisk) (memory : Salt) (shmLegality : Bool)
    (known : Salt × ℤ) : Option (Salt × ℤ × ℤ) :=
  if shmLegality then
    (Shm.doInitialize isBigEndian shm memory).map fun s =>
      (s.salt, int32 s.backfill.toNat, int32 s.maxFrame.toNat)
  else some (known.1, known.2, maxInt)

/-- `Wal::doInitialize`. -/
def doInitialize (format : LogFormat) (wal shm : OnDisk) (memory : Salt) (shmLegality : Bool)
    (known : Salt × ℤ) : Bool × Wal :=
  match atHand format.isBigEndian shm memory shmLegality known with
  | none => (false, fresh known.1 known.2)
  | some (salt, nbackfill, maxWalFrame) =>
    readLog format wal shmLegality maxWalFrame (fresh salt nbackfill)

end Wal

end Wcdb.Repair
