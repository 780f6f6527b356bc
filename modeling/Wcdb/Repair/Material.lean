import Wcdb.Base.Serialization
import Mathlib.Data.List.Sort

/-!
# The backup material and its format

A material is what a backup stores: the geometry of the database file and, for every table, its
definition, root page, sequence and the numbers and hashes of its leaf pages. The format has a
header, the info, a checksum and one sized block with all contents.

Writing and reading follow the source statement by statement. Reading works on an existing
material: info is overwritten and contents are appended, also when it fails halfway. Three
outcomes of the source that are not a returned error have their own names in `ReadFailure`: an
exception thrown by `reserve`, a read past the end of the buffer, and a loop that does not end.

The page loop of the writer counts with a signed 32-bit `i`, and both counts are read back
through a cast to `int`; `roundTrip_iff` says exactly which materials that excludes.
-/

namespace Wcdb

namespace Material

/-- The parts of a material that errors name. -/
inductive Element where
  | header
  | magic
  | version
  | info
  | seqTableRootPage
  | checksum
  | content
  | tableName
  | rootPage
  | sequence
  | sql
  | sqls
  | numberOfPages
  | pageno
  | pageChecksum
  deriving DecidableEq, Repr

/-- The text of an element in an error. -/
def Element.text : Element → String
  | .header => "Header"
  | .magic => "Magic"
  | .version => "Version"
  | .info => "Info"
  | .seqTableRootPage => "SeqTableRootPage"
  | .checksum => "Checksum"
  | .content => "Content"
  | .tableName => "TableName"
  | .rootPage => "rootPage"
  | .sequence => "Sequence"
  | .sql => "SQL"
  | .sqls => "SQLs"
  | .numberOfPages => "NumberOfPages"
  | .pageno => "Pageno"
  | .pageChecksum => "PageChecksum"

/-- Why `serialize` returns `false`: after `markAsEmpty`, or for want of memory. The last is not
a return: the signed counter of the page loop overflows. -/
inductive WriteFailure where
  | empty (element : Element)
  | memory
  | overflow
  deriving DecidableEq, Repr

/-- Why `deserialize` does not return `true`: `markAsCorrupt`, or one of the outcomes that are
not a return. -/
inductive ReadFailure where
  | corrupt (element : Element)
  | lengthError
  | outOfBounds
  | endless
  deriving DecidableEq, Repr

def magic : UInt32 := 0x57434442

/-- Version 1.0.0.1. -/
def version : UInt32 := 0x01000001

/-- The version that had no root pages. -/
def oldVersion : UInt32 := 0x01000000

def unknownPageNo : UInt32 := 0xffffffff

def headerSize : ℕ := 8

/-- `Material::Info`. -/
structure Info where
  pageSize : UInt32 := 0
  reservedBytes : UInt32 := 0
  walSalt : UInt32 × UInt32 := (0, 0)
  nBackFill : UInt32 := 0
  seqTableRootPage : UInt32 := unknownPageNo
  deriving DecidableEq, Repr

def Info.size : ℕ := 24

/-- `Material::Page`: a leaf page; number zero marks a deleted one. -/
structure Page where
  number : UInt32
  hash : UInt32
  deriving DecidableEq, Repr

/-- `Material::Content`. `checked` is not part of the format. -/
structure Content where
  tableName : List UInt8 := []
  sql : List UInt8 := []
  associatedSQLs : List (List UInt8) := []
  rootPage : UInt32 := unknownPageNo
  sequence : Int64 := 0
  verifiedPagenos : List Page := []
  checked : Bool := false
  deriving DecidableEq, Repr

end Material

open Material

/-- The material. `contentsMap` points into `contentsList`: a name and a position. -/
structure Material where
  info : Info := {}
  contentsList : List Content := []
  contentsMap : List (List UInt8 × ℕ) := []
  deriving DecidableEq, Repr

namespace Material

/-! ### Writing -/

section Serialize

open Serialization

variable (alloc : ℕ → Bool)

/-- A call whose result is not looked at. -/
def ignoringResult (f : Serialization → Bool × Serialization) (s : Serialization) :
    Bool × Serialization := (true, (f s).2)

def Info.serialize (info : Info) : Serialization → Bool × Serialization :=
  andThen (fun s => s.expand alloc Info.size)
    (forEach (fun value => ignoringResult (put4BytesUInt alloc value))
      [info.pageSize, info.reservedBytes, info.walSalt.1, info.walSalt.2, info.nBackFill,
        info.seqTableRootPage])

/-- The loop over the sorted pages from index `i` on, and what follows it. -/
def serializePages (size : ℕ) :
    ℕ → UInt32 → List Page → Serialization → Except WriteFailure Serialization
  | _, prePageNo, [], s =>
      -- no leaf page
      if prePageNo = 0 then
        match s.putVarintOk alloc 0 with
        | (true, s) => .ok s
        | (false, _) => .error .memory
      else .ok s
  | i, prePageNo, page :: pages, s =>
      let written : Bool × Serialization :=
        if page.number = 0 then (true, s)
        else if prePageNo = 0 then
          andThen (putVarintOk alloc (size - i))
            (andThen (putVarintOk alloc page.number.toNat) (put4BytesUInt alloc page.hash)) s
        else
          andThen (putVarintOk alloc (page.number - prePageNo).toNat)
            (put4BytesUInt alloc page.hash) s
      match written with
      | (true, s) =>
          -- `i++` on an `int`
          if i + 1 = 2 ^ 31 then .error .overflow
          else serializePages size (i + 1) (if page.number = 0 then prePageNo else page.number)
            pages s
      | (false, _) => .error .memory

/-- Sorted by number, as `std::sort` leaves them. -/
def sortPages (pages : List Page) : List Page :=
  pages.mergeSort fun a b => decide (a.number ≤ b.number)

def Content.serialize (c : Content) (s : Serialization) : Except WriteFailure Serialization :=
  let head := andThen (putSizedString alloc c.tableName)
    (andThen (putVarintOk alloc c.rootPage.toNat)
      (andThen (putVarintOk alloc c.sequence.toUInt64.toNat)
        (andThen (putSizedString alloc c.sql)
          (andThen (putVarintOk alloc c.associatedSQLs.length)
            (forEach (putSizedString alloc) c.associatedSQLs)))))
  match head s with
  | (true, s) => serializePages alloc c.verifiedPagenos.length 0 0 (sortPages c.verifiedPagenos) s
  | (false, _) => .error .memory

/-- The loop over the contents. -/
def serializeContents : List Content → Serialization → Except WriteFailure Serialization
  | [], encoder => .ok encoder
  | element :: contents, encoder =>
      if element.tableName = [] then .error (.empty .tableName)
      else if element.sql = [] then .error (.empty .sql)
      else do
        let encoder ← element.serialize alloc encoder
        serializeContents contents encoder

/-- One bit of the reflected polynomial of `crc32`. -/
def crcBit (crc : UInt32) : UInt32 :=
  if crc &&& 1 = 1 then (crc >>> 1) ^^^ 0xedb88320 else crc >>> 1

/-- `UnsafeData::hash`: `crc32`, with the size cast to 32 bits. -/
def crc32 (data : List UInt8) : UInt32 :=
  ((data.take (u32 data.length)).foldl
    (fun crc byte => Nat.iterate crcBit 8 (crc ^^^ byte.toUInt32)) 0xffffffff) ^^^ 0xffffffff

variable (hash : List UInt8 → UInt32)

/-- The checksum of a block; that of an empty block is zero. -/
def checksum (data : List UInt8) : UInt32 := if data = [] then 0 else hash data

def serializeData (data : List UInt8) : Serialization → Bool × Serialization :=
  andThen (put4BytesUInt alloc (checksum hash data)) (putSizedString alloc data)

/-- `Material::serialize`. Both buffers draw on one allocator. -/
def serialize (m : Material) (s : Serialization) : Except WriteFailure Serialization :=
  let head := andThen (fun s => s.expand alloc headerSize)
    (andThen (ignoringResult (put4BytesUInt alloc magic))
      (andThen (ignoringResult (put4BytesUInt alloc version)) (m.info.serialize alloc)))
  match head s with
  | (false, _) => .error .memory
  | (true, s) => do
      let encoder ← serializeContents alloc m.contentsList
        { empty with allocations := s.allocations }
      match serializeData alloc hash encoder.bytes
        { s with allocations := encoder.allocations } with
      | (true, s) => .ok s
      | (false, _) => .error .memory

end Serialize

/-! ### Reading -/

section Deserialize

open Deserialization

/-- The value of a cast to `int`. -/
def int32 (x : ℕ) : ℤ := if x % 2 ^ 32 < 2 ^ 31 then (x % 2 ^ 32 : ℕ) else (x % 2 ^ 32 : ℕ) - 2 ^ 32

/-- A sized string that must not be empty. -/
def readSized (element : Element) (d : Deserialization) :
    Except ReadFailure (List UInt8 × Deserialization) :=
  match d.advanceSized with
  | ((0, _), _) => .error (.corrupt element)
  | ((_ + 1, none), _) => .error .outOfBounds
  | ((_ + 1, some bytes), d) => if bytes = [] then .error (.corrupt element) else .ok (bytes, d)

def readVarint (element : Element) (d : Deserialization) :
    Except ReadFailure (ℕ × Deserialization) :=
  match d.advanceVarint with
  | ((0, _), _) => .error (.corrupt element)
  | ((_ + 1, value), d) => .ok (value, d)

def read4Bytes (element : Element) (d : Deserialization) :
    Except ReadFailure (UInt32 × Deserialization) :=
  if d.canAdvance 4 then .ok d.advance4BytesUInt else .error (.corrupt element)

/-- `Info::deserialize`: the new info, also after a failure. -/
def Info.deserialize (info : Info) (d : Deserialization) :
    Except ReadFailure Deserialization × Info :=
  if !d.canAdvance (Info.size - 4) then (.error (.corrupt .info), info)
  else
    let (pageSize, d) := d.advance4BytesUInt
    let (reservedBytes, d) := d.advance4BytesUInt
    let (walSalt₁, d) := d.advance4BytesUInt
    let (walSalt₂, d) := d.advance4BytesUInt
    let (nBackFill, d) := d.advance4BytesUInt
    let info := { info with pageSize, reservedBytes, walSalt := (walSalt₁, walSalt₂), nBackFill }
    if version ≤ d.dataVersion then
      match read4Bytes .seqTableRootPage d with
      | .error e => (.error e, info)
      | .ok (seqTableRootPage, d) => (.ok d, { info with seqTableRootPage })
    else (.ok d, info)

/-- The loop over the associated SQLs, which are pushed to the back. -/
def readSQLs : ℕ → List (List UInt8) → Deserialization →
    Except ReadFailure Deserialization × List (List UInt8)
  | 0, sqls, d => (.ok d, sqls)
  | n + 1, sqls, d =>
      match readSized .sqls d with
      | .error e => (.error e, sqls)
      | .ok (buffer, d) => readSQLs n (sqls ++ [buffer]) d

/-- The loop over the pages. -/
def readPages : ℕ → ℕ → List Page → Deserialization →
    Except ReadFailure Deserialization × List Page
  | 0, _, pages, d => (.ok d, pages)
  | n + 1, prePageNo, pages, d =>
      match readVarint .pageno d with
      | .error e => (.error e, pages)
      | .ok (varint, d) =>
      match read4Bytes .pageChecksum d with
      | .error e => (.error e, pages)
      | .ok (hash, d) =>
        if version ≤ d.dataVersion then
          readPages n (u64 (prePageNo + varint))
            (pages ++ [⟨UInt32.ofNat (u64 (varint + prePageNo)), hash⟩]) d
        else readPages n prePageNo (pages ++ [⟨UInt32.ofNat varint, hash⟩]) d

/-- `Content::deserialize`: the new content, also after a failure. -/
def Content.deserialize (c : Content) (d : Deserialization) :
    Except ReadFailure Deserialization × Content :=
  match readSized .tableName d with
  | .error e => (.error e, c)
  | .ok (tableName, d) =>
  let c := { c with tableName }
  match (if version ≤ d.dataVersion then readVarint .rootPage d else .ok (c.rootPage.toNat, d)) with
  | .error e => (.error e, c)
  | .ok (pageNo, d) =>
  let c := { c with rootPage := UInt32.ofNat pageNo }
  match readVarint .sequence d with
  | .error e => (.error e, c)
  | .ok (varint, d) =>
  let c := { c with sequence := (UInt64.ofNat varint).toInt64 }
  match readSized .sql d with
  -- the string is assigned before it is looked at
  | .error e => (.error e, { c with sql := [] })
  | .ok (sql, d) =>
  let c := { c with sql }
  match readVarint .sqls d with
  | .error e => (.error e, c)
  | .ok (varint, d) =>
  match readSQLs (int32 varint).toNat [] d with
  | (.error e, associatedSQLs) => (.error e, { c with associatedSQLs })
  | (.ok d, associatedSQLs) =>
  let c := { c with associatedSQLs }
  match readVarint .numberOfPages d with
  | .error e => (.error e, c)
  | .ok (varint, d) =>
  if int32 varint < 0 then (.error .lengthError, c)
  else
    let (result, verifiedPagenos) := readPages (int32 varint).toNat 0 c.verifiedPagenos d
    (result, { c with verifiedPagenos })

variable (hash : List UInt8 → UInt32)

def deserializeData (d : Deserialization) : Except ReadFailure (List UInt8) := do
  let (checksum, d) ← read4Bytes .checksum d
  match d.advanceSized with
  | ((0, _), _) => .error (.corrupt .content)
  | ((_ + 1, none), _) => .error .outOfBounds
  | ((_ + 1, some data), _) =>
      if data ≠ [] then
        if checksum ≠ hash data then .error (.corrupt .checksum) else .ok data
      else if checksum ≠ 0 then .error (.corrupt .checksum) else .ok data

/-- `contentsMap[tableName] = &content`. -/
def assign (map : List (List UInt8 × ℕ)) (tableName : List UInt8) (position : ℕ) :
    List (List UInt8 × ℕ) :=
  (tableName, position) :: map.filter fun entry => entry.1 ≠ tableName

/-- The loop `while (!decoder.ended())`. -/
def deserializeContents : ℕ → Material → Deserialization → Except ReadFailure Unit × Material
  | 0, m, _ => (.error .endless, m)
  | fuel + 1, m, decoder =>
      if decoder.ended then (.ok (), m)
      else
        match Content.deserialize {} decoder with
        | (.error e, content) =>
            (.error e, { m with contentsList := m.contentsList ++ [content] })
        | (.ok decoder, content) =>
            deserializeContents fuel
              { m with
                contentsList := m.contentsList ++ [content]
                contentsMap := assign m.contentsMap content.tableName m.contentsList.length }
              decoder

/-- `Material::deserialize` into `m`. -/
def deserialize (m : Material) (d : Deserialization) : Except ReadFailure Unit × Material :=
  if !d.canAdvance headerSize then (.error (.corrupt .header), m)
  else
    let (magicValue, d) := d.advance4BytesUInt
    let (versionValue, d) := d.advance4BytesUInt
    if magicValue ≠ magic then (.error (.corrupt .magic), m)
    else if versionValue ≠ oldVersion ∧ versionValue ≠ version then
      (.error (.corrupt .version), m)
    else
      match m.info.deserialize { d with dataVersion := versionValue } with
      | (.error e, info) => (.error e, { m with info })
      | (.ok d, info) =>
        let m := { m with info }
        match deserializeData hash d with
        | .error e => (.error e, m)
        | .ok data => deserializeContents (data.length + 1) m ⟨data, 0, d.dataVersion⟩

end Deserialize

end Material

end Wcdb
