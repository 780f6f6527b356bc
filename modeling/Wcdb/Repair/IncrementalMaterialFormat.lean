import Wcdb.Repair.MaterialRoundTrip

/-!
# The format of the incremental material

The file of an incremental material has a header, the info, a checksum and one sized block with the
pages. Writing and reading follow the source. As with a backup material, what follows the sized
block is never looked at (`deserialize_behind`).

Two checks of the source report a corruption and go on to read four bytes that are not there; that
read is `ReadFailure.outOfBounds`.
-/

namespace Wcdb.Repair

open Serialization Deserialization

namespace IncrementalMaterial

/-- The parts that errors name. -/
inductive Element where
  | header
  | magic
  | version
  | salt
  | lastNBackfill
  | mxFrame
  | lastCheckpointFinish
  | backupTimes
  | checksum
  | content
  | page
  | pageNo
  | pageType
  | pageHash
  deriving DecidableEq, Repr

def Element.text : Element → String
  | .header => "Header"
  | .magic => "Magic"
  | .version => "Version"
  | .salt => "Salt"
  | .lastNBackfill => "LastNBackfill"
  | .mxFrame => "MxFrame"
  | .lastCheckpointFinish => "LastCheckpointFinish"
  | .backupTimes => "BackupTimes"
  | .checksum => "Checksum"
  | .content => "Content"
  | .page => "Page"
  | .pageNo => "PageNo"
  | .pageType => "PageType"
  | .pageHash => "PageHash"

inductive WriteFailure where
  | empty (element : Element)
  | memory
  deriving DecidableEq, Repr

inductive ReadFailure where
  | corrupt (element : Element)
  | outOfBounds
  | endless
  deriving DecidableEq, Repr

def magic : UInt32 := 0x57434441

def version : UInt32 := 0x01000000

def headerSize : ℕ := 8

/-- `IncrementalMaterial::Info`. -/
structure Info where
  lastWalSalt : UInt32 × UInt32 := (0, 0)
  currentWalSalt : UInt32 × UInt32 := (0, 0)
  lastNBackFill : UInt32 := 0
  currentNBackFill : UInt32 := 0
  lastSchemaCookie : UInt32 := 0
  lastCheckPointFinish : Bool := false
  lastBackupTime : UInt32 := 0
  incrementalBackupTimes : Int32 := 0
  deriving DecidableEq, Repr

def Info.saltSize : ℕ := 16

/-- `IncrementalMaterial::Page`; the type is an enumeration over `char`. -/
structure Page where
  number : UInt32 := 0
  type : Int8 := 0
  hash : UInt32 := 0
  deriving DecidableEq, Repr

end IncrementalMaterial

/-- The incremental material; `pages` are the entries of the map in the order of its iteration. -/
structure IncrementalMaterial where
  info : IncrementalMaterial.Info := {}
  pages : List (UInt32 × IncrementalMaterial.Page) := []
  deriving DecidableEq, Repr

namespace IncrementalMaterial

/-- The value of an `int` as a `uint64_t`. -/
def unsigned (x : ℤ) : ℕ := (x % 2 ^ 64).toNat

/-! ### Writing -/

section Serialize

variable (alloc : ℕ → Bool) (hash : List UInt8 → UInt32)

/-- The results of all calls but the first are not looked at. -/
def Info.serialize (info : Info) : Serialization → Bool × Serialization :=
  andThen (fun s => s.expand alloc Info.saltSize) (forEach Material.ignoringResult [
    put4BytesUInt alloc info.lastWalSalt.1, put4BytesUInt alloc info.lastWalSalt.2,
    put4BytesUInt alloc info.currentWalSalt.1, put4BytesUInt alloc info.currentWalSalt.2,
    putVarintOk alloc info.lastNBackFill.toNat, putVarintOk alloc info.currentNBackFill.toNat,
    put4BytesUInt alloc info.lastSchemaCookie, putVarintOk alloc info.lastCheckPointFinish.toNat,
    put4BytesUInt alloc info.lastBackupTime,
    putVarintOk alloc (unsigned info.incrementalBackupTimes.toInt)])

def Page.serialize (page : Page) : Serialization → Bool × Serialization :=
  andThen (putVarintOk alloc page.number.toNat)
    (if page.hash ≠ 0 then
      andThen (putVarintOk alloc (unsigned (2 * page.type.toInt + 1)))
        (put4BytesUInt alloc page.hash)
    else putVarintOk alloc (unsigned (2 * page.type.toInt)))

/-- The loop over the pages. -/
def serializePages : List (UInt32 × Page) → Serialization → Except WriteFailure Serialization
  | [], encoder => .ok encoder
  | element :: pages, encoder =>
      if element.2.number = 0 then .error (.empty .page)
      else
        match element.2.serialize alloc encoder with
        | (true, encoder) => serializePages pages encoder
        | (false, _) => .error .memory

/-- `IncrementalMaterial::serialize`. Both buffers draw on one allocator. -/
def serialize (m : IncrementalMaterial) (s : Serialization) : Except WriteFailure Serialization :=
  let head := andThen (fun s => s.expand alloc headerSize)
    (andThen (Material.ignoringResult (put4BytesUInt alloc magic))
      (andThen (Material.ignoringResult (put4BytesUInt alloc version)) (m.info.serialize alloc)))
  match head s with
  | (false, _) => .error .memory
  | (true, s) => do
      let encoder ← serializePages alloc m.pages { empty with allocations := s.allocations }
      match Material.serializeData alloc hash encoder.bytes
        { s with allocations := encoder.allocations } with
      | (true, s) => .ok s
      | (false, _) => .error .memory

end Serialize

/-! ### Reading -/

section Deserialize

variable (hash : List UInt8 → UInt32)

def readVarint (element : Element) (d : Deserialization) :
    Except ReadFailure (ℕ × Deserialization) :=
  match d.advanceVarint with
  | ((0, _), _) => .error (.corrupt element)
  | ((_ + 1, value), d) => .ok (value, d)

/-- Four bytes that are read whether they are there or not. -/
def readUnchecked (d : Deserialization) : Except ReadFailure (UInt32 × Deserialization) :=
  if d.canAdvance 4 then .ok d.advance4BytesUInt else .error .outOfBounds

/-- `Info::deserialize`: the new info, also after a failure. -/
def Info.deserialize (info : Info) (d : Deserialization) :
    Except ReadFailure Deserialization × Info :=
  if !d.canAdvance Info.saltSize then (.error (.corrupt .salt), info)
  else
    let (last₁, d) := d.advance4BytesUInt
    let (last₂, d) := d.advance4BytesUInt
    let (current₁, d) := d.advance4BytesUInt
    let (current₂, d) := d.advance4BytesUInt
    let info := { info with lastWalSalt := (last₁, last₂), currentWalSalt := (current₁, current₂) }
    match readVarint .lastNBackfill d with
    | .error e => (.error e, info)
    | .ok (varint, d) =>
    let info := { info with lastNBackFill := UInt32.ofNat varint }
    match readVarint .mxFrame d with
    | .error e => (.error e, info)
    | .ok (varint, d) =>
    let info := { info with currentNBackFill := UInt32.ofNat varint }
    match readUnchecked d with
    | .error e => (.error e, info)
    | .ok (lastSchemaCookie, d) =>
    let info := { info with lastSchemaCookie }
    match readVarint .lastCheckpointFinish d with
    | .error e => (.error e, info)
    | .ok (varint, d) =>
    let info := { info with lastCheckPointFinish := decide (varint ≠ 0) }
    match readUnchecked d with
    | .error e => (.error e, info)
    | .ok (lastBackupTime, d) =>
    let info := { info with lastBackupTime }
    match readVarint .backupTimes d with
    | .error e => (.error e, info)
    | .ok (varint, d) => (.ok d, { info with incrementalBackupTimes := Int32.ofNat varint })

def Page.deserialize (page : Page) (d : Deserialization) :
    Except ReadFailure (Page × Deserialization) := do
  let (number, d) ← readVarint .pageNo d
  let (type, d) ← readVarint .pageType d
  let page := { page with number := UInt32.ofNat number, type := Int8.ofNat (type / 2) }
  if type % 2 = 1 then
    if d.canAdvance 4 then
      let (hash, d) := d.advance4BytesUInt
      .ok ({ page with hash }, d)
    else .error (.corrupt .pageHash)
  else .ok (page, d)

def deserializeData (d : Deserialization) : Except ReadFailure (List UInt8) :=
  if d.canAdvance 4 then
    let (checksum, d) := d.advance4BytesUInt
    match d.advanceSized with
    | ((0, _), _) => .error (.corrupt .content)
    | ((_ + 1, none), _) => .error .outOfBounds
    | ((_ + 1, some data), _) =>
        if data ≠ [] then
          if checksum ≠ hash data then .error (.corrupt .checksum) else .ok data
        else if checksum ≠ 0 then .error (.corrupt .checksum) else .ok data
  else .error (.corrupt .checksum)

/-- `pages[number] = page`. -/
def assign (pages : List (UInt32 × Page)) (page : Page) : List (UInt32 × Page) :=
  (page.number, page) :: pages.filter fun entry => entry.1 ≠ page.number

/-- The loop `while (!decoder.ended())`. -/
def deserializePages : ℕ → IncrementalMaterial → Deserialization →
    Except ReadFailure Unit × IncrementalMaterial
  | 0, m, _ => (.error .endless, m)
  | fuel + 1, m, decoder =>
      if decoder.ended then (.ok (), m)
      else
        match Page.deserialize {} decoder with
        | .error e => (.error e, m)
        | .ok (page, decoder) =>
            deserializePages fuel { m with pages := assign m.pages page } decoder

/-- `IncrementalMaterial::deserialize` into `m`. -/
def deserialize (m : IncrementalMaterial) (d : Deserialization) :
    Except ReadFailure Unit × IncrementalMaterial :=
  if !d.canAdvance headerSize then (.error (.corrupt .header), m)
  else
    let (magicValue, d) := d.advance4BytesUInt
    let (versionValue, d) := d.advance4BytesUInt
    if magicValue ≠ magic then (.error (.corrupt .magic), m)
    else if versionValue ≠ version then (.error (.corrupt .version), m)
    else
      match m.info.deserialize { d with dataVersion := versionValue } with
      | (.error e, info) => (.error e, { m with info })
      | (.ok d, info) =>
        let m := { m with info }
        match deserializeData hash d with
        | .error e => (.error e, m)
        | .ok data => deserializePages (data.length + 1) m ⟨data, 0, d.dataVersion⟩

end Deserialize

/-! ### Bytes behind an incremental material -/

section Behind

variable {alloc : ℕ → Bool} {hash : List UInt8 → UInt32} {d : Deserialization}

theorem unsigned_lt (x : ℤ) : unsigned x < 2 ^ 64 := by
  rw [unsigned]
  omega

def encodeInfo (info : Info) : List UInt8 :=
  encode4Bytes info.lastWalSalt.1 ++ (encode4Bytes info.lastWalSalt.2 ++
    (encode4Bytes info.currentWalSalt.1 ++ (encode4Bytes info.currentWalSalt.2 ++
      (encodeVarint info.lastNBackFill.toNat ++ (encodeVarint info.currentNBackFill.toNat ++
        (encode4Bytes info.lastSchemaCookie ++ (encodeVarint info.lastCheckPointFinish.toNat ++
          (encode4Bytes info.lastBackupTime ++
            encodeVarint (unsigned info.incrementalBackupTimes.toInt)))))))))

theorem puts_info (halloc : ∀ n, alloc n = true) (info : Info) :
    Puts (info.serialize alloc) (encodeInfo info) := by
  have hfour := fun value => Material.puts_ignoringResult (puts_put4BytesUInt halloc value)
  have hvarint (value : ℕ) (hlt : value < 2 ^ 64) :
      Puts (Material.ignoringResult (putVarintOk alloc value)) (encodeVarint value) := by
    have h := Material.puts_ignoringResult (puts_putVarintOk halloc value)
    rwa [u64_of_lt hlt] at h
  have hword (n : UInt32) : n.toNat < 2 ^ 64 := lt_trans n.toNat_lt (by decide)
  have hbool (b : Bool) : b.toNat < 2 ^ 64 := lt_of_le_of_lt b.toNat_le (by decide)
  have h := (puts_expand halloc Info.saltSize).andThen ((hfour info.lastWalSalt.1).andThen
    ((hfour info.lastWalSalt.2).andThen ((hfour info.currentWalSalt.1).andThen
      ((hfour info.currentWalSalt.2).andThen ((hvarint _ (hword info.lastNBackFill)).andThen
        ((hvarint _ (hword info.currentNBackFill)).andThen ((hfour info.lastSchemaCookie).andThen
          ((hvarint _ (hbool info.lastCheckPointFinish)).andThen
            ((hfour info.lastBackupTime).andThen
              ((hvarint _ (unsigned_lt info.incrementalBackupTimes.toInt)).andThen
                puts_nothing))))))))))
  simpa [Info.serialize, forEach, encodeInfo] using h

theorem readVarint_eq (element : Element) {v : ℕ} (hv : v < 2 ^ 64) {rest : List UInt8}
    (h : At d (encodeVarint v ++ rest)) :
    ∃ d', readVarint element d = .ok (v, d') ∧ At d' rest ∧ d'.dataVersion = d.dataVersion := by
  obtain ⟨n, d', hd, hrest⟩ := h.advanceVarint hv
  exact ⟨d', by rw [readVarint, hd], hrest⟩

theorem readUnchecked_eq {value : UInt32} {rest : List UInt8}
    (h : At d (encode4Bytes value ++ rest)) :
    ∃ d', readUnchecked d = .ok (value, d') ∧ At d' rest ∧ d'.dataVersion = d.dataVersion := by
  obtain ⟨d', hd, hrest⟩ := h.advance4BytesUInt
  have hcan : d.canAdvance 4 = true := h.canAdvance
  exact ⟨d', by rw [readUnchecked, if_pos hcan, hd], hrest⟩

theorem ofNat_unsigned (x : Int32) : Int32.ofNat (unsigned x.toInt) = x := by
  apply Int32.toInt_inj.mp
  have hlow := x.le_toInt
  have hhigh := x.toInt_lt
  rw [Int32.toInt_ofNat', unsigned, Int.bmod_def]
  simp only [Int32.size]
  split <;> omega

theorem Info.deserialize_eq {info : Info} {rest : List UInt8}
    (h : At d (encodeInfo info ++ rest)) (before : Info) :
    ∃ d', before.deserialize d = (.ok d', info) ∧ At d' rest ∧
      d'.dataVersion = d.dataVersion := by
  have hcan : d.canAdvance Info.saltSize = true := by
    have h' : At d ((encode4Bytes info.lastWalSalt.1 ++ (encode4Bytes info.lastWalSalt.2 ++
        (encode4Bytes info.currentWalSalt.1 ++ encode4Bytes info.currentWalSalt.2))) ++
        (encodeVarint info.lastNBackFill.toNat ++ (encodeVarint info.currentNBackFill.toNat ++
          (encode4Bytes info.lastSchemaCookie ++ (encodeVarint info.lastCheckPointFinish.toNat ++
            (encode4Bytes info.lastBackupTime ++
              (encodeVarint (unsigned info.incrementalBackupTimes.toInt) ++ rest))))))) := by
      simpa only [encodeInfo, List.append_assoc] using h
    exact h'.canAdvance
  have hword (n : UInt32) : n.toNat < 2 ^ 64 := lt_trans n.toNat_lt (by decide)
  simp only [encodeInfo, List.append_assoc] at h
  obtain ⟨d₁, h₁, hrest₁, hver₁⟩ := h.advance4BytesUInt
  obtain ⟨d₂, h₂, hrest₂, hver₂⟩ := hrest₁.advance4BytesUInt
  obtain ⟨d₃, h₃, hrest₃, hver₃⟩ := hrest₂.advance4BytesUInt
  obtain ⟨d₄, h₄, hrest₄, hver₄⟩ := hrest₃.advance4BytesUInt
  obtain ⟨d₅, h₅, hrest₅, hver₅⟩ := readVarint_eq .lastNBackfill (hword _) hrest₄
  obtain ⟨d₆, h₆, hrest₆, hver₆⟩ := readVarint_eq .mxFrame (hword _) hrest₅
  obtain ⟨d₇, h₇, hrest₇, hver₇⟩ := readUnchecked_eq hrest₆
  obtain ⟨d₈, h₈, hrest₈, hver₈⟩ := readVarint_eq .lastCheckpointFinish
    (lt_of_le_of_lt info.lastCheckPointFinish.toNat_le (by decide)) hrest₇
  obtain ⟨d₉, h₉, hrest₉, hver₉⟩ := readUnchecked_eq hrest₈
  obtain ⟨d₁₀, h₁₀, hrest₁₀, hver₁₀⟩ := readVarint_eq .backupTimes (unsigned_lt _) hrest₉
  refine ⟨d₁₀, ?_, hrest₁₀, by
    rw [hver₁₀, hver₉, hver₈, hver₇, hver₆, hver₅, hver₄, hver₃, hver₂, hver₁]⟩
  have hfinish : decide (info.lastCheckPointFinish.toNat ≠ 0) = info.lastCheckPointFinish := by
    cases info.lastCheckPointFinish <;> rfl
  simp only [Info.deserialize, hcan, Bool.not_true, Bool.false_eq_true, if_false, h₁, h₂, h₃, h₄,
    h₅, h₆, h₇, h₈, h₉, h₁₀, UInt32.ofNat_toNat, hfinish, ofNat_unsigned]

/-- The sealed block is read as that of a `Material`, up to the name of what is corrupt. -/
theorem deserializeData_cases (hash : List UInt8 → UInt32) (d : Deserialization) :
    (∃ data, Material.deserializeData hash d = .ok data ∧ deserializeData hash d = .ok data) ∨
      (Material.deserializeData hash d = .error .outOfBounds ∧
        deserializeData hash d = .error .outOfBounds) ∨
      ∃ element element', Material.deserializeData hash d = .error (.corrupt element) ∧
        deserializeData hash d = .error (.corrupt element') := by
  rw [deserializeData, Material.deserializeData, Material.read4Bytes]
  by_cases hcan : d.canAdvance 4 = true
  · simp only [hcan, if_true, bind, Except.bind]
    rcases d.advance4BytesUInt.2.advanceSized with ⟨⟨_ | n, _ | data⟩, d'⟩ <;> dsimp only <;>
      (try split_ifs) <;> simp
  · simp [hcan, bind, Except.bind]

theorem deserializeData_eq {data rest : List UInt8}
    (h : At d (encode4Bytes (Material.checksum hash data) ++ (encodeSized data ++ rest))) :
    deserializeData hash d = .ok data := by
  rcases deserializeData_cases hash d with ⟨_, h₁, h₂⟩ | ⟨h₁, -⟩ | ⟨_, _, h₁, -⟩
  all_goals rw [Material.deserializeData_eq h] at h₁; cases h₁
  exact h₂

/-- What is around the pages. -/
def envelope (hash : List UInt8 → UInt32) (info : Info) (data : List UInt8) : List UInt8 :=
  encode4Bytes magic ++ (encode4Bytes version ++ (encodeInfo info ++
    (encode4Bytes (Material.checksum hash data) ++ encodeSized data)))

/-- Whatever the pages, an incremental material that is written has this shape. -/
theorem serialize_envelope (halloc : ∀ n, alloc n = true) {m : IncrementalMaterial}
    {s : Serialization} (h : m.serialize alloc hash .empty = .ok s) :
    ∃ data, s.bytes = envelope hash m.info data := by
  obtain ⟨t, ht, hbytes⟩ := ((puts_expand halloc headerSize).andThen
    ((Material.puts_ignoringResult (puts_put4BytesUInt halloc magic)).andThen
      ((Material.puts_ignoringResult (puts_put4BytesUInt halloc version)).andThen
        (puts_info halloc m.info)))) .empty
  simp only [serialize, ht, bind, Except.bind] at h
  split at h
  · cases h
  next encoder _ =>
  obtain ⟨w, hw, hbytes'⟩ :=
    ((puts_put4BytesUInt halloc (Material.checksum hash encoder.bytes)).andThen
      (puts_putSizedString halloc encoder.bytes)) { t with allocations := encoder.allocations }
  rw [Material.serializeData, hw] at h
  cases h
  refine ⟨encoder.bytes, ?_⟩
  rw [hbytes', hbytes, envelope]
  simp [Serialization.empty]

/-- Reading stops behind the pages. -/
theorem deserialize_envelope {info : Info} {data rest : List UInt8} (m : IncrementalMaterial)
    (start : UInt32) (hfit : (envelope hash info data ++ rest).length < 2 ^ 63) :
    deserialize hash m ⟨envelope hash info data ++ rest, 0, start⟩ =
      deserializePages (data.length + 1) { m with info } ⟨data, 0, version⟩ := by
  have h := At.start hfit start
  have hcan : Deserialization.canAdvance ⟨envelope hash info data ++ rest, 0, start⟩ headerSize =
      true := by
    have h' : At ⟨envelope hash info data ++ rest, 0, start⟩
        ((encode4Bytes magic ++ encode4Bytes version) ++ (encodeInfo info ++
          (encode4Bytes (Material.checksum hash data) ++ (encodeSized data ++ rest)))) := by
      simpa only [envelope, List.append_assoc] using h
    exact h'.canAdvance
  generalize (⟨envelope hash info data ++ rest, 0, start⟩ : Deserialization) = d at h hcan
  simp only [envelope, List.append_assoc] at h
  obtain ⟨d₁, h₁, hrest₁, -⟩ := h.advance4BytesUInt
  obtain ⟨d₂, h₂, hrest₂, -⟩ := hrest₁.advance4BytesUInt
  obtain ⟨d₃, h₃, hrest₃, hver₃⟩ := Info.deserialize_eq (hrest₂.withVersion version) m.info
  simp only [deserialize, hcan, Bool.not_true, Bool.false_eq_true, if_false, h₁, h₂, ne_eq,
    not_true_eq_false, h₃, deserializeData_eq hrest₃, hver₃]

/-- **A written incremental material reads the same with bytes behind it.** -/
theorem deserialize_behind (halloc : ∀ n, alloc n = true) {m : IncrementalMaterial}
    {s : Serialization} (h : m.serialize alloc hash .empty = .ok s) (before : IncrementalMaterial)
    (start : UInt32) {rest : List UInt8} (hfit : (s.bytes ++ rest).length < 2 ^ 63) :
    deserialize hash before ⟨s.bytes ++ rest, 0, start⟩ =
      deserialize hash before ⟨s.bytes, 0, start⟩ := by
  obtain ⟨data, hbytes⟩ := serialize_envelope halloc h
  rw [hbytes] at hfit ⊢
  have hfit' : (envelope hash m.info data ++ []).length < 2 ^ 63 := by
    rw [List.length_append] at hfit ⊢
    simp only [List.length_nil]
    omega
  rw [deserialize_envelope before start hfit, ← deserialize_envelope before start hfit',
    List.append_nil]

end Behind

end IncrementalMaterial

end Wcdb.Repair
