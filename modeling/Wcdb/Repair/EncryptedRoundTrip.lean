import Wcdb.Repair.EncryptedSerialization
import Wcdb.Repair.IncrementalMaterialFormat

/-!
# Encrypted materials read back

The data that decryption hands to `deserialize` is the serialized material followed by zero bytes.
Both kinds of material ignore what is behind them, so reading an encrypted material gives what
reading the plain bytes gives. The usable part of a page must have room for the salt, and the pages
must be countable with an `int`; SQLCipher's pages of at least 512 bytes satisfy the first.
-/

namespace Wcdb.Repair

variable {alloc : ℕ → Bool} {hash : List UInt8 → UInt32} {c : CipherDelegate}

/-- The bytes come back, followed only by zero bytes. -/
def ReturnsBytes (alloc : ℕ → Bool) (c : CipherDelegate) (rawData : List UInt8) : Prop :=
  ∃ encrypted k, encryptedSerialize alloc c rawData = .ok encrypted ∧
    ∀ reloadSalt, decryptedData alloc c reloadSalt encrypted =
      .ok (rawData ++ List.replicate k 0)

/-- Encrypting and decrypting `rawData` makes `deserialize` return what it returns on `rawData`. -/
def ReadsSame {α : Type} (alloc : ℕ → Bool) (c : CipherDelegate) (deserialize : List UInt8 → α)
    (rawData : List UInt8) : Prop :=
  ∃ encrypted, encryptedSerialize alloc c rawData = .ok encrypted ∧
    ∀ reloadSalt, decryptedDeserialize alloc c reloadSalt deserialize encrypted =
      .ok (deserialize rawData)

/-- A reader that ignores what is behind the data. -/
theorem readsSame_of_behind {α : Type} (halloc : ∀ n, alloc n = true) (hc : c.Inverts)
    (hsalt : saltBytes ≤ c.usableSize) {deserialize : List UInt8 → α} {rawData : List UInt8}
    (hne : rawData ≠ []) (hfits : FitsPages c rawData.length)
    (hbehind : ∀ rest, (rawData ++ rest).length < 2 ^ 63 →
      deserialize (rawData ++ rest) = deserialize rawData) :
    ReadsSame alloc c deserialize rawData := by
  obtain ⟨encrypted, k, hencrypted, hdecrypted, hlength⟩ :=
    decryptedData_encryptedSerialize halloc hc hsalt hne hfits
  refine ⟨encrypted, hencrypted, fun reloadSalt => ?_⟩
  rw [decryptedDeserialize, hdecrypted reloadSalt]
  exact congrArg Except.ok (hbehind _ hlength)

/-- **Encrypted materials read back.** For every page codec that inverts, with pages whose usable
part has room for the salt: the serialized bytes come back followed only by zero bytes, and a
material or an incremental material reads back from its encrypted form, into any object, as it does
from its plain form. -/
theorem encrypted_reads_back (halloc : ∀ n, alloc n = true) (hc : c.Inverts)
    (hsalt : saltBytes ≤ c.usableSize) :
    (∀ rawData, rawData ≠ [] → FitsPages c rawData.length → ReturnsBytes alloc c rawData) ∧
    (∀ (m before : Material) (s : Serialization), m.serialize alloc hash .empty = .ok s →
      FitsPages c s.bytes.length →
      ReadsSame alloc c (fun data => before.deserialize hash ⟨data, 0, 0⟩) s.bytes) ∧
    ∀ (m before : IncrementalMaterial) (s : Serialization), m.serialize alloc hash .empty = .ok s →
      FitsPages c s.bytes.length →
      ReadsSame alloc c (fun data => before.deserialize hash ⟨data, 0, 0⟩) s.bytes := by
  refine ⟨fun rawData hne hfits => ?_, fun m before s hs hfits => ?_, fun m before s hs hfits => ?_⟩
  · obtain ⟨encrypted, k, hencrypted, hdecrypted, -⟩ :=
      decryptedData_encryptedSerialize halloc hc hsalt hne hfits
    exact ⟨encrypted, k, hencrypted, hdecrypted⟩
  · refine readsSame_of_behind halloc hc hsalt ?_ hfits fun rest hrest =>
      Material.deserialize_behind halloc hs before 0 hrest
    obtain ⟨data, hdata⟩ := Material.serialize_envelope halloc hs
    simp [hdata, Material.envelope, Serialization.encode4Bytes]
  · refine readsSame_of_behind halloc hc hsalt ?_ hfits fun rest hrest =>
      IncrementalMaterial.deserialize_behind halloc hs before 0 hrest
    obtain ⟨data, hdata⟩ := IncrementalMaterial.serialize_envelope halloc hs
    simp [hdata, IncrementalMaterial.envelope, Serialization.encode4Bytes]

/-! ### A small codec -/

/-- A codec that adds a key to each usable byte and writes ones into the reserve. -/
def addingCipher (pageSize reserveBytes : ℕ) : CipherDelegate where
  pageSize := pageSize
  salt := List.replicate saltBytes 7
  context salt := {
    reserveBytes := reserveBytes
    encrypt pageNo page :=
      let first := CipherDelegate.skip pageNo
      let usable := pageSize - reserveBytes
      salt.take first ++ (((page.drop first).take (usable - first)).map (· + 90) ++
        List.replicate (pageSize - max usable first) 1)
    decrypt _ page := some (page.map (· - 90)) }
  switches _ := true

theorem inverts_addingCipher {pageSize reserveBytes : ℕ} (hsize : saltBytes < pageSize)
    (hreserve : 0 < reserveBytes) (hlt : reserveBytes < pageSize) :
    (addingCipher pageSize reserveBytes).Inverts := by
  have hskip (pageNo : ℕ) : CipherDelegate.skip pageNo ≤ saltBytes := by
    rw [CipherDelegate.skip]
    split <;> simp
  have hsalt (pageNo : ℕ) : ((List.replicate saltBytes (7 : UInt8)).take
      (CipherDelegate.skip pageNo)).length = CipherDelegate.skip pageNo := by
    rw [List.length_take, List.length_replicate, Nat.min_eq_left (hskip pageNo)]
  constructor
  · intro pageNo page hpage
    have hpage' : page.length = pageSize := hpage
    have hle := hskip pageNo
    simp only [addingCipher, CipherDelegate.codec, List.length_append, hsalt, List.length_map,
      List.length_take, List.length_drop, List.length_replicate]
    omega
  · intro page hpage
    rfl
  · intro pageNo page hpage
    have hle := hskip pageNo
    refine ⟨1, List.mem_append_right _ (List.mem_append_right _ ?_), by decide⟩
    simp only [List.mem_replicate, and_true]
    omega
  · intro pageNo page hpage
    have hpage' : page.length = pageSize := hpage
    have hle := hskip pageNo
    refine ⟨_, rfl, ?_⟩
    have hinverse : ((· - 90) ∘ (· + 90) : UInt8 → UInt8) = id := by
      funext byte
      simp
    have hmiddle : ((page.drop (CipherDelegate.skip pageNo)).take
        (pageSize - reserveBytes - CipherDelegate.skip pageNo)).length =
        pageSize - reserveBytes - CipherDelegate.skip pageNo := by
      rw [List.length_take, List.length_drop]
      omega
    simp only [addingCipher, CipherDelegate.codec, CipherDelegate.usableSize, List.map_append,
      List.map_map, hinverse, List.map_id]
    rw [List.drop_left' (by rw [List.length_map, hsalt]), List.take_left' hmiddle]
  · rfl

/-- An incremental material of one page. -/
def checkpointed : IncrementalMaterial where
  info := { currentWalSalt := (17, 4), currentNBackFill := 300, incrementalBackupTimes := -1 }
  pages := [(9, { number := 9, type := 13, hash := 77 })]

/-- An encrypted material, and an encrypted incremental one, in pages of 64 bytes. -/
theorem reads_back_orders :
    (∃ s, Material.orders.serialize (fun _ => true) Material.crc32 .empty = .ok s ∧
      ReadsSame (fun _ => true) (addingCipher 64 16)
        (fun data => Material.deserialize Material.crc32 {} ⟨data, 0, 0⟩) s.bytes) ∧
    ∃ s, checkpointed.serialize (fun _ => true) Material.crc32 .empty = .ok s ∧
      ReadsSame (fun _ => true) (addingCipher 64 16)
        (fun data => IncrementalMaterial.deserialize Material.crc32 {} ⟨data, 0, 0⟩) s.bytes := by
  have hc : (addingCipher 64 16).Inverts :=
    inverts_addingCipher (by decide) (by decide) (by decide)
  obtain ⟨-, hmaterial, hincremental⟩ := @encrypted_reads_back (fun _ => true) Material.crc32
    (addingCipher 64 16) (fun _ => rfl) hc (by decide)
  have hfits {size : ℕ} (h : size < 1000) : FitsPages (addingCipher 64 16) size := by
    simp only [FitsPages, saltBytes, CipherDelegate.usableSize, addingCipher, CipherDelegate.codec]
    omega
  constructor
  · have hcontents : ∀ content ∈ Material.orders.contentsList, content.WellFormed ∧
        content.associatedSQLs.length < 2 ^ 64 ∧ content.verifiedPagenos.length < 2 ^ 31 := by
      intro content hcontent
      obtain rfl := List.mem_singleton.mp hcontent
      exact ⟨⟨by decide, by decide, by decide, by decide, by decide⟩, by decide, by decide⟩
    obtain ⟨s, hs, hbytes⟩ := Material.serialize_eq Material.crc32 (fun _ => rfl) hcontents
    refine ⟨s, hs, hmaterial _ {} s hs (hfits ?_)⟩
    have hlive : Material.livePages [⟨900, 5⟩, ⟨0, 8⟩, ⟨4, 0xffffffff⟩] =
        [⟨4, 0xffffffff⟩, ⟨900, 5⟩] := by
      simp [Material.livePages, Material.sortPages, List.mergeSort,
        List.MergeSort.Internal.splitInTwo]
    simp only [hbytes, Material.encode, Material.orders, List.flatMap_cons, List.flatMap_nil,
      List.append_nil, Material.encodeContent, hlive]
    decide +kernel
  · have hlength : (checkpointed.serialize (fun _ => true) Material.crc32 .empty).toOption.all
        (fun s => s.bytes.length < 1000) = true ∧
        (checkpointed.serialize (fun _ => true) Material.crc32 .empty).isOk = true := by
      decide +kernel
    cases hs : checkpointed.serialize (fun _ => true) Material.crc32 .empty with
    | error e =>
      rw [hs] at hlength
      cases hlength.2
    | ok s =>
      rw [hs] at hlength
      exact ⟨s, rfl, hincremental _ {} s hs (hfits (by simpa [Except.toOption] using hlength.1))⟩

/-- With a reserve that leaves fewer bytes than the salt takes, the first copy leaves its
buffers: the bytes of a material do not come back. -/
theorem not_returnsBytes_narrow :
    ¬ ∀ (c : CipherDelegate), (∃ k, c.pageSize = 2 ^ k) → c.codec.reserveBytes < c.pageSize →
      c.Inverts → ∀ rawData, rawData ≠ [] → ReturnsBytes (fun _ => true) c rawData := by
  intro h
  obtain ⟨encrypted, k, hencrypted, -⟩ := h (addingCipher 512 500) ⟨9, rfl⟩ (by decide)
    (inverts_addingCipher (by decide) (by decide) (by decide)) [1] (by simp)
  have hbounds : encryptedSerialize (fun _ => true) (addingCipher 512 500) [1] =
      .error .outOfBounds := by
    decide +kernel
  rw [hbounds] at hencrypted
  cases hencrypted

end Wcdb.Repair
