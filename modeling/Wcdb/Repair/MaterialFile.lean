import Wcdb.Base.FileHandle
import Wcdb.Repair.EncryptedSerialization
import Wcdb.Repair.Material

/-!
# Materials written to a path

`Serializable::serialize` opens the file, which truncates it, only if there are bytes to write.
`EncryptedSerializable::encryptedSerialize` does not look at the bytes it gets: if they could not be
made, it truncates the file, writes nothing and returns `true`. So the old file survives a failure
of the second if and only if the file cannot be opened, or was empty before (`intact_iff`).

Both functions return `none` here where the source does not return, and where the fuel for the loop
of `FileHandle::write` does not suffice.
-/

namespace Wcdb.Material

open FileHandle Repair

/-- `Serializable::serialize`: no bytes after a failure. -/
def serializedBytes : Except WriteFailure Serialization → Option (List UInt8)
  | .ok s => some s.bytes
  | .error .overflow => none
  | .error _ => some []

/-- `EncryptedSerializable::encryptedSerialize` on these bytes: no bytes after a failure. -/
def encryptedBytes (allocData : ℕ → Bool) (c : CipherDelegate) (rawData : List UInt8) :
    Option (List UInt8) :=
  match encryptedSerialize allocData c rawData with
  | .ok data => some data
  | .error .outOfBounds => none
  | .error _ => some []

section Model

variable (sys : System) (opens : Bool) (file : Option (List UInt8))

/-- Opening the file with `OverWrite` and writing the data. -/
def overwriteFile (data : List UInt8) (fuel : ℕ) : Option (Bool × Option (List UInt8)) :=
  if opens then (FileHandle.write sys [] data fuel).map fun r => (r.1, some r.2)
  else some (false, file)

/-- `serialize(path)`, and the file after it. -/
def serializeToPath (serialized : Except WriteFailure Serialization) (fuel : ℕ) :
    Option (Bool × Option (List UInt8)) :=
  match serializedBytes serialized with
  | none => none
  | some data =>
    if data = [] then some (false, file) else overwriteFile sys opens file data fuel

/-- `encryptedSerialize(path)`, and the file after it. -/
def encryptedSerializeToPath (allocData : ℕ → Bool) (c : CipherDelegate)
    (serialized : Except WriteFailure Serialization) (fuel : ℕ) :
    Option (Bool × Option (List UInt8)) :=
  match serializedBytes serialized with
  | none => none
  | some rawData =>
    match encryptedBytes allocData c rawData with
    | none => none
    | some encryptData => overwriteFile sys opens file encryptData fuel

end Model

/-! ### Failures -/

/-- The material is not serialized: an element is empty, or there is no memory. -/
def SerializeFails (serialized : Except WriteFailure Serialization) : Prop :=
  ∃ e, serialized = .error e ∧ e ≠ .overflow

/-- The same, or its bytes are not encrypted: the cipher has an error, there is no memory, or a page
is not encrypted. -/
def EncryptFails (allocData : ℕ → Bool) (c : CipherDelegate)
    (serialized : Except WriteFailure Serialization) : Prop :=
  SerializeFails serialized ∨
    ∃ s e, serialized = .ok s ∧ encryptedSerialize allocData c s.bytes = .error e ∧ e ≠ .outOfBounds

section Lemmas

variable {sys : System} {opens : Bool} {file : Option (List UInt8)} {fuel : ℕ}
  {serialized : Except WriteFailure Serialization} {allocData : ℕ → Bool} {c : CipherDelegate}

theorem serializedBytes_of_fails (h : SerializeFails serialized) :
    serializedBytes serialized = some [] := by
  obtain ⟨e, rfl, he⟩ := h
  cases e with
  | empty element => rfl
  | memory => rfl
  | overflow => exact absurd rfl he

theorem serializeToPath_of_fails (h : SerializeFails serialized) :
    serializeToPath sys opens file serialized fuel = some (false, file) := by
  rw [serializeToPath, serializedBytes_of_fails h]
  rfl

theorem encryptedBytes_of_fails (h : EncryptFails allocData c serialized) :
    ∃ rawData, serializedBytes serialized = some rawData ∧
      encryptedBytes allocData c rawData = some [] := by
  rcases h with h | ⟨s, e, rfl, hencrypt, he⟩
  · exact ⟨[], serializedBytes_of_fails h, rfl⟩
  · refine ⟨s.bytes, rfl, ?_⟩
    rw [encryptedBytes, hencrypt]
    cases e with
    | outOfBounds => exact absurd rfl he
    | empty | cipher | memory | page _ => rfl

/-- Without a failure before, the loop of `write` on no bytes leaves an empty file empty. -/
theorem writeLoop_nil {s : WriteState} {r : ℤ × WriteState}
    (hfile : s.file = []) (hsize : s.size = 0)
    (h : writeLoop sys [] fuel s = some r) : r.2.file = [] := by
  induction fuel generalizing s with
  | zero => exact nomatch h
  | succ fuel ih =>
    rw [writeLoop] at h
    cases hresult : sys.results s.calls with
    | count n =>
      simp only [hresult, writeCall, hsize, Nat.min_zero, if_true] at h
      rw [← Option.some.inj h, hfile]
      simp [FileHandle.overwrite]
    | error e =>
      simp only [hresult, writeCall] at h
      split_ifs at h
      · exact ih (s := { s with calls := s.calls + 1 }) hfile hsize h
      · rw [← Option.some.inj h]
        exact hfile

theorem write_nil {r : Bool × List UInt8} (h : FileHandle.write sys [] [] fuel = some r) :
    r.2 = [] := by
  rw [FileHandle.write] at h
  cases hseeks : sys.seeks with
  | false =>
    rw [hseeks] at h
    rw [← Option.some.inj h]
  | true =>
    rw [hseeks, if_pos rfl] at h
    cases hloop : writeLoop sys [] fuel { size := ([] : List UInt8).length, file := [] } with
    | none =>
      rw [hloop] at h
      cases h
    | some t =>
      rw [hloop] at h
      rw [← Option.some.inj h]
      exact writeLoop_nil rfl rfl hloop

/-- After a failure the file survives only if it cannot be opened, or has nothing to lose and not
even no byte can be written. -/
theorem encryptedSerializeToPath_of_fails (h : EncryptFails allocData c serialized) :
    encryptedSerializeToPath sys opens file allocData c serialized fuel = some (false, file) ↔
      opens = false ∨ file = some [] ∧ FileHandle.write sys [] [] fuel = some (false, []) := by
  obtain ⟨rawData, hraw, hencrypted⟩ := encryptedBytes_of_fails h
  rw [encryptedSerializeToPath, hraw]
  dsimp only
  rw [hencrypted]
  dsimp only
  rw [overwriteFile]
  cases opens with
  | false => simp
  | true =>
    rw [if_pos rfl, Option.map_eq_some_iff]
    constructor
    · rintro ⟨⟨ok, contents⟩, hwrite, heq⟩
      obtain ⟨rfl, rfl⟩ := Prod.mk.inj heq
      obtain rfl : contents = [] := write_nil hwrite
      exact .inr ⟨rfl, hwrite⟩
    · rintro (hopens | ⟨rfl, hwrite⟩)
      · exact nomatch hopens
      · exact ⟨_, hwrite, rfl⟩

end Lemmas

/-- Both functions return `false` after a failure, with the file as it was. -/
structure Intact (sys : System) (opens : Bool) (file : Option (List UInt8)) (allocData : ℕ → Bool)
    (c : CipherDelegate) (serialized : Except WriteFailure Serialization) : Prop where
  serialize : SerializeFails serialized →
    ∃ fuel, serializeToPath sys opens file serialized fuel = some (false, file)
  encryptedSerialize : EncryptFails allocData c serialized →
    ∃ fuel, encryptedSerializeToPath sys opens file allocData c serialized fuel = some (false, file)

/-- **When a failed serialization leaves the old file**: when the encrypted one does not fail, when
the file cannot be opened, or when it was empty and cannot be written. -/
theorem intact_iff (alloc : ℕ → Bool) (hash : List UInt8 → UInt32) (m : Material)
    (allocData : ℕ → Bool) (c : CipherDelegate) (sys : System) (opens : Bool)
    (file : Option (List UInt8)) :
    Intact sys opens file allocData c (m.serialize alloc hash .empty) ↔
      ¬EncryptFails allocData c (m.serialize alloc hash .empty) ∨ opens = false ∨
        file = some [] ∧ ∃ fuel, FileHandle.write sys [] [] fuel = some (false, []) := by
  constructor
  · intro h
    by_cases hfails : EncryptFails allocData c (m.serialize alloc hash .empty)
    · obtain ⟨fuel, hpath⟩ := h.encryptedSerialize hfails
      rcases (encryptedSerializeToPath_of_fails hfails).mp hpath with hopens | ⟨hfile, hwrite⟩
      · exact .inr (.inl hopens)
      · exact .inr (.inr ⟨hfile, fuel, hwrite⟩)
    · exact .inl hfails
  · intro h
    refine ⟨fun hfails => ⟨0, serializeToPath_of_fails hfails⟩, fun hfails => ?_⟩
    rcases h with hnot | hopens | ⟨hfile, fuel, hwrite⟩
    · exact absurd hfails hnot
    · exact ⟨0, (encryptedSerializeToPath_of_fails hfails).mpr (.inl hopens)⟩
    · exact ⟨fuel, (encryptedSerializeToPath_of_fails hfails).mpr (.inr ⟨hfile, hwrite⟩)⟩

/-- A material with a table that has no name, a cipher, and a file with one byte: the encrypted
serialization returns `true` and the byte is gone. -/
theorem not_intact :
    EncryptFails (fun _ => true) ⟨4096, [], fun _ => ⟨80, fun _ page => page, fun _ _ => none⟩,
        fun _ => true⟩
          (({ contentsList := [{}] } : Material).serialize (fun _ => true) crc32 .empty) ∧
      encryptedSerializeToPath (.ofAnswers [.count 0]) true (some [1]) (fun _ => true)
        ⟨4096, [], fun _ => ⟨80, fun _ page => page, fun _ _ => none⟩, fun _ => true⟩
        (({ contentsList := [{}] } : Material).serialize (fun _ => true) crc32 .empty) 1 =
          some (true, some []) := by
  have hserialize : (({ contentsList := [{}] } : Material).serialize (fun _ => true) crc32 .empty) =
      .error (.empty .tableName) := by
    rfl
  rw [hserialize]
  refine ⟨.inl ⟨_, rfl, by decide⟩, ?_⟩
  decide +kernel

end Wcdb.Material
