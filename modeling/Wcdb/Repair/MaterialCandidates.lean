import Wcdb.Repair.EncryptedSerialization
import Wcdb.Repair.MaterialRoundTrip

/-!
# The material of a restore

`FactoryRetriever::restore` reads the candidate materials of a database one after the other, all
into the same `Material`, until one of them can be read. A material that is read into one that is
not fresh keeps what it does not overwrite: the contents, which are appended, and the root page of
the sequence table, which the old version does not have.

`restore_uses_fresh_iff` says when nothing of the rejected candidates is left in the material that
is used.
-/

namespace Wcdb

namespace Material

open Deserialization

/-! ### Reading into a material that is not fresh -/

/-- The part of `deserialize` before the info. -/
def readHeader (d : Deserialization) : Except ReadFailure Deserialization :=
  if !d.canAdvance headerSize then .error (.corrupt .header)
  else
    let (magicValue, d) := d.advance4BytesUInt
    let (versionValue, d) := d.advance4BytesUInt
    if magicValue ≠ magic then .error (.corrupt .magic)
    else if versionValue ≠ oldVersion ∧ versionValue ≠ version then .error (.corrupt .version)
    else .ok { d with dataVersion := versionValue }

section Reading

variable (hash : List UInt8 → UInt32)

theorem deserialize_eq_header (m : Material) (d : Deserialization) :
    deserialize hash m d =
      match readHeader d with
      | .error e => (.error e, m)
      | .ok d =>
          match m.info.deserialize d with
          | (.error e, info) => (.error e, { m with info })
          | (.ok d, info) =>
              match deserializeData hash d with
              | .error e => (.error e, { m with info })
              | .ok data =>
                  deserializeContents (data.length + 1) { m with info } ⟨data, 0,
                    d.dataVersion⟩ := by
  simp only [deserialize, readHeader]
  split_ifs <;> rfl

theorem dataVersion_advance4BytesUInt (d : Deserialization) :
    d.advance4BytesUInt.2.dataVersion = d.dataVersion := by
  rw [Deserialization.advance4BytesUInt, Deserialization.advance, Deserialization.seek]
  split_ifs <;> rfl

def Info.withRootPage (info : Info) (seqTableRootPage : UInt32) : Info :=
  { info with seqTableRootPage }

/-- What reading an info keeps of the one before: the root page, if the version has none or an error
comes first. -/
theorem Info.deserialize_keeps (d : Deserialization) :
    (∃ e, ∀ info : Info, (info.deserialize d).1 = .error e ∧
        (info.deserialize d).2.seqTableRootPage = info.seqTableRootPage) ∨
      ∃ d' : Deserialization, d'.dataVersion = d.dataVersion ∧ ∃ read : Info, ∀ info : Info,
        info.deserialize d = (.ok d', read.withRootPage
          (if version ≤ d.dataVersion then read.seqTableRootPage else info.seqTableRootPage)) := by
  simp only [Info.deserialize]
  cases hcan : d.canAdvance (Info.size - 4) with
  | false => exact Or.inl ⟨.corrupt .info, fun info => ⟨rfl, rfl⟩⟩
  | true =>
    set d₅ :=
      d.advance4BytesUInt.2.advance4BytesUInt.2.advance4BytesUInt.2.advance4BytesUInt.2
        |>.advance4BytesUInt.2 with hd₅
    have hversion : d₅.dataVersion = d.dataVersion := by
      simp only [hd₅, dataVersion_advance4BytesUInt]
    simp only [Bool.not_true, Bool.false_eq_true, if_false]
    rw [hversion]
    by_cases hnew : version ≤ d.dataVersion
    · simp only [if_pos hnew]
      cases hread : read4Bytes .seqTableRootPage d₅ with
      | error e => exact Or.inl ⟨e, fun info => ⟨rfl, rfl⟩⟩
      | ok result =>
        obtain ⟨seqTableRootPage, d₆⟩ := result
        have hd₆ : d₆ = d₅.advance4BytesUInt.2 := by
          rw [read4Bytes] at hread
          split_ifs at hread
          exact (congrArg Prod.snd (Except.ok.inj hread)).symm
        refine Or.inr ⟨d₆, ?_, {
          pageSize := _, reservedBytes := _, walSalt := _, nBackFill := _, seqTableRootPage },
          fun info => rfl⟩
        rw [hd₆, dataVersion_advance4BytesUInt, hversion]
    · simp only [if_neg hnew]
      exact Or.inr ⟨d₅, hversion,
        { pageSize := _, reservedBytes := _, walSalt := _, nBackFill := _ },
        fun info => rfl⟩

/-- The contents are appended, and depend on nothing that was there before. -/
theorem deserializeContents_appends (fuel : ℕ) (decoder : Deserialization) :
    ∃ result contents, ∀ m : Material,
      (deserializeContents fuel m decoder).1 = result ∧
      (deserializeContents fuel m decoder).2.info = m.info ∧
      (deserializeContents fuel m decoder).2.contentsList = m.contentsList ++ contents := by
  induction fuel generalizing decoder with
  | zero => exact ⟨.error .endless, [], fun m => ⟨rfl, rfl, (List.append_nil _).symm⟩⟩
  | succ fuel ih =>
    cases hended : decoder.ended with
    | true =>
      refine ⟨.ok (), [], fun m => ?_⟩
      rw [deserializeContents, hended]
      exact ⟨rfl, rfl, (List.append_nil _).symm⟩
    | false =>
      rcases hread : Content.deserialize {} decoder with ⟨result, content⟩
      cases result with
      | error e =>
        refine ⟨.error e, [content], fun m => ?_⟩
        rw [deserializeContents, hended, hread]
        exact ⟨rfl, rfl, rfl⟩
      | ok decoder' =>
        obtain ⟨result, contents, hrest⟩ := ih decoder'
        refine ⟨result, content :: contents, fun m => ?_⟩
        rw [deserializeContents, hended, hread]
        obtain ⟨h₁, h₂, h₃⟩ := hrest { m with
          contentsList := m.contentsList ++ [content]
          contentsMap := assign m.contentsMap content.tableName m.contentsList.length }
        exact ⟨h₁, h₂, by simpa using h₃⟩

/-- A material read into a fresh object. -/
def fresh (bytes : List UInt8) : Except ReadFailure Unit × Material :=
  deserialize hash {} ⟨bytes, 0, 0⟩

/-- The block of contents that reading comes to. -/
def body (bytes : List UInt8) : Option (List UInt8) :=
  match readHeader ⟨bytes, 0, 0⟩ with
  | .error _ => none
  | .ok d =>
      match Info.deserialize {} d with
      | (.error _, _) => none
      | (.ok d, _) => (deserializeData hash d).toOption

/-- The root page of the sequence table that is read, in a version that has one. -/
def rootPageRead (bytes : List UInt8) : Option UInt32 :=
  match readHeader ⟨bytes, 0, 0⟩ with
  | .error _ => none
  | .ok d =>
      match Info.deserialize {} d with
      | (.error _, _) => none
      | (.ok _, info) => if version ≤ d.dataVersion then some info.seqTableRootPage else none

/-- What reading does, whatever the material it reads into. -/
theorem deserialize_into (bytes : List UInt8) :
    (body hash bytes = none ∧ ∃ e, ∀ m : Material,
      (deserialize hash m ⟨bytes, 0, 0⟩).1 = .error e ∧
      (deserialize hash m ⟨bytes, 0, 0⟩).2.contentsList = m.contentsList ∧
      (deserialize hash m ⟨bytes, 0, 0⟩).2.contentsMap = m.contentsMap ∧
      (deserialize hash m ⟨bytes, 0, 0⟩).2.info.seqTableRootPage =
        (rootPageRead bytes).getD m.info.seqTableRootPage) ∨
    ∃ data fuel dataVersion, ∃ read : Info, body hash bytes = some data ∧ ∀ m : Material,
      deserialize hash m ⟨bytes, 0, 0⟩ =
        deserializeContents (fuel + 1)
          { m with info := read.withRootPage ((rootPageRead bytes).getD m.info.seqTableRootPage) }
          ⟨data, 0, dataVersion⟩ := by
  cases hheader : readHeader ⟨bytes, 0, 0⟩ with
  | error e =>
    refine Or.inl ⟨by rw [body, hheader], e, fun m => ?_⟩
    rw [deserialize_eq_header, hheader, rootPageRead, hheader]
    exact ⟨rfl, rfl, rfl, rfl⟩
  | ok d =>
    rcases Info.deserialize_keeps d with ⟨e, hinfo⟩ | ⟨d', hversion, read, hinfo⟩
    · obtain ⟨info₀, hfresh⟩ : ∃ info₀, Info.deserialize {} d = (.error e, info₀) :=
        ⟨_, Prod.ext (hinfo {}).1 rfl⟩
      refine Or.inl ⟨?_, e, fun m => ?_⟩
      · rw [body, hheader]
        simp only [hfresh]
      · obtain ⟨info, hread⟩ : ∃ info, m.info.deserialize d = (.error e, info) :=
          ⟨_, Prod.ext (hinfo m.info).1 rfl⟩
        have hkeeps := (hinfo m.info).2
        rw [hread] at hkeeps
        have hroot : rootPageRead bytes = none := by
          rw [rootPageRead, hheader]
          simp only [hfresh]
        rw [deserialize_eq_header, hheader, hroot]
        simp only [hread]
        exact ⟨trivial, trivial, trivial, hkeeps⟩
    · have hroot : ∀ page, (rootPageRead bytes).getD page =
          if version ≤ d.dataVersion then read.seqTableRootPage else page := fun page => by
        rw [rootPageRead, hheader]
        simp only [hinfo]
        split_ifs <;> rfl
      cases hdata : deserializeData hash d' with
      | error e =>
        refine Or.inl ⟨?_, e, fun m => ?_⟩
        · rw [body, hheader]
          simp only [hinfo, hdata]
          rfl
        · rw [deserialize_eq_header, hheader]
          simp only [hinfo, hdata, hroot]
          exact ⟨trivial, trivial, trivial, rfl⟩
      | ok data =>
        refine Or.inr ⟨data, data.length, d'.dataVersion, read, ?_, fun m => ?_⟩
        · rw [body, hheader]
          simp only [hinfo, hdata]
          rfl
        · rw [deserialize_eq_header, hheader]
          simp only [hinfo, hdata, hroot]

/-- A block of contents that is not empty leaves a content. -/
theorem contentsList_ne_nil {fuel : ℕ} {m : Material} {data : List UInt8} {dataVersion : UInt32}
    (hdata : data ≠ []) :
    (deserializeContents (fuel + 1) m ⟨data, 0, dataVersion⟩).2.contentsList ≠ [] := by
  have hended : Deserialization.ended ⟨data, 0, dataVersion⟩ = false := by
    simpa [Deserialization.ended, Deserialization.capacity, eq_comm] using hdata
  rw [deserializeContents, hended]
  rcases Content.deserialize {} ⟨data, 0, dataVersion⟩ with ⟨result, content⟩
  cases result with
  | error e => simp
  | ok decoder =>
    obtain ⟨_, contents, hcontents⟩ := deserializeContents_appends fuel decoder
    have happended := (hcontents { m with
      contentsList := m.contentsList ++ [content]
      contentsMap := assign m.contentsMap content.tableName m.contentsList.length }).2.2
    simp only [Bool.false_eq_true, if_false]
    rw [happended]
    simp

/-- An empty block of contents is accepted and leaves nothing. -/
theorem deserializeContents_nil (fuel : ℕ) (m : Material) (dataVersion : UInt32) :
    deserializeContents (fuel + 1) m ⟨[], 0, dataVersion⟩ = (.ok (), m) := rfl

/-- Whether a material is accepted does not depend on what it is read into. -/
theorem deserialize_fst (m : Material) (bytes : List UInt8) :
    (deserialize hash m ⟨bytes, 0, 0⟩).1 = (fresh hash bytes).1 := by
  rcases deserialize_into hash bytes with ⟨-, e, hfails⟩ | ⟨data, fuel, dataVersion,
    read, -, hreads⟩
  · rw [(hfails m).1, fresh, (hfails {}).1]
  · obtain ⟨result, contents, hcontents⟩ :=
      deserializeContents_appends (fuel + 1) ⟨data, 0, dataVersion⟩
    rw [fresh, hreads, hreads, (hcontents _).1, (hcontents _).1]

/-- Reading appends the contents that it would leave in a fresh material. -/
theorem deserialize_contentsList (m : Material) (bytes : List UInt8) :
    (deserialize hash m ⟨bytes, 0, 0⟩).2.contentsList =
      m.contentsList ++ (fresh hash bytes).2.contentsList := by
  rcases deserialize_into hash bytes with ⟨-, e, hfails⟩ | ⟨data, fuel, dataVersion,
    read, -, hreads⟩
  · rw [(hfails m).2.1, fresh, (hfails {}).2.1, List.append_nil]
  · obtain ⟨result, contents, hcontents⟩ :=
      deserializeContents_appends (fuel + 1) ⟨data, 0, dataVersion⟩
    rw [fresh, hreads, hreads, (hcontents _).2.2, (hcontents _).2.2, List.nil_append]

/-- The root page that is left, after a success and after a failure. -/
theorem deserialize_seqTableRootPage (m : Material) (bytes : List UInt8) :
    (deserialize hash m ⟨bytes, 0, 0⟩).2.info.seqTableRootPage =
      (rootPageRead bytes).getD m.info.seqTableRootPage := by
  rcases deserialize_into hash bytes with ⟨-, e, hfails⟩ | ⟨data, fuel, dataVersion,
    read, -, hreads⟩
  · exact (hfails m).2.2.2
  · obtain ⟨result, contents, hcontents⟩ :=
      deserializeContents_appends (fuel + 1) ⟨data, 0, dataVersion⟩
    rw [hreads, (hcontents _).2.1]
    rfl

/-- A material that is rejected leaves contents exactly if reading comes to a block of them. -/
theorem fresh_contentsList_eq_nil {bytes : List UInt8} {e : ReadFailure}
    (hrejected : (fresh hash bytes).1 = .error e) :
    (fresh hash bytes).2.contentsList = [] ↔ body hash bytes = none := by
  rw [fresh] at hrejected ⊢
  rcases deserialize_into hash bytes with
    ⟨hnone, e', hfails⟩ | ⟨data, fuel, dataVersion, read, hsome, hreads⟩
  · exact iff_of_true (hfails {}).2.1 hnone
  · refine iff_of_false ?_ (by rw [hsome]; simp)
    rw [hreads] at hrejected ⊢
    refine contentsList_ne_nil fun hdata => ?_
    rw [hdata, deserializeContents_nil] at hrejected
    cases hrejected

/-- A material that is rejected before its contents leaves the map as it was. -/
theorem deserialize_contentsMap {bytes : List UInt8} (h : body hash bytes = none) (m : Material) :
    (deserialize hash m ⟨bytes, 0, 0⟩).2.contentsMap = m.contentsMap := by
  rcases deserialize_into hash bytes with ⟨-, e, hfails⟩ | ⟨data, fuel, dataVersion, read, hsome, -⟩
  · exact (hfails m).2.2.1
  · rw [h] at hsome
    cases hsome

/-- An accepted material is the one of a fresh object if there were no contents, and the root page
of the sequence table is read or was unknown. -/
theorem deserialize_eq_fresh_iff {m : Material} {bytes : List UInt8}
    (hvalid : (fresh hash bytes).1 = .ok ()) (hmap : m.contentsList = [] → m.contentsMap = []) :
    (deserialize hash m ⟨bytes, 0, 0⟩).2 = (fresh hash bytes).2 ↔
      m.contentsList = [] ∧
        (rootPageRead bytes ≠ none ∨ m.info.seqTableRootPage = unknownPageNo) := by
  constructor
  · intro heq
    refine ⟨?_, ?_⟩
    · have hlist := congrArg Material.contentsList heq
      rw [deserialize_contentsList] at hlist
      exact List.append_left_eq_self.mp hlist
    · have hroot := congrArg (fun m => m.info.seqTableRootPage) heq
      simp only [fresh, deserialize_seqTableRootPage] at hroot
      cases hread : rootPageRead bytes with
      | some page => exact Or.inl (Option.some_ne_none page)
      | none =>
        rw [hread] at hroot
        exact Or.inr hroot
  · rintro ⟨hlist, hroot⟩
    have hpage : (rootPageRead bytes).getD m.info.seqTableRootPage =
        (rootPageRead bytes).getD unknownPageNo := by
      cases hread : rootPageRead bytes with
      | some page => rfl
      | none => exact hroot.resolve_left fun hne => hne hread
    rw [fresh] at hvalid ⊢
    rcases deserialize_into hash bytes with ⟨-, e, hfails⟩ | ⟨data, fuel, dataVersion,
      read, -, hreads⟩
    · rw [(hfails {}).1] at hvalid
      cases hvalid
    · rw [hreads, hreads, hpage, hlist, hmap hlist]

end Reading

end Material

/-! ### The candidates -/

namespace FactoryRetriever

open Repair Material

/-- A candidate: its bytes, whether an error of the cipher counts as a corruption, and whether the
modification time can be read. -/
structure Candidate where
  file : Option (List UInt8)
  cipherCorrupts : Bool := false
  hasModifiedTime : Bool := true
  deriving DecidableEq, Repr

/-- What `deserialize` is given. The last is no return: a `memcpy` leaves its buffers. -/
inductive Opened where
  | data (bytes : List UInt8)
  | failed (isCorruption : Bool)
  | outOfBounds
  deriving DecidableEq, Repr

/-- The material that is used, or why there is none. -/
inductive Restored where
  | used (m : Material)
  | unused
  | error
  | undefined
  deriving DecidableEq, Repr

section Restore

variable (alloc : ℕ → Bool) (cipher : Option CipherDelegate) (hash : List UInt8 → UInt32)

/-- A candidate is opened, and decrypted with its own salt if the database is encrypted. -/
def Candidate.opened (c : Candidate) : Opened :=
  match c.file with
  | none => .failed false
  | some rawData =>
      match cipher with
      | none => .data rawData
      | some cipher =>
          match decryptedData alloc cipher true rawData with
          | .ok bytes => .data bytes
          | .error .outOfBounds => .outOfBounds
          | .error .cipher => .failed c.cipherCorrupts
          | .error .memory => .failed false
          | .error _ => .failed true

/-- The loop of `restore`; `m` is the one material that all candidates are read into. -/
def restore : Material → List Candidate → Restored
  | _, [] => .unused
  | m, c :: candidates =>
      match c.opened alloc cipher with
      | .outOfBounds => .undefined
      | .failed isCorruption => if isCorruption then restore m candidates else .error
      | .data bytes =>
          match deserialize hash m ⟨bytes, 0, 0⟩ with
          | (.ok (), m) => if c.hasModifiedTime then .used m else .error
          | (.error (.corrupt _), m) => restore m candidates
          | (.error _, _) => .undefined

/-- A candidate that is passed over. -/
def Candidate.Rejected (c : Candidate) : Prop :=
  c.opened alloc cipher = .failed true ∨
    ∃ bytes element, c.opened alloc cipher = .data bytes ∧
      (fresh hash bytes).1 = .error (.corrupt element)

/-- The first candidate that can be read, and those before it. -/
def FirstValid (candidates before : List Candidate) (bytes : List UInt8) : Prop :=
  ∃ c after, candidates = before ++ c :: after ∧
    (∀ b ∈ before, b.Rejected alloc cipher hash) ∧ c.opened alloc cipher = .data bytes ∧
    (fresh hash bytes).1 = .ok () ∧ c.hasModifiedTime = true

/-- A material that is used is that of the first candidate that can be read, in a fresh object. -/
structure UsesFresh (candidates : List Candidate) : Prop where
  valid : ∀ m, restore alloc cipher hash {} candidates = .used m →
    ∃ before bytes, FirstValid alloc cipher hash candidates before bytes
  fresh : ∀ before bytes, FirstValid alloc cipher hash candidates before bytes →
    restore alloc cipher hash {} candidates = .used (fresh hash bytes).2

/-- The last root page of a sequence table that was read. -/
def leftRootPage (candidates : List Candidate) : UInt32 :=
  candidates.foldl (fun page c =>
    match c.opened alloc cipher with
    | .data bytes => (rootPageRead bytes).getD page
    | _ => page) unknownPageNo

/-- Before the first candidate that can be read none is rejected within its contents, and it has a
root page of the sequence table itself or none is left. -/
def Clean (candidates : List Candidate) : Prop :=
  ∀ before bytes, FirstValid alloc cipher hash candidates before bytes →
    (∀ b ∈ before, ∀ rejected, b.opened alloc cipher = .data rejected →
      body hash rejected = none) ∧
    (rootPageRead bytes ≠ none ∨ leftRootPage alloc cipher before = unknownPageNo)

/-- What a candidate that is rejected leaves behind. -/
def leave (m : Material) (c : Candidate) : Material :=
  match c.opened alloc cipher with
  | .data bytes => (deserialize hash m ⟨bytes, 0, 0⟩).2
  | _ => m

end Restore

section Proofs

variable {alloc : ℕ → Bool} {cipher : Option CipherDelegate} {hash : List UInt8 → UInt32}
  {candidates before : List Candidate} {c : Candidate} {bytes : List UInt8} {m : Material}

/-- A candidate that is rejected is passed over, whatever the material holds. -/
theorem restore_rejected (h : c.Rejected alloc cipher hash) (m : Material) :
    restore alloc cipher hash m (c :: candidates) =
      restore alloc cipher hash (leave alloc cipher hash m c) candidates := by
  rcases h with hopened | ⟨bytes, element, hopened, hfails⟩
  · rw [restore, leave, hopened]
    rfl
  · rw [restore, leave, hopened]
    rw [← deserialize_fst hash m] at hfails
    simp only
    rcases hread : deserialize hash m ⟨bytes, 0, 0⟩ with ⟨result, m'⟩
    rw [hread] at hfails
    simp only at hfails
    subst hfails
    rfl

theorem restore_firstValid (h : FirstValid alloc cipher hash candidates before bytes)
    (m : Material) :
    restore alloc cipher hash m candidates =
      .used (deserialize hash (before.foldl (leave alloc cipher hash) m) ⟨bytes, 0, 0⟩).2 := by
  obtain ⟨c, after, rfl, hrejected, hopened, hvalid, htime⟩ := h
  induction before generalizing m with
  | nil =>
    rw [← deserialize_fst hash m] at hvalid
    rw [List.nil_append, restore, hopened]
    simp only [List.foldl_nil]
    rcases hread : deserialize hash m ⟨bytes, 0, 0⟩ with ⟨result, m'⟩
    rw [hread] at hvalid
    simp only at hvalid
    subst hvalid
    exact if_pos htime
  | cons b before ih =>
    rw [List.cons_append, restore_rejected (hrejected b List.mem_cons_self)]
    exact ih _ (fun b' hb' => hrejected b' (List.mem_cons_of_mem _ hb'))

theorem firstValid_of_used {m m' : Material}
    (h : restore alloc cipher hash m candidates = .used m') :
    ∃ before bytes, FirstValid alloc cipher hash candidates before bytes := by
  induction candidates generalizing m with
  | nil => cases h
  | cons c candidates ih =>
    by_cases hrejected : c.Rejected alloc cipher hash
    · rw [restore_rejected hrejected] at h
      obtain ⟨before, bytes, d, after, hsplit, hbefore, hrest⟩ := ih h
      refine ⟨c :: before, bytes, d, after, by rw [hsplit, List.cons_append], ?_, hrest⟩
      exact List.forall_mem_cons.mpr ⟨hrejected, hbefore⟩
    · rw [restore] at h
      cases hopened : c.opened alloc cipher with
      | outOfBounds =>
        rw [hopened] at h
        cases h
      | failed isCorruption =>
        cases isCorruption with
        | true => exact absurd (Or.inl hopened) hrejected
        | false =>
          rw [hopened] at h
          cases h
      | data bytes =>
        rw [hopened] at h
        simp only at h
        have hfst := deserialize_fst hash m bytes
        rcases hread : deserialize hash m ⟨bytes, 0, 0⟩ with ⟨result, m₁⟩
        rw [hread] at h hfst
        cases result with
        | ok _ =>
          simp only at h
          split_ifs at h with htime
          exact ⟨[], bytes, c, candidates, rfl, fun _ hb => absurd hb List.not_mem_nil, hopened,
            hfst.symm, htime⟩
        | error e =>
          cases e with
          | corrupt element => exact absurd (Or.inr ⟨bytes, element, hopened, hfst.symm⟩) hrejected
          | lengthError => cases h
          | outOfBounds => cases h
          | endless => cases h

/-- What the rejected candidates leave in the material. -/
theorem leave_foldl (hrejected : ∀ b ∈ before, b.Rejected alloc cipher hash) (m : Material) :
    ((before.foldl (leave alloc cipher hash) m).contentsList = [] ↔ m.contentsList = [] ∧
      ∀ b ∈ before, ∀ bytes, b.opened alloc cipher = .data bytes → body hash bytes = none) ∧
    ((before.foldl (leave alloc cipher hash) m).contentsList = [] →
      (before.foldl (leave alloc cipher hash) m).contentsMap = m.contentsMap) := by
  induction before generalizing m with
  | nil => simp
  | cons b before ih =>
    obtain ⟨hlist, hmap⟩ := ih (fun b' hb' => hrejected b' (List.mem_cons_of_mem _ hb'))
      (leave alloc cipher hash m b)
    have hb := hrejected b List.mem_cons_self
    rw [List.foldl_cons, hlist, List.forall_mem_cons, ← and_assoc]
    have hleave : (leave alloc cipher hash m b).contentsList = [] ↔ m.contentsList = [] ∧
        ∀ bytes, b.opened alloc cipher = .data bytes → body hash bytes = none := by
      rcases hb with hopened | ⟨bytes, element, hopened, hfails⟩
      · rw [leave, hopened]
        simp
      · rw [leave, hopened]
        simp only [deserialize_contentsList, List.append_eq_nil_iff,
          fresh_contentsList_eq_nil hash hfails, Opened.data.injEq]
        exact and_congr_right fun _ => ⟨fun h b hb => hb ▸ h, fun h => h bytes rfl⟩
    refine ⟨and_congr_left fun _ => hleave, fun h => ?_⟩
    rw [hmap (hlist.mpr h)]
    rcases hb with hopened | ⟨bytes, element, hopened, hfails⟩
    · rw [leave, hopened]
    · rw [leave, hopened]
      exact deserialize_contentsMap hash ((hleave.mp h.1).2 bytes hopened) m

theorem leave_seqTableRootPage (before : List Candidate) (m : Material) :
    (before.foldl (leave alloc cipher hash) m).info.seqTableRootPage =
      before.foldl (fun page c =>
        match c.opened alloc cipher with
        | .data bytes => (rootPageRead bytes).getD page
        | _ => page) m.info.seqTableRootPage := by
  induction before generalizing m with
  | nil => rfl
  | cons b before ih =>
    rw [List.foldl_cons, List.foldl_cons, ih]
    congr 1
    rw [leave]
    cases b.opened alloc cipher with
    | data bytes => exact deserialize_seqTableRootPage hash m bytes
    | failed isCorruption => rfl
    | outOfBounds => rfl

end Proofs

/-- A material whose checksum is right, with one content and the beginning of another. -/
def brokenCandidate : Candidate where
  file := some (envelope crc32 {} [1, 97, 2, 0, 1, 99, 0, 0, 1])

/-- A material without contents. -/
def emptyCandidate : Candidate where
  file := some (envelope crc32 {} [])

end FactoryRetriever

end Wcdb
