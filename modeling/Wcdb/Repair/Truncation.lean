import Wcdb.Base.Puts
import Wcdb.Base.Readers
import Wcdb.Repair.IncrementalMaterialRoundTrip

/-!
# Reading a material from any bytes

Both readers end on every input, and what they read lies in the input unless they arrive at a field
that their checks do not guard. For a backup material these are the sized fields whose declared size
overruns; for an incremental material also the schema cookie and the backup time, whose missing
bytes are reported and then read. `Strays` says that a reader arrives at such a field.

A material that was written and is cut short is refused. The one exception is an incremental
material that ends inside one of these two fields (`refused_iff`).

Memory for what is read is taken to be granted, so that a slice that is handed out is copied.
-/

namespace Wcdb.Material

open Serialization Deserialization

variable {d : Deserialization} {bs : List UInt8}

/-! ### The fields of a content -/

section Fields

theorem readSized_spec (element : Element) (h : At d bs) :
    (readSized element d = .error .outOfBounds ↔ d.Overruns) ∧
      readSized element d ≠ .error .endless ∧
        ∀ string d', readSized element d = .ok (string, d') → d'.Ahead bs.length := by
  rw [readSized]
  rcases h.advanceSized_spec with ⟨slice, hd, hover⟩ | ⟨n, string, d', hd, hover, hn, -, hat, -⟩ |
    ⟨n, d', hd, hover⟩
  · simp [hd, hover]
  · simp only [hd]
    split_ifs
    · simp [hover]
    · refine ⟨by simp [hover], by simp, fun string₂ d₂ heq => ?_⟩
      simp only [Except.ok.injEq, Prod.mk.injEq] at heq
      obtain ⟨-, rfl⟩ := heq
      exact At.ahead_drop hn hat
  · simp [hd, hover]

theorem readVarint_spec (element : Element) (h : At d bs) :
    readVarint element d = .error (.corrupt element) ∨
      ∃ v d', readVarint element d = .ok (v, d') ∧ d'.Ahead bs.length := by
  rw [readVarint]
  rcases h.advanceVarint_spec with hd | ⟨n, v, d', hd, -, hn, hat, -⟩
  · exact .inl (by rw [hd])
  · exact .inr ⟨v, d', by rw [hd], At.ahead_drop hn hat⟩

theorem read4Bytes_spec (element : Element) (h : At d bs) :
    read4Bytes element d = .error (.corrupt element) ∨
      ∃ v d', read4Bytes element d = .ok (v, d') ∧ d'.Ahead bs.length := by
  rw [read4Bytes]
  by_cases hcan : d.canAdvance 4 = true
  · have hlen := (h.canAdvance_iff (by omega)).mp hcan
    obtain ⟨hat, -⟩ := h.advance4BytesUInt_drop hlen
    exact .inr ⟨_, _, by rw [if_pos hcan], At.ahead_drop hlen hat⟩
  · exact .inl (by rw [if_neg hcan])

/-- The reader of associated SQLs, `n` of them left, arrives at one. -/
inductive SQLAt : ℕ → Deserialization → Deserialization → Prop where
  | here (n : ℕ) (d : Deserialization) : SQLAt (n + 1) d d
  | later {n : ℕ} {d d₁ d' : Deserialization} {buffer : List UInt8}
      (hread : readSized .sqls d = .ok (buffer, d₁)) (hlater : SQLAt n d₁ d') : SQLAt (n + 1) d d'

/-- The root page, which the old version does not have. -/
def readRootPage (d : Deserialization) : Except ReadFailure (ℕ × Deserialization) :=
  if version ≤ d.dataVersion then readVarint .rootPage d else .ok (unknownPageNo.toNat, d)

/-- The reader of a content that begins at `d` arrives at a sized field. -/
inductive SizedFieldAt : Deserialization → Deserialization → Prop where
  | tableName (d : Deserialization) : SizedFieldAt d d
  | sql {d d₁ d₂ d₃ : Deserialization} {tableName : List UInt8} {rootPage sequence : ℕ}
      (htable : readSized .tableName d = .ok (tableName, d₁))
      (hroot : readRootPage d₁ = .ok (rootPage, d₂))
      (hsequence : readVarint .sequence d₂ = .ok (sequence, d₃)) : SizedFieldAt d d₃
  | associated {d d₁ d₂ d₃ d₄ d₅ d' : Deserialization} {tableName sql : List UInt8}
      {rootPage sequence count : ℕ}
      (htable : readSized .tableName d = .ok (tableName, d₁))
      (hroot : readRootPage d₁ = .ok (rootPage, d₂))
      (hsequence : readVarint .sequence d₂ = .ok (sequence, d₃))
      (hsql : readSized .sql d₃ = .ok (sql, d₄)) (hcount : readVarint .sqls d₄ = .ok (count, d₅))
      (hat : SQLAt (int32 count).toNat d₅ d') : SizedFieldAt d d'

theorem readSQLs_spec (h : At d bs) (n : ℕ) (sqls : List (List UInt8)) :
    ((readSQLs n sqls d).1 = .error .outOfBounds ↔ ∃ d', SQLAt n d d' ∧ d'.Overruns) ∧
      (readSQLs n sqls d).1 ≠ .error .endless ∧
        ∀ d', (readSQLs n sqls d).1 = .ok d' → d'.Ahead (bs.length + 1) := by
  induction n generalizing d bs sqls with
  | zero =>
    refine ⟨iff_of_false (by simp [readSQLs]) ?_, by simp [readSQLs], fun d' heq => ?_⟩
    · rintro ⟨d', hat, -⟩
      cases hat
    · simp only [readSQLs, Except.ok.injEq] at heq
      exact heq ▸ ⟨bs, h, Nat.lt_succ_self _⟩
  | succ n ih =>
    obtain ⟨hover, hends, hahead⟩ := readSized_spec .sqls h
    rw [readSQLs]
    rcases hread : readSized .sqls d with e | ⟨buffer, d₁⟩
    · rw [hread, Except.error.injEq] at hover
      rw [hread, ne_eq, Except.error.injEq] at hends
      simp only [Except.error.injEq]
      refine ⟨?_, by simpa using hends, by simp⟩
      constructor
      · intro he
        exact ⟨d, .here n d, hover.mp he⟩
      · rintro ⟨d', hat, hd'⟩
        cases hat with
        | here => exact hover.mpr hd'
        | later hfirst => exact absurd (hread.symm.trans hfirst) (by simp)
    · obtain ⟨bs₁, hat₁, hlt⟩ := hahead buffer d₁ hread
      obtain ⟨ihover, ihends, ihahead⟩ := ih hat₁ (sqls ++ [buffer])
      rw [hread] at hover
      refine ⟨ihover.trans ?_, ihends, fun d' heq => (ihahead d' heq).mono (by omega)⟩
      constructor
      · rintro ⟨d', hat, hd'⟩
        exact ⟨d', .later hread hat, hd'⟩
      · rintro ⟨d', hat, hd'⟩
        cases hat with
        | here => exact absurd (hover.mpr hd') (by simp)
        | later hfirst hlater =>
          rw [hread, Except.ok.injEq, Prod.mk.injEq] at hfirst
          obtain ⟨rfl, rfl⟩ := hfirst
          exact ⟨d', hlater, hd'⟩

theorem readPages_spec (h : At d bs) (n prePageNo : ℕ) (pages : List Page) :
    (readPages n prePageNo pages d).1 ≠ .error .outOfBounds ∧
      (readPages n prePageNo pages d).1 ≠ .error .endless ∧
        ∀ d', (readPages n prePageNo pages d).1 = .ok d' → d'.Ahead (bs.length + 1) := by
  induction n generalizing d bs prePageNo pages with
  | zero =>
    refine ⟨by simp [readPages], by simp [readPages], fun d' heq => ?_⟩
    simp only [readPages, Except.ok.injEq] at heq
    exact heq ▸ ⟨bs, h, Nat.lt_succ_self _⟩
  | succ n ih =>
    rw [readPages]
    rcases readVarint_spec .pageno h with hread | ⟨v, d₁, hread, bs₁, hat₁, hlt₁⟩
    · simp [hread]
    rcases read4Bytes_spec .pageChecksum hat₁ with hhash | ⟨w, d₂, hhash, bs₂, hat₂, hlt₂⟩
    · simp [hread, hhash]
    simp only [hread, hhash]
    split_ifs
    · obtain ⟨hover, hends, hahead⟩ := ih hat₂ (u64 (prePageNo + v))
        (pages ++ [⟨UInt32.ofNat (u64 (v + prePageNo)), w⟩])
      exact ⟨hover, hends, fun d' heq => (hahead d' heq).mono (by omega)⟩
    · obtain ⟨hover, hends, hahead⟩ := ih hat₂ prePageNo (pages ++ [⟨UInt32.ofNat v, w⟩])
      exact ⟨hover, hends, fun d' heq => (hahead d' heq).mono (by omega)⟩

theorem readRootPage_spec (h : At d bs) :
    readRootPage d = .error (.corrupt .rootPage) ∨
      ∃ v d', readRootPage d = .ok (v, d') ∧ d'.Ahead (bs.length + 1) := by
  rw [readRootPage]
  split_ifs
  · rcases readVarint_spec .rootPage h with hread | ⟨v, d', hread, hahead⟩
    · exact .inl hread
    · exact .inr ⟨v, d', hread, hahead.mono (by omega)⟩
  · exact .inr ⟨_, _, rfl, bs, h, Nat.lt_succ_self _⟩

/-- The sized fields in their order. -/
theorem sizedFieldAt_overruns_iff :
    (∃ d', SizedFieldAt d d' ∧ d'.Overruns) ↔
      d.Overruns ∨ ∃ tableName d₁, readSized .tableName d = .ok (tableName, d₁) ∧
        ∃ rootPage d₂, readRootPage d₁ = .ok (rootPage, d₂) ∧
          ∃ sequence d₃, readVarint .sequence d₂ = .ok (sequence, d₃) ∧
            (d₃.Overruns ∨ ∃ sql d₄, readSized .sql d₃ = .ok (sql, d₄) ∧
              ∃ count d₅, readVarint .sqls d₄ = .ok (count, d₅) ∧
                ∃ d', SQLAt (int32 count).toNat d₅ d' ∧ d'.Overruns) := by
  constructor
  · rintro ⟨d', hat, hover⟩
    cases hat with
    | tableName => exact .inl hover
    | sql htable hroot hsequence =>
      exact .inr ⟨_, _, htable, _, _, hroot, _, _, hsequence, .inl hover⟩
    | associated htable hroot hsequence hsql hcount hat =>
      exact .inr ⟨_, _, htable, _, _, hroot, _, _, hsequence, .inr
        ⟨_, _, hsql, _, _, hcount, d', hat, hover⟩⟩
  · rintro (hover | ⟨_, _, htable, _, _, hroot, _, d₃, hsequence, hover |
      ⟨_, _, hsql, _, _, hcount, d', hat, hover⟩⟩)
    · exact ⟨d, .tableName d, hover⟩
    · exact ⟨d₃, .sql htable hroot hsequence, hover⟩
    · exact ⟨d', .associated htable hroot hsequence hsql hcount hat, hover⟩

/-- A content is read beyond its buffer exactly if one of its sized fields overruns. -/
theorem Content.deserialize_spec (h : At d bs) :
    ((Content.deserialize {} d).1 = .error .outOfBounds ↔
      ∃ d', SizedFieldAt d d' ∧ d'.Overruns) ∧
      (Content.deserialize {} d).1 ≠ .error .endless ∧
        ∀ d', (Content.deserialize {} d).1 = .ok d' → d'.Ahead bs.length := by
  rw [sizedFieldAt_overruns_iff, Content.deserialize]
  obtain ⟨htableOver, htableEnds, htableAhead⟩ := readSized_spec .tableName h
  rcases htable : readSized .tableName d with e | ⟨tableName, d₁⟩
  · rw [htable] at htableOver htableEnds
    simp only [Except.error.injEq, ne_eq] at htableOver htableEnds
    simp [htableOver, htableEnds]
  obtain ⟨bs₁, hat₁, hlt₁⟩ := htableAhead tableName d₁ htable
  replace htableOver : ¬d.Overruns := fun hover => by simpa [htable] using htableOver.mpr hover
  simp only [htableOver, false_or]
  have hrootEq : (if version ≤ d₁.dataVersion then readVarint .rootPage d₁
      else .ok (unknownPageNo.toNat, d₁)) = readRootPage d₁ := rfl
  simp only [hrootEq]
  rcases readRootPage_spec hat₁ with hroot | ⟨rootPage, d₂, hroot, bs₂, hat₂, hlt₂⟩
  · simp [hroot]
  rcases readVarint_spec .sequence hat₂ with hsequence | ⟨sequence, d₃, hsequence, bs₃, hat₃, hlt₃⟩
  · simp [hroot, hsequence]
  obtain ⟨hsqlOver, hsqlEnds, hsqlAhead⟩ := readSized_spec .sql hat₃
  rcases hsql : readSized .sql d₃ with e | ⟨sql, d₄⟩
  · rw [hsql] at hsqlOver hsqlEnds
    simp only [Except.error.injEq, ne_eq] at hsqlOver hsqlEnds
    simp [hroot, hsequence, hsql, hsqlOver, hsqlEnds]
  obtain ⟨bs₄, hat₄, hlt₄⟩ := hsqlAhead sql d₄ hsql
  replace hsqlOver : ¬d₃.Overruns := fun hover => by simpa [hsql] using hsqlOver.mpr hover
  rcases readVarint_spec .sqls hat₄ with hcount | ⟨count, d₅, hcount, bs₅, hat₅, hlt₅⟩
  · simp [hroot, hsequence, hsql, hsqlOver, hcount]
  obtain ⟨hsqlsOver, hsqlsEnds, hsqlsAhead⟩ := readSQLs_spec hat₅ (int32 count).toNat []
  rcases hsqls : readSQLs (int32 count).toNat [] d₅ with ⟨e | d₆, sqls⟩
  · rw [hsqls] at hsqlsOver hsqlsEnds
    simp only [Except.error.injEq, ne_eq] at hsqlsOver hsqlsEnds
    simp [hroot, hsequence, hsql, hsqlOver, hcount, hsqls, hsqlsOver, hsqlsEnds]
  obtain ⟨bs₆, hat₆, hlt₆⟩ := hsqlsAhead d₆ (by rw [hsqls])
  replace hsqlsOver : ¬∃ d', SQLAt (int32 count).toNat d₅ d' ∧ d'.Overruns := fun hover => by
    simpa [hsqls] using hsqlsOver.mpr hover
  have hcond : ¬∃ tableName' d₁',
      (Except.ok (tableName, d₁) : Except ReadFailure _) = .ok (tableName', d₁') ∧
        ∃ rootPage d₂, readRootPage d₁' = .ok (rootPage, d₂) ∧
          ∃ sequence d₃, readVarint .sequence d₂ = .ok (sequence, d₃) ∧
            (d₃.Overruns ∨ ∃ sql d₄, readSized .sql d₃ = .ok (sql, d₄) ∧
              ∃ count d₅, readVarint .sqls d₄ = .ok (count, d₅) ∧
                ∃ d', SQLAt (int32 count).toNat d₅ d' ∧ d'.Overruns) := by
    simpa [hroot, hsequence, hsqlOver, hsql, hcount] using hsqlsOver
  simp only [hcond, iff_false, hroot, hsequence, hsql, hcount, hsqls]
  rcases readVarint_spec .numberOfPages hat₆ with hpages | ⟨pages, d₇, hpages, bs₇, hat₇, hlt₇⟩
  · simp [hpages]
  simp only [hpages]
  split_ifs
  · simp
  · obtain ⟨hover, hends, hahead⟩ := readPages_spec hat₇ (int32 pages).toNat 0 []
    exact ⟨hover, hends, fun d' heq => (hahead d' heq).mono (by omega)⟩

end Fields

/-! ### The whole material -/

section Whole

/-- The loop over the contents that begins at the first argument arrives at a content. -/
inductive ContentAt : Deserialization → Deserialization → Prop where
  | here {d : Deserialization} (hmore : d.ended = false) : ContentAt d d
  | later {d d₁ d' : Deserialization} (hmore : d.ended = false)
      (hread : (Content.deserialize {} d).1 = .ok d₁) (hlater : ContentAt d₁ d') : ContentAt d d'

/-- A content that the loop arrives at has a sized field that overruns. -/
def ContentsStray (d : Deserialization) : Prop :=
  ∃ d₁, ContentAt d d₁ ∧ ∃ d₂, SizedFieldAt d₁ d₂ ∧ d₂.Overruns

theorem deserializeContents_spec (h : At d bs) {fuel : ℕ} (hfuel : bs.length < fuel)
    (m : Material) :
    ((deserializeContents fuel m d).1 = .error .outOfBounds ↔ ContentsStray d) ∧
      (deserializeContents fuel m d).1 ≠ .error .endless := by
  induction fuel generalizing d bs m with
  | zero => omega
  | succ fuel ih =>
    rw [deserializeContents]
    by_cases hended : d.ended = true
    · rw [if_pos hended]
      refine ⟨iff_of_false (by simp) ?_, by simp⟩
      rintro ⟨d₁, hat, -⟩
      cases hat with
      | here hmore => exact absurd hended (by simp [hmore])
      | later hmore => exact absurd hended (by simp [hmore])
    replace hended : d.ended = false := Bool.eq_false_of_not_eq_true hended
    rw [hended, if_neg Bool.false_ne_true]
    obtain ⟨hover, hends, hahead⟩ := Content.deserialize_spec h
    rcases hread : Content.deserialize {} d with ⟨e | d₁, content⟩
    · rw [hread] at hover hends
      simp only [Except.error.injEq, ne_eq] at hover hends
      simp only [Except.error.injEq]
      refine ⟨?_, by simpa using hends⟩
      rw [hover]
      constructor
      · rintro ⟨d', hat, hd'⟩
        exact ⟨d, .here hended, d', hat, hd'⟩
      · rintro ⟨d₁, hat, hd₁⟩
        cases hat with
        | here => exact hd₁
        | later _ hfirst => exact absurd (hread ▸ hfirst) (by simp)
    · obtain ⟨bs₁, hat₁, hlt₁⟩ := hahead d₁ (by rw [hread])
      rw [hread] at hover
      obtain ⟨ihover, ihends⟩ := ih hat₁ (by omega)
        { m with
          contentsList := m.contentsList ++ [content]
          contentsMap := assign m.contentsMap content.tableName m.contentsList.length }
      refine ⟨ihover.trans ?_, ihends⟩
      constructor
      · rintro ⟨d₂, hat, hd₂⟩
        exact ⟨d₂, .later hended (by rw [hread]) hat, hd₂⟩
      · rintro ⟨d₂, hat, hd₂⟩
        cases hat with
        | here => exact absurd (hover.mpr hd₂) (by simp)
        | later _ hfirst hlater =>
          rw [hread, Except.ok.injEq] at hfirst
          exact ⟨d₂, hfirst ▸ hlater, hd₂⟩

variable {hash : List UInt8 → UInt32}

theorem Info.deserialize_spec (h : At d bs) (info : Info) :
    (∃ element, (info.deserialize d).1 = .error (.corrupt element)) ∨
      ∃ d' bs', (info.deserialize d).1 = .ok d' ∧ At d' bs' := by
  rw [Info.deserialize]
  by_cases hcan : d.canAdvance (Info.size - 4) = true
  · have hlen : 20 ≤ bs.length := (h.canAdvance_iff (by decide)).mp hcan
    obtain ⟨h₁, -⟩ := h.advance4BytesUInt_drop (by omega)
    obtain ⟨h₂, -⟩ := h₁.advance4BytesUInt_drop (by rw [List.length_drop]; omega)
    obtain ⟨h₃, -⟩ := h₂.advance4BytesUInt_drop (by simp only [List.length_drop]; omega)
    obtain ⟨h₄, -⟩ := h₃.advance4BytesUInt_drop (by simp only [List.length_drop]; omega)
    obtain ⟨h₅, -⟩ := h₄.advance4BytesUInt_drop (by simp only [List.length_drop]; omega)
    simp only [hcan, Bool.not_true, Bool.false_eq_true, if_false]
    split_ifs
    · rcases read4Bytes_spec .seqTableRootPage h₅ with hread | ⟨v, d', hread, bs', hat, -⟩
      · exact .inl ⟨.seqTableRootPage, by rw [hread]⟩
      · exact .inr ⟨d', bs', by rw [hread], hat⟩
    · exact .inr ⟨_, _, rfl, h₅⟩
  · exact .inl ⟨.info, by simp [hcan]⟩

/-- The reader of a material that begins at `d` has read header and info at `d'`. -/
def InfoReadAt (info : Info) (d d' : Deserialization) : Prop :=
  let (magicValue, d₁) := d.advance4BytesUInt
  let (versionValue, d₂) := d₁.advance4BytesUInt
  d.canAdvance headerSize = true ∧ magicValue = magic ∧
    (versionValue = oldVersion ∨ versionValue = version) ∧
      (info.deserialize { d₂ with dataVersion := versionValue }).1 = .ok d'

/-- The reader arrives at a sized field that overruns. -/
def Strays (hash : List UInt8 → UInt32) (info : Info) (d : Deserialization) : Prop :=
  ∃ d₁, InfoReadAt info d d₁ ∧
    ((∃ checksum d₂, read4Bytes .checksum d₁ = .ok (checksum, d₂) ∧ d₂.Overruns) ∨
      ∃ contents, deserializeData hash d₁ = .ok contents ∧
        ContentsStray ⟨contents, 0, d₁.dataVersion⟩)

theorem deserializeData_spec (h : At d bs) :
    (deserializeData hash d = .error .outOfBounds ↔
      ∃ checksum d', read4Bytes .checksum d = .ok (checksum, d') ∧ d'.Overruns) ∧
      deserializeData hash d ≠ .error .endless ∧
        ∀ contents, deserializeData hash d = .ok contents → contents.length < 2 ^ 63 := by
  have hsmall := h.small
  have hlen := h.length
  rw [deserializeData]
  rcases read4Bytes_spec .checksum h with hread | ⟨checksum, d', hread, bs', hat, hlt⟩
  · simp [hread, bind, Except.bind]
  simp only [hread, bind, Except.bind]
  rcases hat.advanceSized_spec with ⟨slice, hd, hover⟩ |
    ⟨n, string, d₂, hd, hover, hn, hstring, -, -⟩ | ⟨n, d₂, hd, hover⟩
  · simp [hd, hover]
  · simp only [hd]
    refine ⟨iff_of_false ?_ (by simpa using hover), ?_, fun contents heq => ?_⟩
    · split_ifs <;> simp
    · split_ifs <;> simp
    · have hcontents : string = contents := by
        split_ifs at heq
        · exact Except.ok.inj heq
        · exact Except.ok.inj heq
      rw [← hcontents]
      omega
  · simp [hd, hover]

/-- **Reading a material ends, and stays in its input** unless a sized field overruns. -/
theorem deserialize_spec (h : At d bs) (m : Material) :
    ((m.deserialize hash d).1 = .error .outOfBounds ↔ Strays hash m.info d) ∧
      (m.deserialize hash d).1 ≠ .error .endless := by
  rw [deserialize, Strays]
  simp only [InfoReadAt]
  by_cases hcan : d.canAdvance headerSize = true
  swap
  · simp [hcan]
  have hlen : 8 ≤ bs.length := (h.canAdvance_iff (by decide)).mp hcan
  obtain ⟨h₁, -⟩ := h.advance4BytesUInt_drop (by omega)
  obtain ⟨h₂, -⟩ := h₁.advance4BytesUInt_drop (by rw [List.length_drop]; omega)
  simp only [hcan, Bool.not_true, Bool.false_eq_true, if_false, true_and]
  generalize d.advance4BytesUInt = first at h₁ h₂ ⊢
  generalize first.2.advance4BytesUInt = second at h₂ ⊢
  by_cases hmagic : first.1 = magic
  swap
  · simp [hmagic]
  by_cases hversion : second.1 ≠ oldVersion ∧ second.1 ≠ version
  · simp [hmagic, hversion]
  have hknown : second.1 = oldVersion ∨ second.1 = version := by
    by_contra hneither
    exact hversion (not_or.mp hneither)
  simp only [hmagic, hversion, hknown, ne_eq, not_true_eq_false, if_false, true_and]
  rcases Info.deserialize_spec (h₂.withVersion second.1) m.info with
    ⟨element, hinfo⟩ | ⟨d₃, bs₃, hinfo, hat₃⟩
  · generalize m.info.deserialize { second.2 with dataVersion := second.1 } = read at hinfo ⊢
    obtain ⟨result, info⟩ := read
    simp only at hinfo
    simp [hinfo]
  generalize m.info.deserialize { second.2 with dataVersion := second.1 } = read at hinfo ⊢
  obtain ⟨result, info⟩ := read
  simp only at hinfo
  obtain ⟨hblock, hends, hfit⟩ := @deserializeData_spec _ _ hash hat₃
  simp only [hinfo, Except.ok.injEq, exists_eq_left']
  rcases hdata : deserializeData hash d₃ with e | contents
  · rw [hdata] at hblock hends
    simp only [Except.error.injEq, ne_eq] at hblock hends
    simp [hblock, hends]
  · rw [hdata] at hblock
    obtain ⟨hover, hcontentsEnds⟩ := deserializeContents_spec
      (At.start (hfit contents hdata) d₃.dataVersion) (Nat.lt_succ_self _) { m with info }
    refine ⟨hover.trans ?_, hcontentsEnds⟩
    rw [← hblock]
    simp

end Whole

/-! ### A material that is cut short -/

section Cut

variable {hash : List UInt8 → UInt32}

theorem Info.deserialize_short (h : At d bs) (hversion : version ≤ d.dataVersion)
    (hlen : bs.length < 24) (info : Info) :
    ∃ element, (info.deserialize d).1 = .error (.corrupt element) := by
  rw [Info.deserialize]
  by_cases hcan : d.canAdvance (Info.size - 4) = true
  · have hlong : 20 ≤ bs.length := (h.canAdvance_iff (by decide)).mp hcan
    obtain ⟨h₁, hv₁⟩ := h.advance4BytesUInt_drop (by omega)
    obtain ⟨h₂, hv₂⟩ := h₁.advance4BytesUInt_drop (by rw [List.length_drop]; omega)
    obtain ⟨h₃, hv₃⟩ := h₂.advance4BytesUInt_drop (by simp only [List.length_drop]; omega)
    obtain ⟨h₄, hv₄⟩ := h₃.advance4BytesUInt_drop (by simp only [List.length_drop]; omega)
    obtain ⟨h₅, hv₅⟩ := h₄.advance4BytesUInt_drop (by simp only [List.length_drop]; omega)
    simp only [hcan, Bool.not_true, Bool.false_eq_true, if_false]
    have hlast := h₅.canAdvance_iff (show 4 < 2 ^ 62 by omega)
    simp only [List.length_drop] at hlast
    rw [if_pos (by rw [hv₅, hv₄, hv₃, hv₂, hv₁]; exact hversion), read4Bytes,
      if_neg (fun hfour => by have := hlast.mp hfour; omega)]
    exact ⟨_, rfl⟩
  · exact ⟨.info, by simp [hcan]⟩

/-- The sealed contents are refused when they are cut short. -/
theorem deserializeData_cut {data : List UInt8} (hdata : data.length < 2 ^ 63) {n : ℕ}
    (hn : n < (encode4Bytes (checksum hash data) ++ encodeSized data).length)
    (h : At d ((encode4Bytes (checksum hash data) ++ encodeSized data).take n)) :
    ∃ element, deserializeData hash d = .error (.corrupt element) := by
  have hlen : ((encode4Bytes (checksum hash data) ++ encodeSized data).take n).length = n :=
    List.length_take_of_le hn.le
  have hfour := h.canAdvance_iff (show 4 < 2 ^ 62 by omega)
  rw [hlen] at hfour
  rw [deserializeData, read4Bytes]
  by_cases hcan : d.canAdvance 4 = true
  · obtain ⟨d₁, hread, hat, -⟩ := (h.of_take_append (hfour.mp hcan)).advance4BytesUInt
    obtain ⟨slice, hsized⟩ := hat.advanceSized_cut hdata (by
      rw [List.length_append] at hn
      have := hfour.mp hcan
      simp only [encode4Bytes, List.length_cons, List.length_nil] at hn ⊢
      omega)
    exact ⟨.content, by simp [hcan, hread, hsized, bind, Except.bind]⟩
  · exact ⟨.checksum, by simp [hcan, bind, Except.bind]⟩

/-- **A material that is cut short is refused.** -/
theorem deserialize_cut {info : Info} {data : List UInt8}
    (hfit : (envelope hash info data).length < 2 ^ 63) {n : ℕ}
    (hn : n < (envelope hash info data).length) (m : Material) (start : UInt32) :
    ∃ element, (m.deserialize hash ⟨(envelope hash info data).take n, 0, start⟩).1 =
      .error (.corrupt element) := by
  have h := At.start (show ((envelope hash info data).take n).length < 2 ^ 63 by
    rw [List.length_take_of_le hn.le]; omega) start
  generalize (⟨(envelope hash info data).take n, 0, start⟩ : Deserialization) = d at h ⊢
  have hlength : (envelope hash info data).length =
      4 + (4 + (encodeInfo info ++ (encode4Bytes (checksum hash data) ++
        encodeSized data)).length) := by
    rw [envelope, List.length_append, List.length_append]
    rfl
  rw [envelope] at h
  rw [deserialize]
  rcases h.twoWords_take (by omega) with
    ⟨-, hcan⟩ | ⟨k, d₁, d₂, rfl, hcan, hmagic, hversion, hat₂⟩
  · exact ⟨.header, by simp [headerSize, hcan]⟩
  simp only [headerSize, hcan, Bool.not_true, Bool.false_eq_true, if_false, hmagic, hversion,
    ne_eq, not_true_eq_false, and_false]
  replace hat₂ := hat₂.withVersion version
  have hinfoLen : (encodeInfo info).length = 24 := rfl
  have hrest : k < (encodeInfo info ++
      (encode4Bytes (checksum hash data) ++ encodeSized data)).length := by omega
  by_cases hshort : k < 24
  · obtain ⟨element, hinfo⟩ := Info.deserialize_short hat₂ (UInt32.le_refl version)
      (by rw [List.length_take_of_le hrest.le]; exact hshort) m.info
    refine ⟨element, ?_⟩
    generalize m.info.deserialize { d₂ with dataVersion := version } = read at hinfo ⊢
    obtain ⟨result, info'⟩ := read
    simp only at hinfo
    rw [hinfo]
  · obtain ⟨d₃, hinfo, hat₃, -⟩ := Info.deserialize_eq (rfl : version = version)
      (hat₂.of_take_append (by omega)) m.info
    rw [List.length_append] at hrest
    obtain ⟨element, hdata⟩ := @deserializeData_cut _ hash data
      (show data.length < 2 ^ 63 by
        simp only [envelope, encodeSized, List.length_append] at hfit
        omega) _ (by omega) hat₃
    exact ⟨element, by rw [hinfo]; simp only [hdata]⟩

end Cut

end Wcdb.Material

namespace Wcdb.Repair.IncrementalMaterial

open Serialization Deserialization

variable {d : Deserialization} {bs : List UInt8} {hash : List UInt8 → UInt32}

/-! ### An incremental material from any bytes -/

section Whole

theorem readVarint_spec (element : Element) (h : At d bs) :
    readVarint element d = .error (.corrupt element) ∨
      ∃ v d', readVarint element d = .ok (v, d') ∧ d'.Ahead bs.length := by
  rw [readVarint]
  rcases h.advanceVarint_spec with hd | ⟨n, v, d', hd, -, hn, hat, -⟩
  · exact .inl (by rw [hd])
  · exact .inr ⟨v, d', by rw [hd], At.ahead_drop hn hat⟩

/-- The cursor behind the salts. -/
def behindSalts (d : Deserialization) : Deserialization :=
  d.advance4BytesUInt.2.advance4BytesUInt.2.advance4BytesUInt.2.advance4BytesUInt.2

theorem at_behindSalts (h : At d bs) (hlen : 16 ≤ bs.length) : At (behindSalts d) (bs.drop 16) := by
  obtain ⟨h₁, -⟩ := h.advance4BytesUInt_drop (by omega)
  obtain ⟨h₂, -⟩ := h₁.advance4BytesUInt_drop (by rw [List.length_drop]; omega)
  obtain ⟨h₃, -⟩ := h₂.advance4BytesUInt_drop (by simp only [List.length_drop]; omega)
  obtain ⟨h₄, -⟩ := h₃.advance4BytesUInt_drop (by simp only [List.length_drop]; omega)
  simp only [List.drop_drop] at h₄
  exact h₄

/-- The reader of an info that begins at the first argument arrives at one of the two fields whose
check does not return. -/
inductive UncheckedAt (d : Deserialization) : Deserialization → Prop where
  | schemaCookie {d₁ d₂ : Deserialization} {v₁ v₂ : ℕ} (hsalts : d.canAdvance Info.saltSize = true)
      (hlast : readVarint .lastNBackfill (behindSalts d) = .ok (v₁, d₁))
      (hcurrent : readVarint .mxFrame d₁ = .ok (v₂, d₂)) : UncheckedAt d d₂
  | backupTime {d₁ d₂ d₃ : Deserialization} {v₁ v₂ v₃ : ℕ}
      (hsalts : d.canAdvance Info.saltSize = true)
      (hlast : readVarint .lastNBackfill (behindSalts d) = .ok (v₁, d₁))
      (hcurrent : readVarint .mxFrame d₁ = .ok (v₂, d₂)) (hcookie : d₂.canAdvance 4 = true)
      (hfinish : readVarint .lastCheckpointFinish d₂.advance4BytesUInt.2 = .ok (v₃, d₃)) :
      UncheckedAt d d₃

theorem uncheckedAt_missing_iff :
    (∃ d', UncheckedAt d d' ∧ d'.canAdvance 4 = false) ↔
      d.canAdvance Info.saltSize = true ∧
        ∃ v₁ d₁, readVarint .lastNBackfill (behindSalts d) = .ok (v₁, d₁) ∧
          ∃ v₂ d₂, readVarint .mxFrame d₁ = .ok (v₂, d₂) ∧
            (d₂.canAdvance 4 = false ∨ d₂.canAdvance 4 = true ∧
              ∃ v₃ d₃, readVarint .lastCheckpointFinish d₂.advance4BytesUInt.2 = .ok (v₃, d₃) ∧
                d₃.canAdvance 4 = false) := by
  constructor
  · rintro ⟨d', hat, hmissing⟩
    cases hat with
    | schemaCookie hsalts hlast hcurrent =>
      exact ⟨hsalts, _, _, hlast, _, _, hcurrent, .inl hmissing⟩
    | backupTime hsalts hlast hcurrent hcookie hfinish =>
      exact ⟨hsalts, _, _, hlast, _, _, hcurrent, .inr ⟨hcookie, _, _, hfinish, hmissing⟩⟩
  · rintro ⟨hsalts, _, _, hlast, _, d₂, hcurrent, hmissing |
      ⟨hcookie, _, d₃, hfinish, hmissing⟩⟩
    · exact ⟨d₂, .schemaCookie hsalts hlast hcurrent, hmissing⟩
    · exact ⟨d₃, .backupTime hsalts hlast hcurrent hcookie hfinish, hmissing⟩

theorem Info.deserialize_spec (h : At d bs) (info : Info) :
    ((info.deserialize d).1 = .error .outOfBounds ↔
      ∃ d', UncheckedAt d d' ∧ d'.canAdvance 4 = false) ∧
      (info.deserialize d).1 ≠ .error .endless ∧
        ∀ d', (info.deserialize d).1 = .ok d' → ∃ bs', At d' bs' := by
  rw [uncheckedAt_missing_iff, Info.deserialize]
  by_cases hcan : d.canAdvance Info.saltSize = true
  swap
  · simp [hcan]
  have hlen : 16 ≤ bs.length := (h.canAdvance_iff (by decide)).mp hcan
  have hsalts := at_behindSalts h hlen
  simp only [hcan, Bool.not_true, Bool.false_eq_true, if_false, true_and]
  have hfold : d.advance4BytesUInt.2.advance4BytesUInt.2.advance4BytesUInt.2.advance4BytesUInt.2 =
      behindSalts d := rfl
  simp only [hfold]
  rcases readVarint_spec .lastNBackfill hsalts with hlast | ⟨v₁, d₁, hlast, bs₁, hat₁, -⟩
  · simp [hlast]
  rcases readVarint_spec .mxFrame hat₁ with hcurrent | ⟨v₂, d₂, hcurrent, bs₂, hat₂, -⟩
  · simp [hlast, hcurrent]
  by_cases hcookie : d₂.canAdvance 4 = true
  swap
  · simp [hlast, hcurrent, readUnchecked, hcookie]
  obtain ⟨hat₃, -⟩ := hat₂.advance4BytesUInt_drop ((hat₂.canAdvance_iff (by omega)).mp hcookie)
  rcases readVarint_spec .lastCheckpointFinish hat₃ with hfinish | ⟨v₃, d₃, hfinish, bs₃, hat₃, -⟩
  · simp [hlast, hcurrent, readUnchecked, hcookie, hfinish]
  by_cases htime : d₃.canAdvance 4 = true
  swap
  · simp [hlast, hcurrent, readUnchecked, hcookie, hfinish, htime]
  obtain ⟨hat₄, -⟩ := hat₃.advance4BytesUInt_drop ((hat₃.canAdvance_iff (by omega)).mp htime)
  rcases readVarint_spec .backupTimes hat₄ with htimes | ⟨v₄, d₄, htimes, bs₄, hat₄, -⟩
  · simp [hlast, hcurrent, readUnchecked, hcookie, hfinish, htime, htimes]
  · simp only [hlast, hcurrent, readUnchecked, hcookie, hfinish, htime, htimes, if_true]
    refine ⟨by simp [hcurrent, hcookie, hfinish, htime], by simp, fun d' heq => ?_⟩
    exact ⟨bs₄, Except.ok.inj heq ▸ hat₄⟩

theorem Page.deserialize_spec (h : At d bs) :
    Page.deserialize {} d ≠ .error .outOfBounds ∧ Page.deserialize {} d ≠ .error .endless ∧
      ∀ page d', Page.deserialize {} d = .ok (page, d') → d'.Ahead bs.length := by
  rw [Page.deserialize]
  rcases readVarint_spec .pageNo h with hnumber | ⟨number, d₁, hnumber, bs₁, hat₁, hlt₁⟩
  · simp [hnumber, bind, Except.bind]
  rcases readVarint_spec .pageType hat₁ with htype | ⟨type, d₂, htype, bs₂, hat₂, hlt₂⟩
  · simp [hnumber, htype, bind, Except.bind]
  simp only [hnumber, htype, bind, Except.bind]
  split_ifs with hodd hcan
  · obtain ⟨hat₃, -⟩ := hat₂.advance4BytesUInt_drop ((hat₂.canAdvance_iff (by omega)).mp hcan)
    refine ⟨by simp, by simp, fun page d' heq => ?_⟩
    obtain ⟨-, rfl⟩ := Prod.mk.inj (Except.ok.inj heq)
    exact ⟨_, hat₃, by rw [List.length_drop]; omega⟩
  · simp
  · refine ⟨by simp, by simp, fun page d' heq => ?_⟩
    obtain ⟨-, rfl⟩ := Prod.mk.inj (Except.ok.inj heq)
    exact ⟨bs₂, hat₂, by omega⟩

theorem deserializePages_spec (h : At d bs) {fuel : ℕ} (hfuel : bs.length < fuel)
    (m : IncrementalMaterial) :
    (deserializePages fuel m d).1 ≠ .error .outOfBounds ∧
      (deserializePages fuel m d).1 ≠ .error .endless := by
  induction fuel generalizing d bs m with
  | zero => omega
  | succ fuel ih =>
    rw [deserializePages]
    split_ifs
    · simp
    obtain ⟨hover, hends, hahead⟩ := Page.deserialize_spec h
    rcases hread : Page.deserialize {} d with e | ⟨page, d₁⟩
    · rw [hread] at hover hends
      simp only [ne_eq, Except.error.injEq] at hover hends
      simp [hover, hends]
    · obtain ⟨bs₁, hat₁, hlt₁⟩ := hahead page d₁ hread
      exact ih hat₁ (by omega) _

theorem deserializeData_spec (h : At d bs) :
    (deserializeData hash d = .error .outOfBounds ↔
      d.canAdvance 4 = true ∧ d.advance4BytesUInt.2.Overruns) ∧
      deserializeData hash d ≠ .error .endless ∧
        ∀ contents, deserializeData hash d = .ok contents → contents.length < 2 ^ 63 := by
  obtain ⟨hover, hends, hfit⟩ := @Material.deserializeData_spec _ _ hash h
  have hread : (∃ checksum d', Material.read4Bytes .checksum d = .ok (checksum, d') ∧
      d'.Overruns) ↔ d.canAdvance 4 = true ∧ d.advance4BytesUInt.2.Overruns := by
    rw [Material.read4Bytes]
    obtain ⟨checksum, d'⟩ := d.advance4BytesUInt
    split_ifs with hcan <;> simp [hcan]
  rw [hread] at hover
  rcases deserializeData_cases hash d with ⟨data, h₁, h₂⟩ | ⟨h₁, h₂⟩ | ⟨_, _, h₁, h₂⟩
  all_goals
    rw [h₁] at hover hfit
    simpa [h₂] using And.intro hover hfit

/-- The reader of an incremental material that begins at `d` has read the header. -/
def HeaderReadAt (d d' : Deserialization) : Prop :=
  let (magicValue, d₁) := d.advance4BytesUInt
  let (versionValue, d₂) := d₁.advance4BytesUInt
  d.canAdvance headerSize = true ∧ magicValue = magic ∧ versionValue = version ∧
    d' = { d₂ with dataVersion := versionValue }

/-- The reader arrives at a field whose check does not return and whose bytes are missing, or at a
sized block that overruns. -/
def Strays (info : Info) (d : Deserialization) : Prop :=
  ∃ d₁, HeaderReadAt d d₁ ∧
    ((∃ d₂, UncheckedAt d₁ d₂ ∧ d₂.canAdvance 4 = false) ∨
      ∃ d₂, (info.deserialize d₁).1 = .ok d₂ ∧ d₂.canAdvance 4 = true ∧
        d₂.advance4BytesUInt.2.Overruns)

/-- **Reading an incremental material ends, and stays in its input** unless it strays. -/
theorem deserialize_spec (h : At d bs) (m : IncrementalMaterial) :
    ((m.deserialize hash d).1 = .error .outOfBounds ↔ Strays m.info d) ∧
      (m.deserialize hash d).1 ≠ .error .endless := by
  rw [deserialize, Strays]
  simp only [HeaderReadAt]
  by_cases hcan : d.canAdvance headerSize = true
  swap
  · simp [hcan]
  have hlen : 8 ≤ bs.length := (h.canAdvance_iff (by decide)).mp hcan
  obtain ⟨h₁, -⟩ := h.advance4BytesUInt_drop (by omega)
  obtain ⟨h₂, -⟩ := h₁.advance4BytesUInt_drop (by rw [List.length_drop]; omega)
  simp only [hcan, Bool.not_true, Bool.false_eq_true, if_false, true_and]
  generalize d.advance4BytesUInt = first at h₁ h₂ ⊢
  generalize first.2.advance4BytesUInt = second at h₂ ⊢
  by_cases hmagic : first.1 = magic
  swap
  · simp [hmagic]
  by_cases hversion : second.1 = version
  swap
  · simp [hmagic, hversion]
  simp only [hmagic, hversion, ne_eq, not_true_eq_false, if_false, true_and, exists_eq_left]
  obtain ⟨hinfoOver, hinfoEnds, hinfoAt⟩ :=
    Info.deserialize_spec (h₂.withVersion version) m.info
  rw [← hinfoOver]
  generalize m.info.deserialize { second.2 with dataVersion := version } = read at *
  obtain ⟨e | d₃, info⟩ := read
  · simpa using hinfoEnds
  obtain ⟨bs₃, hat₃⟩ := hinfoAt d₃ rfl
  obtain ⟨hblock, hends, hfit⟩ := @deserializeData_spec _ _ hash hat₃
  simp only [Except.ok.injEq, exists_eq_left', reduceCtorEq, false_or]
  rw [← hblock]
  rcases hdata : deserializeData hash d₃ with e | contents
  · rw [hdata] at hends
    simpa using hends
  · obtain ⟨hover, hpagesEnds⟩ := deserializePages_spec
      (At.start (hfit contents hdata) d₃.dataVersion) (Nat.lt_succ_self _) { m with info }
    exact ⟨by simpa using hover, hpagesEnds⟩

end Whole

/-! ### An incremental material that is cut short -/

section Cut

theorem readVarint_take (element : Element) {v k : ℕ} (hv : v < 2 ^ 64) {rest : List UInt8}
    (h : At d ((encodeVarint v ++ rest).take k)) :
    k < (encodeVarint v).length ∧ readVarint element d = .error (.corrupt element) ∨
      (encodeVarint v).length ≤ k ∧ ∃ d', readVarint element d = .ok (v, d') ∧
        At d' (rest.take (k - (encodeVarint v).length)) := by
  by_cases hk : k < (encodeVarint v).length
  · rw [List.take_append_of_le_length hk.le] at h
    exact .inl ⟨hk, by rw [readVarint, h.advanceVarint_cut hv hk]⟩
  · obtain ⟨d', hread, hat, -⟩ := readVarint_eq element hv (h.of_take_append (by omega))
    exact .inr ⟨by omega, d', hread, hat⟩

theorem readUnchecked_take {value : UInt32} {k : ℕ} {rest : List UInt8}
    (h : At d ((encode4Bytes value ++ rest).take k)) :
    k < 4 ∧ readUnchecked d = .error .outOfBounds ∨
      4 ≤ k ∧ ∃ d', readUnchecked d = .ok (value, d') ∧ At d' (rest.take (k - 4)) := by
  by_cases hk : k < 4
  · refine .inl ⟨hk, ?_⟩
    rw [readUnchecked, if_neg]
    intro hcan
    have hlen := (h.canAdvance_iff (by omega)).mp hcan
    rw [List.length_take] at hlen
    omega
  · obtain ⟨d', hread, hat, -⟩ :=
      readUnchecked_eq (h.of_take_append (by simpa [encode4Bytes] using hk))
    exact .inr ⟨by omega, d', hread, hat⟩

/-- Where the schema cookie begins in an info. -/
def Info.cookiePlace (info : Info) : ℕ :=
  16 + (encodeVarint info.lastNBackFill.toNat).length +
    (encodeVarint info.currentNBackFill.toNat).length

/-- Where the backup time begins. -/
def Info.timePlace (info : Info) : ℕ :=
  info.cookiePlace + 4 + (encodeVarint info.lastCheckPointFinish.toNat).length

/-- An info of `k` bytes ends inside one of the two fields whose check does not return. -/
def Info.EndsUnchecked (info : Info) (k : ℕ) : Prop :=
  info.cookiePlace ≤ k ∧ k < info.cookiePlace + 4 ∨ info.timePlace ≤ k ∧ k < info.timePlace + 4

instance (info : Info) (k : ℕ) : Decidable (info.EndsUnchecked k) := by
  unfold Info.EndsUnchecked
  infer_instance

theorem Info.deserialize_cut {info : Info} {k : ℕ} (hk : k < (encodeInfo info).length)
    (h : At d ((encodeInfo info).take k)) (before : Info) :
    info.EndsUnchecked k ∧ (before.deserialize d).1 = .error .outOfBounds ∨
      ¬info.EndsUnchecked k ∧ ∃ element, (before.deserialize d).1 = .error (.corrupt element) := by
  have hword (n : UInt32) : n.toNat < 2 ^ 64 := lt_trans n.toNat_lt (by decide)
  have hbool (b : Bool) : b.toNat < 2 ^ 64 := lt_of_le_of_lt b.toNat_le (by decide)
  have hsalts := h.canAdvance_iff (show Info.saltSize < 2 ^ 62 by decide)
  rw [List.length_take_of_le hk.le] at hsalts
  rw [Info.deserialize, Info.EndsUnchecked, Info.timePlace, Info.cookiePlace]
  by_cases hcan : d.canAdvance Info.saltSize = true
  swap
  · have hshort : k < 16 := by
      by_contra hlong
      exact hcan (hsalts.mpr (by rw [Info.saltSize]; omega))
    exact .inr ⟨by omega, .salt, by simp [hcan]⟩
  have hk16 : 16 ≤ k := hsalts.mp hcan
  rw [encodeInfo] at h
  obtain ⟨d₁, h₁, hat₁, -⟩ := (h.of_take_append (show 4 ≤ k by omega)).advance4BytesUInt
  obtain ⟨d₂, h₂, hat₂, -⟩ := (hat₁.of_take_append (show 4 ≤ k - 4 by omega)).advance4BytesUInt
  obtain ⟨d₃, h₃, hat₃, -⟩ :=
    (hat₂.of_take_append (show 4 ≤ k - 4 - 4 by omega)).advance4BytesUInt
  obtain ⟨d₄, h₄, hat₄, -⟩ :=
    (hat₃.of_take_append (show 4 ≤ k - 4 - 4 - 4 by omega)).advance4BytesUInt
  simp only [hcan, Bool.not_true, Bool.false_eq_true, if_false, h₁, h₂, h₃, h₄]
  have hfour (value : UInt32) : (encode4Bytes value).length = 4 := rfl
  simp only [hfour] at hat₄
  rcases readVarint_take .lastNBackfill (hword _) hat₄ with ⟨hlt, hlast⟩ | ⟨hle, d₅, hlast, hat₅⟩
  · exact .inr ⟨by omega, .lastNBackfill, by simp [hlast]⟩
  rcases readVarint_take .mxFrame (hword _) hat₅ with ⟨hlt₅, hcurrent⟩ | ⟨hle₅, d₆, hcurrent, hat₆⟩
  · exact .inr ⟨by omega, .mxFrame, by simp [hlast, hcurrent]⟩
  rcases readUnchecked_take hat₆ with ⟨hlt₆, hcookie⟩ | ⟨hle₆, d₇, hcookie, hat₇⟩
  · exact .inl ⟨by omega, by simp [hlast, hcurrent, hcookie]⟩
  rcases readVarint_take .lastCheckpointFinish (hbool _) hat₇ with
    ⟨hlt₇, hfinish⟩ | ⟨hle₇, d₈, hfinish, hat₈⟩
  · exact .inr ⟨by omega, .lastCheckpointFinish, by simp [hlast, hcurrent, hcookie, hfinish]⟩
  rcases readUnchecked_take hat₈ with ⟨hlt₈, htime⟩ | ⟨hle₈, d₉, htime, hat₉⟩
  · exact .inl ⟨by omega, by simp [hlast, hcurrent, hcookie, hfinish, htime]⟩
  have htimes := hat₉.advanceVarint_cut (unsigned_lt info.incrementalBackupTimes.toInt) (by
    simp only [encodeInfo, List.length_append, hfour] at hk
    omega)
  have hread : readVarint .backupTimes d₉ = .error (.corrupt .backupTimes) := by
    rw [readVarint, htimes]
  exact .inr ⟨by omega, .backupTimes, by simp [hlast, hcurrent, hcookie, hfinish, htime, hread]⟩

/-- The sealed pages are refused when they are cut short. -/
theorem deserializeData_cut {data : List UInt8} (hdata : data.length < 2 ^ 63) {n : ℕ}
    (hn : n < (encode4Bytes (Material.checksum hash data) ++ encodeSized data).length)
    (h : At d ((encode4Bytes (Material.checksum hash data) ++ encodeSized data).take n)) :
    ∃ element, deserializeData hash d = .error (.corrupt element) := by
  obtain ⟨element, hcut⟩ := Material.deserializeData_cut hdata hn h
  rcases deserializeData_cases hash d with ⟨_, h₁, -⟩ | ⟨h₁, -⟩ | ⟨_, element', h₁, h₂⟩
  all_goals rw [hcut] at h₁; cases h₁
  exact ⟨element', h₂⟩

/-- **An incremental material that is cut short is refused** unless it ends in an unchecked
field. -/
theorem deserialize_cut_iff {info : Info} {data : List UInt8}
    (hfit : (envelope hash info data).length < 2 ^ 63) {n : ℕ}
    (hn : n < (envelope hash info data).length) (m : IncrementalMaterial) (start : UInt32) :
    (∃ element, (m.deserialize hash ⟨(envelope hash info data).take n, 0, start⟩).1 =
      .error (.corrupt element)) ↔ ¬info.EndsUnchecked (n - 8) := by
  have h := At.start (show ((envelope hash info data).take n).length < 2 ^ 63 by
    rw [List.length_take_of_le hn.le]; omega) start
  generalize (⟨(envelope hash info data).take n, 0, start⟩ : Deserialization) = d at h ⊢
  have hlength : (envelope hash info data).length =
      4 + (4 + (encodeInfo info ++ (encode4Bytes (Material.checksum hash data) ++
        encodeSized data)).length) := by
    rw [envelope, List.length_append, List.length_append]
    rfl
  rw [envelope] at h
  rw [deserialize]
  rcases h.twoWords_take (by omega) with
    ⟨hshort, hcan⟩ | ⟨k, d₁, d₂, rfl, hcan, hmagic, hversion, hat₂⟩
  · refine iff_of_true ⟨.header, by simp [headerSize, hcan]⟩ ?_
    rw [Info.EndsUnchecked, Info.timePlace, Info.cookiePlace]
    omega
  simp only [headerSize, hcan, Bool.not_true, Bool.false_eq_true, if_false, hmagic, hversion,
    ne_eq, not_true_eq_false]
  replace hat₂ := hat₂.withVersion version
  rw [Nat.add_sub_cancel]
  have hrest : k < (encodeInfo info ++
      (encode4Bytes (Material.checksum hash data) ++ encodeSized data)).length := by omega
  by_cases hshort : k < (encodeInfo info).length
  · rw [List.take_append_of_le_length hshort.le] at hat₂
    have hinfo := Info.deserialize_cut hshort hat₂ m.info
    generalize m.info.deserialize { d₂ with dataVersion := version } = read at hinfo ⊢
    obtain ⟨result, info'⟩ := read
    rcases hinfo with ⟨hends, hresult⟩ | ⟨hends, element, hresult⟩
    · simp only at hresult
      exact iff_of_false (by simp [hresult]) (not_not_intro hends)
    · simp only at hresult
      exact iff_of_true ⟨element, by simp [hresult]⟩ hends
  · obtain ⟨d₃, hinfo, hat₃, -⟩ := Info.deserialize_eq (hat₂.of_take_append (by omega)) m.info
    rw [List.length_append] at hrest
    obtain ⟨element, hdata⟩ := @deserializeData_cut _ hash data
      (show data.length < 2 ^ 63 by
        simp only [envelope, encodeSized, List.length_append] at hfit
        omega) _ (by omega) hat₃
    refine iff_of_true ⟨element, by rw [hinfo]; simp only [hdata]⟩ ?_
    simp only [encodeInfo, List.length_append, encode4Bytes, List.length_cons, List.length_nil]
      at hshort
    rw [Info.EndsUnchecked, Info.timePlace, Info.cookiePlace]
    omega

end Cut

end Wcdb.Repair.IncrementalMaterial

namespace Wcdb.Repair

open Serialization Deserialization

/-! ### Both materials -/

/-- What is written of an incremental material without pages. -/
def noPages : Serialization where
  bytes := [87, 67, 68, 65, 1, 0, 0, 0] ++ List.replicate 33 0
  capacity := 64
  allocations := 4

end Wcdb.Repair
