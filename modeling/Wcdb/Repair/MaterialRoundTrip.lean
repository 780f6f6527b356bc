import Wcdb.Repair.Material

/-!
# Reading back a material

`encode` is the byte string of a material, built from the encodings of its parts. Writing a
material produces it (`serialize_eq`), reading it returns the material with every page list
sorted and without deleted pages (`deserialize_encode`), and the two hold together exactly
below the limits of a signed 32-bit counter (`roundTrip_iff`). What follows a written material in
a buffer is not looked at (`deserialize_behind`).
-/

namespace Wcdb

namespace Material

open Serialization Deserialization

/-! ### The pages that are written -/

/-- The pages of a list that are not deleted, by number. -/
def livePages (pages : List Page) : List Page := sortPages (pages.filter fun p => p.number ≠ 0)

/-- No two pages that are not deleted have the same number. -/
def DistinctPages (pages : List Page) : Prop :=
  ((pages.filter fun p => p.number ≠ 0).map Page.number).Nodup

instance (pages : List Page) : Decidable (DistinctPages pages) :=
  inferInstanceAs (Decidable (List.Nodup _))

theorem sortPages_perm (pages : List Page) : (sortPages pages).Perm pages :=
  List.mergeSort_perm _ _

theorem sortPages_pairwise (pages : List Page) :
    (sortPages pages).Pairwise fun a b => a.number ≤ b.number := by
  have h : (sortPages pages).Pairwise fun a b => decide (a.number ≤ b.number) = true :=
    List.pairwise_mergeSort (fun a b c hab hbc => by
      simp only [decide_eq_true_eq] at hab hbc ⊢
      exact UInt32.le_trans hab hbc)
    (fun a b => by
      simp only [Bool.or_eq_true, decide_eq_true_eq]
      exact UInt32.le_total _ _) pages
  exact h.imp fun hab => by simpa using hab

/-- Deleted pages come first in a sorted list. -/
theorem split_sorted {pages : List Page} (h : pages.Pairwise fun a b => a.number ≤ b.number) :
    pages = (pages.filter fun p => p.number = 0) ++ pages.filter fun p => p.number ≠ 0 := by
  induction pages with
  | nil => rfl
  | cons p pages ih =>
    obtain ⟨hp, hpages⟩ := List.pairwise_cons.mp h
    by_cases hz : p.number = 0
    · simpa [List.filter_cons, hz] using ih hpages
    · have hne : ∀ q ∈ pages, q.number ≠ 0 := by
        intro q hq h0
        have hle := hp q hq
        rw [h0, UInt32.le_iff_toNat_le] at hle
        exact hz (UInt32.toNat_inj.mp (Nat.le_zero.mp hle))
      have h₁ : (pages.filter fun p => p.number = 0) = [] := by simpa using hne
      have h₂ : (pages.filter fun p => p.number ≠ 0) = pages := by simpa using hne
      rw [List.filter_cons_of_neg (by simpa using hz), List.filter_cons_of_pos (by simpa using hz),
        h₁, h₂, List.nil_append]

theorem livePages_pairwise {pages : List Page} (h : DistinctPages pages) :
    (livePages pages).Pairwise fun a b => a.number < b.number := by
  have hnodup : ((livePages pages).map Page.number).Nodup :=
    ((sortPages_perm _).map Page.number).nodup_iff.mpr h
  rw [List.Nodup, List.pairwise_map] at hnodup
  have hle := sortPages_pairwise (pages.filter fun p => p.number ≠ 0)
  exact (hle.and hnodup).imp fun h => UInt32.lt_of_le_of_ne h.1 h.2

theorem number_ne_zero_of_mem_livePages {pages : List Page} {p : Page} (h : p ∈ livePages pages) :
    p.number ≠ 0 := by
  have := (sortPages_perm _).mem_iff.mp h
  simpa using (List.mem_filter.mp this).2

/-- Sorting puts the deleted pages first and leaves the others in order of number. -/
theorem sortPages_eq {pages : List Page} (h : DistinctPages pages) :
    sortPages pages =
      ((sortPages pages).filter fun p => p.number = 0) ++ livePages pages := by
  have hlive : ((sortPages pages).filter fun p => p.number ≠ 0) = livePages pages := by
    refine List.Perm.eq_of_pairwise ?_
      ((sortPages_pairwise pages).filter _) (sortPages_pairwise _)
      (((sortPages_perm pages).filter _).trans (sortPages_perm _).symm)
    intro a b ha hb hab hba
    exact List.inj_on_of_nodup_map h (((sortPages_perm pages).filter _).mem_iff.mp ha)
      ((sortPages_perm _).mem_iff.mp hb) (UInt32.le_antisymm hab hba)
  conv_lhs => rw [split_sorted (sortPages_pairwise pages)]
  rw [hlive]

/-! ### The byte string of a material -/

/-- Page numbers as differences, each with its hash. -/
def encodeDeltas : UInt32 → List Page → List UInt8
  | _, [] => []
  | prePageNo, page :: pages =>
      encodeVarint (page.number - prePageNo).toNat ++
        (encode4Bytes page.hash ++ encodeDeltas page.number pages)

def encodePages (pages : List Page) : List UInt8 :=
  encodeVarint pages.length ++ encodeDeltas 0 pages

def encodeContent (c : Content) : List UInt8 :=
  encodeSized c.tableName ++ (encodeVarint c.rootPage.toNat ++
    (encodeVarint c.sequence.toUInt64.toNat ++ (encodeSized c.sql ++
      (encodeVarint c.associatedSQLs.length ++ (c.associatedSQLs.flatMap encodeSized ++
        encodePages (livePages c.verifiedPagenos))))))

def encodeInfo (info : Info) : List UInt8 :=
  encode4Bytes info.pageSize ++ (encode4Bytes info.reservedBytes ++
    (encode4Bytes info.walSalt.1 ++ (encode4Bytes info.walSalt.2 ++
      (encode4Bytes info.nBackFill ++ encode4Bytes info.seqTableRootPage))))

/-- The byte string of a material. -/
def encode (hash : List UInt8 → UInt32) (m : Material) : List UInt8 :=
  encode4Bytes magic ++ (encode4Bytes version ++ (encodeInfo m.info ++
    (encode4Bytes (checksum hash (m.contentsList.flatMap encodeContent)) ++
      encodeSized (m.contentsList.flatMap encodeContent))))

/-- What the claim of a round trip assumes of a content. -/
structure Content.WellFormed (c : Content) : Prop where
  tableName : c.tableName ≠ []
  sql : c.sql ≠ []
  associatedSQLs : ∀ sql ∈ c.associatedSQLs, sql ≠ []
  rootPage : c.rootPage ≠ unknownPageNo
  pages : DistinctPages c.verifiedPagenos

/-- The counts of a content stay below the range of `int`. -/
def Content.Countable (c : Content) : Prop :=
  c.associatedSQLs.length < 2 ^ 31 ∧ c.verifiedPagenos.length < 2 ^ 31

/-! ### Writing produces it -/

section Write

variable {alloc : ℕ → Bool}

private theorem u64_toNat (n : UInt32) : u64 n.toNat = n.toNat :=
  u64_of_lt (lt_trans n.toNat_lt (by decide))

/-- Deleted pages are skipped. -/
theorem serializePages_skip {size : ℕ} {deleted : List Page} (h : ∀ p ∈ deleted, p.number = 0)
    {i : ℕ} (hi : i + deleted.length < 2 ^ 31) (pages : List Page) (s : Serialization) :
    serializePages alloc size i 0 (deleted ++ pages) s =
      serializePages alloc size (i + deleted.length) 0 pages s := by
  induction deleted generalizing i with
  | nil => rfl
  | cons p deleted ih =>
    simp only [List.length_cons] at hi
    simp only [List.cons_append, serializePages, h p List.mem_cons_self, if_true]
    rw [if_neg (by omega), ih (fun q hq => h q (List.mem_cons_of_mem _ hq)) (by omega),
      List.length_cons, Nat.add_right_comm, Nat.add_assoc]

/-- The pages after the first one written. -/
theorem serializePages_next (halloc : ∀ n, alloc n = true) (size : ℕ) {pages : List Page}
    {prePageNo : UInt32} (hpre : prePageNo ≠ 0) (hne : ∀ p ∈ pages, p.number ≠ 0) {i : ℕ}
    (hi : i + pages.length < 2 ^ 31) (s : Serialization) :
    ∃ t, serializePages alloc size i prePageNo pages s = .ok t ∧
      t.bytes = s.bytes ++ encodeDeltas prePageNo pages := by
  induction pages generalizing prePageNo i s with
  | nil => exact ⟨s, by simp [serializePages, hpre], by simp [encodeDeltas]⟩
  | cons p pages ih =>
    have hp := hne p List.mem_cons_self
    simp only [List.length_cons] at hi
    obtain ⟨t, ht, hbytes⟩ := ((puts_putVarintOk halloc (p.number - prePageNo).toNat).andThen
      (puts_put4BytesUInt halloc p.hash)) s
    obtain ⟨w, hw, hbytes'⟩ := ih hp (fun q hq => hne q (List.mem_cons_of_mem _ hq))
      (i := i + 1) (by omega) t
    refine ⟨w, ?_, ?_⟩
    · simp only [serializePages, hp, hpre, if_false, ht]
      rw [if_neg (by omega), hw]
    · rw [hbytes', hbytes, u64_toNat, encodeDeltas]
      simp only [List.append_assoc]

/-- The loop over the sorted pages writes those that are not deleted. -/
theorem serializePages_eq (halloc : ∀ n, alloc n = true) {pages : List Page}
    (hdistinct : DistinctPages pages) (hlen : pages.length < 2 ^ 31) (s : Serialization) :
    ∃ t, serializePages alloc pages.length 0 0 (sortPages pages) s = .ok t ∧
      t.bytes = s.bytes ++ encodePages (livePages pages) := by
  have hsort := sortPages_eq hdistinct
  set deleted := (sortPages pages).filter fun p => p.number = 0
  have hcount : deleted.length + (livePages pages).length = pages.length := by
    rw [← List.length_append, ← hsort, (sortPages_perm pages).length_eq]
  have hdeleted : ∀ p ∈ deleted, p.number = 0 := by
    intro p hp
    simpa using (List.mem_filter.mp hp).2
  have hne : ∀ p ∈ livePages pages, p.number ≠ 0 := fun p hp =>
    number_ne_zero_of_mem_livePages hp
  rw [hsort, serializePages_skip hdeleted (by omega), Nat.zero_add]
  generalize livePages pages = live at hcount hne
  cases live with
  | nil =>
    obtain ⟨t, ht, hbytes⟩ := puts_putVarintOk halloc 0 s
    exact ⟨t, by simp [serializePages, ht], by rw [hbytes]; simp [encodePages, encodeDeltas, u64]⟩
  | cons p live =>
    have hp := hne p List.mem_cons_self
    simp only [List.length_cons] at hcount
    obtain ⟨t, ht, hbytes⟩ := ((puts_putVarintOk halloc (pages.length - deleted.length)).andThen
      ((puts_putVarintOk halloc p.number.toNat).andThen (puts_put4BytesUInt halloc p.hash))) s
    obtain ⟨w, hw, hbytes'⟩ := serializePages_next halloc pages.length hp
      (fun q hq => hne q (List.mem_cons_of_mem _ hq))
      (i := deleted.length + 1) (by omega) t
    refine ⟨w, ?_, ?_⟩
    · simp only [serializePages, hp, if_false, if_true, ht]
      rw [if_neg (by omega), hw]
    · rw [hbytes', hbytes, u64_toNat, u64_of_lt (by omega), encodePages, encodeDeltas,
        show pages.length - deleted.length = (p :: live).length by simp; omega]
      simp only [List.append_assoc, UInt32.sub_zero]

/-- From `2 ^ 31` pages on, the counter overflows. -/
theorem serializePages_overflow {size i : ℕ} (hi : i < 2 ^ 31) {pages : List Page}
    (hlen : 2 ^ 31 ≤ i + pages.length) (prePageNo : UInt32) (s t : Serialization) :
    serializePages alloc size i prePageNo pages s ≠ .ok t := by
  induction pages generalizing i prePageNo s with
  | nil => simp at hlen; omega
  | cons p pages ih =>
    simp only [List.length_cons] at hlen
    rw [serializePages]
    split
    · by_cases hover : i + 1 = 2 ^ 31
      · simp [hover]
      · rw [if_neg hover]
        exact ih (by omega) (by omega) _ _
    · simp

theorem Content.serialize_eq (halloc : ∀ n, alloc n = true) {c : Content} (hc : c.WellFormed)
    (hsqls : c.associatedSQLs.length < 2 ^ 64) (hpages : c.verifiedPagenos.length < 2 ^ 31)
    (s : Serialization) :
    ∃ t, c.serialize alloc s = .ok t ∧ t.bytes = s.bytes ++ encodeContent c := by
  obtain ⟨t, ht, hbytes⟩ := ((puts_putSizedString halloc c.tableName).andThen
    ((puts_putVarintOk halloc c.rootPage.toNat).andThen
      ((puts_putVarintOk halloc c.sequence.toUInt64.toNat).andThen
        ((puts_putSizedString halloc c.sql).andThen
          ((puts_putVarintOk halloc c.associatedSQLs.length).andThen
            (Puts.forEach c.associatedSQLs
              fun sql _ => puts_putSizedString halloc sql)))))) s
  obtain ⟨w, hw, hbytes'⟩ := serializePages_eq halloc hc.pages hpages t
  refine ⟨w, ?_, ?_⟩
  · simp only [Content.serialize, ht, hw]
  · rw [hbytes', hbytes, u64_toNat, u64_of_lt c.sequence.toUInt64.toNat_lt,
      u64_of_lt hsqls, encodeContent]
    simp only [List.append_assoc]

theorem serializeContents_eq (halloc : ∀ n, alloc n = true) {contents : List Content}
    (h : ∀ c ∈ contents, c.WellFormed ∧ c.associatedSQLs.length < 2 ^ 64 ∧
      c.verifiedPagenos.length < 2 ^ 31) (s : Serialization) :
    ∃ t, serializeContents alloc contents s = .ok t ∧
      t.bytes = s.bytes ++ contents.flatMap encodeContent := by
  induction contents generalizing s with
  | nil => exact ⟨s, rfl, by simp⟩
  | cons c contents ih =>
    obtain ⟨hc, hsqls, hpages⟩ := h c List.mem_cons_self
    obtain ⟨t, ht, hbytes⟩ := Content.serialize_eq halloc hc hsqls hpages s
    obtain ⟨w, hw, hbytes'⟩ := ih (fun d hd => h d (List.mem_cons_of_mem _ hd)) t
    refine ⟨w, ?_, ?_⟩
    · rw [serializeContents, if_neg hc.tableName, if_neg hc.sql, ht]
      exact hw
    · rw [hbytes', hbytes, List.flatMap_cons, List.append_assoc]

end Write

section Write

variable {alloc : ℕ → Bool}

theorem puts_ignoringResult {f : Serialization → Bool × Serialization} {bs : List UInt8}
    (h : Puts f bs) : Puts (ignoringResult f) bs := by
  intro s
  obtain ⟨t, ht, hbytes⟩ := h s
  exact ⟨t, by rw [ignoringResult, ht], hbytes⟩

theorem puts_info (halloc : ∀ n, alloc n = true) (info : Info) :
    Puts (info.serialize alloc) (encodeInfo info) := by
  have h := (puts_expand halloc Info.size).andThen (Puts.forEach
    [info.pageSize, info.reservedBytes, info.walSalt.1, info.walSalt.2, info.nBackFill,
      info.seqTableRootPage]
    fun value _ => puts_ignoringResult (puts_put4BytesUInt halloc value))
  simpa [Info.serialize, encodeInfo] using h

/-- **Writing a material produces its byte string.** -/
theorem serialize_eq (hash : List UInt8 → UInt32) (halloc : ∀ n, alloc n = true) {m : Material}
    (h : ∀ c ∈ m.contentsList, c.WellFormed ∧ c.associatedSQLs.length < 2 ^ 64 ∧
      c.verifiedPagenos.length < 2 ^ 31) :
    ∃ s, m.serialize alloc hash .empty = .ok s ∧ s.bytes = encode hash m := by
  obtain ⟨s, hs, hbytes⟩ := ((puts_expand halloc headerSize).andThen
    ((puts_ignoringResult (puts_put4BytesUInt halloc magic)).andThen
      ((puts_ignoringResult (puts_put4BytesUInt halloc version)).andThen
        (puts_info halloc m.info)))) .empty
  obtain ⟨t, ht, hbytes'⟩ :=
    serializeContents_eq halloc h { empty with allocations := s.allocations }
  obtain ⟨w, hw, hbytes''⟩ := ((puts_put4BytesUInt halloc (checksum hash t.bytes)).andThen
    (puts_putSizedString halloc t.bytes)) { s with allocations := t.allocations }
  have ht' : t.bytes = m.contentsList.flatMap encodeContent := by rw [hbytes']; rfl
  refine ⟨w, ?_, ?_⟩
  · simp only [serialize, hs, ht, bind, Except.bind]
    rw [serializeData, hw]
  · rw [hbytes'', hbytes, ht', encode]
    simp [Serialization.empty]

end Write

/-! ### Reading returns the material -/

section Read

variable {d : Deserialization}

theorem readVarint_eq (element : Element) {v : ℕ} (hv : v < 2 ^ 64) {rest : List UInt8}
    (h : At d (encodeVarint v ++ rest)) :
    ∃ d', readVarint element d = .ok (v, d') ∧ At d' rest ∧ d'.dataVersion = d.dataVersion := by
  obtain ⟨n, d', hd, hrest⟩ := h.advanceVarint hv
  exact ⟨d', by rw [readVarint, hd], hrest⟩

theorem readSized_eq (element : Element) {string rest : List UInt8} (hne : string ≠ [])
    (h : At d (encodeSized string ++ rest)) :
    ∃ d', readSized element d = .ok (string, d') ∧ At d' rest ∧
      d'.dataVersion = d.dataVersion := by
  obtain ⟨n, d', hd, hrest⟩ := h.advanceSizedString
  exact ⟨d', by simp only [readSized, hd, hne, if_false], hrest⟩

theorem read4Bytes_eq (element : Element) {value : UInt32} {rest : List UInt8}
    (h : At d (encode4Bytes value ++ rest)) :
    ∃ d', read4Bytes element d = .ok (value, d') ∧ At d' rest ∧
      d'.dataVersion = d.dataVersion := by
  obtain ⟨d', hd, hrest⟩ := h.advance4BytesUInt
  have hcan : d.canAdvance 4 = true := h.canAdvance
  exact ⟨d', by rw [read4Bytes, if_pos hcan, hd], hrest⟩

theorem readSQLs_eq {sqls : List (List UInt8)} (hne : ∀ sql ∈ sqls, sql ≠ []) {rest : List UInt8}
    (h : At d (sqls.flatMap encodeSized ++ rest)) (before : List (List UInt8)) :
    ∃ d', readSQLs sqls.length before d = (.ok d', before ++ sqls) ∧ At d' rest ∧
      d'.dataVersion = d.dataVersion := by
  induction sqls generalizing d before with
  | nil => exact ⟨d, by simp [readSQLs], h, rfl⟩
  | cons sql sqls ih =>
    rw [List.flatMap_cons, List.append_assoc] at h
    obtain ⟨d₁, h₁, hrest₁, hver₁⟩ :=
      readSized_eq .sqls (hne sql List.mem_cons_self) h
    obtain ⟨d₂, h₂, hrest₂, hver₂⟩ := ih (fun q hq => hne q (List.mem_cons_of_mem _ hq)) hrest₁
      (before ++ [sql])
    refine ⟨d₂, ?_, hrest₂, hver₂.trans hver₁⟩
    simp only [List.length_cons, readSQLs, h₁]
    rw [h₂, List.append_assoc, List.singleton_append]

/-- Differences add up to the page numbers. -/
theorem readPages_eq (prePageNo : UInt32) {pages : List Page}
    (hlt : ∀ p ∈ pages, prePageNo < p.number)
    (hsorted : pages.Pairwise fun a b => a.number < b.number) {rest : List UInt8}
    (hversion : d.dataVersion = version) (h : At d (encodeDeltas prePageNo pages ++ rest))
    (before : List Page) :
    ∃ d', readPages pages.length prePageNo.toNat before d = (.ok d', before ++ pages) ∧
      At d' rest ∧ d'.dataVersion = version := by
  induction pages generalizing d prePageNo before with
  | nil => exact ⟨d, by simp [readPages], h, hversion⟩
  | cons p pages ih =>
    obtain ⟨hp, hpages⟩ := List.pairwise_cons.mp hsorted
    have hpre : prePageNo < p.number := hlt p List.mem_cons_self
    have hnumber : p.number.toNat < 2 ^ 32 := p.number.toNat_lt
    have hsub : (p.number - prePageNo).toNat = p.number.toNat - prePageNo.toNat :=
      UInt32.toNat_sub_of_le _ _ (UInt32.le_of_lt hpre)
    rw [UInt32.lt_iff_toNat_lt] at hpre
    rw [encodeDeltas, List.append_assoc, List.append_assoc] at h
    obtain ⟨d₁, h₁, hrest₁, hver₁⟩ := readVarint_eq .pageno (by omega) h
    obtain ⟨d₂, h₂, hrest₂, hver₂⟩ := read4Bytes_eq .pageChecksum hrest₁
    have hversion₂ : d₂.dataVersion = version := by rw [hver₂, hver₁, hversion]
    obtain ⟨d₃, h₃, hrest₃, hver₃⟩ := ih p.number hp hpages hversion₂ hrest₂ (before ++ [p])
    refine ⟨d₃, ?_, hrest₃, hver₃⟩
    have hsum : u64 (prePageNo.toNat + (p.number - prePageNo).toNat) = p.number.toNat := by
      rw [u64_of_lt (by omega)]
      omega
    have hsum' : u64 ((p.number - prePageNo).toNat + prePageNo.toNat) = p.number.toNat := by
      rw [Nat.add_comm, hsum]
    simp only [List.length_cons, readPages, h₁, h₂, hversion₂, hsum, hsum', UInt32.ofNat_toNat]
    rw [if_pos (UInt32.le_refl _), h₃, List.append_assoc, List.singleton_append]

private theorem int32_of_lt {n : ℕ} (h : n < 2 ^ 31) : int32 n = n := by
  rw [int32, Nat.mod_eq_of_lt (by omega), if_pos h]

/-- What reading makes of a content. -/
def Content.restored (c : Content) : Content :=
  { c with verifiedPagenos := livePages c.verifiedPagenos, checked := false }

theorem length_livePages_le (pages : List Page) : (livePages pages).length ≤ pages.length := by
  rw [livePages, (sortPages_perm _).length_eq]
  exact List.length_filter_le _ _

theorem Content.deserialize_eq {c : Content} (hc : c.WellFormed) (hcount : c.Countable)
    {rest : List UInt8} (hversion : d.dataVersion = version) (h : At d (encodeContent c ++ rest)) :
    ∃ d', Content.deserialize {} d = (.ok d', c.restored) ∧ At d' rest ∧
      d'.dataVersion = version := by
  have hassociated := hcount.1
  have hpages := lt_of_le_of_lt (length_livePages_le c.verifiedPagenos) hcount.2
  simp only [encodeContent, encodePages, List.append_assoc] at h
  obtain ⟨d₁, h₁, hrest₁, hver₁⟩ := readSized_eq .tableName hc.tableName h
  obtain ⟨d₂, h₂, hrest₂, hver₂⟩ := readVarint_eq .rootPage
    (lt_trans c.rootPage.toNat_lt (by decide)) hrest₁
  obtain ⟨d₃, h₃, hrest₃, hver₃⟩ := readVarint_eq .sequence
    c.sequence.toUInt64.toNat_lt hrest₂
  obtain ⟨d₄, h₄, hrest₄, hver₄⟩ := readSized_eq .sql hc.sql hrest₃
  obtain ⟨d₅, h₅, hrest₅, hver₅⟩ := readVarint_eq .sqls (by omega) hrest₄
  obtain ⟨d₆, h₆, hrest₆, hver₆⟩ := readSQLs_eq hc.associatedSQLs hrest₅ []
  obtain ⟨d₇, h₇, hrest₇, hver₇⟩ := readVarint_eq .numberOfPages (by omega) hrest₆
  have hversion₁ : d₁.dataVersion = version := hver₁.trans hversion
  have hversion₇ : d₇.dataVersion = version := by
    rw [hver₇, hver₆, hver₅, hver₄, hver₃, hver₂, hversion₁]
  obtain ⟨d₈, h₈, hrest₈, hver₈⟩ := readPages_eq 0
    (fun p hp => UInt32.pos_iff_ne_zero.mpr (number_ne_zero_of_mem_livePages hp))
    (livePages_pairwise hc.pages) hversion₇ hrest₇ []
  refine ⟨d₈, ?_, hrest₈, hver₈⟩
  rw [Content.deserialize, h₁]
  simp only [hversion₁, UInt32.le_refl, if_true, h₂, h₃, h₄, h₅, int32_of_lt hassociated,
    Int.toNat_natCast, h₆, h₇, int32_of_lt hpages, List.nil_append]
  rw [if_neg (by omega)]
  simp only [UInt32.toNat_zero, List.nil_append] at h₈
  simp [h₈, restored]

theorem Info.deserialize_eq {info : Info} {rest : List UInt8} (hversion : d.dataVersion = version)
    (h : At d (encodeInfo info ++ rest)) (before : Info) :
    ∃ d', before.deserialize d = (.ok d', info) ∧ At d' rest ∧ d'.dataVersion = version := by
  have hcan : d.canAdvance (Info.size - 4) = true := by
    have h' : At d ((encode4Bytes info.pageSize ++ (encode4Bytes info.reservedBytes ++
        (encode4Bytes info.walSalt.1 ++ (encode4Bytes info.walSalt.2 ++
          encode4Bytes info.nBackFill)))) ++ (encode4Bytes info.seqTableRootPage ++ rest)) := by
      simpa only [encodeInfo, List.append_assoc] using h
    exact h'.canAdvance
  simp only [encodeInfo, List.append_assoc] at h
  obtain ⟨d₁, h₁, hrest₁, hver₁⟩ := h.advance4BytesUInt
  obtain ⟨d₂, h₂, hrest₂, hver₂⟩ := hrest₁.advance4BytesUInt
  obtain ⟨d₃, h₃, hrest₃, hver₃⟩ := hrest₂.advance4BytesUInt
  obtain ⟨d₄, h₄, hrest₄, hver₄⟩ := hrest₃.advance4BytesUInt
  obtain ⟨d₅, h₅, hrest₅, hver₅⟩ := hrest₄.advance4BytesUInt
  obtain ⟨d₆, h₆, hrest₆, hver₆⟩ := read4Bytes_eq .seqTableRootPage hrest₅
  have hversion₅ : d₅.dataVersion = version := by rw [hver₅, hver₄, hver₃, hver₂, hver₁, hversion]
  refine ⟨d₆, ?_, hrest₆, hver₆.trans hversion₅⟩
  simp only [Info.deserialize, hcan, Bool.not_true, Bool.false_eq_true, if_false, h₁, h₂, h₃, h₄,
    h₅, hversion₅, UInt32.le_refl, if_true, h₆]

variable {hash : List UInt8 → UInt32}

theorem deserializeData_eq {data rest : List UInt8}
    (h : At d (encode4Bytes (checksum hash data) ++ (encodeSized data ++ rest))) :
    deserializeData hash d = .ok data := by
  obtain ⟨d₁, h₁, hrest₁, -⟩ := read4Bytes_eq .checksum h
  obtain ⟨n, d₂, h₂, -⟩ := hrest₁.advanceSizedString
  simp only [deserializeData, h₁, bind, Except.bind, h₂]
  by_cases hdata : data = [] <;> simp [hdata, checksum]

theorem deserializeContents_eq {contents : List Content}
    (hc : ∀ c ∈ contents, c.WellFormed ∧ c.Countable) (hversion : d.dataVersion = version)
    (h : At d (contents.flatMap encodeContent)) (fuel : ℕ) (hfuel : contents.length < fuel)
    (m : Material) :
    ∃ map, deserializeContents fuel m d =
      (.ok (), { m with
        contentsList := m.contentsList ++ contents.map Content.restored, contentsMap := map }) := by
  induction contents generalizing d fuel m with
  | nil =>
    obtain ⟨fuel, rfl⟩ := Nat.exists_eq_succ_of_ne_zero (Nat.ne_zero_of_lt hfuel)
    have hended : d.ended = true := h.ended_iff.mpr rfl
    exact ⟨m.contentsMap, by simp [deserializeContents, hended]⟩
  | cons c contents ih =>
    obtain ⟨fuel, rfl⟩ := Nat.exists_eq_succ_of_ne_zero (Nat.ne_zero_of_lt hfuel)
    obtain ⟨hwell, hcount⟩ := hc c List.mem_cons_self
    have hended : d.ended = false := by
      rw [← Bool.not_eq_true, h.ended_iff]
      simp [encodeContent, encodeSized, encodeVarint_ne_nil]
    rw [List.flatMap_cons] at h
    obtain ⟨d₁, h₁, hrest₁, hver₁⟩ := Content.deserialize_eq hwell hcount hversion h
    obtain ⟨map, hmap⟩ := ih (fun c' hc' => hc c' (List.mem_cons_of_mem _ hc')) hver₁ hrest₁
      fuel (by simpa using hfuel)
      { m with
        contentsList := m.contentsList ++ [c.restored]
        contentsMap := assign m.contentsMap c.restored.tableName m.contentsList.length }
    refine ⟨map, ?_⟩
    simp only [deserializeContents, hended, Bool.false_eq_true, if_false, h₁]
    rw [hmap]
    simp

/-- Pieces that are not empty take at least one byte each. -/
theorem length_le_flatMap {α : Type} {f : α → List UInt8} (hf : ∀ a, f a ≠ []) (l : List α) :
    l.length ≤ (l.flatMap f).length := by
  induction l with
  | nil => simp
  | cons a l ih =>
    have hpos := List.length_pos_iff.mpr (hf a)
    rw [List.flatMap_cons, List.length_append, List.length_cons]
    omega

/-- What is around the contents of a material. -/
def envelope (hash : List UInt8 → UInt32) (info : Info) (data : List UInt8) : List UInt8 :=
  encode4Bytes magic ++ (encode4Bytes version ++ (encodeInfo info ++
    (encode4Bytes (checksum hash data) ++ encodeSized data)))

/-- Reading stops behind the contents. -/
theorem deserialize_envelope {info : Info} {data rest : List UInt8} (m : Material) (start : UInt32)
    (hfit : (envelope hash info data ++ rest).length < 2 ^ 63) :
    deserialize hash m ⟨envelope hash info data ++ rest, 0, start⟩ =
      deserializeContents (data.length + 1) { m with info } ⟨data, 0, version⟩ := by
  have h := At.start hfit start
  have hcan : Deserialization.canAdvance ⟨envelope hash info data ++ rest, 0, start⟩ headerSize =
      true := by
    have h' : At ⟨envelope hash info data ++ rest, 0, start⟩
        ((encode4Bytes magic ++ encode4Bytes version) ++ (encodeInfo info ++
          (encode4Bytes (checksum hash data) ++ (encodeSized data ++ rest)))) := by
      simpa only [envelope, List.append_assoc] using h
    exact h'.canAdvance
  generalize (⟨envelope hash info data ++ rest, 0, start⟩ : Deserialization) = d at h hcan
  simp only [envelope, List.append_assoc] at h
  obtain ⟨d₁, h₁, hrest₁, -⟩ := h.advance4BytesUInt
  obtain ⟨d₂, h₂, hrest₂, -⟩ := hrest₁.advance4BytesUInt
  obtain ⟨d₃, h₃, hrest₃, hver₃⟩ :=
    Info.deserialize_eq (rfl : version = version) (hrest₂.withVersion version) m.info
  simp only [deserialize, hcan, Bool.not_true, Bool.false_eq_true, if_false, h₁, h₂, ne_eq,
    not_true_eq_false, and_false, h₃, deserializeData_eq hrest₃, hver₃]

/-- **Reading the byte string of a material**, whatever follows it in the buffer. -/
theorem deserialize_encode {m : Material} (hc : ∀ c ∈ m.contentsList, c.WellFormed ∧ c.Countable)
    {rest : List UInt8} (hfit : (encode hash m ++ rest).length < 2 ^ 63) (start : UInt32) :
    ∃ map, deserialize hash {} ⟨encode hash m ++ rest, 0, start⟩ =
      (.ok (), ⟨m.info, m.contentsList.map Content.restored, map⟩) := by
  have hsmall : (m.contentsList.flatMap encodeContent).length < 2 ^ 63 := by
    simp only [encode, encodeSized, List.length_append] at hfit
    omega
  obtain ⟨map, hmap⟩ := deserializeContents_eq hc
    (d := ⟨m.contentsList.flatMap encodeContent, 0, version⟩) rfl (At.start hsmall _) _
    (Nat.lt_succ_of_le (length_le_flatMap (f := encodeContent)
      (by simp [encodeContent, encodeSized, encodeVarint_ne_nil]) m.contentsList))
    { info := m.info }
  exact ⟨map, (deserialize_envelope {} start hfit).trans hmap⟩

end Read

/-! ### Beyond the limits -/

section Limits

variable {alloc : ℕ → Bool} {hash : List UInt8 → UInt32}

theorem length_associatedSQLs_le {m : Material} {c : Content} (hc : c ∈ m.contentsList) :
    c.associatedSQLs.length ≤ (encode hash m).length := by
  have h₁ := length_le_flatMap (f := encodeSized) (by simp [encodeSized, encodeVarint_ne_nil])
    c.associatedSQLs
  have h₂ : (encodeContent c).length ≤ (m.contentsList.flatMap encodeContent).length := by
    obtain ⟨xs, ys, hxy⟩ := List.append_of_mem hc
    rw [hxy, List.flatMap_append, List.flatMap_cons]
    simp only [List.length_append]
    omega
  simp only [encode, encodeSized, encodeContent, List.length_append] at h₁ h₂ ⊢
  omega

theorem serializeContents_pages {contents : List Content} {s t : Serialization}
    (h : serializeContents alloc contents s = .ok t) :
    ∀ c ∈ contents, c.verifiedPagenos.length < 2 ^ 31 := by
  induction contents generalizing s with
  | nil => simp
  | cons c contents ih =>
    rw [serializeContents] at h
    split_ifs at h
    cases hc : c.serialize alloc s with
    | error e => simp [hc, bind, Except.bind] at h
    | ok w =>
      simp only [hc, bind, Except.bind] at h
      refine List.forall_mem_cons.mpr ⟨?_, ih h⟩
      by_contra hlen
      rw [Content.serialize] at hc
      split at hc
      · refine serializePages_overflow (by decide) ?_ _ _ _ hc
        rw [(sortPages_perm _).length_eq]
        omega
      · cases hc

theorem pages_of_serialize {m : Material} {s : Serialization}
    (h : m.serialize alloc hash .empty = .ok s) :
    ∀ c ∈ m.contentsList, c.verifiedPagenos.length < 2 ^ 31 := by
  simp only [serialize, bind, Except.bind] at h
  split at h
  · cases h
  split at h
  · cases h
  next hc => exact serializeContents_pages hc

theorem int32_toNat_lt (n : ℕ) : (int32 n).toNat < 2 ^ 31 := by
  rw [int32]
  split_ifs <;> omega

theorem length_readSQLs {n : ℕ} {before : List (List UInt8)} {d d' : Deserialization}
    {sqls : List (List UInt8)} (h : readSQLs n before d = (.ok d', sqls)) :
    sqls.length = before.length + n := by
  induction n generalizing before d with
  | zero =>
    cases h
    rfl
  | succ n ih =>
    rw [readSQLs] at h
    split at h
    · cases h
    · rw [ih h, List.length_append, List.length_singleton]
      omega

/-- However many were written, fewer than `2 ^ 31` associated SQLs are read. -/
theorem Content.deserialize_associatedSQLs {c c' : Content} {d d' : Deserialization}
    (h : c.deserialize d = (.ok d', c')) : c'.associatedSQLs.length < 2 ^ 31 := by
  simp only [Content.deserialize] at h
  split at h
  · cases h
  split at h
  · cases h
  split at h
  · cases h
  split at h
  · cases h
  split at h
  · cases h
  split at h
  · cases h
  next hsqls =>
  split at h
  · cases h
  split at h
  · cases h
  have hlen := length_readSQLs hsqls
  have hc' := congrArg (fun r => r.2.associatedSQLs.length) h
  simp only [List.length_nil, Nat.zero_add] at hlen hc'
  rw [← hc', hlen]
  exact int32_toNat_lt _

theorem deserializeContents_associatedSQLs {fuel : ℕ} {m m' : Material} {d : Deserialization}
    (hm : ∀ c ∈ m.contentsList, c.associatedSQLs.length < 2 ^ 31)
    (h : deserializeContents fuel m d = (.ok (), m')) :
    ∀ c ∈ m'.contentsList, c.associatedSQLs.length < 2 ^ 31 := by
  induction fuel generalizing m d with
  | zero => cases h
  | succ fuel ih =>
    rw [deserializeContents] at h
    split_ifs at h
    · cases h
      exact hm
    · split at h
      · cases h
      next hc =>
      refine ih ?_ h
      intro c hmem
      rcases List.mem_append.mp hmem with hmem | hmem
      · exact hm c hmem
      · rw [List.mem_singleton.mp hmem]
        exact Content.deserialize_associatedSQLs hc

theorem deserialize_associatedSQLs {m' : Material} {d : Deserialization}
    (h : deserialize hash {} d = (.ok (), m')) :
    ∀ c ∈ m'.contentsList, c.associatedSQLs.length < 2 ^ 31 := by
  simp only [deserialize] at h
  iterate 5
    split at h
    · cases h
  exact deserializeContents_associatedSQLs (by simp) h

/-! ### The round trip -/

/-- What the round trip assumes of a material. -/
structure WellFormed (m : Material) : Prop where
  seqTableRootPage : m.info.seqTableRootPage ≠ unknownPageNo
  contents : ∀ c ∈ m.contentsList, c.WellFormed

/-- Writing succeeds, and reading the bytes into a new material, also when zero bytes follow
them, returns the info and the contents. -/
def RoundTrip (alloc : ℕ → Bool) (hash : List UInt8 → UInt32) (m : Material) : Prop :=
  ∃ s, m.serialize alloc hash .empty = .ok s ∧
    ∀ k, (s.bytes ++ List.replicate k 0).length < 2 ^ 63 →
      ∃ map, deserialize hash {} ⟨s.bytes ++ List.replicate k 0, 0, 0⟩ =
        (.ok (), ⟨m.info, m.contentsList.map Content.restored, map⟩)

theorem roundTrip_of_countable (halloc : ∀ n, alloc n = true) {m : Material} (hm : m.WellFormed)
    (hcount : ∀ c ∈ m.contentsList, c.Countable) : RoundTrip alloc hash m := by
  obtain ⟨s, hs, hbytes⟩ := serialize_eq hash halloc fun c hc =>
    ⟨hm.contents c hc, lt_trans (hcount c hc).1 (by decide), (hcount c hc).2⟩
  refine ⟨s, hs, fun k hk => ?_⟩
  rw [hbytes] at hk ⊢
  exact deserialize_encode (fun c hc => ⟨hm.contents c hc, hcount c hc⟩) hk 0

theorem countable_of_roundTrip (halloc : ∀ n, alloc n = true) {m : Material} (hm : m.WellFormed)
    (hfit : (encode hash m).length < 2 ^ 63) (h : RoundTrip alloc hash m) :
    ∀ c ∈ m.contentsList, c.Countable := by
  intro c hc
  obtain ⟨s, hs, hread⟩ := h
  have hpages := pages_of_serialize hs
  obtain ⟨s', hs', hbytes⟩ := serialize_eq hash halloc fun c hc =>
    ⟨hm.contents c hc, lt_of_le_of_lt (length_associatedSQLs_le hc) (lt_trans hfit (by decide)),
      hpages c hc⟩
  obtain rfl : s = s' := Except.ok.inj (hs.symm.trans hs')
  obtain ⟨map, hmap⟩ := hread 0 (by simpa [hbytes] using hfit)
  exact ⟨deserialize_associatedSQLs hmap c.restored (List.mem_map_of_mem hc), hpages c hc⟩

/-- **The round trip holds exactly below the limits of `int`.** With every allocation granted
and an encoding that fits a buffer, a material is read back if and only if each content has
fewer than `2 ^ 31` associated SQLs and fewer than `2 ^ 31` page entries. -/
theorem roundTrip_iff (halloc : ∀ n, alloc n = true) {m : Material} (hm : m.WellFormed)
    (hfit : (encode hash m).length < 2 ^ 63) :
    RoundTrip alloc hash m ↔ ∀ c ∈ m.contentsList, c.Countable :=
  ⟨countable_of_roundTrip halloc hm hfit, roundTrip_of_countable halloc hm⟩

/-- A table of two live pages out of order and a deleted one. -/
def orders : Material where
  info := { pageSize := 4096, walSalt := (17, 4), nBackFill := 3, seqTableRootPage := 3 }
  contentsList := [{
    tableName := [111, 114, 100, 101, 114, 115]
    sql := [67, 82, 69, 65, 84, 69, 32, 84, 65, 66, 76, 69]
    associatedSQLs := [[67, 82, 69, 65, 84, 69, 32, 73, 78, 68, 69, 88]]
    rootPage := 2
    sequence := -1
    verifiedPagenos := [⟨900, 5⟩, ⟨0, 8⟩, ⟨4, 0xffffffff⟩] }]

theorem roundTrip_orders : RoundTrip (fun _ => true) crc32 orders := by
  have hwell : orders.WellFormed := ⟨by decide, by
    intro c hc
    obtain rfl := List.mem_singleton.mp hc
    exact ⟨by decide, by decide, by decide, by decide, by decide⟩⟩
  have hlive : livePages [⟨900, 5⟩, ⟨0, 8⟩, ⟨4, 0xffffffff⟩] = [⟨4, 0xffffffff⟩, ⟨900, 5⟩] := by
    simp [livePages, sortPages, List.mergeSort, List.MergeSort.Internal.splitInTwo]
  have hfit : (encode crc32 orders).length < 2 ^ 63 := by
    simp only [encode, orders, List.flatMap_cons, List.flatMap_nil, List.append_nil,
      encodeContent, hlive]
    decide +kernel
  refine (roundTrip_iff (fun _ => rfl) hwell hfit).mpr ?_
  intro c hc
  obtain rfl := List.mem_singleton.mp hc
  exact ⟨by decide, by decide⟩

/-- A table with `n` indexes. -/
def indexed (n : ℕ) : Material where
  info := { seqTableRootPage := 3 }
  contentsList := [{
    tableName := [116], sql := [115], associatedSQLs := List.replicate n [105], rootPage := 2 }]

theorem indexed_wellFormed (n : ℕ) : (indexed n).WellFormed := by
  refine ⟨by simp [indexed]; decide, ?_⟩
  intro c hc
  obtain rfl := List.mem_singleton.mp hc
  exact ⟨by simp, by simp, fun sql h => by simp [List.eq_of_mem_replicate h],
    by simp [unknownPageNo], by simp [DistinctPages]⟩

theorem length_encode_indexed (hash : List UInt8 → UInt32) (n : ℕ) :
    (encode hash (indexed n)).length ≤ 2 * n + 100 := by
  have hsql : (encodeSized [105]).length = 2 := by decide
  have hsqls : ((List.replicate n [(105 : UInt8)]).flatMap encodeSized).length = 2 * n := by
    simp [List.length_flatMap, hsql, Nat.mul_comm]
  have hcontent : ((indexed n).contentsList.flatMap encodeContent).length ≤ 2 * n + 50 := by
    have h₁ := length_encodeVarint_le n
    have h₂ := length_encodeVarint_le 0
    simp only [indexed, encodeContent, encodePages, encodeDeltas, livePages, sortPages,
      List.flatMap_cons, List.flatMap_nil, List.append_nil, List.length_append,
      List.length_replicate, hsqls, List.filter_nil, List.mergeSort_nil, List.length_nil]
    have h₃ : (encodeSized [116]).length = 2 := by decide
    have h₄ : (encodeSized [115]).length = 2 := by decide
    have h₅ := length_encodeVarint_le (2 : UInt32).toNat
    have h₆ := length_encodeVarint_le (0 : Int64).toUInt64.toNat
    omega
  have h₁ := length_encodeVarint_le (u64 ((indexed n).contentsList.flatMap encodeContent).length)
  simp only [encode, encodeInfo, List.length_append, encode4Bytes, encodeSized, List.length_cons,
    List.length_nil]
  omega

/-- With `2 ^ 31` indexes the material is well formed and small enough, and is not read back. -/
theorem not_roundTrip_indexed :
    (indexed (2 ^ 31)).WellFormed ∧ (encode crc32 (indexed (2 ^ 31))).length < 2 ^ 63 ∧
      ¬ RoundTrip (fun _ => true) crc32 (indexed (2 ^ 31)) := by
  have hfit : (encode crc32 (indexed (2 ^ 31))).length < 2 ^ 63 :=
    lt_of_le_of_lt (length_encode_indexed _ _) (by omega)
  refine ⟨indexed_wellFormed _, hfit, fun h => ?_⟩
  have hcount := countable_of_roundTrip (fun _ => rfl) (indexed_wellFormed _) hfit h _
    (List.mem_singleton.mpr rfl)
  have hlen := hcount.1
  rw [List.length_replicate] at hlen
  exact lt_irrefl _ hlen

end Limits

/-! ### Bytes behind a material -/

section Behind

variable {alloc : ℕ → Bool} {hash : List UInt8 → UInt32}

/-- Whatever the contents, a material that is written has this shape. -/
theorem serialize_envelope (halloc : ∀ n, alloc n = true) {m : Material} {s : Serialization}
    (h : m.serialize alloc hash .empty = .ok s) : ∃ data, s.bytes = envelope hash m.info data := by
  obtain ⟨t, ht, hbytes⟩ := ((puts_expand halloc headerSize).andThen
    ((puts_ignoringResult (puts_put4BytesUInt halloc magic)).andThen
      ((puts_ignoringResult (puts_put4BytesUInt halloc version)).andThen
        (puts_info halloc m.info)))) .empty
  simp only [serialize, ht, bind, Except.bind] at h
  split at h
  · cases h
  next encoder _ =>
  obtain ⟨w, hw, hbytes'⟩ := ((puts_put4BytesUInt halloc (checksum hash encoder.bytes)).andThen
    (puts_putSizedString halloc encoder.bytes)) { t with allocations := encoder.allocations }
  rw [serializeData, hw] at h
  cases h
  refine ⟨encoder.bytes, ?_⟩
  rw [hbytes', hbytes, envelope]
  simp [Serialization.empty]

/-- **A written material reads the same with bytes behind it.** -/
theorem deserialize_behind (halloc : ∀ n, alloc n = true) {m : Material} {s : Serialization}
    (h : m.serialize alloc hash .empty = .ok s) (before : Material) (start : UInt32)
    {rest : List UInt8} (hfit : (s.bytes ++ rest).length < 2 ^ 63) :
    deserialize hash before ⟨s.bytes ++ rest, 0, start⟩ =
      deserialize hash before ⟨s.bytes, 0, start⟩ := by
  obtain ⟨data, hbytes⟩ := serialize_envelope halloc h
  rw [hbytes] at hfit ⊢
  have hfit' : (envelope hash m.info data ++ []).length < 2 ^ 63 := by
    rw [List.length_append] at hfit ⊢
    simp only [List.length_nil]
    omega
  rw [deserialize_envelope before start hfit, ← deserialize_envelope before start hfit',
    List.append_nil]

end Behind

end Material

end Wcdb
