import Wcdb.Repair.IncrementalMaterialFormat

/-!
# Reading back an incremental material

The type of a page shares a varint with the bit that says whether a hash follows
(`encodePage`), and the pages fill their sized block to its end. Writing produces `encode`
(`serialize_eq`), and reading it gives the info and a map with the same entries
(`roundTrip`). The iteration of an unordered map is any order of its entries, so the two lists
are permutations of each other.
-/

namespace Wcdb.Repair

open Serialization Deserialization

namespace IncrementalMaterial

/-! ### The byte string -/

/-- The varint with the type and the bit for the hash. -/
def Page.tag (page : Page) : ℕ :=
  if page.hash ≠ 0 then unsigned (2 * page.type.toInt + 1) else unsigned (2 * page.type.toInt)

def Page.encodeHash (page : Page) : List UInt8 :=
  if page.hash ≠ 0 then encode4Bytes page.hash else []

def encodePage (page : Page) : List UInt8 :=
  encodeVarint page.number.toNat ++ (encodeVarint page.tag ++ page.encodeHash)

def encodePages (pages : List (UInt32 × Page)) : List UInt8 :=
  pages.flatMap fun element => encodePage element.2

/-- The byte string of an incremental material. -/
def encode (hash : List UInt8 → UInt32) (m : IncrementalMaterial) : List UInt8 :=
  envelope hash m.info (encodePages m.pages)

/-- The pages form a map from non-zero page numbers to pages with that number. -/
structure WellFormed (m : IncrementalMaterial) : Prop where
  keys : (m.pages.map Prod.fst).Nodup
  numbers : ∀ element ∈ m.pages, element.2.number = element.1 ∧ element.1 ≠ 0

theorem Page.tag_lt (page : Page) : page.tag < 2 ^ 64 := by
  unfold Page.tag
  split <;> exact unsigned_lt _

/-- The low bit of the varint is the bit for the hash, also for a negative type. -/
theorem Page.tag_mod (page : Page) : page.tag % 2 = if page.hash ≠ 0 then 1 else 0 := by
  unfold Page.tag unsigned
  split <;> omega

/-- The other bits of the varint are the type, cut to the width of `char`. -/
theorem Page.ofNat_tag (page : Page) : Int8.ofNat (page.tag / 2) = page.type := by
  apply Int8.toInt_inj.mp
  have hlow := page.type.le_toInt
  have hhigh := page.type.toInt_lt
  rw [Int8.toInt_ofNat', Page.tag, unsigned, unsigned, Int.bmod_def]
  simp only [Int8.size]
  split <;> split <;> omega

theorem encodePage_ne_nil (page : Page) : encodePage page ≠ [] := by
  simp [encodePage, encodeVarint_ne_nil]

/-! ### Writing produces it -/

section Write

variable {alloc : ℕ → Bool}

theorem puts_page (halloc : ∀ n, alloc n = true) (page : Page) :
    Puts (page.serialize alloc) (encodePage page) := by
  have hnumber : u64 page.number.toNat = page.number.toNat :=
    u64_of_lt (lt_trans page.number.toNat_lt (by decide))
  have htag : u64 page.tag = page.tag := u64_of_lt page.tag_lt
  have hfirst := puts_putVarintOk halloc page.number.toNat
  have hsecond := puts_putVarintOk halloc page.tag
  rw [hnumber] at hfirst
  rw [htag] at hsecond
  rw [encodePage, Page.serialize, Page.encodeHash]
  by_cases hhash : page.hash ≠ 0
  · simp only [Page.tag, if_pos hhash] at hsecond ⊢
    exact hfirst.andThen (hsecond.andThen (puts_put4BytesUInt halloc page.hash))
  · simp only [Page.tag, if_neg hhash, List.append_nil] at hsecond ⊢
    exact hfirst.andThen hsecond

theorem serializePages_eq (halloc : ∀ n, alloc n = true) {pages : List (UInt32 × Page)}
    (hne : ∀ element ∈ pages, element.2.number ≠ 0) (s : Serialization) :
    ∃ t, serializePages alloc pages s = .ok t ∧ t.bytes = s.bytes ++ encodePages pages := by
  induction pages generalizing s with
  | nil => exact ⟨s, rfl, by simp [encodePages]⟩
  | cons element pages ih =>
    obtain ⟨t, ht, hbytes⟩ := puts_page halloc element.2 s
    obtain ⟨w, hw, hbytes'⟩ := ih (fun e he => hne e (List.mem_cons_of_mem _ he)) t
    refine ⟨w, ?_, ?_⟩
    · rw [serializePages, if_neg (hne element List.mem_cons_self), ht]
      exact hw
    · rw [hbytes', hbytes, encodePages, encodePages, List.flatMap_cons, List.append_assoc]

/-- **Writing an incremental material produces its byte string.** -/
theorem serialize_eq (hash : List UInt8 → UInt32) (halloc : ∀ n, alloc n = true)
    {m : IncrementalMaterial} (hm : m.WellFormed) :
    ∃ s, m.serialize alloc hash .empty = .ok s ∧ s.bytes = encode hash m := by
  obtain ⟨s, hs, hbytes⟩ := ((puts_expand halloc headerSize).andThen
    ((Material.puts_ignoringResult (puts_put4BytesUInt halloc magic)).andThen
      ((Material.puts_ignoringResult (puts_put4BytesUInt halloc version)).andThen
        (puts_info halloc m.info)))) .empty
  have hne : ∀ element ∈ m.pages, element.2.number ≠ 0 := by
    intro element helement
    obtain ⟨hnumber, hkey⟩ := hm.numbers element helement
    rwa [hnumber]
  obtain ⟨t, ht, hbytes'⟩ :=
    serializePages_eq halloc hne { empty with allocations := s.allocations }
  obtain ⟨w, hw, hbytes''⟩ := ((puts_put4BytesUInt halloc (Material.checksum hash t.bytes)).andThen
    (puts_putSizedString halloc t.bytes)) { s with allocations := t.allocations }
  have hdata : t.bytes = encodePages m.pages := by rw [hbytes']; rfl
  refine ⟨w, ?_, ?_⟩
  · simp only [serialize, hs, ht, bind, Except.bind]
    rw [Material.serializeData, hw]
  · rw [hbytes'', hbytes, hdata, encode, envelope]
    simp [Serialization.empty]

end Write

/-! ### Reading returns the material -/

section Read

variable {d : Deserialization}

theorem Page.deserialize_eq {page : Page} {rest : List UInt8} (h : At d (encodePage page ++ rest)) :
    ∃ d', Page.deserialize {} d = .ok (page, d') ∧ At d' rest := by
  simp only [encodePage, List.append_assoc] at h
  obtain ⟨d₁, h₁, hrest₁, -⟩ := readVarint_eq .pageNo (lt_trans page.number.toNat_lt (by decide)) h
  obtain ⟨d₂, h₂, hrest₂, -⟩ := readVarint_eq .pageType page.tag_lt hrest₁
  simp only [Page.deserialize, h₁, h₂, bind, Except.bind, UInt32.ofNat_toNat, page.ofNat_tag,
    page.tag_mod]
  by_cases hhash : page.hash = 0
  · refine ⟨d₂, ?_, ?_⟩
    · simp only [hhash, ne_eq, not_true_eq_false, if_false, Nat.zero_ne_one]
      rw [← hhash]
    · simpa [Page.encodeHash, hhash] using hrest₂
  · rw [Page.encodeHash, if_pos hhash] at hrest₂
    obtain ⟨d₃, h₃, hrest₃, -⟩ := hrest₂.advance4BytesUInt
    have hcan : d₂.canAdvance 4 = true := hrest₂.canAdvance
    refine ⟨d₃, ?_, hrest₃⟩
    simp only [ne_eq, hhash, not_false_eq_true, if_true, hcan, h₃]

/-- A number that the map does not hold yet gets an entry of its own. -/
theorem assign_of_notMem {pages : List (UInt32 × Page)} {page : Page}
    (h : page.number ∉ pages.map Prod.fst) : assign pages page = (page.number, page) :: pages := by
  rw [assign]
  congr 1
  refine List.filter_eq_self.mpr fun entry hentry => ?_
  simp only [decide_eq_true_eq, ne_eq]
  intro heq
  exact h (heq ▸ List.mem_map_of_mem hentry)

theorem deserializePages_eq {pages : List (UInt32 × Page)}
    (hnumbers : ∀ element ∈ pages, element.2.number = element.1)
    (h : At d (encodePages pages)) (fuel : ℕ) (hfuel : pages.length < fuel)
    (m : IncrementalMaterial) (hkeys : ((m.pages ++ pages).map Prod.fst).Nodup) :
    deserializePages fuel m d = (.ok (), { m with pages := pages.reverse ++ m.pages }) := by
  induction pages generalizing d fuel m with
  | nil =>
    obtain ⟨fuel, rfl⟩ := Nat.exists_eq_succ_of_ne_zero (Nat.ne_zero_of_lt hfuel)
    have hended : d.ended = true := h.ended_iff.mpr rfl
    simp [deserializePages, hended]
  | cons element pages ih =>
    obtain ⟨fuel, rfl⟩ := Nat.exists_eq_succ_of_ne_zero (Nat.ne_zero_of_lt hfuel)
    obtain ⟨key, page⟩ := element
    obtain rfl : page.number = key := hnumbers _ List.mem_cons_self
    rw [encodePages, List.flatMap_cons] at h
    have hended : d.ended = false := by
      rw [← Bool.not_eq_true, h.ended_iff]
      simp [encodePage_ne_nil]
    obtain ⟨d₁, h₁, hrest₁⟩ := Page.deserialize_eq h
    have hperm : (m.pages ++ (page.number, page) :: pages).Perm
        ((page.number, page) :: (m.pages ++ pages)) := List.perm_middle
    have hkeys' : (((page.number, page) :: m.pages ++ pages).map Prod.fst).Nodup :=
      (hperm.map Prod.fst).nodup_iff.mp hkeys
    have hnotMem : page.number ∉ m.pages.map Prod.fst := by
      intro hmem
      refine (List.nodup_cons.mp hkeys').1 ?_
      change page.number ∈ (m.pages ++ pages).map Prod.fst
      rw [List.map_append]
      exact List.mem_append_left _ hmem
    rw [deserializePages, hended, if_neg Bool.false_ne_true, h₁]
    simp only [assign_of_notMem hnotMem]
    rw [ih (fun e he => hnumbers e (List.mem_cons_of_mem _ he)) hrest₁ fuel (by simpa using hfuel) _
      hkeys']
    simp

variable {hash : List UInt8 → UInt32}

/-- **Reading the byte string of an incremental material**, whatever follows it in the buffer. -/
theorem deserialize_encode {m : IncrementalMaterial} (hm : m.WellFormed) {rest : List UInt8}
    (hfit : (encode hash m ++ rest).length < 2 ^ 63) (start : UInt32) :
    deserialize hash {} ⟨encode hash m ++ rest, 0, start⟩ =
      (.ok (), ⟨m.info, m.pages.reverse⟩) := by
  have hsmall : (encodePages m.pages).length < 2 ^ 63 := by
    simp only [encode, envelope, encodeSized, List.length_append] at hfit
    omega
  have hcount : m.pages.length ≤ (encodePages m.pages).length := by
    rw [encodePages]
    exact Material.length_le_flatMap (fun element => encodePage_ne_nil element.2) m.pages
  rw [encode] at hfit ⊢
  rw [deserialize_envelope {} start hfit,
    deserializePages_eq (fun e he => (hm.numbers e he).1) (At.start hsmall version) _
      (Nat.lt_succ_of_le hcount) _ (by simpa using hm.keys)]
  simp

end Read

/-! ### The round trip -/

section RoundTrip

variable {alloc : ℕ → Bool} {hash : List UInt8 → UInt32}

/-- **The round trip of an incremental material.** With every allocation granted, writing succeeds,
and reading the bytes into a new material, whatever follows them in the buffer, returns the info
and a map with the same entries. -/
theorem roundTrip (halloc : ∀ n, alloc n = true) {m : IncrementalMaterial} (hm : m.WellFormed) :
    ∃ s, m.serialize alloc hash .empty = .ok s ∧
      ∀ rest : List UInt8, (s.bytes ++ rest).length < 2 ^ 63 →
        ∃ pages, deserialize hash {} ⟨s.bytes ++ rest, 0, 0⟩ = (.ok (), ⟨m.info, pages⟩) ∧
          pages.Perm m.pages := by
  obtain ⟨s, hs, hbytes⟩ := serialize_eq hash halloc hm
  refine ⟨s, hs, fun rest hfit => ⟨m.pages.reverse, ?_, m.pages.reverse_perm⟩⟩
  rw [hbytes] at hfit ⊢
  exact deserialize_encode hm hfit 0

/-- Extreme values of the info, and pages with and without a hash, one of a negative type. -/
def twoPages : IncrementalMaterial where
  info :=
    { lastWalSalt := (0xffffffff, 0), currentWalSalt := (7, 0x80000000), lastNBackFill := 0xffffffff
      currentNBackFill := 3, lastSchemaCookie := 12, lastCheckPointFinish := true
      lastBackupTime := 0xffffffff, incrementalBackupTimes := -2147483648 }
  pages := [(0xffffffff, ⟨0xffffffff, -128, 0xffffffff⟩), (1, ⟨1, 13, 0⟩)]

theorem roundTrip_twoPages :
    ∃ s, twoPages.serialize (fun _ => true) Material.crc32 .empty = .ok s ∧
      ∀ rest : List UInt8, (s.bytes ++ rest).length < 2 ^ 63 →
        ∃ pages, deserialize Material.crc32 {} ⟨s.bytes ++ rest, 0, 0⟩ =
            (.ok (), ⟨twoPages.info, pages⟩) ∧
          pages.Perm twoPages.pages :=
  roundTrip (fun _ => rfl) ⟨by decide, by decide⟩

end RoundTrip

end IncrementalMaterial

end Wcdb.Repair
