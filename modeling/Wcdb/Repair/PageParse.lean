import Wcdb.Repair.Page

/-!
# Parsing a page from any bytes

`Page.parse` is `Page::doInitialize` on the bytes of a page, with every access to a byte checked.
The fields of a page are unsigned (`stored`); the source reads them as signed integers, so that a
pointer from `2 ^ 15` on is negative, and it checks the pointers of interior pages only.

* A pointer of an interior page from `-4` to `-1` passes the check, and a byte before the page is
  read.
* The pointers of a leaf page may be negative or lie behind the page.

`Orderly` says that a page has neither, and `parse_safe_iff` that the parse is safe exactly then.
-/

namespace Wcdb

/-- Two bytes that hold `u`, read as a signed integer. -/
def signed16 (u : ℕ) : ℤ := if u < 2 ^ 15 then u else u - 2 ^ 16

theorem signed16_eq_iff {u : ℕ} : signed16 u = u ↔ u < 2 ^ 15 := by
  rw [signed16]
  split_ifs with h
  · exact iff_of_true rfl h
  · exact iff_of_false (by omega) h

theorem signed16_nonneg_iff {u : ℕ} (hu : u < 2 ^ 16) : 0 ≤ signed16 u ↔ u < 2 ^ 15 := by
  rw [signed16]
  split_ifs with h
  · exact iff_of_true (by omega) h
  · exact iff_of_false (by omega) h

theorem Deserialization.get2BytesInt_eq {l : List UInt8} (h : 2 ≤ l.length) :
    get2BytesInt l = signed16 (ofBytes (l.take 2)) := by
  match l, h with
  | p0 :: p1 :: rest, _ =>
    have hp0 := p0.toNat_lt
    have hp1 := p1.toNat_lt
    have hrange := int8_range p0
    have hor := @int32_word_or 8 (by simp) (int8 p0) hrange.1 hrange.2 p1.toNat hp1
    simp only [get2BytesInt, List.take_succ_cons, List.take_zero, ofBytes, List.length_cons,
      List.length_nil]
    rw [show (256 : ℤ) * int8 p0 = 2 ^ 8 * int8 p0 by norm_num, hor, signed16, int8]
    split_ifs <;> omega

namespace Repair

open Deserialization

/-- How a parse ends that delivers nothing: at an access outside the buffer, at a sum that `int`
cannot hold, not at all, or with `false`. -/
inductive Halt where
  | outside
  | overflow
  | endless
  | refused
  deriving DecidableEq, Repr

/-- The bytes at `base() + offset`, of which `n` are read. -/
def bytesAt (data : List UInt8) (offset : ℤ) (n : ℕ) : Except Halt (List UInt8) :=
  if 0 ≤ offset ∧ offset + n ≤ data.length then .ok (data.drop offset.toNat) else .error .outside

namespace Page

/-! ### The parse -/

/-- The loop over the cell pointers, `i` being the first and `n` their number. -/
def parsePointers (data : List UInt8) (base : ℤ) (i : ℤ) : ℕ → Except Halt (List ℤ)
  | 0 => .ok []
  | n + 1 =>
    if isEnough data (base + i * 2 + 2) then do
      let bytes ← bytesAt data (base + i * 2) 2
      let rest ← parsePointers data base (i + 1) n
      return get2BytesInt bytes :: rest
    else .error .refused

/-- The loop over the children, from the offsets of their numbers. -/
def parseSubpagenos (p : Pager) (data : List UInt8) : List ℤ → Except Halt (List ℤ)
  | [] => .ok []
  | offset :: offsets =>
    if isEnough data (offset + 4) then do
      let bytes ← bytesAt data offset 4
      let pageno := get4BytesInt bytes
      if p.numberOfPages < pageno then .error .refused
      else if pageno ≤ 0 then .error .refused
      else do
        let rest ← parseSubpagenos p data offsets
        return pageno :: rest
    else .error .refused

/-- `Page::doInitialize` on the bytes of the page. -/
def parse (p : Pager) (number : ℤ) (data : List UInt8) : Except Halt Page := do
  let header := offsetOfHeader number
  let type := PageType.convertToPageType (get1ByteInt (← bytesAt data header 1))
  if type = .unknown then return ⟨number, data, type, [], []⟩
  let numberOfCells := get2BytesInt (← bytesAt data (header + 3) 2)
  if numberOfCells < 0 then .error .refused
  let cellPointers ← parsePointers data (header + type.offsetOfCellPointer) 0 numberOfCells.toNat
  if type.isInteriorPage then
    let subpagenos ← parseSubpagenos p data (cellPointers ++ [8 + header])
    return ⟨number, data, type, cellPointers, subpagenos⟩
  else return ⟨number, data, type, cellPointers, []⟩

/-! ### What a page stores -/

/-- The number in two bytes. -/
def stored (data : List UInt8) (offset : ℕ) : ℕ := ofBytes ((data.drop offset).take 2)

def headerAt (number : ℤ) : ℕ := if number = 1 then 100 else 0

def typeAt (number : ℤ) (data : List UInt8) : PageType :=
  PageType.convertToPageType (get1ByteInt (data.drop (headerAt number)))

def storedCount (number : ℤ) (data : List UInt8) : ℕ := stored data (headerAt number + 3)

/-- The offset of the array of cell pointers. -/
def arrayAt (number : ℤ) (data : List UInt8) : ℕ :=
  headerAt number + if (typeAt number data).isInteriorPage then 12 else 8

def storedPointers (number : ℤ) (data : List UInt8) : List ℕ :=
  (List.range (storedCount number data)).map fun i => stored data (arrayAt number data + 2 * i)

/-- The count is not negative, and the array lies in the page. -/
def ArrayFits (number : ℤ) (data : List UInt8) : Prop :=
  storedCount number data < 2 ^ 15 ∧
    (storedCount number data = 0 ∨
      arrayAt number data + 2 * storedCount number data ≤ data.length)

/-- The number of a child is stored at an offset. -/
def Child (p : Pager) (data : List UInt8) (offset : ℤ) : Prop :=
  0 ≤ offset ∧ offset + 4 ≤ data.length ∧
    1 ≤ get4BytesInt (data.drop offset.toNat) ∧
      get4BytesInt (data.drop offset.toNat) ≤ p.numberOfPages

end Page

/-- The bytes of the shortest header of a cell: the left child, the size of the payload and the
rowid, as far as the cells of the page have them. -/
def PageType.leastHeader (t : PageType) : ℕ :=
  (if t.isInteriorPage then 4 else 0) + (if t = .interiorTable then 0 else 1) +
    if t.isTablePage then 1 else 0

namespace Page

variable {p : Pager} {number : ℤ} {data : List UInt8}

theorem offsetOfHeader_eq (number : ℤ) : offsetOfHeader number = headerAt number := by
  rw [offsetOfHeader, headerAt]
  split_ifs <;> rfl

theorem bytesAt_eq {data : List UInt8} {offset n : ℕ} (h : offset + n ≤ data.length) :
    bytesAt data offset n = .ok (data.drop offset) := by
  rw [bytesAt, if_pos ⟨by omega, by exact_mod_cast h⟩, Int.toNat_natCast]

theorem get2BytesInt_drop {offset : ℕ} (h : offset + 2 ≤ data.length) :
    get2BytesInt (data.drop offset) = signed16 (stored data offset) :=
  Deserialization.get2BytesInt_eq (by rw [List.length_drop]; omega)

theorem stored_lt (data : List UInt8) (offset : ℕ) : stored data offset < 2 ^ 16 :=
  (ofBytes_lt _).trans_le (le_of_le_of_eq (Nat.pow_le_pow_right (by norm_num)
    (List.length_take_le 2 _)) (by norm_num))

/-! ### The loops -/

section Loops

theorem parsePointers_eq (base i n : ℕ) :
    parsePointers data base i n =
      if n = 0 ∨ base + 2 * (i + n) ≤ data.length then
        .ok ((List.range n).map fun j => signed16 (stored data (base + 2 * (i + j))))
      else .error .refused := by
  induction n generalizing i with
  | zero => rfl
  | succ n ih =>
    have hnext : ((i : ℤ) + 1) = (i + 1 : ℕ) := by push_cast; rfl
    have hoffset : (base : ℤ) + i * 2 = (base + 2 * i : ℕ) := by push_cast; ring
    rw [parsePointers, hnext, ih, hoffset]
    by_cases hin : base + 2 * i + 2 ≤ data.length
    · rw [if_pos (by rw [isEnough]; simp only [decide_eq_true_eq]; omega), bytesAt_eq hin]
      by_cases hrest : n = 0 ∨ base + 2 * (i + 1 + n) ≤ data.length
      · rw [if_pos hrest, if_pos (.inr (by omega))]
        rw [List.range_succ_eq_map, List.map_cons, List.map_map, add_zero, ← get2BytesInt_drop hin]
        simp only [bind, Except.bind, pure, Except.pure]
        congr 2
        refine List.map_congr_left fun j _ => ?_
        rw [Function.comp_apply, Nat.succ_eq_add_one, Nat.add_right_comm, Nat.add_assoc]
      · rw [if_neg hrest, if_neg (by omega)]
        rfl
    · rw [if_neg (by rw [isEnough]; simp only [decide_eq_true_eq]; omega), if_neg (by omega)]

theorem parseSubpagenos_cons (hlen : 4 ≤ data.length) (offset : ℤ) (offsets : List ℤ) :
    (Child p data offset ∧ parseSubpagenos p data (offset :: offsets) =
      (parseSubpagenos p data offsets).map (get4BytesInt (data.drop offset.toNat) :: ·)) ∨
    ¬Child p data offset ∧ (-4 ≤ offset ∧ offset < 0) ∧
      parseSubpagenos p data (offset :: offsets) = .error .outside ∨
    ¬Child p data offset ∧ ¬(-4 ≤ offset ∧ offset < 0) ∧
      parseSubpagenos p data (offset :: offsets) = .error .refused := by
  rw [parseSubpagenos, isEnough]
  by_cases henough : 0 ≤ offset + 4 ∧ offset + 4 ≤ data.length
  · rw [if_pos (decide_eq_true henough), bytesAt]
    by_cases hneg : offset < 0
    · refine .inr (.inl ⟨fun hchild => absurd hchild.1 (by omega), ⟨by omega, hneg⟩, ?_⟩)
      rw [if_neg (by omega)]
      rfl
    · rw [if_pos (by omega)]
      simp only [bind, Except.bind]
      by_cases hlarge : p.numberOfPages < get4BytesInt (data.drop offset.toNat)
      · rw [if_pos hlarge]
        exact .inr (.inr ⟨fun hchild => absurd hchild.2.2.2 (by omega), by omega, rfl⟩)
      · by_cases hsmall : get4BytesInt (data.drop offset.toNat) ≤ 0
        · rw [if_neg hlarge, if_pos hsmall]
          exact .inr (.inr ⟨fun hchild => absurd hchild.2.2.1 (by omega), by omega, rfl⟩)
        · rw [if_neg hlarge, if_neg hsmall]
          refine .inl ⟨⟨by omega, by omega, by omega, by omega⟩, ?_⟩
          cases parseSubpagenos p data offsets <;> rfl
  · rw [if_neg (by simpa only [decide_eq_true_eq] using henough)]
    exact .inr (.inr
      ⟨fun hchild => henough ⟨by have := hchild.1; omega, hchild.2.1⟩, by omega, rfl⟩)

theorem parseSubpagenos_eq_ok_iff (hlen : 4 ≤ data.length) {offsets l : List ℤ} :
    parseSubpagenos p data offsets = .ok l ↔
      (∀ o ∈ offsets, Child p data o) ∧
        l = offsets.map fun o => get4BytesInt (data.drop o.toNat) := by
  induction offsets generalizing l with
  | nil =>
    rw [parseSubpagenos, Except.ok.injEq, List.map_nil]
    exact ⟨fun h => ⟨fun o ho => absurd ho List.not_mem_nil, h.symm⟩, fun h => h.2.symm⟩
  | cons offset offsets ih =>
    obtain ⟨hchild, hparse⟩ | ⟨hchild, -, hparse⟩ | ⟨hchild, -, hparse⟩ :=
      @parseSubpagenos_cons p data hlen offset offsets
    · rw [hparse, List.map_cons]
      constructor
      · intro h
        cases hrest : parseSubpagenos p data offsets with
        | error e => simp [hrest, Except.map] at h
        | ok rest =>
          obtain ⟨hall, rfl⟩ := ih.mp hrest
          rw [hrest] at h
          exact ⟨List.forall_mem_cons.mpr ⟨hchild, hall⟩, (Except.ok.inj h).symm⟩
      · rintro ⟨hall, rfl⟩
        rw [ih.mpr ⟨(List.forall_mem_cons.mp hall).2, rfl⟩]
        rfl
    · refine iff_of_false (by rw [hparse]; exact fun h => nomatch h) fun h => hchild ?_
      exact h.1 offset (List.mem_cons_self ..)
    · refine iff_of_false (by rw [hparse]; exact fun h => nomatch h) fun h => hchild ?_
      exact h.1 offset (List.mem_cons_self ..)

/-- The loop reads before the page where it arrives at an offset from `-4` to `-1`. -/
theorem parseSubpagenos_outside_iff (hlen : 4 ≤ data.length) {offsets : List ℤ} :
    parseSubpagenos p data offsets = .error .outside ↔
      ∃ before o after, offsets = before ++ o :: after ∧ (∀ r ∈ before, Child p data r) ∧
        -4 ≤ o ∧ o < 0 := by
  induction offsets with
  | nil => exact iff_of_false (fun h => nomatch h) (by simp)
  | cons offset offsets ih =>
    obtain ⟨hchild, hparse⟩ | ⟨-, hneg, hparse⟩ | ⟨hchild, hneg, hparse⟩ :=
      @parseSubpagenos_cons p data hlen offset offsets
    · have htail : parseSubpagenos p data (offset :: offsets) = .error .outside ↔
          parseSubpagenos p data offsets = .error .outside := by
        rw [hparse]
        cases parseSubpagenos p data offsets with
        | error e => simp [Except.map]
        | ok l => simp [Except.map]
      rw [htail, ih]
      constructor
      · rintro ⟨before, o, after, rfl, hbefore, ho⟩
        exact ⟨offset :: before, o, after, rfl, List.forall_mem_cons.mpr ⟨hchild, hbefore⟩, ho⟩
      · rintro ⟨before, o, after, heq, hbefore, ho⟩
        rcases List.append_eq_cons_iff.mp heq.symm with ⟨rfl, hcons⟩ | ⟨rest, rfl, hrest⟩
        · have hcons' := List.cons.inj hcons
          exact absurd hchild.1 (by omega)
        · exact ⟨rest, o, after, hrest, fun r hr => hbefore r (List.mem_cons_of_mem _ hr), ho⟩
    · exact iff_of_true hparse ⟨[], offset, offsets, rfl, by simp, hneg⟩
    · refine iff_of_false (by rw [hparse]; exact fun h => nomatch h) ?_
      rintro ⟨before, o, after, heq, hbefore, ho⟩
      rcases List.append_eq_cons_iff.mp heq.symm with ⟨rfl, hcons⟩ | ⟨rest, rfl, hrest⟩
      · obtain ⟨rfl, -⟩ := List.cons.inj hcons
        exact hneg ho
      · exact hchild (hbefore offset (List.mem_cons_self ..))

end Loops

/-! ### Beside the model of the crawlers -/

section Crawlers

theorem readCellPointers_eq (base : ℤ) {i : ℤ} {n : ℕ} (h : 0 ≤ base + i * 2) :
    readCellPointers data base i n = (parsePointers data base i n).toOption := by
  induction n generalizing i with
  | zero => rfl
  | succ n ih =>
    rw [readCellPointers, parsePointers, ih (by omega)]
    split_ifs with henough
    · rw [isEnough, decide_eq_true_eq] at henough
      rw [bytesAt, if_pos (by omega)]
      cases parsePointers data base (i + 1) n <;> rfl
    · rfl

theorem readSubpagenos_eq {offsets : List ℤ}
    (h : parseSubpagenos p data offsets ≠ .error .outside) :
    readSubpagenos p data offsets = (parseSubpagenos p data offsets).toOption := by
  induction offsets with
  | nil => rfl
  | cons offset offsets ih =>
    rw [parseSubpagenos] at h
    rw [readSubpagenos, parseSubpagenos]
    by_cases henough : isEnough data (offset + 4)
    · rw [if_pos henough] at h ⊢
      rw [if_pos henough]
      by_cases hin : 0 ≤ offset ∧ offset + (4 : ℕ) ≤ data.length
      · rw [bytesAt, if_pos hin] at h ⊢
        simp only [bind, Except.bind] at h ⊢
        split_ifs at h ⊢
        · rfl
        · rfl
        · rw [ih fun heq => h (by rw [heq])]
          cases parseSubpagenos p data offsets <;> rfl
      · rw [bytesAt, if_neg hin] at h
        exact absurd rfl h
    · rw [if_neg henough, if_neg henough]
      rfl

end Crawlers

/-! ### The whole parse -/

/-- The offsets of the numbers of the children. -/
def childOffsets (number : ℤ) (data : List UInt8) : List ℤ :=
  (storedPointers number data).map signed16 ++ [8 + offsetOfHeader number]

/-- What a page of the type becomes, its array of pointers being in the page. -/
def parsed (p : Pager) (number : ℤ) (data : List UInt8) : Except Halt Page :=
  let page : Page := ⟨number, data, typeAt number data,
    (storedPointers number data).map signed16, []⟩
  if (typeAt number data).isInteriorPage then
    (parseSubpagenos p data (childOffsets number data)).map fun subpagenos =>
      { page with subpagenos }
  else .ok page

/-- A page that is parsed without leaving it is what the crawlers see. -/
theorem doInitialize_eq (hdata : p.acquirePageData number = some data)
    (h : parse p number data ≠ .error .outside) :
    doInitialize p number = (parse p number data).toOption := by
  have hlen := p.length_data number data hdata
  have hsize := p.pageSize_ge
  have hheader : headerAt number ≤ 100 := by
    rw [headerAt]
    split_ifs <;> omega
  have htype : bytesAt data (headerAt number) 1 = .ok (data.drop (headerAt number)) :=
    bytesAt_eq (by omega)
  have hcount : bytesAt data ((headerAt number : ℤ) + 3) 2 =
      .ok (data.drop (headerAt number + 3)) := by
    exact_mod_cast @bytesAt_eq data (headerAt number + 3) 2 (by omega)
  rw [parse, offsetOfHeader_eq, htype] at h ⊢
  rw [doInitialize, offsetOfHeader_eq, hdata]
  simp only [Option.bind_some, bind, Except.bind, Int.toNat_natCast, hcount] at h ⊢
  generalize PageType.convertToPageType (get1ByteInt (data.drop (headerAt number))) = type at h ⊢
  generalize get2BytesInt (data.drop (headerAt number + 3)) = numberOfCells at h ⊢
  by_cases hunknown : type = .unknown
  · rw [if_pos hunknown, if_pos hunknown]
    rfl
  rw [if_neg hunknown] at h ⊢
  rw [if_neg hunknown]
  by_cases hneg : numberOfCells < 0
  · rw [if_pos hneg, if_pos hneg]
    rfl
  rw [if_neg hneg] at h ⊢
  rw [if_neg hneg, readCellPointers_eq]
  · cases hpointers : parsePointers data (headerAt number + type.offsetOfCellPointer) 0
        numberOfCells.toNat with
    | error e => rfl
    | ok pointers =>
      rw [hpointers] at h
      simp only [Except.toOption, Option.bind_some] at h ⊢
      by_cases hinterior : type.isInteriorPage = true
      · rw [if_pos hinterior] at h ⊢
        rw [if_pos hinterior, readSubpagenos_eq fun heq => h (by rw [heq])]
        cases parseSubpagenos p data (pointers ++ [8 + (headerAt number : ℤ)]) <;> rfl
      · rw [if_neg hinterior, if_neg hinterior]
        rfl
  · rw [PageType.offsetOfCellPointer]
    split_ifs <;> omega

instance (number : ℤ) (data : List UInt8) : Decidable (ArrayFits number data) := by
  unfold ArrayFits
  infer_instance

theorem parse_eq (hlen : 512 ≤ data.length) :
    parse p number data =
      if typeAt number data = .unknown then .ok ⟨number, data, .unknown, [], []⟩
      else if ArrayFits number data then parsed p number data
      else .error .refused := by
  have hheader : headerAt number ≤ 100 := by
    rw [headerAt]
    split_ifs <;> omega
  have htype : bytesAt data (headerAt number) 1 = .ok (data.drop (headerAt number)) :=
    bytesAt_eq (by omega)
  have hcount : bytesAt data ((headerAt number : ℤ) + 3) 2 =
      .ok (data.drop (headerAt number + 3)) := by
    exact_mod_cast @bytesAt_eq data (headerAt number + 3) 2 (by omega)
  have harray : (headerAt number : ℤ) + (typeAt number data).offsetOfCellPointer =
      arrayAt number data := by
    rw [arrayAt, PageType.offsetOfCellPointer]
    split_ifs <;> push_cast <;> rfl
  have htypeAt : PageType.convertToPageType (get1ByteInt (data.drop (headerAt number))) =
      typeAt number data := rfl
  rw [parse, offsetOfHeader_eq, htype]
  simp only [bind, Except.bind, htypeAt]
  by_cases hunknown : typeAt number data = .unknown
  · rw [if_pos hunknown, if_pos hunknown, hunknown]
    rfl
  rw [if_neg hunknown, if_neg hunknown, hcount, harray]
  simp only [get2BytesInt_drop (show headerAt number + 3 + 2 ≤ data.length by omega)]
  rw [← storedCount]
  by_cases hsmall : storedCount number data < 2 ^ 15
  · have hpointers := @parsePointers_eq data (arrayAt number data) 0 (storedCount number data)
    rw [signed16_eq_iff.mpr hsmall, if_neg (by omega), Int.toNat_natCast]
    simp only [Nat.cast_zero, Nat.zero_add] at hpointers
    rw [hpointers]
    by_cases hfits : storedCount number data = 0 ∨
        arrayAt number data + 2 * storedCount number data ≤ data.length
    · rw [if_pos hfits, if_pos ⟨hsmall, hfits⟩, parsed, childOffsets, storedPointers, List.map_map,
        offsetOfHeader_eq]
      simp only [Function.comp_def]
      split_ifs
      · cases parseSubpagenos p data _ <;> rfl
      · rfl
    · rw [if_neg hfits, if_neg fun h => hfits h.2]
  · have hlt : storedCount number data < 2 ^ 16 := stored_lt _ _
    rw [signed16, if_neg hsmall, if_pos (by omega), if_neg fun h => hsmall h.1]

/-! ### Safety -/

/-- The parse stays in the page; and if it succeeds, a cell header can start at every pointer, and
the children of an interior page of a table exist. -/
def Safe (p : Pager) (number : ℤ) (data : List UInt8) : Prop :=
  parse p number data ≠ .error .outside ∧
    ∀ page, parse p number data = .ok page →
      (∀ pointer ∈ page.cellPointers,
        0 ≤ pointer ∧ pointer + page.type.leastHeader ≤ data.length) ∧
      (page.type = .interiorTable → ∀ n ∈ page.subpagenos, 1 ≤ n ∧ n ≤ p.numberOfPages)

/-- The child at a stored pointer exists. -/
def StoredChild (p : Pager) (data : List UInt8) (q : ℕ) : Prop := q < 2 ^ 15 ∧ Child p data q

/-- What the stored pointers of a page have to satisfy, its type being known and their array being
in the page: on a leaf page each leaves room for a header and is not negative as a signed integer;
on an interior page none is from `-4` to `-1` behind pointers to children that exist, and none
leaves room for the number of its child only. -/
def Orderly (p : Pager) (number : ℤ) (data : List UInt8) : Prop :=
  typeAt number data ≠ .unknown → ArrayFits number data →
    ((typeAt number data).isLeafPage → ∀ q ∈ storedPointers number data,
      q < 2 ^ 15 ∧ q + (typeAt number data).leastHeader ≤ data.length) ∧
    ((typeAt number data).isInteriorPage →
      (∀ before q after, storedPointers number data = before ++ q :: after →
        (∀ r ∈ before, StoredChild p data r) → q < 2 ^ 16 - 4) ∧
      ((∀ q ∈ storedPointers number data, StoredChild p data q) →
        Child p data (8 + headerAt number) →
          ∀ q ∈ storedPointers number data, q + 5 ≤ data.length))

theorem mem_storedPointers_lt {q : ℕ} (h : q ∈ storedPointers number data) : q < 2 ^ 16 := by
  obtain ⟨i, -, rfl⟩ := List.mem_map.mp h
  exact stored_lt _ _

theorem child_signed16_iff {q : ℕ} (hq : q < 2 ^ 16) :
    Child p data (signed16 q) ↔ StoredChild p data q := by
  rw [StoredChild]
  by_cases hsmall : q < 2 ^ 15
  · rw [signed16_eq_iff.mpr hsmall]
    exact (and_iff_right hsmall).symm
  · rw [signed16, if_neg hsmall]
    exact iff_of_false (fun h => absurd h.1 (by omega)) fun h => hsmall h.1

/-- The parse of an interior page leaves it exactly at a pointer from `-4` to `-1`. -/
theorem childOffsets_outside_iff (hlen : 4 ≤ data.length) :
    parseSubpagenos p data (childOffsets number data) = .error .outside ↔
      ∃ before q after, storedPointers number data = before ++ q :: after ∧
        (∀ r ∈ before, StoredChild p data r) ∧ 2 ^ 16 - 4 ≤ q := by
  have hheader : 0 ≤ 8 + offsetOfHeader number := by
    rw [offsetOfHeader_eq]
    omega
  rw [parseSubpagenos_outside_iff hlen, childOffsets]
  constructor
  · rintro ⟨before, o, after, heq, hbefore, hlow, hneg⟩
    rcases List.append_eq_append_iff.mp heq with ⟨l, rfl, hl⟩ | ⟨l, hmap, hl⟩
    · have hmem : o ∈ [8 + offsetOfHeader number] := by simp [hl]
      rw [List.mem_singleton] at hmem
      omega
    rcases List.cons_eq_append_iff.mp hl with ⟨rfl, hcons⟩ | ⟨l, rfl, -⟩
    · have hhead := (List.cons.inj hcons).1
      omega
    obtain ⟨first, rest, heqs, hfirst, hrest⟩ := List.map_eq_append_iff.mp hmap
    obtain ⟨q, after, rfl, rfl, -⟩ := List.map_eq_cons_iff.mp hrest
    have hmem : ∀ r ∈ storedPointers number data, r < 2 ^ 16 := fun r => mem_storedPointers_lt
    rw [heqs] at hmem
    refine ⟨first, q, after, heqs, fun r hr => ?_, ?_⟩
    · refine (child_signed16_iff (hmem r (List.mem_append_left _ hr))).mp (hbefore _ ?_)
      rw [← hfirst]
      exact List.mem_map_of_mem hr
    · rw [signed16] at hlow hneg
      split_ifs at hlow hneg <;> omega
  · rintro ⟨before, q, after, heq, hbefore, hq⟩
    have hmem : ∀ r ∈ storedPointers number data, r < 2 ^ 16 := fun r => mem_storedPointers_lt
    rw [heq] at hmem ⊢
    refine ⟨before.map signed16, signed16 q, after.map signed16 ++ [8 + offsetOfHeader number],
      by simp, ?_, ?_⟩
    · intro o ho
      obtain ⟨r, hr, rfl⟩ := List.mem_map.mp ho
      exact (child_signed16_iff (hmem r (List.mem_append_left _ hr))).mpr (hbefore r hr)
    · have hlt := hmem q (by simp)
      rw [signed16, if_neg (by omega)]
      omega

theorem childOffsets_ok_iff :
    (∀ o ∈ childOffsets number data, Child p data o) ↔
      (∀ q ∈ storedPointers number data, StoredChild p data q) ∧
        Child p data (8 + headerAt number) := by
  rw [childOffsets, List.forall_mem_append, List.forall_mem_singleton, offsetOfHeader_eq,
    List.forall_mem_map]
  refine and_congr_left fun _ => forall₂_congr fun q hq => ?_
  exact child_signed16_iff (mem_storedPointers_lt hq)

/-- A leaf page: nothing is read through its pointers, and nothing is checked. -/
theorem leaf_safe_iff (hleaf : (typeAt number data).isLeafPage) (hfits : ArrayFits number data)
    (hlen : 512 ≤ data.length) : Safe p number data ↔ Orderly p number data := by
  have hinterior : ¬(typeAt number data).isInteriorPage = true := by
    revert hleaf
    cases typeAt number data <;> decide
  have hunknown : typeAt number data ≠ .unknown := by
    revert hleaf
    cases typeAt number data <;> decide
  rw [Safe, Orderly, parse_eq hlen, if_neg hunknown, if_pos hfits, parsed, if_neg hinterior]
  constructor
  · rintro ⟨-, h⟩ - -
    obtain ⟨hpointers, -⟩ := h _ rfl
    refine ⟨fun _ q hq => ?_, fun h => absurd h hinterior⟩
    obtain ⟨hnonneg, hroom⟩ := hpointers (signed16 q) (List.mem_map_of_mem hq)
    have hsmall := (signed16_nonneg_iff (mem_storedPointers_lt hq)).mp hnonneg
    rw [signed16_eq_iff.mpr hsmall] at hroom
    exact ⟨hsmall, by exact_mod_cast hroom⟩
  · intro h
    obtain ⟨hpointers, -⟩ := h hunknown hfits
    refine ⟨(fun h => nomatch h), fun page hpage => ?_⟩
    obtain rfl := Except.ok.inj hpage
    refine ⟨fun pointer hpointer => ?_, fun htable => ?_⟩
    · obtain ⟨q, hq, rfl⟩ := List.mem_map.mp hpointer
      obtain ⟨hsmall, hroom⟩ := hpointers hleaf q hq
      rw [signed16_eq_iff.mpr hsmall]
      exact ⟨by omega, by exact_mod_cast hroom⟩
    · rw [show typeAt number data = .interiorTable from htable] at hleaf
      exact absurd hleaf (by decide)

/-- An interior page: the number of each child is read through its pointer, and checked. -/
theorem interior_safe_iff (hinterior : (typeAt number data).isInteriorPage)
    (hfits : ArrayFits number data) (hlen : 512 ≤ data.length) :
    Safe p number data ↔ Orderly p number data := by
  have hleaf : ¬(typeAt number data).isLeafPage = true := by
    revert hinterior
    cases typeAt number data <;> decide
  have hunknown : typeAt number data ≠ .unknown := by
    revert hinterior
    cases typeAt number data <;> decide
  have hleast : (typeAt number data).leastHeader = 5 := by
    revert hinterior
    cases typeAt number data <;> decide
  have houtside := @childOffsets_outside_iff p number data (by omega)
  rw [Safe, Orderly, parse_eq hlen, if_neg hunknown, if_pos hfits, parsed, if_pos hinterior]
  constructor
  · rintro ⟨hinside, h⟩ - -
    refine ⟨fun h => absurd h hleaf, fun _ => ⟨fun before q after heq hbefore => ?_,
      fun hall hright q hq => ?_⟩⟩
    · by_contra hq
      rw [houtside.mpr ⟨before, q, after, heq, hbefore, not_lt.mp hq⟩] at hinside
      exact hinside rfl
    · rw [(parseSubpagenos_eq_ok_iff (by omega)).mpr
        ⟨childOffsets_ok_iff.mpr ⟨hall, hright⟩, rfl⟩] at h
      obtain ⟨hpointers, -⟩ := h _ rfl
      have hroom := (hpointers (signed16 q) (List.mem_map_of_mem hq)).2
      rw [signed16_eq_iff.mpr (hall q hq).1, hleast] at hroom
      exact_mod_cast hroom
  · intro h
    obtain ⟨-, h⟩ := h hunknown hfits
    obtain ⟨hinside, hpointers⟩ := h hinterior
    cases hparse : parseSubpagenos p data (childOffsets number data) with
    | error e =>
      refine ⟨fun heq => ?_, fun page hpage => nomatch hpage⟩
      obtain rfl := Except.error.inj heq
      obtain ⟨before, q, after, heq, hbefore, hq⟩ := houtside.mp hparse
      exact absurd (hinside before q after heq hbefore) (not_lt.mpr hq)
    | ok subpagenos =>
      obtain ⟨hall, rfl⟩ := (parseSubpagenos_eq_ok_iff (by omega)).mp hparse
      obtain ⟨hstored, hright⟩ := childOffsets_ok_iff.mp hall
      refine ⟨(fun heq => nomatch heq), fun page hpage => ?_⟩
      obtain rfl := Except.ok.inj hpage
      refine ⟨fun pointer hpointer => ?_, fun _ n hn => ?_⟩
      · obtain ⟨q, hq, rfl⟩ := List.mem_map.mp hpointer
        rw [signed16_eq_iff.mpr (hstored q hq).1, hleast]
        exact ⟨by omega, by exact_mod_cast hpointers hstored hright q hq⟩
      · obtain ⟨o, ho, rfl⟩ := List.mem_map.mp hn
        exact (hall o ho).2.2

/-- **Parsing a page is safe** exactly where its stored pointers are in order. -/
theorem parse_safe_iff (hdata : p.acquirePageData number = some data) :
    Safe p number data ↔ Orderly p number data := by
  have hlen : 512 ≤ data.length := p.length_data number data hdata ▸ p.pageSize_ge
  by_cases hunknown : typeAt number data = .unknown
  · rw [Safe, Orderly, parse_eq hlen, if_pos hunknown]
    refine iff_of_true ⟨(fun h => nomatch h), fun page hpage => ?_⟩ fun h => absurd hunknown h
    rw [← Except.ok.inj hpage]
    exact ⟨fun pointer h => absurd h List.not_mem_nil, fun h => nomatch h⟩
  by_cases hfits : ArrayFits number data
  · by_cases hinterior : (typeAt number data).isInteriorPage
    · exact interior_safe_iff hinterior hfits hlen
    · refine leaf_safe_iff ?_ hfits hlen
      revert hinterior hunknown
      cases typeAt number data <;> decide
  · rw [Safe, Orderly, parse_eq hlen, if_neg hunknown, if_neg hfits]
    exact iff_of_true ⟨(fun h => nomatch h), fun page hpage => nomatch hpage⟩
      fun _ h => absurd h hfits

/-- The first bytes of a page of 512 bytes, the others being zero. -/
def filled (bytes : List UInt8) : List UInt8 := (bytes ++ List.replicate 512 0).take 512

theorem length_filled (bytes : List UInt8) : (filled bytes).length = 512 := by
  rw [filled, List.length_take, List.length_append, List.length_replicate]
  omega

/-- A file with two pages of 512 bytes, of which the second is given. -/
def secondPage (bytes : List UInt8) : Pager where
  pageSize := 512
  reservedBytes := 0
  numberOfPages := 2
  acquirePageData n := if n = 2 then some (filled bytes) else none
  pageSize_ge := smallestPage_ge
  pageSize_le := smallestPage_le
  reservedBytes_le := unreserved_le
  numberOfPages_lt := twoPages_lt
  length_data n data h := by
    split_ifs at h
    rw [← Option.some.inj h]
    exact length_filled bytes
  range_data n data h := by
    split_ifs at h with hn
    exact hn ▸ second_inRange

/-- A leaf page with one pointer, to the byte 500. -/
theorem parse_safe_leaf :
    Safe (secondPage [13, 0, 0, 0, 1, 0, 0, 0, 1, 244]) 2
      (filled [13, 0, 0, 0, 1, 0, 0, 0, 1, 244]) := by
  refine (parse_safe_iff rfl).mpr fun _ _ =>
    ⟨fun _ q hq => ?_, fun h => absurd h (by decide +kernel)⟩
  have hpointers : storedPointers 2 (filled [13, 0, 0, 0, 1, 0, 0, 0, 1, 244]) = [500] := by
    decide +kernel
  rw [hpointers, List.mem_singleton] at hq
  subst hq
  decide +kernel

/-- A leaf page whose pointer is `-2`, and an interior page whose pointer is. -/
theorem not_parse_safe :
    ¬Safe (secondPage [13, 0, 0, 0, 1, 0, 0, 0, 255, 254]) 2
        (filled [13, 0, 0, 0, 1, 0, 0, 0, 255, 254]) ∧
      parse (secondPage [5, 0, 0, 0, 1, 0, 0, 0, 0, 0, 0, 1, 255, 254]) 2
        (filled [5, 0, 0, 0, 1, 0, 0, 0, 0, 0, 0, 1, 255, 254]) = .error .outside := by
  constructor
  · rintro ⟨-, h⟩
    have hrun : parse (secondPage [13, 0, 0, 0, 1, 0, 0, 0, 255, 254]) 2
        (filled [13, 0, 0, 0, 1, 0, 0, 0, 255, 254]) =
          .ok ⟨2, filled [13, 0, 0, 0, 1, 0, 0, 0, 255, 254], .leafTable, [-2], []⟩ := by
      decide +kernel
    obtain ⟨hpointers, -⟩ := h _ hrun
    exact absurd (hpointers (-2) (List.mem_singleton.mpr rfl)).1 (by decide)
  · decide +kernel

end Page

end Repair

end Wcdb
