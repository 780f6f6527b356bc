import Wcdb.Base.Readers
import Wcdb.Repair.CellParse

/-!
# Parsing a record from any bytes

What `Cell.parseRecord` does with a view. Over bytes that are there it ends and stays among them:
`Columns` says how far a record is read, and `parseRecord_spec` that the outcome is an overflow, the
columns that fill the record, or a refusal. Over a view whose size wraps nothing is accepted, but
the first varint may be read behind the page (`parseRecord_boundless`).
-/

namespace Wcdb.Repair

open Deserialization

namespace View

/-! ### Varints of a view -/

/-- What a varint yields whose bytes are missed. -/
def missed : Fetch → Except Halt (ℕ × ℕ)
  | .outside => .error .outside
  | _ => .ok (0, 0)

theorem readVarint_missed {fetch : ℕ → Fetch} {miss : Fetch} (hmiss : ∀ p, miss ≠ .byte p)
    {n acc : ℕ} (h : fetch (8 - n) = miss) : readVarint fetch (n + 1) acc = missed miss := by
  rw [readVarint, h]
  cases miss with
  | cut => rfl
  | outside => rfl
  | byte p => exact absurd rfl (hmiss p)

/-- The bytes of a view are those of a list, and behind them each byte is missed. -/
theorem readVarint_of_fetch {fetch : ℕ → Fetch} {l : List UInt8} {miss : Fetch}
    (hmiss : ∀ p, miss ≠ .byte p) (h : ∀ k < 9, fetch k = (l[k]?).elim miss .byte) {n acc : ℕ}
    (hn : n ≤ 8) :
    readVarint fetch (n + 1) acc =
      if (Varint.readFrom (8 - n) acc (l.drop (8 - n))).1 = 0 then missed miss
      else .ok (Varint.readFrom (8 - n) acc (l.drop (8 - n))) := by
  induction n generalizing acc with
  | zero =>
    cases hbyte : l[8]? with
    | none =>
      rw [List.drop_eq_nil_of_le (List.getElem?_eq_none_iff.mp hbyte),
        readVarint_missed hmiss (by rw [h 8 (by omega), hbyte]; rfl)]
      rfl
    | some p =>
      obtain ⟨hlt, rfl⟩ := List.getElem?_eq_some_iff.mp hbyte
      rw [readVarint, h 8 (by omega), hbyte, List.drop_eq_getElem_cons hlt]
      rfl
  | succ n ih =>
    have hnext : 8 - (n + 1) + 1 = 8 - n := by omega
    have hfetch := h (8 - (n + 1)) (by omega)
    cases hbyte : l[8 - (n + 1)]? with
    | none =>
      rw [List.drop_eq_nil_of_le (List.getElem?_eq_none_iff.mp hbyte),
        readVarint_missed hmiss (by rw [hfetch, hbyte]; rfl)]
      rfl
    | some p =>
      obtain ⟨hlt, rfl⟩ := List.getElem?_eq_some_iff.mp hbyte
      rw [readVarint, hfetch, hbyte, List.drop_eq_getElem_cons hlt, Varint.readFrom, hnext,
        if_neg (show ¬8 - (n + 1) = 8 by omega)]
      simp only [Option.elim_some, Nat.succ_ne_zero, if_false]
      by_cases hlast : l[8 - (n + 1)].toNat < 128
      · rw [if_pos hlast, if_pos hlast, if_neg (show ¬8 - n = 0 by omega),
          show 9 - (n + 1) = 8 - n by omega]
      · rw [if_neg hlast, if_neg hlast, ih (by omega)]

/-- The view of bytes that are there. -/
structure Sound (v : View) : Prop where
  inside : v.base + v.size ≤ v.memory.length
  small : v.size < 2 ^ 63

theorem Sound.length_bytes {v : View} (h : v.Sound) : v.bytes.length = v.size := by
  have := h.inside
  rw [bytes, List.length_take, List.length_drop]
  omega

theorem Sound.getVarint {v : View} (h : v.Sound) {c : ℕ} (hc : c ≤ v.size) :
    v.getVarint c = .ok (Varint.read (v.bytes.drop c)) := by
  have hinside := h.inside
  have hsmall := h.small
  have hfetch : ∀ k < 9, v.fetch c k = ((v.bytes.drop c)[k]?).elim .cut .byte := by
    intro k hk
    have hsum : (((c : ℤ) + (k + 1)) % 2 ^ 64).toNat = c + k + 1 := by omega
    rw [fetch, hsum, List.getElem?_drop]
    by_cases hin : c + k < v.size
    · have hplace : ((v.base : ℤ) + c + k).toNat = v.base + (c + k) := by omega
      rw [if_neg (by omega), if_neg (by omega), hplace, bytes, List.getElem?_take_of_lt hin,
        List.getElem?_drop, List.getElem?_eq_getElem (by omega)]
      rfl
    · rw [if_pos (by omega), List.getElem?_eq_none (by rw [h.length_bytes]; omega)]
      rfl
  have hread := @readVarint_of_fetch _ _ .cut (fun p => by simp) hfetch 8 0 le_rfl
  rw [View.getVarint, hread]
  rcases Varint.read_bound (v.bytes.drop c) with hzero | ⟨-, -, hpos, -⟩
  · rw [Nat.sub_self, List.drop_zero, ← Varint.read, hzero]
    rfl
  · exact if_neg hpos.ne'

theorem Sound.getVarint_seek {v : View} (h : v.Sound) (c : ℕ) :
    v.getVarint (v.seek c) = .ok (Varint.read (v.bytes.drop c)) := by
  have hcut : v.seek c = (min v.size c : ℕ) := by
    rw [seek, if_neg (by omega), offset_of_lt h.small]
    exact (Nat.cast_min ..).symm
  rw [hcut, h.getVarint (Nat.min_le_left ..)]
  rcases Nat.le_total v.size c with hle | hle
  · rw [Nat.min_eq_left hle, List.drop_eq_nil_of_le (by rw [h.length_bytes]),
      List.drop_eq_nil_of_le (by rw [h.length_bytes]; exact hle)]
  · rw [Nat.min_eq_right hle]

/-! ### Views whose size wraps -/

section Boundless

variable {data : List UInt8} {base m : ℕ}

/-- Nothing guards the bytes behind the page. -/
theorem getVarint_boundless (hm : 1 ≤ m) (hm' : m ≤ base) (hbase : base ≤ data.length)
    (hsmall : data.length < 2 ^ 62) :
    View.getVarint ⟨data, base, 2 ^ 64 - m⟩ 0 =
      if (Varint.read (data.drop base)).1 = 0 then .error .outside
      else .ok (Varint.read (data.drop base)) := by
  have hfetch : ∀ k < 9, View.fetch ⟨data, base, 2 ^ 64 - m⟩ 0 k =
      ((data.drop base)[k]?).elim .outside .byte := by
    intro k hk
    have hsum : (((0 : ℤ) + (k + 1)) % 2 ^ 64).toNat = k + 1 := by omega
    have hplace : ((base : ℤ) + 0 + k).toNat = base + k := by omega
    rw [fetch, hsum, List.getElem?_drop]
    simp only [hplace]
    rw [if_neg (by omega), if_neg (by omega)]
    cases data[base + k]? <;> rfl
  exact @readVarint_of_fetch _ _ .outside (fun p => by simp) hfetch 8 0 le_rfl

theorem seek_boundless (hm : 1 ≤ m) (hsmall : m < 2 ^ 62) (c : ℕ) :
    View.seek ⟨data, base, 2 ^ 64 - m⟩ c = -m := by
  have hcapacity : offset (2 ^ 64 - m) = -m := by
    rw [offset, u64_of_lt (by omega), if_neg (by omega)]
    omega
  rw [seek, if_neg (by omega), hcapacity]
  omega

/-- Behind the wrapped size, `seek` stands before the bytes: the check of the first byte passes for
`-1` only, by wrapping to zero. -/
theorem getVarint_before (hm : 2 ≤ m) (hsmall : m < 2 ^ 62) :
    View.getVarint ⟨data, base, 2 ^ 64 - m⟩ (-m) = .ok (0, 0) := by
  have hfetch : View.fetch ⟨data, base, 2 ^ 64 - m⟩ (-m) (8 - 8) = .cut := by
    rw [fetch, if_pos]
    simp only
    omega
  exact readVarint_missed (fun p => by simp) hfetch

theorem getVarint_before_one (hbase : 1 ≤ base) (hle : base ≤ data.length)
    (hsmall : data.length < 2 ^ 62) (hread : (Varint.read (data.drop base)).1 ≠ 0) :
    View.getVarint ⟨data, base, 2 ^ 64 - 1⟩ (-1) = .ok (Varint.read (data.drop (base - 1))) ∧
      (Varint.read (data.drop (base - 1))).1 ≠ 0 := by
  have hfetch : ∀ k < 9, View.fetch ⟨data, base, 2 ^ 64 - 1⟩ (-1) k =
      ((data.drop (base - 1))[k]?).elim .outside .byte := by
    intro k hk
    have hsum : (((-1 : ℤ) + (k + 1)) % 2 ^ 64).toNat = k := by omega
    have hplace : ((base : ℤ) + -1 + k).toNat = base - 1 + k := by omega
    rw [fetch, hsum, List.getElem?_drop]
    simp only [hplace]
    rw [if_neg (by omega), if_neg (by omega)]
    cases data[base - 1 + k]? <;> rfl
  have hvarint := @readVarint_of_fetch _ _ .outside (fun p => by simp) hfetch 8 0 le_rfl
  have hne : (Varint.read (data.drop (base - 1))).1 ≠ 0 := by
    rw [List.drop_eq_getElem_cons (by omega), Nat.sub_add_cancel hbase, Varint.read,
      Varint.readFrom, if_neg (by omega)]
    by_cases hlast : data[base - 1].toNat < 128
    · rw [if_pos hlast]
      exact Nat.one_ne_zero
    · rw [if_neg hlast]
      exact Varint.readFrom_succ (by omega) hread
  rw [View.getVarint, hvarint]
  exact ⟨if_neg hne, hne⟩

end Boundless

end View

namespace Cell

/-! ### Records -/

/-- The size of the header of a record, as an `int`. -/
def headerSize (payload : List UInt8) : ℤ := int32 (Varint.read payload).2

/-- The columns that a record stores up to a cursor in its header and one in its values. -/
inductive Columns (payload : List UInt8) : ℕ → ℤ → List (ℤ × ℤ) → Prop where
  | start {n h : ℕ} (size : Varint.read payload = (n + 1, h)) : Columns payload (n + 1) (int32 h) []
  | column {c n t : ℕ} {w : ℤ} {columns : List (ℤ × ℤ)} (before : Columns payload c w columns)
      (inHeader : c < headerSize payload) (type : Varint.read (payload.drop c) = (n + 1, t))
      (sane : isSerialTypeSanity (int32 t))
      (room : w + getLengthOfSerialType (int32 t) ≤ payload.length) :
      Columns payload (c + (n + 1)) (w + getLengthOfSerialType (int32 t))
        (columns ++ [(int32 t, w)])

/-- The columns fill the header and the values of the record. -/
def IsRecordOf (payload : List UInt8) (columns : List (ℤ × ℤ)) : Prop :=
  ∃ c : ℕ, c = headerSize payload ∧ Columns payload c payload.length columns

/-- A serial type of the header declares a value that ends at `2 ^ 31` or behind it. -/
def Overflows (payload : List UInt8) : Prop :=
  ∃ (c n t : ℕ) (w : ℤ) (columns : List (ℤ × ℤ)), Columns payload c w columns ∧
    c < headerSize payload ∧ Varint.read (payload.drop c) = (n + 1, t) ∧
      isSerialTypeSanity (int32 t) ∧ 2 ^ 31 ≤ w + getLengthOfSerialType (int32 t)

theorem getLengthOfSerialType_nonneg {t : ℤ} (h : isSerialTypeSanity t) :
    0 ≤ getLengthOfSerialType t := by
  rw [isSerialTypeSanity, decide_eq_true_eq] at h
  rw [getLengthOfSerialType]
  split_ifs with hle
  · have hall : ∀ n ≤ 10, 0 ≤ lengthsOfSerialType.getD n 0 := by decide
    exact hall t.toNat (by omega)
  · refine Int.tdiv_nonneg ?_ (by norm_num)
    rw [Int.tmod_eq_emod_of_nonneg h.1]
    omega

section Record

variable {payload : List UInt8} {c : ℕ} {w : ℤ} {columns : List (ℤ × ℤ)}

/-- Where the cursors can stand. -/
theorem Columns.bounds (h : Columns payload c w columns) :
    1 ≤ c ∧ c ≤ payload.length ∧
      (columns = [] ∧ w = headerSize payload ∨
        0 < headerSize payload ∧ headerSize payload ≤ w ∧ w ≤ payload.length) := by
  induction h with
  | start size =>
    have hbound := Varint.read_bound payload
    rw [size] at hbound
    rcases hbound with hzero | ⟨hle, -⟩
    · exact absurd (congrArg Prod.fst hzero) (Nat.succ_ne_zero _)
    · exact ⟨by omega, hle, .inl ⟨rfl, by rw [headerSize, size]⟩⟩
  | @column c n t w columns before inHeader type sane room ih =>
    have hbound := Varint.read_bound (payload.drop c)
    rw [type] at hbound
    have hnonneg := getLengthOfSerialType_nonneg sane
    rcases hbound with hzero | ⟨hle, -⟩
    · exact absurd (congrArg Prod.fst hzero) (Nat.succ_ne_zero _)
    · rw [List.length_drop] at hle
      refine ⟨by omega, by omega, .inr ⟨by omega, ?_, room⟩⟩
      rcases ih.2.2 with ⟨-, hw⟩ | ⟨-, hw, -⟩ <;> omega

/-- A round of the loop, for a varint of `n` bytes that holds `t`. -/
theorem parseTypes_succ {v : View} {endOfTypes endOfValues cursor : ℤ} {fuel n t : ℕ}
    (hin : cursor < endOfTypes) (hread : v.getVarint (v.seek cursor) = .ok (n, t)) :
    parseTypes v endOfTypes endOfValues (fuel + 1) cursor w =
      if n = 0 then .error .refused
      else if !isSerialTypeSanity (int32 t) then .error .refused
      else
        (addInt cursor n) >>= fun cursor' =>
        (addInt w (getLengthOfSerialType (int32 t))) >>= fun w' =>
        if endOfValues < w' then .error .refused
        else
          (parseTypes v endOfTypes endOfValues fuel cursor' w') >>= fun r =>
          .ok (r.1, r.2.1, (int32 t, w) :: r.2.2) := by
  rw [parseTypes, if_pos hin, hread]
  rfl

theorem ok_bind {α β : Type} (a : α) (f : α → Except Halt β) : (Except.ok a >>= f) = f a := rfl

theorem addInt_eq {a b : ℤ} (hlow : 0 ≤ a + b) (hhigh : a + b < 2 ^ 31) :
    addInt a b = .ok (a + b) :=
  if_pos ⟨by omega, hhigh⟩

theorem addInt_overflow {a b : ℤ} (h : 2 ^ 31 ≤ a + b) : addInt a b = .error .overflow :=
  if_neg (by omega)

/-- The round at a place that the record reaches. -/
theorem Columns.parseTypes_succ {v : View} (hv : v.Sound) (hbytes : v.bytes = payload)
    (hsize : payload.length < 2 ^ 31) (h : Columns payload c w columns)
    (hin : c < headerSize payload) (fuel : ℕ) :
    (parseTypes v (headerSize payload) payload.length (fuel + 1) c w = .error .refused ∧
      ∀ n t, Varint.read (payload.drop c) = (n + 1, t) → isSerialTypeSanity (int32 t) →
        payload.length < w + getLengthOfSerialType (int32 t) ∧
          w + getLengthOfSerialType (int32 t) < 2 ^ 31) ∨
    ∃ n t, Varint.read (payload.drop c) = (n + 1, t) ∧ isSerialTypeSanity (int32 t) ∧
      (2 ^ 31 ≤ w + getLengthOfSerialType (int32 t) ∧
        parseTypes v (headerSize payload) payload.length (fuel + 1) c w = .error .overflow ∨
      w + getLengthOfSerialType (int32 t) ≤ payload.length ∧
        parseTypes v (headerSize payload) payload.length (fuel + 1) c w =
          (parseTypes v (headerSize payload) payload.length fuel (c + (n + 1) : ℕ)
            (w + getLengthOfSerialType (int32 t))) >>= fun r =>
          .ok (r.1, r.2.1, (int32 t, w) :: r.2.2)) := by
  obtain ⟨hpos, hle, hw⟩ := h.bounds
  have hbound := Varint.read_bound (payload.drop c)
  obtain ⟨n, t, hread⟩ : ∃ n t, Varint.read (payload.drop c) = (n, t) := ⟨_, _, rfl⟩
  have hround := @Cell.parseTypes_succ w v (headerSize payload) payload.length c fuel n t hin
    (by rw [hv.getVarint_seek, hbytes, hread])
  rw [hread] at hbound
  rw [hround, hread]
  cases n with
  | zero => exact .inl ⟨rfl, fun n t h => absurd (congrArg Prod.fst h) (Nat.succ_ne_zero _).symm⟩
  | succ n =>
    have hlen : n + 1 ≤ payload.length - c := by
      rcases hbound with hzero | ⟨hlen, -⟩
      · exact absurd (congrArg Prod.fst hzero) (Nat.succ_ne_zero _)
      · rwa [List.length_drop] at hlen
    rw [if_neg (Nat.succ_ne_zero n)]
    by_cases hsane : isSerialTypeSanity (int32 t) = true
    · have hnonneg := getLengthOfSerialType_nonneg hsane
      have hcursor : addInt c (n + 1 : ℕ) = .ok (c + (n + 1) : ℕ) := by
        rw [addInt_eq (by omega) (by omega)]
        push_cast
        rfl
      rw [hsane, Bool.not_true, if_neg Bool.false_ne_true, hcursor]
      by_cases hover : 2 ^ 31 ≤ w + getLengthOfSerialType (int32 t)
      · refine .inr ⟨n, t, rfl, hsane, .inl ⟨hover, ?_⟩⟩
        rw [addInt_overflow hover]
        rfl
      have hlow : 0 ≤ w + getLengthOfSerialType (int32 t) := by
        rcases hw with ⟨-, hw⟩ | ⟨-, hw, -⟩ <;> omega
      rw [addInt_eq hlow (by omega)]
      by_cases hroom : payload.length < w + getLengthOfSerialType (int32 t)
      · refine .inl ⟨if_pos hroom, fun n' t' heq _ => ?_⟩
        obtain ⟨-, rfl⟩ := Prod.mk.inj heq
        exact ⟨hroom, by omega⟩
      · exact .inr ⟨n, t, rfl, hsane, .inr ⟨by omega, if_neg hroom⟩⟩
    · refine .inl ⟨by rw [if_pos (by simpa using hsane)], fun n' t' heq h => ?_⟩
      obtain ⟨-, rfl⟩ := Prod.mk.inj heq
      exact absurd h hsane

/-- What the loop delivers from a place that the record reaches. -/
theorem Columns.parseTypes_spec {v : View} (hv : v.Sound) (hbytes : v.bytes = payload)
    (hsize : payload.length < 2 ^ 31) {fuel : ℕ} (h : Columns payload c w columns)
    (hfuel : headerSize payload ≤ c + fuel) :
    parseTypes v (headerSize payload) payload.length fuel c w = .error .refused ∨
    (parseTypes v (headerSize payload) payload.length fuel c w = .error .overflow ∧
      Overflows payload) ∨
    ∃ (c' : ℕ) (w' : ℤ) (rest : List (ℤ × ℤ)),
      parseTypes v (headerSize payload) payload.length fuel c w = .ok (c', w', rest) ∧
        Columns payload c' w' (columns ++ rest) := by
  induction fuel generalizing c w columns with
  | zero =>
    rw [parseTypes, if_neg (by omega)]
    exact .inr (.inr ⟨c, w, [], rfl, by rwa [List.append_nil]⟩)
  | succ fuel ih =>
    by_cases hin : c < headerSize payload
    · rcases h.parseTypes_succ hv hbytes hsize hin fuel with ⟨hround, -⟩ |
        ⟨n, t, hread, hsane, ⟨hover, hround⟩ | ⟨hroom, hround⟩⟩
      · exact .inl hround
      · exact .inr (.inl ⟨hround, c, n, t, w, columns, h, hin, hread, hsane, hover⟩)
      · rw [hround]
        rcases ih (h.column hin hread hsane hroom) (by push_cast; omega) with hnext |
          ⟨hnext, hover⟩ | ⟨c', w', rest, hnext, hcolumns⟩
        · exact .inl (by rw [hnext]; rfl)
        · exact .inr (.inl ⟨by rw [hnext]; rfl, hover⟩)
        · refine .inr (.inr ⟨c', w', (int32 t, w) :: rest, by rw [hnext]; rfl, ?_⟩)
          rwa [List.append_assoc, List.singleton_append] at hcolumns
    · rw [parseTypes, if_neg hin]
      exact .inr (.inr ⟨c, w, [], rfl, by rwa [List.append_nil]⟩)

/-- The loop comes to each place that the record reaches. -/
theorem Columns.parseTypes_eq {v : View} (hv : v.Sound) (hbytes : v.bytes = payload)
    (hsize : payload.length < 2 ^ 31) {n h : ℕ} (hread : Varint.read payload = (n + 1, h))
    (hcolumns : Columns payload c w columns) :
    ∃ fuel : ℕ, headerSize payload ≤ c + fuel ∧
      parseTypes v (headerSize payload) payload.length (headerSize payload).toNat (n + 1 : ℕ)
          (headerSize payload) =
        (parseTypes v (headerSize payload) payload.length fuel c w) >>= fun r =>
        .ok (r.1, r.2.1, columns ++ r.2.2) := by
  induction hcolumns with
  | @start n' h' size =>
    obtain ⟨rfl, rfl⟩ : n = n' ∧ h = h' := by simpa using hread.symm.trans size
    refine ⟨(headerSize payload).toNat, by omega, ?_⟩
    rw [headerSize, size]
    simp only [List.nil_append]
    cases parseTypes v (int32 h) payload.length (int32 h).toNat (n + 1 : ℕ) (int32 h) <;> rfl
  | @column c n' t w columns before inHeader type sane room ih =>
    obtain ⟨fuel, hfuel, heq⟩ := ih
    obtain ⟨fuel, rfl⟩ : ∃ fuel', fuel = fuel' + 1 :=
      Nat.exists_eq_succ_of_ne_zero fun hzero => by
        rw [hzero] at hfuel
        omega
    refine ⟨fuel, by push_cast; omega, ?_⟩
    rw [heq]
    rcases before.parseTypes_succ hv hbytes hsize inHeader fuel with ⟨-, hrefused⟩ |
      ⟨n'', t', hread', -, ⟨hover, -⟩ | ⟨-, hround⟩⟩
    · exact absurd (hrefused n' t type sane).1 (by omega)
    · obtain ⟨-, rfl⟩ : n' = n'' ∧ t = t' := by simpa using type.symm.trans hread'
      omega
    · obtain ⟨rfl, rfl⟩ : n' = n'' ∧ t = t' := by simpa using type.symm.trans hread'
      rw [hround]
      cases parseTypes v (headerSize payload) payload.length fuel (c + (n' + 1) : ℕ)
        (w + getLengthOfSerialType (int32 t)) with
      | error e => rfl
      | ok r => simp only [bind, Except.bind, List.append_assoc, List.singleton_append]

theorem Columns.read (h : Columns payload c w columns) :
    ∃ n h, Varint.read payload = (n + 1, h) := by
  induction h with
  | start size => exact ⟨_, _, size⟩
  | column _ _ _ _ _ ih => exact ih

section Loop

variable {v : View} {n h : ℕ}

theorem parseTypes_of_overflows (hv : v.Sound) (hbytes : v.bytes = payload)
    (hsize : payload.length < 2 ^ 31) (hread : Varint.read payload = (n + 1, h))
    (hover : Overflows payload) :
    parseTypes v (headerSize payload) payload.length (headerSize payload).toNat (n + 1 : ℕ)
      (headerSize payload) = .error .overflow := by
  obtain ⟨c, n', t, w, columns, hcolumns, hin, htype, hsane, hlarge⟩ := hover
  obtain ⟨fuel, hfuel, heq⟩ := hcolumns.parseTypes_eq hv hbytes hsize hread
  obtain ⟨fuel, rfl⟩ : ∃ fuel', fuel = fuel' + 1 :=
    Nat.exists_eq_succ_of_ne_zero fun hzero => by
      rw [hzero] at hfuel
      omega
  rw [heq]
  rcases hcolumns.parseTypes_succ hv hbytes hsize hin fuel with ⟨-, hrefused⟩ |
    ⟨n'', t', htype', -, ⟨-, hround⟩ | ⟨hroom, -⟩⟩
  · exact absurd (hrefused n' t htype hsane).2 (by omega)
  · rw [hround]
    rfl
  · obtain ⟨-, rfl⟩ : n' = n'' ∧ t = t' := by simpa using htype.symm.trans htype'
    omega

theorem parseTypes_of_isRecordOf (hv : v.Sound) (hbytes : v.bytes = payload)
    (hsize : payload.length < 2 ^ 31) (hread : Varint.read payload = (n + 1, h))
    (hrecord : IsRecordOf payload columns) :
    parseTypes v (headerSize payload) payload.length (headerSize payload).toNat (n + 1 : ℕ)
      (headerSize payload) = .ok (headerSize payload, payload.length, columns) := by
  obtain ⟨c, hc, hcolumns⟩ := hrecord
  obtain ⟨fuel, -, heq⟩ := hcolumns.parseTypes_eq hv hbytes hsize hread
  have hend : parseTypes v (headerSize payload) payload.length fuel c payload.length =
      .ok (c, payload.length, []) := by
    cases fuel with
    | zero => rw [parseTypes, if_neg (by omega)]
    | succ fuel => rw [parseTypes, if_neg (by omega)]
  rw [heq, hend, hc]
  simp only [bind, Except.bind, List.append_nil]

end Loop

/-- The check behind the loop. -/
theorem checkEnds (r : ℤ × ℤ × List (ℤ × ℤ)) (endOfTypes endOfValues : ℤ) :
    ((Except.ok r) >>= fun r =>
      if r.1 ≠ endOfTypes ∨ r.2.1 ≠ endOfValues then .error Halt.refused else .ok r.2.2) =
      if r.1 = endOfTypes ∧ r.2.1 = endOfValues then .ok r.2.2 else .error .refused := by
  rw [ok_bind]
  by_cases hends : r.1 = endOfTypes ∧ r.2.1 = endOfValues
  · rw [if_pos hends, if_neg fun h => h.elim (fun hne => hne hends.1) fun hne => hne hends.2]
  · rw [if_neg hends, if_pos (not_and_or.mp hends)]

/-- **A record is parsed**: the parse ends and stays in the payload; it overflows exactly where a
declared value does, and otherwise it delivers the columns that fill the record, if any do. -/
theorem parseRecord_spec {v : View} (hv : v.Sound) (hbytes : v.bytes = payload)
    (hsize : payload.length < 2 ^ 31) :
    (parseRecord v payload.length = .error .refused ∧ ¬Overflows payload ∧
      ∀ columns, ¬IsRecordOf payload columns) ∨
    (parseRecord v payload.length = .error .overflow ∧ Overflows payload) ∨
    ∃ columns, parseRecord v payload.length = .ok columns ∧ ¬Overflows payload ∧
      ∀ columns', IsRecordOf payload columns' ↔ columns' = columns := by
  have hget : v.getVarint 0 = .ok (Varint.read payload) := by
    have := hv.getVarint (Nat.zero_le _)
    rwa [hbytes, List.drop_zero] at this
  obtain ⟨n, h, hread⟩ : ∃ n h, Varint.read payload = (n, h) := ⟨_, _, rfl⟩
  have hheader : headerSize payload = int32 h := by rw [headerSize, hread]
  have hparse : parseRecord v payload.length =
      if n = 0 then .error .refused
      else (parseTypes v (headerSize payload) payload.length (headerSize payload).toNat n
          (headerSize payload)) >>= fun r =>
        if r.1 ≠ headerSize payload ∨ r.2.1 ≠ payload.length then .error .refused
        else .ok r.2.2 := by
    rw [parseRecord, hget, hread, hheader]
    rfl
  rw [hparse]
  cases n with
  | zero =>
    have hnone : ∀ {c w columns}, ¬Columns payload c w columns := fun hcolumns => by
      obtain ⟨n, h', hread'⟩ := hcolumns.read
      rw [hread] at hread'
      exact absurd (congrArg Prod.fst hread') (Nat.succ_ne_zero _).symm
    exact .inl ⟨rfl, fun ⟨_, _, _, _, _, hcolumns, _⟩ => hnone hcolumns,
      fun _ ⟨_, _, hcolumns⟩ => hnone hcolumns⟩
  | succ n =>
    have hover := fun hover => parseTypes_of_overflows hv hbytes hsize hread hover
    have hrecord := fun columns hrecord =>
      @parseTypes_of_isRecordOf payload columns v n h hv hbytes hsize hread hrecord
    have hstart : Columns payload (n + 1) (headerSize payload) [] := hheader ▸ .start hread
    rw [if_neg (Nat.succ_ne_zero n)]
    have hfuel : headerSize payload ≤ (n + 1 : ℕ) + (headerSize payload).toNat := by omega
    rcases hstart.parseTypes_spec hv hbytes hsize hfuel with hresult | ⟨hresult, hoverflows⟩ |
      ⟨c', w', rest, hresult, hcolumns⟩
    · rw [hresult] at hover hrecord ⊢
      exact .inl ⟨rfl, (fun h => nomatch hover h), fun columns h => nomatch hrecord columns h⟩
    · rw [hresult]
      exact .inr (.inl ⟨rfl, hoverflows⟩)
    · rw [hresult] at hover hrecord ⊢
      have hunique : ∀ columns, IsRecordOf payload columns →
          (c' : ℤ) = headerSize payload ∧ w' = payload.length ∧ rest = columns :=
            fun columns h => by
        obtain ⟨hc, htail⟩ := Prod.mk.inj (Except.ok.inj (hrecord columns h))
        exact ⟨hc, Prod.mk.inj htail⟩
      rw [checkEnds]
      by_cases hend : (c' : ℤ) = headerSize payload ∧ w' = payload.length
      · rw [if_pos hend]
        refine .inr (.inr ⟨rest, rfl, (fun h => nomatch hover h), fun columns => ⟨fun h => ?_, ?_⟩⟩)
        · exact (hunique columns h).2.2.symm
        · rintro rfl
          refine ⟨c', hend.1, ?_⟩
          rwa [List.nil_append, hend.2] at hcolumns
      · rw [if_neg hend]
        refine .inl ⟨rfl, (fun h => nomatch hover h), fun columns h => ?_⟩
        exact hend ⟨(hunique columns h).1, (hunique columns h).2.1⟩

end Record

/-! ### Records of a negative size -/

/-- The serial type that is read one byte before the payload declares a value that overflows. -/
def OverflowsBefore (data : List UInt8) (base : ℕ) : Prop :=
  let serialType := int32 (Varint.read (data.drop (base - 1))).2
  (Varint.read (data.drop base)).1 < headerSize (data.drop base) ∧ isSerialTypeSanity serialType ∧
    2 ^ 31 ≤ headerSize (data.drop base) + getLengthOfSerialType serialType

/-- No record of a negative size is accepted, but its header may be read behind the page. -/
theorem parseRecord_boundless {data : List UInt8} {base m : ℕ} (hm : 1 ≤ m) (hm' : m ≤ base)
    (hbase : base ≤ data.length) (hsmall : data.length < 2 ^ 62) :
    (parseRecord ⟨data, base, 2 ^ 64 - m⟩ (-m) = .error .outside ∧
      (Varint.read (data.drop base)).1 = 0) ∨
    (Varint.read (data.drop base)).1 ≠ 0 ∧
      (parseRecord ⟨data, base, 2 ^ 64 - m⟩ (-m) = .error .overflow ∧
          m = 1 ∧ OverflowsBefore data base ∨
        parseRecord ⟨data, base, 2 ^ 64 - m⟩ (-m) = .error .refused ∧
          ¬(m = 1 ∧ OverflowsBefore data base)) := by
  have hget := View.getVarint_boundless hm hm' hbase hsmall
  by_cases hzero : (Varint.read (data.drop base)).1 = 0
  · refine .inl ⟨?_, hzero⟩
    rw [parseRecord, hget, if_pos hzero]
    rfl
  rw [if_neg hzero] at hget
  have hparse : parseRecord ⟨data, base, 2 ^ 64 - m⟩ (-m) =
      (parseTypes ⟨data, base, 2 ^ 64 - m⟩ (headerSize (data.drop base)) (-m)
          (headerSize (data.drop base)).toNat (Varint.read (data.drop base)).1
          (headerSize (data.drop base))) >>= fun r =>
        if r.1 ≠ headerSize (data.drop base) ∨ r.2.1 ≠ -m then .error .refused else .ok r.2.2 := by
    rw [parseRecord, hget, headerSize]
    generalize Varint.read (data.drop base) = varint at hzero ⊢
    obtain ⟨n, h⟩ := varint
    exact if_neg hzero
  refine .inr ⟨hzero, ?_⟩
  have hn := Varint.length_read_le (data.drop base)
  rw [hparse, OverflowsBefore]
  -- Whatever the first varint is, the second is read before the payload, if it is read at all.
  have hbefore := fun hone : 1 ≤ base => View.getVarint_before_one hone hbase hsmall hzero
  generalize headerSize (data.drop base) = endOfTypes
  generalize (Varint.read (data.drop base)).1 = n at hzero hn hbefore ⊢
  by_cases hin : (n : ℤ) < endOfTypes
  · obtain ⟨fuel, hfuel⟩ : ∃ fuel, endOfTypes.toNat = fuel + 1 :=
      Nat.exists_eq_succ_of_ne_zero (by omega)
    have hseek := @View.seek_boundless data base m hm (by omega) n
    rw [hfuel]
    rcases Nat.lt_or_ge 1 m with hlarge | hone
    · rw [parseTypes_succ hin (by rw [hseek]; exact View.getVarint_before hlarge (by omega))]
      exact .inr ⟨rfl, fun h => by omega⟩
    obtain rfl : m = 1 := le_antisymm hone hm
    obtain ⟨hget, hne⟩ := hbefore hm'
    have hn' := Varint.length_read_le (data.drop (base - 1))
    generalize Varint.read (data.drop (base - 1)) = varint at hget hne hn' ⊢
    obtain ⟨n', t⟩ := varint
    dsimp only at hne hn' ⊢
    rw [parseTypes_succ hin (by rw [hseek]; exact hget), if_neg hne]
    by_cases hsane : isSerialTypeSanity (int32 t) = true
    · have hnonneg := getLengthOfSerialType_nonneg hsane
      rw [hsane, Bool.not_true, if_neg Bool.false_ne_true, addInt_eq (by omega) (by omega)]
      by_cases hover : 2 ^ 31 ≤ endOfTypes + getLengthOfSerialType (int32 t)
      · rw [addInt_overflow hover]
        exact .inl ⟨rfl, rfl, hin, rfl, hover⟩
      · refine .inr ⟨?_, fun h => hover h.2.2.2⟩
        have hpositive : (-(1 : ℕ) : ℤ) < endOfTypes + getLengthOfSerialType (int32 t) := by omega
        rw [addInt_eq (by omega) (by omega)]
        rw [ok_bind, ok_bind, if_pos hpositive]
        rfl
    · refine .inr ⟨?_, fun h => hsane h.2.2.1⟩
      rw [if_pos (by simpa using hsane)]
      rfl
  · have hend : parseTypes ⟨data, base, 2 ^ 64 - m⟩ endOfTypes (-m) endOfTypes.toNat n endOfTypes =
        .ok (n, endOfTypes, []) := by
      cases endOfTypes.toNat with
      | zero => rw [parseTypes, if_neg hin]
      | succ fuel => rw [parseTypes, if_neg hin]
    rw [hend, checkEnds, if_neg (by simp only; omega)]
    exact .inr ⟨rfl, fun h => hin h.2.1⟩

end Cell

end Wcdb.Repair
