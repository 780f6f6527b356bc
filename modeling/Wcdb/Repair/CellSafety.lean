import Wcdb.Repair.CellRecord

/-!
# When parsing a cell is safe

`Cell.safe_iff_tame`: on any bytes of the page and of the pages behind it the parse ends, stays in
the page, the overflow pages and the payload, and leaves a cell that the accessors and the crawlers
can read, exactly where the stored cell is `Tame`. Three things can go wrong.

* A payload size that is negative as an `int` and not larger than the offset of the payload passes
  the check of the local payload, and the varints of the record are read without any check.
* The sum of the offset of a value and its length can leave `int`.
* The crawlers of the master table and the sequence table take their columns without a look at
  `getCount`.

The chain of overflow pages is compared with `OverflowChain`, the record with `IsRecordOf`. That the
loops end is part of the result. A page is the whole of the buffer that it shares, and memory is
granted.
-/

namespace Wcdb.Repair.Cell

open Deserialization

/-! ### Chains of overflow pages -/

/-- From page `n` on a chain holds `r` bytes: the number of each page is positive, and behind the
last one comes zero. -/
inductive OverflowChain (p : Pager) : ℤ → ℕ → List ℤ → List UInt8 → Prop where
  | done : OverflowChain p 0 0 [] []
  | page {n : ℤ} {r : ℕ} {pagenos : List ℤ} {overflow rest : List UInt8} (positive : 0 < n)
      (remaining : 0 < r) (acquired : p.acquirePageData n = some overflow)
      (tail : OverflowChain p (get4BytesInt overflow) (r - (p.usableSize - 4).toNat) pagenos rest) :
      OverflowChain p n r (n :: pagenos)
        ((overflow.drop 4).take (min r (p.usableSize - 4).toNat) ++ rest)

section Chain

variable {p : Pager}

theorem usableSize_bounds (p : Pager) : 257 ≤ p.usableSize ∧ p.usableSize ≤ p.pageSize := by
  have hlow := p.pageSize_ge
  have hreserved := p.reservedBytes_le
  rw [Pager.usableSize]
  omega

/-- A loop that stops delivers a whole payload exactly when nothing remains. -/
theorem stopped_iff {size : ℕ} {n : ℤ} {pagenos : List ℤ} {payload full : List UInt8}
    (hlen : payload.length ≤ size) (hstop : ¬(0 < n ∧ (payload.length : ℤ) < size)) :
    ((Except.ok (n, payload) : Except Halt (ℤ × List UInt8)) = .ok (0, full) ∧ full.length = size) ↔
      ∃ ns rest, OverflowChain p n (size - payload.length) ns rest ∧ ns.Nodup ∧
        (∀ m ∈ ns, m ∉ pagenos) ∧ full = payload ++ rest := by
  constructor
  · rintro ⟨hok, hfull⟩
    obtain ⟨rfl, rfl⟩ := Prod.mk.inj (Except.ok.inj hok)
    rw [hfull, Nat.sub_self]
    exact ⟨[], [], .done, List.nodup_nil, by simp, (List.append_nil _).symm⟩
  · rintro ⟨ns, rest, hchain, -, -, rfl⟩
    generalize hr : size - payload.length = r at hchain
    cases hchain with
    | done => exact ⟨by rw [List.append_nil], by rw [List.append_nil]; omega⟩
    | page positive remaining _ _ => exact absurd ⟨positive, by omega⟩ hstop

theorem OverflowChain.inv {n : ℤ} {r : ℕ} {ns : List ℤ} {bytes : List UInt8}
    (h : OverflowChain p n r ns bytes) (hn : 0 < n) :
    ∃ overflow ns' rest, p.acquirePageData n = some overflow ∧ ns = n :: ns' ∧
      OverflowChain p (get4BytesInt overflow) (r - (p.usableSize - 4).toNat) ns' rest ∧
        bytes = (overflow.drop 4).take (min r (p.usableSize - 4).toNat) ++ rest := by
  cases h with
  | done => exact absurd hn (lt_irrefl 0)
  | page _ _ acquired tail => exact ⟨_, _, _, acquired, rfl, tail, rfl⟩

/-- One page of the chain. -/
theorem parseOverflow_succ {size fuel : ℕ} {n : ℤ} {pagenos : List ℤ}
    {payload overflow : List UInt8} (hn : 0 < n) (hless : payload.length < size)
    (hseen : n ∉ pagenos) (hdata : p.acquirePageData n = some overflow) :
    parseOverflow p size (fuel + 1) n pagenos payload =
      parseOverflow p size fuel (get4BytesInt overflow) (n :: pagenos)
        (payload ++
          (overflow.drop 4).take (min (size - payload.length) (p.usableSize - 4).toNat)) := by
  obtain ⟨hlow, hhigh⟩ := usableSize_bounds p
  have hlen := p.length_data n overflow hdata
  have hlarge : ¬p.numberOfPages < n := not_lt.mpr (p.range_data n overflow hdata).2
  have hsize : min ((size : ℤ) - payload.length) (p.usableSize - 4) =
      (min (size - payload.length) (p.usableSize - 4).toNat : ℕ) := by omega
  have hbytes : bytesAt overflow 4 (min (size - payload.length) (p.usableSize - 4).toNat) =
      .ok (overflow.drop 4) := by
    exact_mod_cast @Page.bytesAt_eq overflow 4 _ (by omega)
  have hnext : bytesAt overflow 0 4 = .ok overflow := by
    exact_mod_cast @Page.bytesAt_eq overflow 0 4 (by omega)
  rw [parseOverflow, if_pos ⟨hn, by exact_mod_cast hless⟩, if_neg hseen, if_neg hlarge, hdata]
  dsimp only
  rw [hsize, if_neg (by omega), Int.toNat_natCast, hbytes, hnext]
  rfl

/-- **The loop over the overflow pages** ends, stays in the pages and in the buffer, and fills the
buffer exactly from a chain without a page that was seen. -/
theorem parseOverflow_spec {size fuel : ℕ} {n : ℤ} {pagenos : List ℤ} {payload : List UInt8}
    (hlen : payload.length ≤ size) (hfuel : size ≤ payload.length + fuel) :
    (parseOverflow p size fuel n pagenos payload = .error .refused ∨
      ∃ r, parseOverflow p size fuel n pagenos payload = .ok r) ∧
    ∀ full, (parseOverflow p size fuel n pagenos payload = .ok (0, full) ∧ full.length = size) ↔
      ∃ ns rest, OverflowChain p n (size - payload.length) ns rest ∧ ns.Nodup ∧
        (∀ m ∈ ns, m ∉ pagenos) ∧ full = payload ++ rest := by
  have hrefused : ∀ {r : Except Halt (ℤ × List UInt8)} {q : List UInt8 → Prop},
      r = .error .refused → (∀ full, ¬q full) →
        (r = .error .refused ∨ ∃ x, r = .ok x) ∧
          ∀ full, (r = .ok (0, full) ∧ full.length = size) ↔ q full := by
    rintro r q rfl hnone
    exact ⟨.inl rfl, fun full => iff_of_false (fun h => nomatch h.1) (hnone full)⟩
  induction fuel generalizing n pagenos payload with
  | zero =>
    have hstop : ¬(0 < n ∧ (payload.length : ℤ) < size) := by omega
    rw [parseOverflow, if_neg hstop]
    exact ⟨.inr ⟨_, rfl⟩, fun full => stopped_iff hlen hstop⟩
  | succ fuel ih =>
    by_cases hgo : 0 < n ∧ (payload.length : ℤ) < size
    · have hseen : n ∈ pagenos → ∀ full, ¬∃ ns rest,
          OverflowChain p n (size - payload.length) ns rest ∧ ns.Nodup ∧
            (∀ m ∈ ns, m ∉ pagenos) ∧ full = payload ++ rest := by
        rintro hmem full ⟨ns, rest, hchain, -, hnew, -⟩
        obtain ⟨-, ns', -, -, rfl, -⟩ := hchain.inv hgo.1
        exact hnew n (List.mem_cons_self ..) hmem
      have hacquired : p.acquirePageData n = none → ∀ full, ¬∃ ns rest,
          OverflowChain p n (size - payload.length) ns rest ∧ ns.Nodup ∧
            (∀ m ∈ ns, m ∉ pagenos) ∧ full = payload ++ rest := by
        rintro hnone full ⟨ns, rest, hchain, -⟩
        obtain ⟨overflow, -, -, hdata, -⟩ := hchain.inv hgo.1
        rw [hnone] at hdata
        exact nomatch hdata
      by_cases hmem : n ∈ pagenos
      · refine hrefused ?_ (hseen hmem)
        rw [parseOverflow, if_pos hgo, if_pos hmem]
      cases hdata : p.acquirePageData n with
      | none =>
        refine hrefused ?_ (hacquired hdata)
        rw [parseOverflow, if_pos hgo, if_neg hmem, hdata]
        exact ite_self _
      | some overflow =>
        have hless : payload.length < size := by omega
        obtain ⟨hlow, hhigh⟩ := usableSize_bounds p
        have hoverflow := p.length_data n overflow hdata
        have hgrown : (payload ++ (overflow.drop 4).take
            (min (size - payload.length) (p.usableSize - 4).toNat)).length =
              payload.length + min (size - payload.length) (p.usableSize - 4).toNat := by
          rw [List.length_append, List.length_take, List.length_drop]
          omega
        obtain ⟨hends, hfull⟩ := @ih (get4BytesInt overflow) (n :: pagenos) _
          (by rw [hgrown]; omega) (by rw [hgrown]; omega)
        rw [parseOverflow_succ hgo.1 hless hmem hdata]
        refine ⟨hends, fun full => (hfull full).trans ?_⟩
        rw [hgrown, show size - (payload.length + min (size - payload.length)
          (p.usableSize - 4).toNat) = size - payload.length - (p.usableSize - 4).toNat by omega]
        constructor
        · rintro ⟨ns, rest, hchain, hnodup, hnew, rfl⟩
          refine ⟨n :: ns, _, .page hgo.1 (by omega) hdata hchain, ?_, ?_, List.append_assoc ..⟩
          · exact List.nodup_cons.mpr ⟨fun h => hnew n h (List.mem_cons_self ..), hnodup⟩
          · exact List.forall_mem_cons.mpr ⟨hmem,
              fun m hm h => hnew m hm (List.mem_cons_of_mem _ h)⟩
        · rintro ⟨ns, rest, hchain, hnodup, hnew, rfl⟩
          obtain ⟨overflow', ns, rest, hdata', rfl, htail, rfl⟩ := hchain.inv hgo.1
          obtain rfl : overflow = overflow' := by simpa using hdata.symm.trans hdata'
          obtain ⟨hhead, hnodup⟩ := List.nodup_cons.mp hnodup
          refine ⟨ns, rest, htail, hnodup, fun m hm h => ?_, (List.append_assoc ..).symm⟩
          rcases List.mem_cons.mp h with rfl | h
          · exact hhead hm
          · exact hnew m (List.mem_cons_of_mem _ hm) h
    · rw [parseOverflow, if_neg hgo]
      exact ⟨.inr ⟨_, rfl⟩, fun full => stopped_iff hlen hgo⟩

end Chain

/-! ### The payload -/

/-- The bytes of a payload of `size` bytes that begins at `offset` on the page: the local ones, and
those of the chain, whose first page is named behind them. -/
def PayloadAt (p : Pager) (type : PageType) (data : List UInt8) (size offset : ℕ)
    (payload : List UInt8) : Prop :=
  let localSize := (localPayloadSize p type size).toNat
  offset + localSize ≤ data.length ∧
    if localSize < size then
      offset + localSize + 4 ≤ data.length ∧ ∃ pagenos rest,
        OverflowChain p (get4BytesInt (data.drop (offset + localSize))) (size - localSize)
          pagenos rest ∧ pagenos.Nodup ∧ payload = (data.drop offset).take localSize ++ rest
    else payload = (data.drop offset).take size

section Payload

variable {p : Pager} {type : PageType} {data : List UInt8}

theorem local_bounds (p : Pager) (type : PageType) :
    0 ≤ PageType.minLocal p ∧ PageType.minLocal p ≤ type.maxLocal p ∧ 0 < type.maxLocal p := by
  obtain ⟨hlow, hhigh⟩ := usableSize_bounds p
  rw [PageType.minLocal, PageType.maxLocal, Int.tdiv_eq_ediv_of_nonneg (by omega),
    Int.tdiv_eq_ediv_of_nonneg (by omega)]
  split_ifs <;> omega

theorem localPayloadSize_bounds (p : Pager) (type : PageType) (size : ℕ) :
    0 ≤ localPayloadSize p type size ∧ localPayloadSize p type size ≤ size := by
  obtain ⟨hmin, hmax, -⟩ := local_bounds p type
  obtain ⟨hlow, -⟩ := usableSize_bounds p
  rw [localPayloadSize]
  by_cases hsmall : (size : ℤ) < type.maxLocal p
  · rw [if_pos hsmall]
    omega
  · have hmod := Int.tmod_nonneg (p.usableSize - 4)
      (show 0 ≤ (size : ℤ) - PageType.minLocal p by omega)
    rw [if_neg hsmall]
    dsimp only
    split_ifs <;> omega

theorem localPayloadSize_neg {size : ℤ} (h : size < 0) : localPayloadSize p type size = size := by
  obtain ⟨-, -, hpos⟩ := local_bounds p type
  exact if_pos (by omega)

theorem seek_eq {d : Deserialization} (hdata : d.data = data) {c : ℕ} (hc : c ≤ data.length) :
    d.seek c = { d with cursor := c } := by
  rw [Deserialization.seek, if_neg (by omega), capacity, hdata]
  congr 1
  omega

theorem canAdvance_eq {d : Deserialization} (hdata : d.data = data)
    (hcursor : d.cursor ≤ data.length)
    (hlen : data.length < 2 ^ 31) {n : ℕ} (hn : n < 2 ^ 31) :
    d.canAdvance n = decide (d.cursor + n ≤ data.length) := by
  rw [canAdvance, capacity, hdata, u64_of_lt (by omega)]

theorem ok_ne {α : Type} {a : α} {halt : Halt} : (Except.ok a : Except Halt α) ≠ .error halt :=
  fun h => nomatch h

theorem ofSubdata_spec {size offset : ℕ} (hin : offset + size ≤ data.length)
    (hlen : data.length < 2 ^ 31) :
    (View.ofSubdata data offset size).Sound ∧
      (View.ofSubdata data offset size).bytes = (data.drop offset).take size := by
  have hmod : ((size : ℤ) % 2 ^ 64).toNat = size := by omega
  rw [View.ofSubdata, hmod, Int.toNat_natCast]
  by_cases hzero : size = 0
  · rw [if_pos hzero, hzero]
    exact ⟨⟨le_rfl, by decide⟩, by rw [List.take_zero]; rfl⟩
  · rw [if_neg hzero, u64_of_lt (by omega), if_pos hin]
    exact ⟨⟨hin, by simp only; omega⟩, rfl⟩

/-- The payload of a cell whose local part is not all of it. -/
theorem parsePayload_overflow {d : Deserialization} {size offset localSize : ℕ}
    (hdata : d.data = data) (hlocal : localPayloadSize p type size = localSize)
    (hover : localSize < size) (hroom : offset + localSize + 4 ≤ data.length)
    (hcan : d.canAdvance localSize = true) (hlen : data.length < 2 ^ 31) :
    parsePayload p type d offset size =
      (parseOverflow p size size (get4BytesInt (data.drop (offset + localSize))) []
        ((data.drop offset).take localSize)) >>= fun r =>
      if r.1 ≠ 0 ∨ r.2.length ≠ (size : ℤ) then .error .refused
      else .ok ⟨r.2, 0, r.2.length⟩ := by
  have hmod : ((localSize : ℤ) % 2 ^ 64).toNat = localSize := by omega
  have hin : offset + localSize ≤ data.length := by omega
  have hseek : d.seek ((offset : ℤ) + localSize) = { d with cursor := offset + localSize } := by
    exact_mod_cast seek_eq hdata hin
  have hnext :
    bytesAt data ((offset + localSize : ℕ) : ℤ) 4 = .ok (data.drop (offset + localSize)) :=
    Page.bytesAt_eq hroom
  have hbytes : bytesAt data offset localSize = .ok (data.drop offset) :=
    Page.bytesAt_eq (by omega)
  have hfour : Deserialization.canAdvance { d with cursor := offset + localSize } 4 = true := by
    rw [@canAdvance_eq data { d with cursor := offset + localSize } hdata hin hlen 4 (by decide)]
    exact decide_eq_true hroom
  rw [parsePayload]
  dsimp only
  rw [hlocal, hmod, hcan, Bool.not_true, if_neg Bool.false_ne_true, if_pos (by omega), hseek, hfour,
    Bool.not_true, if_neg Bool.false_ne_true]
  dsimp only
  rw [hdata, hnext, ok_bind, if_neg (by omega), Int.toNat_natCast, hbytes, ok_bind,
    Int.toNat_natCast]
  rfl

/-- **The payload is parsed**: the parse ends and stays in the pages and the buffer, and delivers
the payload that is stored, if one is. -/
theorem parsePayload_spec {d : Deserialization} {size offset : ℕ} (hdata : d.data = data)
    (hcursor : d.cursor = offset) (hoffset : offset ≤ data.length) (hlen : data.length < 2 ^ 31)
    (hsize : size < 2 ^ 31) :
    (parsePayload p type d offset size = .error .refused ∧
      ∀ payload, ¬PayloadAt p type data size offset payload) ∨
    ∃ v, parsePayload p type d offset size = .ok v ∧ v.Sound ∧ v.bytes.length = size ∧
      ∀ payload, PayloadAt p type data size offset payload ↔ payload = v.bytes := by
  obtain ⟨hnonneg, hle⟩ := localPayloadSize_bounds p type size
  obtain ⟨localSize, hlocal⟩ := Int.eq_ofNat_of_zero_le hnonneg
  rw [hlocal] at hle
  have hcan : d.canAdvance localSize = decide (offset + localSize ≤ data.length) := by
    rw [canAdvance_eq hdata (by omega) hlen (by omega), hcursor]
  have hpayload : ∀ payload, PayloadAt p type data size offset payload ↔
      offset + localSize ≤ data.length ∧
        if localSize < size then
          offset + localSize + 4 ≤ data.length ∧ ∃ pagenos rest,
            OverflowChain p (get4BytesInt (data.drop (offset + localSize))) (size - localSize)
              pagenos rest ∧ pagenos.Nodup ∧ payload = (data.drop offset).take localSize ++ rest
        else payload = (data.drop offset).take size := fun payload => by
    rw [PayloadAt, hlocal]
    rfl
  simp only [hpayload]
  by_cases hin : offset + localSize ≤ data.length
  · rw [decide_eq_true hin] at hcan
    by_cases hover : localSize < size
    · simp only [hin, hover, if_true, true_and]
      by_cases hroom : offset + localSize + 4 ≤ data.length
      · simp only [hroom, true_and]
        have htake : ((data.drop offset).take localSize).length = localSize := by
          rw [List.length_take, List.length_drop]
          omega
        obtain ⟨hends, hfull⟩ := @parseOverflow_spec p size size
          (get4BytesInt (data.drop (offset + localSize))) [] ((data.drop offset).take localSize)
          (by omega) (by omega)
        rw [htake] at hfull
        rw [parsePayload_overflow hdata hlocal hover hroom hcan hlen]
        have hstored : ∀ payload, (∃ pagenos rest,
            OverflowChain p (get4BytesInt (data.drop (offset + localSize))) (size - localSize)
              pagenos rest ∧ pagenos.Nodup ∧ payload = (data.drop offset).take localSize ++ rest) ↔
            parseOverflow p size size (get4BytesInt (data.drop (offset + localSize))) []
              ((data.drop offset).take localSize) = .ok (0, payload) ∧ payload.length = size := by
          intro payload
          rw [hfull payload]
          simp
        simp only [hstored]
        rcases hends with hresult | ⟨⟨n, full⟩, hresult⟩
        · rw [hresult]
          exact .inl ⟨rfl, fun payload h => nomatch h.1⟩
        · rw [hresult, ok_bind]
          by_cases hgood : n = 0 ∧ full.length = size
          · obtain ⟨rfl, rfl⟩ := hgood
            have hview : View.bytes ⟨full, 0, full.length⟩ = full := List.take_length
            refine .inr ⟨⟨full, 0, full.length⟩, by simp, ⟨by simp, by simp only; omega⟩,
              by rw [hview], fun payload => ?_⟩
            rw [hview, Except.ok.injEq, Prod.mk.injEq]
            exact ⟨fun h => h.1.2.symm, fun h => ⟨⟨rfl, h.symm⟩, by rw [h]⟩⟩
          · refine .inl ⟨if_pos ?_, fun payload h => hgood ?_⟩
            · rw [not_and_or] at hgood
              exact hgood.imp id fun h h' => h (by exact_mod_cast h')
            · obtain ⟨rfl, rfl⟩ := Prod.mk.inj (Except.ok.inj h.1)
              exact ⟨rfl, h.2⟩
      · refine .inl ⟨?_, fun payload h => hroom h.1⟩
        have hmod : ((localSize : ℤ) % 2 ^ 64).toNat = localSize := by omega
        have hseek :
          d.seek ((offset : ℤ) + localSize) = { d with cursor := offset + localSize } := by
          exact_mod_cast seek_eq hdata hin
        have hfour : Deserialization.canAdvance { d with cursor := offset + localSize } 4 =
            false := by
          rw [@canAdvance_eq data { d with cursor := offset + localSize } hdata hin hlen 4
            (by decide)]
          exact decide_eq_false hroom
        rw [parsePayload]
        dsimp only
        rw [hlocal, hmod, hcan, Bool.not_true, if_neg Bool.false_ne_true, if_pos (by omega), hseek,
          hfour]
        rfl
    · obtain rfl : localSize = size := by omega
      obtain ⟨hsound, hbytes⟩ := ofSubdata_spec hin hlen
      have hmod : ((localSize : ℤ) % 2 ^ 64).toNat = localSize := by omega
      simp only [hin, hover, if_false, true_and]
      refine .inr ⟨.ofSubdata data offset localSize, ?_, hsound, ?_, fun payload => by rw [hbytes]⟩
      · rw [parsePayload]
        dsimp only
        rw [hlocal, hmod, hcan, Bool.not_true, if_neg Bool.false_ne_true, if_neg (by omega), hdata]
      · rw [hbytes, List.length_take, List.length_drop]
        omega
  · have hmod : ((localSize : ℤ) % 2 ^ 64).toNat = localSize := by omega
    refine .inl ⟨?_, fun payload h => hin h.1⟩
    rw [parsePayload]
    dsimp only
    rw [hlocal, hmod, hcan, decide_eq_false hin]
    rfl

/-- A payload of negative size is taken where its absolute value is not larger than its offset. -/
theorem parsePayload_negative {d : Deserialization} {m offset : ℕ} (hdata : d.data = data)
    (hcursor : d.cursor = offset) (hoffset : offset ≤ data.length) (hlen : data.length < 2 ^ 31)
    (hm : 1 ≤ m) (hm' : m ≤ 2 ^ 31) :
    parsePayload p type d offset (-m) =
      if m ≤ offset then .ok ⟨data, offset, 2 ^ 64 - m⟩ else .error .refused := by
  have hmod : ((-m : ℤ) % 2 ^ 64).toNat = 2 ^ 64 - m := by omega
  rw [parsePayload]
  dsimp only
  rw [localPayloadSize_neg (by omega), hmod, canAdvance, capacity, hcursor, hdata]
  by_cases hle : m ≤ offset
  · have hsum : u64 (offset + (2 ^ 64 - m)) = offset - m := by
      rw [u64]
      omega
    rw [if_pos hle, hsum, decide_eq_true (by omega), Bool.not_true, if_neg Bool.false_ne_true,
      if_neg (lt_irrefl _), View.ofSubdata, hmod, Int.toNat_natCast, hsum, if_neg (by omega),
      if_pos (by omega)]
  · rw [if_neg hle, u64_of_lt (by omega), decide_eq_false (by omega)]
    rfl

end Payload

/-! ### The head -/

section Head

variable {p : Pager} {type : PageType} {data : List UInt8}

theorem advanceVarint_mk {c : ℕ} (hc : c ≤ data.length) :
    Deserialization.advanceVarint ⟨data, c, 0⟩ =
      (Varint.read (data.drop c), ⟨data, c + (Varint.read (data.drop c)).1, 0⟩) := by
  rw [Deserialization.advanceVarint]
  simp only [getVarint_eq_read]
  rcases Varint.read_bound (data.drop c) with hzero | ⟨hle, hnine, hpos, -⟩
  · rw [hzero]
    rfl
  · rw [List.length_drop] at hle
    have hseek := seek_eq (d := ⟨data, c, 0⟩) rfl
      (show c + (Varint.read (data.drop c)).1 ≤ data.length by omega)
    rw [if_pos hpos, offset_of_lt (by omega), Deserialization.advance]
    simp only
    rw [← hseek]
    push_cast
    rfl

/-- The two varints of the head, from their place on. -/
def headFrom (type : PageType) (data : List UInt8) (start : ℕ) : Option (ℕ × ℕ) :=
  let (n, size) := Varint.read (data.drop start)
  if n = 0 then none
  else if type.isTablePage then
    let (m, _) := Varint.read (data.drop (start + n))
    if m = 0 then none else some (size, start + n + m)
  else some (size, start + n)

theorem parseBehindChild_eq (leftChild : ℤ) {start : ℕ} (hstart : start ≤ data.length) :
    (headFrom type data start = none ∧
      parseBehindChild p type leftChild ⟨data, start, 0⟩ start = .error .refused) ∨
    ∃ (size offset : ℕ) (rowid : ℤ), headFrom type data start = some (size, offset) ∧
      offset ≤ data.length ∧
        parseBehindChild p type leftChild ⟨data, start, 0⟩ start =
          (parsePayload p type ⟨data, offset, 0⟩ offset (int32 size)) >>= fun view =>
          (parseRecord view (int32 size)) >>= fun columns =>
          .ok ⟨leftChild, rowid, view.bytes, columns⟩ := by
  rw [parseBehindChild, headFrom, advanceVarint_mk hstart]
  have hbound := Varint.read_bound (data.drop start)
  generalize Varint.read (data.drop start) = varint at hbound ⊢
  obtain ⟨n, size⟩ := varint
  dsimp only at hbound ⊢
  by_cases hn : n = 0
  · rw [if_pos hn, if_pos hn]
    exact .inl ⟨rfl, rfl⟩
  have hnext : start + n ≤ data.length := by
    rcases hbound with hzero | ⟨hle, -⟩
    · exact absurd (congrArg Prod.fst hzero) hn
    · rw [List.length_drop] at hle
      omega
  rw [if_neg hn, if_neg hn]
  by_cases htable : type.isTablePage = true
  · rw [if_pos htable, if_pos htable, advanceVarint_mk hnext]
    have hbound' := Varint.read_bound (data.drop (start + n))
    generalize Varint.read (data.drop (start + n)) = varint at hbound' ⊢
    obtain ⟨m, rowid⟩ := varint
    dsimp only at hbound' ⊢
    by_cases hm : m = 0
    · rw [if_pos hm, if_pos ⟨htable, hm⟩]
      exact .inl ⟨rfl, rfl⟩
    · rw [if_neg hm, if_neg fun h => hm h.2]
      refine .inr ⟨size, start + n + m, offset rowid, rfl, ?_, ?_⟩
      · rcases hbound' with hzero | ⟨hle, -⟩
        · exact absurd (congrArg Prod.fst hzero) hm
        · rw [List.length_drop] at hle
          omega
      · push_cast
        rfl
  · rw [if_neg htable, if_neg htable, if_neg fun h => htable h.1]
    refine .inr ⟨size, start + n, offset 0, rfl, hnext, ?_⟩
    dsimp only
    push_cast
    rw [add_zero]
    rfl

/-- The size of the payload of a cell and its offset, when the head of the cell is in the page. -/
def storedHead (type : PageType) (data : List UInt8) (pointer : ℕ) : Option (ℕ × ℕ) :=
  if type.isLeafPage then headFrom type data pointer
  else if pointer + 4 ≤ data.length then headFrom type data (pointer + 4)
  else none

/-- What the head of a cell decides. -/
theorem parse_eq {pointer : ℕ} (hpointer : pointer ≤ data.length) (hlen : data.length < 2 ^ 31) :
    (storedHead type data pointer = none ∧ parse p type data pointer = .error .refused) ∨
    ∃ (size offset : ℕ) (leftChild rowid : ℤ), storedHead type data pointer = some (size, offset) ∧
      offset ≤ data.length ∧
        parse p type data pointer =
          (parsePayload p type ⟨data, offset, 0⟩ offset (int32 size)) >>= fun view =>
          (parseRecord view (int32 size)) >>= fun columns =>
          .ok ⟨leftChild, rowid, view.bytes, columns⟩ := by
  have hseek : (Deserialization.mk data 0 0).seek pointer = ⟨data, pointer, 0⟩ :=
    seek_eq rfl hpointer
  rw [parse, storedHead, hseek]
  by_cases hleaf : type.isLeafPage = true
  · rw [if_pos hleaf, if_pos hleaf]
    rcases @parseBehindChild_eq p type data 0 pointer hpointer with h |
      ⟨size, offset, rowid, hhead, hle, hparse⟩
    · exact .inl h
    · exact .inr ⟨size, offset, 0, rowid, hhead, hle, hparse⟩
  · rw [if_neg hleaf, if_neg hleaf,
      @canAdvance_eq data ⟨data, pointer, 0⟩ rfl hpointer hlen 4 (by decide)]
    by_cases hroom : pointer + 4 ≤ data.length
    · have hadvance : Deserialization.advance ⟨data, pointer, 0⟩ 4 = ⟨data, pointer + 4, 0⟩ := by
        have h := @seek_eq data ⟨data, pointer, 0⟩ rfl _ hroom
        rwa [Nat.cast_add] at h
      rw [if_pos hroom, decide_eq_true hroom, Bool.not_true, if_neg Bool.false_ne_true]
      dsimp only
      rw [Page.bytesAt_eq hroom, ok_bind, hadvance]
      rcases @parseBehindChild_eq p type data (get4BytesInt (data.drop pointer)) _ hroom with
        ⟨hhead, hparse⟩ | ⟨size, offset, rowid, hhead, hle, hparse⟩
      · rw [Nat.cast_add] at hparse
        exact .inl ⟨hhead, hparse⟩
      · rw [Nat.cast_add] at hparse
        exact .inr ⟨size, offset, _, rowid, hhead, hle, hparse⟩
    · rw [if_neg hroom, decide_eq_false hroom]
      exact .inl ⟨rfl, rfl⟩

end Head

/-! ### The accessors -/

section Accessors

theorem Columns.inside {payload : List UInt8} {c : ℕ} {w : ℤ} {columns : List (ℤ × ℤ)}
    (h : Columns payload c w columns) :
    ∀ column ∈ columns, 0 ≤ column.2 ∧ 0 ≤ getLengthOfSerialType column.1 ∧
      column.2 + getLengthOfSerialType column.1 ≤ payload.length := by
  induction h with
  | start => exact fun column hcolumn => absurd hcolumn List.not_mem_nil
  | @column c n t w columns before inHeader type sane room ih =>
    have hlow : 0 ≤ w := by
      obtain ⟨hpos, -, ⟨-, hw⟩ | ⟨-, hw, -⟩⟩ := before.bounds <;> omega
    refine List.forall_mem_append.mpr ⟨ih, ?_⟩
    simp only [List.mem_singleton, forall_eq]
    exact ⟨hlow, getLengthOfSerialType_nonneg sane, room⟩

variable {cell : Cell}

/-- The columns of a cell lie in its payload. -/
def Inside (cell : Cell) : Prop :=
  ∀ column ∈ cell.columns, 0 ≤ column.2 ∧ 0 ≤ getLengthOfSerialType column.1 ∧
    column.2 + getLengthOfSerialType column.1 ≤ cell.payload.length

theorem typeAt_eq {i : ℕ} (h : i < cell.getCount) : cell.typeAt i = .ok (cell.getValueType i) := by
  have hcolumn : i < cell.columns.length := h
  rw [typeAt, columnAt, List.getElem?_eq_getElem hcolumn]
  rfl

theorem valueAt_eq (hinside : cell.Inside) {i : ℕ} (h : i < cell.getCount) :
    cell.valueAt i = .ok (cell.value i) := by
  have hcolumn : i < cell.columns.length := h
  obtain ⟨hlow, hlength, hhigh⟩ := hinside _ (List.getElem_mem hcolumn)
  rw [valueAt, columnAt, List.getElem?_eq_getElem hcolumn]
  dsimp only
  rw [ok_bind, bytesAt, if_pos ⟨hlow, by omega⟩]
  rfl

theorem typeAt_outside {i : ℕ} (h : cell.getCount ≤ i) : cell.typeAt i = .error .outside := by
  rw [typeAt, columnAt, List.getElem?_eq_none h]
  rfl

end Accessors

end Wcdb.Repair.Cell

namespace Wcdb.Repair

open Wcdb.Repair.Cell

section Crawlers

variable {cell : Cell}

/-- There are the five columns of a master table, or the fourth of four is a root page that is not
positive. -/
def MasterItem.Fits (cell : Cell) : Prop :=
  5 ≤ cell.getCount ∨
    cell.getCount = 4 ∧ cell.getValueType 3 = .integer ∧ int32 (word (cell.integerValue 3)) ≤ 0

/-- There are the two columns of a sequence table, or the only one is no text. -/
def SequenceItem.Fits (cell : Cell) : Prop :=
  2 ≤ cell.getCount ∨ cell.getCount = 1 ∧ cell.getValueType 0 ≠ .text

theorem MasterItem.textOf_eq (hinside : cell.Inside) {i : ℕ} (h : i < cell.getCount) :
    textOf cell i = .ok (textAt cell i) := by
  rw [textOf, typeAt_eq h, ok_bind, textAt]
  split_ifs
  · rw [valueAt_eq hinside h]
    rfl
  · rfl

theorem MasterItem.textOf_outside {i : ℕ} (h : cell.getCount ≤ i) :
    textOf cell i = .error .outside := by
  rw [textOf, typeAt_outside h]
  rfl

/-- The crawler of the master table stays in the columns exactly where they are as many as it
takes. -/
theorem MasterItem.crawl_inside_iff (hinside : cell.Inside) :
    crawl cell ≠ .error .outside ↔ Fits cell := by
  rw [crawl, Fits]
  generalize int32 (word (cell.integerValue 3)) = rootpage
  have hshort : cell.getCount < 4 → ¬(5 ≤ cell.getCount ∨
      cell.getCount = 4 ∧ cell.getValueType 3 = .integer ∧ rootpage ≤ 0) := by
    rintro h (h' | ⟨h', -⟩) <;> omega
  rcases Nat.lt_or_ge 0 cell.getCount with h0 | h0
  swap
  · rw [textOf_outside h0]
    exact iff_of_false (fun h => h rfl) (hshort (by omega))
  rw [textOf_eq hinside h0, ok_bind]
  rcases Nat.lt_or_ge 1 cell.getCount with h1 | h1
  swap
  · rw [textOf_outside h1]
    exact iff_of_false (fun h => h rfl) (hshort (by omega))
  rw [textOf_eq hinside h1, ok_bind]
  rcases Nat.lt_or_ge 2 cell.getCount with h2 | h2
  swap
  · rw [textOf_outside h2]
    exact iff_of_false (fun h => h rfl) (hshort (by omega))
  rw [textOf_eq hinside h2, ok_bind]
  rcases Nat.lt_or_ge 3 cell.getCount with h3 | h3
  swap
  · rw [typeAt_outside h3]
    exact iff_of_false (fun h => h rfl) (hshort (by omega))
  rw [typeAt_eq h3, ok_bind, valueAt_eq hinside h3, ok_bind]
  rcases Nat.lt_or_ge 4 cell.getCount with h4 | h4
  · rw [textOf_eq hinside h4]
    refine iff_of_true ?_ (.inl h4)
    dsimp only
    split_ifs <;> exact ok_ne
  · rw [textOf_outside h4]
    by_cases htype : cell.getValueType 3 = .integer
    · rw [if_pos htype]
      by_cases hroot : rootpage ≤ 0
      · rw [if_pos hroot]
        exact iff_of_true (fun h => nomatch h) (.inr ⟨by omega, htype, hroot⟩)
      · rw [if_neg hroot]
        refine iff_of_false (fun h => h rfl) ?_
        rintro (h | ⟨-, -, h⟩)
        · omega
        · exact hroot h
    · rw [if_neg htype]
      refine iff_of_false (fun h => h rfl) ?_
      rintro (h | ⟨-, h, -⟩)
      · omega
      · exact htype h

/-- The crawler of the sequence table likewise. -/
theorem SequenceItem.crawl_inside_iff (hinside : cell.Inside) :
    crawl cell ≠ .error .outside ↔ Fits cell := by
  rw [crawl, Fits]
  rcases Nat.lt_or_ge 0 cell.getCount with h0 | h0
  swap
  · rw [typeAt_outside h0]
    exact iff_of_false (fun h => h rfl) (by omega)
  rw [typeAt_eq h0, ok_bind]
  by_cases htype : cell.getValueType 0 ≠ .text
  · rw [if_pos htype]
    refine iff_of_true (fun h => nomatch h) ?_
    rcases Nat.lt_or_ge 1 cell.getCount with h1 | h1
    · exact .inl h1
    · exact .inr ⟨by omega, htype⟩
  rw [if_neg htype]
  rcases Nat.lt_or_ge 1 cell.getCount with h1 | h1
  · rw [typeAt_eq h1, ok_bind, valueAt_eq hinside h0, valueAt_eq hinside h1]
    refine iff_of_true ?_ (.inl h1)
    simp only [ok_bind]
    split_ifs <;> exact fun h => nomatch h
  · rw [typeAt_outside h1]
    refine iff_of_false (fun h => h rfl) ?_
    rintro (h | ⟨-, h⟩)
    · omega
    · exact htype h

end Crawlers

/-! ### Safety -/

namespace Cell

/-- The parse ends and stays in the page, the overflow pages and the payload; and if it succeeds, so
do the accessors and the crawlers of the master table and the sequence table. -/
def Safe (p : Pager) (type : PageType) (data : List UInt8) (pointer : ℕ) : Prop :=
  (∀ halt, parse p type data pointer = .error halt → halt = .refused) ∧
    ∀ cell, parse p type data pointer = .ok cell →
      (∀ i < cell.getCount, cell.valueAt i = .ok (cell.value i)) ∧
        MasterItem.crawl cell ≠ .error .outside ∧ SequenceItem.crawl cell ≠ .error .outside

/-- What a stored cell has to satisfy. If the size of its payload is negative and not larger than
the offset, the varint there is complete in the page and, for the size `-1`, the serial type before
it does not overflow; otherwise no value of the payload ends at `2 ^ 31` or behind it, and if its
columns fill it, the crawlers find those that they take. -/
def Tame (p : Pager) (type : PageType) (data : List UInt8) (pointer : ℕ) : Prop :=
  ∀ size offset, storedHead type data pointer = some (size, offset) →
    (∀ m : ℕ, 1 ≤ m → int32 size = -m → m ≤ offset →
      (Varint.read (data.drop offset)).1 ≠ 0 ∧ ¬(m = 1 ∧ OverflowsBefore data offset)) ∧
    ∀ n : ℕ, int32 size = n → ∀ payload, PayloadAt p type data n offset payload →
      ¬Overflows payload ∧ ∀ columns, IsRecordOf payload columns →
        MasterItem.Fits ⟨0, 0, payload, columns⟩ ∧ SequenceItem.Fits ⟨0, 0, payload, columns⟩

section Safety

variable {p : Pager} {type : PageType} {data : List UInt8} {pointer : ℕ}

theorem safe_of_refused (h : parse p type data pointer = .error .refused) :
    Safe p type data pointer := by
  rw [Safe, h]
  exact ⟨fun halt heq => (Except.error.inj heq).symm, fun cell heq => nomatch heq⟩

theorem not_safe_of_error {halt : Halt} (h : parse p type data pointer = .error halt)
    (hne : halt ≠ .refused) : ¬Safe p type data pointer := fun hsafe => hne (hsafe.1 halt h)

theorem int32_range (x : ℕ) : -2 ^ 31 ≤ int32 x ∧ int32 x < 2 ^ 31 := by
  unfold int32
  rw [Int.bmod_def]
  norm_num
  split <;> omega

/-- **Parsing a cell is safe** exactly where the stored cell is tame. -/
theorem safe_iff_tame {number : ℤ} (hdata : p.acquirePageData number = some data)
    (hpointer : pointer < data.length) : Safe p type data pointer ↔ Tame p type data pointer := by
  have hlen : data.length < 2 ^ 31 := by
    have := p.length_data number data hdata
    have := p.pageSize_le
    omega
  rcases @parse_eq p type data pointer hpointer.le hlen with ⟨hhead, hparse⟩ |
    ⟨size, offset, leftChild, rowid, hhead, hoffset, hparse⟩
  · refine iff_of_true (safe_of_refused hparse) fun size offset h => ?_
    rw [hhead] at h
    exact nomatch h
  have htame : Tame p type data pointer ↔
      (∀ m : ℕ, 1 ≤ m → int32 size = -m → m ≤ offset →
        (Varint.read (data.drop offset)).1 ≠ 0 ∧ ¬(m = 1 ∧ OverflowsBefore data offset)) ∧
      ∀ n : ℕ, int32 size = n → ∀ payload, PayloadAt p type data n offset payload →
        ¬Overflows payload ∧ ∀ columns, IsRecordOf payload columns →
          MasterItem.Fits ⟨0, 0, payload, columns⟩ ∧
            SequenceItem.Fits ⟨0, 0, payload, columns⟩ := by
    rw [Tame, hhead]
    constructor
    · exact fun h => h size offset rfl
    · rintro h _ _ heq
      obtain ⟨rfl, rfl⟩ := Prod.mk.inj (Option.some.inj heq)
      exact h
  rw [htame]
  clear htame
  have hrange := int32_range size
  generalize int32 size = payloadSize at hparse hrange ⊢
  rcases lt_or_ge payloadSize 0 with hneg | hnonneg
  · obtain ⟨m, rfl⟩ : ∃ m : ℕ, payloadSize = -m := ⟨payloadSize.natAbs, by omega⟩
    have hpayload := @parsePayload_negative p type data ⟨data, offset, 0⟩ m offset rfl rfl hoffset
      hlen (by omega) (by omega)
    rw [hpayload] at hparse
    by_cases hle : m ≤ offset
    · rw [if_pos hle, ok_bind] at hparse
      have hsame : ∀ m' : ℕ, (-m : ℤ) = -m' → m' = m := fun m' heq => by omega
      rcases parseRecord_boundless (show 1 ≤ m by omega) hle hoffset (by omega) with
        ⟨hrecord, hzero⟩ | ⟨hne, ⟨hrecord, hone, hover⟩ | ⟨hrecord, hnot⟩⟩
      · rw [hrecord] at hparse
        refine iff_of_false (not_safe_of_error hparse (by decide)) fun h => ?_
        exact (h.1 m (by omega) rfl hle).1 hzero
      · rw [hrecord] at hparse
        refine iff_of_false (not_safe_of_error hparse (by decide)) fun h => ?_
        exact (h.1 m (by omega) rfl hle).2 ⟨hone, hover⟩
      · rw [hrecord] at hparse
        refine iff_of_true (safe_of_refused hparse) ⟨fun m' _ heq _ => ?_, fun n heq => ?_⟩
        · rw [hsame m' heq]
          exact ⟨hne, hnot⟩
        · omega
    · rw [if_neg hle] at hparse
      refine iff_of_true (safe_of_refused hparse) ⟨fun m' _ heq hle' => ?_, fun n heq => ?_⟩
      · exact absurd hle' (by omega)
      · omega
  · obtain ⟨n, rfl⟩ := Int.eq_ofNat_of_zero_le hnonneg
    rcases @parsePayload_spec p type data ⟨data, offset,
      0⟩ n offset rfl rfl hoffset hlen (by omega) with
      ⟨hpayload, hnone⟩ | ⟨v, hpayload, hsound, hlength, hstored⟩
    · rw [hpayload] at hparse
      refine iff_of_true (safe_of_refused hparse) ⟨fun m _ heq => ?_, fun n' heq payload h => ?_⟩
      · omega
      · obtain rfl : n = n' := by exact_mod_cast heq
        exact absurd h (hnone payload)
    · have hrecord := parseRecord_spec hsound rfl (show v.bytes.length < 2 ^ 31 by omega)
      rw [hlength] at hrecord
      rw [hpayload, ok_bind] at hparse
      rcases hrecord with ⟨hrecord, hover, hnone⟩ | ⟨hrecord, hover⟩ | ⟨columns, hrecord,
        hover, hunique⟩
      · rw [hrecord] at hparse
        refine iff_of_true (safe_of_refused hparse) ⟨fun m _ heq => ?_, fun n' heq payload h => ?_⟩
        · omega
        · obtain rfl : n = n' := by exact_mod_cast heq
          rw [(hstored payload).mp h]
          exact ⟨hover, fun columns h => absurd h (hnone columns)⟩
      · rw [hrecord] at hparse
        refine iff_of_false (not_safe_of_error hparse (by decide)) fun h => ?_
        exact (h.2 n rfl v.bytes ((hstored _).mpr rfl)).1 hover
      · rw [hrecord, ok_bind] at hparse
        have hinside : Inside ⟨leftChild, rowid, v.bytes, columns⟩ := by
          obtain ⟨c, -, hcolumns⟩ := (hunique columns).mpr rfl
          exact hcolumns.inside
        rw [Safe, hparse]
        constructor
        · rintro ⟨-, h⟩
          obtain ⟨-, hmaster, hsequence⟩ := h _ rfl
          refine ⟨fun m _ heq => ?_, fun n' heq payload h => ?_⟩
          · omega
          · obtain rfl : n = n' := by exact_mod_cast heq
            rw [(hstored payload).mp h]
            refine ⟨hover, fun columns' h => ?_⟩
            rw [(hunique columns').mp h]
            exact ⟨(MasterItem.crawl_inside_iff hinside).mp hmaster,
              (SequenceItem.crawl_inside_iff hinside).mp hsequence⟩
        · rintro ⟨-, h⟩
          obtain ⟨hmaster, hsequence⟩ :=
            (h n rfl v.bytes ((hstored _).mpr rfl)).2 columns ((hunique columns).mpr rfl)
          refine ⟨(fun halt heq => nomatch heq), fun cell heq => ?_⟩
          obtain rfl := Except.ok.inj heq
          exact ⟨fun i hi => valueAt_eq hinside hi,
            (MasterItem.crawl_inside_iff hinside).mpr hmaster,
            (SequenceItem.crawl_inside_iff hinside).mpr hsequence⟩

/-- A cell with three texts, an integer and a null. -/
theorem tame_master :
    Tame (Page.secondPage [10, 6, 15, 15, 15, 1, 0, 97, 98, 99, 7]) .leafIndex
      (Page.filled [10, 6, 15, 15, 15, 1, 0, 97, 98, 99, 7]) 0 := by
  refine (safe_iff_tame (show Pager.acquirePageData _ 2 = some _ from rfl)
    (by decide +kernel)).mp ?_
  have hrun : parse (Page.secondPage [10, 6, 15, 15, 15, 1, 0, 97, 98, 99, 7]) .leafIndex
      (Page.filled [10, 6, 15, 15, 15, 1, 0, 97, 98, 99, 7]) 0 =
        .ok ⟨0, 0, [6, 15, 15, 15, 1, 0, 97, 98, 99, 7],
          [(15, 6), (15, 7), (15, 8), (1, 9), (0, 10)]⟩ := by
    decide +kernel
  rw [Safe, Nat.cast_zero, hrun]
  refine ⟨(fun halt heq => nomatch heq), fun cell heq => ?_⟩
  obtain rfl := Except.ok.inj heq
  exact ⟨by decide +kernel, by decide +kernel, by decide +kernel⟩

/-- The payload size `-1` at the end of a page, a record of one column for the crawler of the master
table, and a header that ends before `2 ^ 31` with a value that ends there. -/
theorem parse_unsafe :
    parse (Page.secondPage (List.replicate 507 0 ++ [143, 255, 255, 255, 127])) .leafIndex
        (Page.filled (List.replicate 507 0 ++ [143, 255, 255, 255, 127])) 507 = .error .outside ∧
      parse (Page.secondPage [3, 2, 1, 7]) .leafIndex (Page.filled [3, 2, 1, 7]) 0 =
        .ok ⟨0, 0, [2, 1, 7], [(1, 2)]⟩ ∧
      MasterItem.crawl ⟨0, 0, [2, 1, 7], [(1, 2)]⟩ = .error .outside ∧
      parse (Page.secondPage [10, 135, 255, 255, 255, 127, 1]) .leafIndex
        (Page.filled [10, 135, 255, 255, 255, 127, 1]) 0 = .error .overflow := by
  refine ⟨?_, ?_, ?_, ?_⟩ <;> decide +kernel

end Safety

end Cell

end Wcdb.Repair
