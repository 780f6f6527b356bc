import Wcdb.Base.VarintEncoding
import Wcdb.Repair.IncrementalMaterialFormat

/-!
# What a material writes when memory is refused

Both materials are written in one way: steps that write the header and the info, steps that write
the contents into a second buffer, and the second buffer sealed with its checksum and its size. A
`Plan` is these steps; `Material.serialize_eq_ok_iff` and its counterpart for the incremental
material say that the serializers follow their plans.

A step loses bytes without saying so when it is a sized put that is refused, or a put whose result
is not looked at. A serializer that reports success has written the whole encoding exactly if no
step of the run loses anything (`truthful_serialize_iff`).
-/

namespace Wcdb.Repair

open Serialization

/-- The steps of a serializer, before the contents and of the contents. -/
structure Plan where
  header : List Step
  body : List Step

namespace Plan

variable (alloc : ℕ → Bool) (hash : List UInt8 → UInt32)

/-- `serializeData`. -/
def sealSteps (data : List UInt8) : List Step :=
  [.checked (.fourBytes (Material.checksum hash data)), .checked (.sizedData data)]

/-- Both buffers draw on one allocator. -/
def write (plan : Plan) (s : Serialization) : Option Serialization :=
  match runSteps alloc plan.header s with
  | (false, _) => none
  | (true, s) =>
    match runSteps alloc plan.body { empty with allocations := s.allocations } with
    | (false, _) => none
    | (true, encoder) =>
      match runSteps alloc (sealSteps hash encoder.bytes)
          { s with allocations := encoder.allocations } with
      | (false, _) => none
      | (true, s) => some s

/-- No step of the run loses anything. -/
def sound (plan : Plan) (s : Serialization) : Bool :=
  let s' := (runSteps alloc plan.header s).2
  let encoder := (runSteps alloc plan.body { empty with allocations := s'.allocations }).2
  soundSteps alloc plan.header s &&
    (soundSteps alloc plan.body { empty with allocations := s'.allocations } &&
      soundSteps alloc (sealSteps hash encoder.bytes)
        { s' with allocations := encoder.allocations })

/-- The contents. -/
def contents (plan : Plan) : List UInt8 := plan.body.flatMap Step.encode

/-- The full encoding. -/
def encoding (plan : Plan) : List UInt8 :=
  plan.header.flatMap Step.encode ++ (sealSteps hash plan.contents).flatMap Step.encode

variable {alloc hash}

theorem runSteps_seal (data : List UInt8) :
    runSteps alloc (sealSteps hash data) = Material.serializeData alloc hash data := by
  simp only [sealSteps, runSteps, forEach, andThen_done, Step.run, Put.run, Material.serializeData]

/-- A serializer with the header of a plan follows the plan if its body does. -/
theorem write_eq_some_iff {ε : Type} (plan : Plan) (body : Serialization → Except ε Serialization)
    {Writable : Prop}
    (hbody : ∀ s t, body s = .ok t ↔ Writable ∧ runSteps alloc plan.body s = (true, t))
    (memory : ε) {s t : Serialization} :
    (match runSteps alloc plan.header s with
      | (false, _) => .error memory
      | (true, s) => do
          let encoder ← body { empty with allocations := s.allocations }
          match Material.serializeData alloc hash encoder.bytes
            { s with allocations := encoder.allocations } with
          | (true, s) => .ok s
          | (false, _) => .error memory : Except ε Serialization) = .ok t ↔
      Writable ∧ plan.write alloc hash s = some t := by
  rw [write]
  rcases runSteps alloc plan.header s with ⟨_ | _, w⟩
  · simp
  simp only
  generalize ({ empty with allocations := w.allocations } : Serialization) = buffer
  rcases hrun : body buffer with e | encoder
  · rcases hplan : runSteps alloc plan.body buffer with ⟨_ | _, u⟩
    · simp [bind, Except.bind]
    · have hnot : ¬Writable := fun h => by simpa [hrun] using (hbody buffer u).mpr ⟨h, hplan⟩
      simp [bind, Except.bind, hnot]
  · obtain ⟨hwritable, hplan⟩ := (hbody buffer encoder).mp hrun
    simp only [bind, Except.bind, hplan, runSteps_seal, hwritable, true_and]
    rcases Material.serializeData alloc hash encoder.bytes
      { w with allocations := encoder.allocations } with ⟨_ | _, u⟩ <;> simp

private theorem length_seal (data : List UInt8) :
    ((sealSteps hash data).flatMap Step.encode).length =
      4 + ((encodeVarint (u64 data.length)).length + data.length) := by
  simp only [sealSteps, List.flatMap_cons, List.flatMap_nil, List.append_nil, Step.encode,
    Put.encode, encodeSized, List.length_append]
  rfl

/-- **A run that reports success has written the full encoding** exactly if it loses nothing. -/
theorem write_iff {plan : Plan} (hfit : plan.contents.length < 2 ^ 64) {s t : Serialization}
    (h : plan.write alloc hash s = some t) :
    t.bytes = s.bytes ++ plan.encoding hash ↔ plan.sound alloc hash s = true := by
  rw [write] at h
  rcases hhead : runSteps alloc plan.header s with ⟨_ | _, s'⟩
  · simp [hhead] at h
  rw [hhead] at h
  simp only at h
  rcases hbody : runSteps alloc plan.body { empty with allocations := s'.allocations } with
    ⟨_ | _, encoder⟩
  · simp [hbody] at h
  rw [hbody] at h
  simp only at h
  rcases hseal : runSteps alloc (sealSteps hash encoder.bytes)
      { s' with allocations := encoder.allocations } with ⟨_ | _, t'⟩
  · simp [hseal] at h
  simp only [hseal, Option.some.injEq] at h
  subst h
  obtain ⟨head, hheadBytes, hheadLe, hheadKept, hheadSound⟩ := runSteps_kept hhead
  obtain ⟨kept, hbodyBytes, hbodyLe, hbodyKept, hbodySound⟩ := runSteps_kept hbody
  obtain ⟨last, hlastBytes, hlastLe, hlastKept, hlastSound⟩ := runSteps_kept hseal
  replace hbodyBytes : encoder.bytes = kept := by simpa [Serialization.empty] using hbodyBytes
  replace hlastBytes : t'.bytes = s'.bytes ++ last := hlastBytes
  replace hbodyLe : kept.length ≤ plan.contents.length := hbodyLe
  rw [length_seal, hbodyBytes, u64_of_lt (by omega)] at hlastLe
  have hmono := length_encodeVarint_mono hbodyLe hfit
  have htotal : t'.bytes = s.bytes ++ (head ++ last) := by
    rw [hlastBytes, hheadBytes, List.append_assoc]
  rw [htotal, List.append_cancel_left_eq]
  simp only [sound, hhead, hbody, encoding, Bool.and_eq_true]
  constructor
  · intro heq
    have hlen := congrArg List.length heq
    rw [List.length_append, List.length_append, length_seal, u64_of_lt hfit] at hlen
    have hcontents : kept.length = plan.contents.length := by omega
    have hbodyAll := hbodySound hcontents
    refine ⟨hheadSound (by omega), hbodyAll, hlastSound ?_⟩
    rw [length_seal, hbodyBytes, u64_of_lt (by omega)]
    rw [hcontents] at hlastLe ⊢
    omega
  · rintro ⟨hheadAll, hbodyAll, hlastAll⟩
    rw [hheadKept hheadAll, hlastKept hlastAll, hbodyBytes, hbodyKept hbodyAll]
    rfl

/-- Without refusals the full encoding is written. -/
theorem write_granted (halloc : ∀ n, alloc n = true) {plan : Plan}
    (hheader : ∀ step ∈ plan.header, step.appends = true)
    (hbody : ∀ step ∈ plan.body, step.appends = true) (s : Serialization) :
    ∃ t, plan.write alloc hash s = some t ∧ t.bytes = s.bytes ++ plan.encoding hash := by
  obtain ⟨s', hs', hbytes⟩ := runSteps_puts halloc hheader s
  obtain ⟨encoder, hencoder, hbytes'⟩ :=
    runSteps_puts halloc hbody { empty with allocations := s'.allocations }
  obtain ⟨t, ht, hbytes''⟩ := runSteps_puts halloc
    (show ∀ step ∈ sealSteps hash encoder.bytes, step.appends = true by
      simp [sealSteps, Step.appends, Put.appends]) { s' with allocations := encoder.allocations }
  refine ⟨t, by simp only [write, hs', hencoder, ht], ?_⟩
  have hcontents : encoder.bytes = plan.contents := hbytes'
  rw [hbytes'', hcontents, hbytes, encoding, List.append_assoc]

end Plan

end Wcdb.Repair

namespace Wcdb.Material

open Serialization Repair

/-! ### The plan of a material -/

/-- The steps of the page loop from index `i` on, and of what follows it. -/
def pageSteps (size : ℕ) : ℕ → UInt32 → List Page → List Step
  | _, prePageNo, [] => if prePageNo = 0 then [.checked (.varint 0)] else []
  | i, prePageNo, page :: pages =>
      (if page.number = 0 then []
        else if prePageNo = 0 then
          [.checked (.varint (UInt64.ofNat (size - i))), .checked (.varint page.number.toUInt64),
            .checked (.fourBytes page.hash)]
        else
          [.checked (.varint (page.number - prePageNo).toUInt64),
            .checked (.fourBytes page.hash)]) ++
        pageSteps size (i + 1) (if page.number = 0 then prePageNo else page.number) pages

def contentSteps (c : Content) : List Step :=
  [.checked (.sizedString c.tableName), .checked (.varint c.rootPage.toUInt64),
    .checked (.varint c.sequence.toUInt64), .checked (.sizedString c.sql),
    .checked (.varint (UInt64.ofNat c.associatedSQLs.length))] ++
    (c.associatedSQLs.map fun sql => .checked (.sizedString sql)) ++
      pageSteps c.verifiedPagenos.length 0 0 (sortPages c.verifiedPagenos)

def plan (m : Material) : Plan where
  header :=
    [.reserve headerSize, .ignored (.fourBytes magic), .ignored (.fourBytes version),
      .reserve Info.size, .ignored (.fourBytes m.info.pageSize),
      .ignored (.fourBytes m.info.reservedBytes), .ignored (.fourBytes m.info.walSalt.1),
      .ignored (.fourBytes m.info.walSalt.2), .ignored (.fourBytes m.info.nBackFill),
      .ignored (.fourBytes m.info.seqTableRootPage)]
  body := m.contentsList.flatMap contentSteps

/-- What the writer refuses apart from memory. -/
def Writable (c : Content) : Prop :=
  c.tableName ≠ [] ∧ c.sql ≠ [] ∧ c.verifiedPagenos.length < 2 ^ 31

variable {alloc : ℕ → Bool} {hash : List UInt8 → UInt32}

/-- The outcome of steps. -/
private def outcome : Bool × Serialization → Except WriteFailure Serialization
  | (true, s) => .ok s
  | (false, _) => .error .memory

private theorem outcome_andThen (f g : Serialization → Bool × Serialization) (s : Serialization) :
    outcome (andThen f g s) =
      match f s with
      | (true, t) => outcome (g t)
      | (false, _) => .error .memory := by
  rw [andThen]
  rcases f s with ⟨_ | _, t⟩
  · rfl
  · rfl

private theorem outcome_eq_ok {r : Bool × Serialization} {t : Serialization} :
    outcome r = .ok t ↔ r = (true, t) := by
  obtain ⟨_ | _, s⟩ := r
  · simp [outcome]
  · simp [outcome]

/-- The steps of one page. -/
private theorem runSteps_page (size i : ℕ) (prePageNo : UInt32) (page : Page) (s : Serialization) :
    runSteps alloc (if page.number = 0 then []
      else if prePageNo = 0 then
        [.checked (.varint (UInt64.ofNat (size - i))), .checked (.varint page.number.toUInt64),
          .checked (.fourBytes page.hash)]
      else
        [.checked (.varint (page.number - prePageNo).toUInt64),
          .checked (.fourBytes page.hash)]) s =
      if page.number = 0 then (true, s)
      else if prePageNo = 0 then
        andThen (putVarintOk alloc (size - i))
          (andThen (putVarintOk alloc page.number.toNat) (put4BytesUInt alloc page.hash)) s
      else
        andThen (putVarintOk alloc (page.number - prePageNo).toNat)
          (put4BytesUInt alloc page.hash) s := by
  split_ifs
  · rfl
  · simp only [runSteps, forEach, andThen_done, Step.run, Put.run, putVarintOk_ofNat,
      UInt32.toNat_toUInt64]
  · simp only [runSteps, forEach, andThen_done, Step.run, Put.run, UInt32.toNat_toUInt64]

/-- Below the range of the counter, the page loop runs its steps. -/
theorem serializePages_eq_outcome {size i : ℕ} {prePageNo : UInt32} {pages : List Page}
    (hi : i + pages.length < 2 ^ 31) (s : Serialization) :
    serializePages alloc size i prePageNo pages s =
      outcome (runSteps alloc (pageSteps size i prePageNo pages) s) := by
  induction pages generalizing i prePageNo s with
  | nil =>
    rw [serializePages, pageSteps]
    split_ifs
    · simp only [runSteps, forEach, andThen_done, Step.run, Put.run]
      change _ = outcome (putVarintOk alloc 0 s)
      rcases putVarintOk alloc 0 s with ⟨_ | _, t⟩
      · rfl
      · rfl
    · rfl
  | cons page pages ih =>
    rw [List.length_cons] at hi
    rw [serializePages, pageSteps, runSteps_append, outcome_andThen, runSteps_page]
    generalize (if page.number = 0 then (true, s)
      else if prePageNo = 0 then
        andThen (putVarintOk alloc (size - i))
          (andThen (putVarintOk alloc page.number.toNat) (put4BytesUInt alloc page.hash)) s
      else
        andThen (putVarintOk alloc (page.number - prePageNo).toNat)
          (put4BytesUInt alloc page.hash) s) = written
    obtain ⟨_ | _, t⟩ := written
    · rfl
    · simp only
      rw [if_neg (by omega), ih (by omega)]

private theorem runSteps_sized (strings : List (List UInt8)) :
    runSteps alloc (strings.map fun string => .checked (.sizedString string)) =
      forEach (putSizedString alloc) strings := by
  induction strings with
  | nil => rfl
  | cons string strings ih =>
    rw [List.map_cons, forEach, ← ih]
    rfl

theorem Content.serialize_eq_ok_iff {c : Content} {s t : Serialization} :
    c.serialize alloc s = .ok t ↔
      c.verifiedPagenos.length < 2 ^ 31 ∧ runSteps alloc (contentSteps c) s = (true, t) := by
  have hlead : runSteps alloc [.checked (.sizedString c.tableName),
      .checked (.varint c.rootPage.toUInt64), .checked (.varint c.sequence.toUInt64),
        .checked (.sizedString c.sql), .checked (.varint (UInt64.ofNat c.associatedSQLs.length))] =
      andThen (putSizedString alloc c.tableName)
        (andThen (putVarintOk alloc c.rootPage.toNat)
          (andThen (putVarintOk alloc c.sequence.toUInt64.toNat)
            (andThen (putSizedString alloc c.sql)
              (putVarintOk alloc c.associatedSQLs.length)))) := by
    simp only [runSteps, forEach, andThen_done, Step.run, Put.run, UInt32.toNat_toUInt64,
      putVarintOk_ofNat]
  rw [← outcome_eq_ok, contentSteps, runSteps_append, runSteps_append, runSteps_sized, hlead,
    outcome_andThen, Content.serialize]
  simp only [andThen_assoc]
  generalize andThen (putSizedString alloc c.tableName)
    (andThen (putVarintOk alloc c.rootPage.toNat)
    (andThen (putVarintOk alloc c.sequence.toUInt64.toNat) (andThen (putSizedString alloc c.sql)
      (andThen (putVarintOk alloc c.associatedSQLs.length)
        (forEach (putSizedString alloc) c.associatedSQLs))))) s = written
  obtain ⟨_ | _, w⟩ := written
  · simp
  · simp only
    by_cases hcount : c.verifiedPagenos.length < 2 ^ 31
    · have hlen := (sortPages_perm c.verifiedPagenos).length_eq
      rw [serializePages_eq_outcome (by omega), and_iff_right hcount]
    · refine iff_of_false ?_ fun h => hcount h.1
      have hlen := (sortPages_perm c.verifiedPagenos).length_eq
      exact serializePages_overflow (by omega) (by omega) 0 w t

theorem serializeContents_eq_ok_iff {contents : List Content} {s t : Serialization} :
    serializeContents alloc contents s = .ok t ↔
      (∀ c ∈ contents, Writable c) ∧
        runSteps alloc (contents.flatMap contentSteps) s = (true, t) := by
  induction contents generalizing s with
  | nil => simp [serializeContents, runSteps, forEach]
  | cons c contents ih =>
    rw [serializeContents, List.flatMap_cons, runSteps_append, List.forall_mem_cons, Writable]
    split_ifs with htable hsql
    · simp [htable]
    · simp [hsql]
    · rw [andThen]
      constructor
      · intro h
        rcases hc : c.serialize alloc s with e | w
        · rw [hc] at h
          exact absurd h (by simp [bind, Except.bind])
        · rw [hc] at h
          obtain ⟨hwritable, hrest⟩ := ih.mp h
          obtain ⟨hcount, hsteps⟩ := Content.serialize_eq_ok_iff.mp hc
          exact ⟨⟨⟨htable, hsql, hcount⟩, hwritable⟩, by rw [hsteps]; exact hrest⟩
      · rintro ⟨⟨⟨-, -, hcount⟩, hwritable⟩, h⟩
        rcases hsteps : runSteps alloc (contentSteps c) s with ⟨_ | _, w⟩
        · rw [hsteps] at h
          exact absurd h (by simp)
        · rw [hsteps] at h
          rw [Content.serialize_eq_ok_iff.mpr ⟨hcount, hsteps⟩]
          exact ih.mpr ⟨hwritable, h⟩

/-- **The writer of a material follows its plan.** -/
theorem serialize_eq_ok_iff {m : Material} {s t : Serialization} :
    m.serialize alloc hash s = .ok t ↔
      (∀ c ∈ m.contentsList, Writable c) ∧ m.plan.write alloc hash s = some t := by
  have hhead : runSteps alloc m.plan.header =
      andThen (fun s => s.expand alloc headerSize)
        (andThen (ignoringResult (put4BytesUInt alloc magic))
          (andThen (ignoringResult (put4BytesUInt alloc version)) (m.info.serialize alloc))) := rfl
  rw [serialize, ← hhead]
  exact m.plan.write_eq_some_iff (serializeContents alloc m.contentsList)
    (fun _ _ => serializeContents_eq_ok_iff) WriteFailure.memory

end Wcdb.Material

namespace Wcdb.Repair.IncrementalMaterial

open Serialization

/-! ### The plan of an incremental material -/

def pageSteps (page : Page) : List Step :=
  .checked (.varint page.number.toUInt64) ::
    if page.hash ≠ 0 then
      [.checked (.varint (UInt64.ofNat (unsigned (2 * page.type.toInt + 1)))),
        .checked (.fourBytes page.hash)]
    else [.checked (.varint (UInt64.ofNat (unsigned (2 * page.type.toInt))))]

def plan (m : IncrementalMaterial) : Plan where
  header :=
    [.reserve headerSize, .ignored (.fourBytes magic), .ignored (.fourBytes version),
      .reserve Info.saltSize, .ignored (.fourBytes m.info.lastWalSalt.1),
      .ignored (.fourBytes m.info.lastWalSalt.2), .ignored (.fourBytes m.info.currentWalSalt.1),
      .ignored (.fourBytes m.info.currentWalSalt.2),
      .ignored (.varint m.info.lastNBackFill.toUInt64),
      .ignored (.varint m.info.currentNBackFill.toUInt64),
      .ignored (.fourBytes m.info.lastSchemaCookie),
      .ignored (.varint (UInt64.ofNat m.info.lastCheckPointFinish.toNat)),
      .ignored (.fourBytes m.info.lastBackupTime),
      .ignored (.varint (UInt64.ofNat (unsigned m.info.incrementalBackupTimes.toInt)))]
  body := m.pages.flatMap fun element => pageSteps element.2

variable {alloc : ℕ → Bool} {hash : List UInt8 → UInt32}

theorem Page.serialize_eq (page : Page) :
    page.serialize alloc = runSteps alloc (pageSteps page) := by
  rw [Page.serialize, pageSteps]
  split_ifs
  · simp only [runSteps, forEach, andThen_done, Step.run, Put.run, putVarintOk_ofNat,
      UInt32.toNat_toUInt64]
  · simp only [runSteps, forEach, andThen_done, Step.run, Put.run, putVarintOk_ofNat,
      UInt32.toNat_toUInt64]

theorem serializePages_eq_ok_iff {pages : List (UInt32 × Page)} {s t : Serialization} :
    serializePages alloc pages s = .ok t ↔
      (∀ element ∈ pages, element.2.number ≠ 0) ∧
        runSteps alloc (pages.flatMap fun element => pageSteps element.2) s = (true, t) := by
  induction pages generalizing s with
  | nil => simp [serializePages, runSteps, forEach]
  | cons element pages ih =>
    rw [serializePages, List.flatMap_cons, runSteps_append, List.forall_mem_cons]
    split_ifs with hzero
    · simp [hzero]
    · rw [andThen, Page.serialize_eq]
      rcases runSteps alloc (pageSteps element.2) s with ⟨_ | _, w⟩
      · simp
      · simpa [hzero] using ih

/-- **The writer of an incremental material follows its plan.** -/
theorem serialize_eq_ok_iff {m : IncrementalMaterial} {s t : Serialization} :
    m.serialize alloc hash s = .ok t ↔
      (∀ element ∈ m.pages, element.2.number ≠ 0) ∧ m.plan.write alloc hash s = some t := by
  have hhead : runSteps alloc m.plan.header =
      andThen (fun s => s.expand alloc headerSize)
        (andThen (Material.ignoringResult (put4BytesUInt alloc magic))
          (andThen (Material.ignoringResult (put4BytesUInt alloc version))
            (m.info.serialize alloc))) := by
    simp only [plan, runSteps, forEach, Info.serialize, Step.run, Put.run, putVarintOk_ofNat,
      UInt32.toNat_toUInt64]
    rfl
  rw [serialize, ← hhead]
  exact m.plan.write_eq_some_iff (serializePages alloc m.pages)
    (fun _ _ => serializePages_eq_ok_iff) WriteFailure.memory

end Wcdb.Repair.IncrementalMaterial

namespace Wcdb.Repair

open Serialization

/-! ### When a material that is reported written is written -/

/-- A serializer that reports success has written what it writes without refusals. -/
def Complete {E : Type} (serialize : (ℕ → Bool) → Serialization → Except E Serialization)
    (alloc : ℕ → Bool) (s : Serialization) : Prop :=
  ∀ t, serialize alloc s = .ok t →
    ∃ w, serialize (fun _ => true) s = .ok w ∧ t.bytes = w.bytes

variable {alloc : ℕ → Bool} {hash : List UInt8 → UInt32}

private theorem pageSteps_appends {size i : ℕ} {prePageNo : UInt32} {pages : List Material.Page} :
    ∀ step ∈ Material.pageSteps size i prePageNo pages, step.appends = true := by
  induction pages generalizing i prePageNo with
  | nil =>
    rw [Material.pageSteps]
    split_ifs
    · simp [Step.appends, Put.appends]
    · simp
  | cons page pages ih =>
    intro step hstep
    rw [Material.pageSteps, List.mem_append] at hstep
    rcases hstep with hpage | hrest
    · split_ifs at hpage
      · exact absurd hpage List.not_mem_nil
      · simp only [List.mem_cons, List.not_mem_nil, or_false] at hpage
        rcases hpage with rfl | rfl | rfl <;> rfl
      · simp only [List.mem_cons, List.not_mem_nil, or_false] at hpage
        rcases hpage with rfl | rfl <;> rfl
    · exact ih step hrest

private theorem plan_appends (m : Wcdb.Material) :
    (∀ step ∈ m.plan.header, step.appends = true) ∧ ∀ step ∈ m.plan.body, step.appends = true := by
  constructor
  · simp [Material.plan, Step.appends, Put.appends]
  · intro step hstep
    obtain ⟨c, -, hstep⟩ := List.mem_flatMap.mp hstep
    rw [Material.contentSteps, List.mem_append, List.mem_append] at hstep
    rcases hstep with (hlead | hsql) | hpage
    · simp only [List.mem_cons, List.not_mem_nil, or_false] at hlead
      rcases hlead with rfl | rfl | rfl | rfl | rfl <;> rfl
    · obtain ⟨sql, -, rfl⟩ := List.mem_map.mp hsql
      rfl
    · exact pageSteps_appends step hpage

private theorem incrementalPlan_appends (m : IncrementalMaterial) :
    (∀ step ∈ m.plan.header, step.appends = true) ∧ ∀ step ∈ m.plan.body, step.appends = true := by
  constructor
  · simp [IncrementalMaterial.plan, Step.appends, Put.appends]
  · intro step hstep
    obtain ⟨element, -, hstep⟩ := List.mem_flatMap.mp hstep
    rw [IncrementalMaterial.pageSteps] at hstep
    split_ifs at hstep
    · simp only [List.mem_cons, List.not_mem_nil, or_false] at hstep
      rcases hstep with rfl | rfl | rfl <;> rfl
    · simp only [List.mem_cons, List.not_mem_nil, or_false] at hstep
      rcases hstep with rfl | rfl <;> rfl

/-- A serializer that follows a plan. -/
theorem Plan.complete_iff {E : Type} {plan : Plan} {writable : Prop}
    {serialize : (ℕ → Bool) → Serialization → Except E Serialization} {s : Serialization}
    (hfollows : ∀ alloc t,
      serialize alloc s = .ok t ↔ writable ∧ plan.write alloc hash s = some t)
    (happends : (∀ step ∈ plan.header, step.appends = true) ∧
      ∀ step ∈ plan.body, step.appends = true)
    (hfit : plan.contents.length < 2 ^ 64) :
    Complete serialize alloc s ↔
      ∀ t, serialize alloc s = .ok t → plan.sound alloc hash s = true := by
  refine forall₂_congr fun t ht => ?_
  obtain ⟨hwritable, hwrite⟩ := (hfollows alloc t).mp ht
  obtain ⟨w, hw, hbytes⟩ := @Plan.write_granted (fun _ => true) hash
    (fun _ => rfl) plan happends.1 happends.2 s
  have hok := (hfollows (fun _ => true) w).mpr ⟨hwritable, hw⟩
  rw [← write_iff hfit hwrite, ← hbytes]
  constructor
  · rintro ⟨w', hw', heq⟩
    rw [hok, Except.ok.injEq] at hw'
    rw [heq, hw']
  · exact fun heq => ⟨w, hok, heq⟩

/-- **What a put and a serializer report is true** exactly where no sized put is refused, no string
is put, and nothing is refused to a put whose result is not looked at. -/
theorem truthful_serialize_iff (alloc : ℕ → Bool) (hash : List UInt8 → UInt32) (s : Serialization) :
    (∀ puts, (∀ put ∈ visited alloc puts s, put.1.Truthful alloc put.2) ↔
      ∀ put ∈ visited alloc puts s, put.1.sound alloc put.2 = true) ∧
    (∀ m : Wcdb.Material, m.plan.contents.length < 2 ^ 64 →
      (Complete (fun alloc => m.serialize alloc hash) alloc s ↔
        ∀ t, m.serialize alloc hash s = .ok t → m.plan.sound alloc hash s = true)) ∧
    ∀ m : IncrementalMaterial, m.plan.contents.length < 2 ^ 64 →
      (Complete (fun alloc => m.serialize alloc hash) alloc s ↔
        ∀ t, m.serialize alloc hash s = .ok t → m.plan.sound alloc hash s = true) := by
  refine ⟨fun puts => truthful_visited_iff puts s, fun m hfit => ?_, fun m hfit => ?_⟩
  · exact Plan.complete_iff (fun _ _ => Material.serialize_eq_ok_iff) (plan_appends m) hfit
  · exact Plan.complete_iff (fun _ _ => IncrementalMaterial.serialize_eq_ok_iff)
      (incrementalPlan_appends m) hfit

/-- Five leaves that a checkpoint has overwritten. -/
def fiveLeaves : IncrementalMaterial where
  info := { currentWalSalt := (17, 4), currentNBackFill := 3, lastBackupTime := 1700000000 }
  pages := [(2, ⟨2, 13, 0x5a⟩), (3, ⟨3, 13, 0x5b⟩), (4, ⟨4, 13, 0x5c⟩), (5, ⟨5, 13, 0x5d⟩),
    (6, ⟨6, 13, 0x5e⟩)]

theorem complete_fiveLeaves :
    Complete (fun alloc => fiveLeaves.serialize alloc Material.crc32) (fun _ => true) .empty :=
  ((truthful_serialize_iff (fun _ => true) Material.crc32 .empty).2.2 fiveLeaves
    (by decide +kernel)).mpr fun _ _ => by decide +kernel

/-- The last allocation, for the sealed contents, is refused. -/
theorem not_complete_fiveLeaves :
    ¬Complete (fun alloc => fiveLeaves.serialize alloc Material.crc32) (fun n => n ≠ 7) .empty := by
  intro h
  have hshort : (fiveLeaves.serialize (fun n => n ≠ 7) Material.crc32 .empty).toOption.map
      (fun t => t.bytes.length) = some 40 := by decide +kernel
  have hfull : (fiveLeaves.serialize (fun _ => true) Material.crc32 .empty).toOption.map
      (fun t => t.bytes.length) = some 71 := by decide +kernel
  rcases ht : fiveLeaves.serialize (fun n => n ≠ 7) Material.crc32 .empty with e | t
  · rw [ht] at hshort
    exact absurd hshort (by simp [Except.toOption])
  · obtain ⟨w, hw, hbytes⟩ := h t ht
    simp only at hw
    rw [ht] at hshort
    rw [hw] at hfull
    simp only [Except.toOption, Option.map_some, Option.some.injEq] at hshort hfull
    rw [hbytes] at hshort
    omega

end Wcdb.Repair
