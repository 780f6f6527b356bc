import Wcdb.Base.Serialization

/-!
# Put operations when memory is refused

Every expansion of the writer can be refused. `Put.Truthful` is what a caller relies on: a put that
reports success has appended its encoding, one that reports failure has left the bytes alone. The
primitive puts keep it. The sized puts report success also when an expansion was refused, and
`putString` never moves the cursor, so that its bytes are the next to be overwritten.

A serializer is a list of steps that ends at the first failure reported. `runSteps_spec` says what
a run that reports success has written.
-/

namespace Wcdb.Serialization

deriving instance DecidableEq for Serialization

variable (alloc : ℕ → Bool)

/-- `put8BytesUInt`: on a failure the cursor goes back. -/
def put8BytesUInt (value : UInt64) (s : Serialization) : Bool × Serialization :=
  match andThen (put4BytesUInt alloc (value >>> 32).toUInt32)
    (put4BytesUInt alloc value.toUInt32) s with
  | (true, t) => (true, t)
  | (false, t) => (false, { t with bytes := s.bytes })

/-- `putString`: the bytes are copied behind the cursor, and the cursor stays. -/
def putString (string : List UInt8) (s : Serialization) : Bool × Serialization :=
  s.expand alloc (string.length + 1)

/-- The put operations. -/
inductive Put where
  | fourBytes (value : UInt32)
  | eightBytes (value : UInt64)
  | varint (value : UInt64)
  | sizedString (string : List UInt8)
  | sizedData (data : List UInt8)
  | string (string : List UInt8)
  deriving DecidableEq, Repr

namespace Put

def run : Put → Serialization → Bool × Serialization
  | .fourBytes value => put4BytesUInt alloc value
  | .eightBytes value => put8BytesUInt alloc value
  | .varint value => putVarintOk alloc value.toNat
  | .sizedString bytes => putSizedString alloc bytes
  | .sizedData bytes => putSizedString alloc bytes
  | .string bytes => putString alloc bytes

/-- The encoding of a put; a string is followed by its terminator. -/
def encode : Put → List UInt8
  | .fourBytes value => encode4Bytes value
  | .eightBytes value => encode4Bytes (value >>> 32).toUInt32 ++ encode4Bytes value.toUInt32
  | .varint value => encodeVarint value.toNat
  | .sizedString bytes => encodeSized bytes
  | .sizedData bytes => encodeSized bytes
  | .string bytes => bytes ++ [0]

/-- The result of a put is the truth about the bytes. -/
def Truthful (p : Put) (s : Serialization) : Prop :=
  (∀ t, p.run alloc s = (true, t) → t.bytes = s.bytes ++ p.encode) ∧
    ∀ t, p.run alloc s = (false, t) → t.bytes = s.bytes

/-- The two expansions of a sized put. -/
def sizedGranted (bytes : List UInt8) (s : Serialization) : Bool :=
  (s.expand alloc 9).1 && ((s.putVarint alloc bytes.length).2.expand alloc bytes.length).1

/-- Every expansion of the put is granted. -/
def granted (p : Put) (s : Serialization) : Bool :=
  match p with
  | .fourBytes _ => (s.expand alloc 4).1
  | .eightBytes value =>
      (s.expand alloc 4).1 && ((put4BytesUInt alloc (value >>> 32).toUInt32 s).2.expand alloc 4).1
  | .varint _ => (s.expand alloc 9).1
  | .sizedString bytes => sizedGranted alloc bytes s
  | .sizedData bytes => sizedGranted alloc bytes s
  | .string bytes => (s.expand alloc (bytes.length + 1)).1

/-- The puts that report a refusal. -/
def primitive : Put → Bool
  | .sizedString _ => false
  | .sizedData _ => false
  | _ => true

/-- The puts that move the cursor. -/
def appends : Put → Bool
  | .string _ => false
  | _ => true

/-- A sized put is granted its room, and a string is refused it. -/
def sound (p : Put) (s : Serialization) : Bool :=
  match p with
  | .sizedString bytes => sizedGranted alloc bytes s
  | .sizedData bytes => sizedGranted alloc bytes s
  | .string bytes => !(s.expand alloc (bytes.length + 1)).1
  | _ => true

end Put

/-! ### What a put appends -/

section Appended

variable {alloc}

@[simp] theorem expand_bytes (s : Serialization) (size : ℕ) :
    (s.expand alloc size).2.bytes = s.bytes := by
  rw [expand, resize]
  split_ifs <;> rfl

theorem encode4Bytes_ne_nil (value : UInt32) : encode4Bytes value ≠ [] := List.cons_ne_nil _ _

theorem encodeSized_ne_nil (bytes : List UInt8) : encodeSized bytes ≠ [] := by
  rw [encodeSized]
  exact List.append_ne_nil_of_left_ne_nil (encodeVarint_ne_nil _) _

/-- Four bytes are written if and only if they find room. -/
theorem put4BytesUInt_eq (value : UInt32) (s : Serialization) :
    put4BytesUInt alloc value s =
      if (s.expand alloc 4).1 then (true, (s.expand alloc 4).2.append (encode4Bytes value))
      else (false, (s.expand alloc 4).2) := by
  rw [put4BytesUInt]
  rcases s.expand alloc 4 with ⟨_ | _, t⟩
  · rfl
  · rfl

theorem putVarint_eq (value : ℕ) (s : Serialization) :
    s.putVarint alloc value =
      if (s.expand alloc 9).1 then
        ((encodeVarint (u64 value)).length, (s.expand alloc 9).2.append (encodeVarint (u64 value)))
      else (0, (s.expand alloc 9).2) := by
  rw [putVarint]
  rcases s.expand alloc 9 with ⟨_ | _, t⟩
  · rfl
  · rfl

theorem putVarintOk_eq (value : ℕ) (s : Serialization) :
    s.putVarintOk alloc value =
      if (s.expand alloc 9).1 then (true, (s.expand alloc 9).2.append (encodeVarint (u64 value)))
      else (false, (s.expand alloc 9).2) := by
  have hpos := List.length_pos_iff.mpr (encodeVarint_ne_nil (u64 value))
  rw [putVarintOk, putVarint_eq]
  split_ifs
  · simp [hpos.ne']
  · rfl

theorem putVarintOk_ofNat (n : ℕ) :
    putVarintOk alloc (UInt64.ofNat n).toNat = putVarintOk alloc n := by
  funext s
  rw [putVarintOk_eq, putVarintOk_eq, UInt64.toNat_ofNat']
  simp [u64]

/-- A sized put succeeds always, and writes all or nothing. -/
theorem putSizedString_eq (bytes : List UInt8) (s : Serialization) :
    ∃ t, putSizedString alloc bytes s = (true, t) ∧
      t.bytes = if Put.sizedGranted alloc bytes s then s.bytes ++ encodeSized bytes
        else s.bytes := by
  have hpos := List.length_pos_iff.mpr (encodeVarint_ne_nil (u64 bytes.length))
  rw [putSizedString, Put.sizedGranted, putVarint_eq]
  by_cases hsize : (s.expand alloc 9).1 = true
  · obtain ⟨n, hn⟩ := Nat.exists_eq_succ_of_ne_zero hpos.ne'
    simp only [hsize, if_true, hn, Bool.true_and]
    generalize hgrown : (s.expand alloc 9).2.append (encodeVarint (u64 bytes.length)) = grown
    have hbytes : grown.bytes = s.bytes ++ encodeVarint (u64 bytes.length) := by
      rw [← hgrown, append, expand_bytes]
    have hroom := @expand_bytes alloc grown bytes.length
    generalize grown.expand alloc bytes.length = room at hroom ⊢
    obtain ⟨_ | _, t⟩ := room
    · exact ⟨_, rfl, rfl⟩
    · refine ⟨_, rfl, ?_⟩
      replace hroom : t.bytes = grown.bytes := hroom
      simp only [if_true]
      rw [append, hroom, hbytes, encodeSized, List.append_assoc]
  · simp only [hsize, Bool.false_eq_true, if_false, Bool.false_and]
    exact ⟨_, rfl, rfl⟩

theorem put8BytesUInt_eq (value : UInt64) (s : Serialization) :
    ∃ t, put8BytesUInt alloc value s = (Put.granted alloc (.eightBytes value) s, t) ∧
      t.bytes = if Put.granted alloc (.eightBytes value) s
        then s.bytes ++ (Put.eightBytes value).encode
        else s.bytes := by
  rw [put8BytesUInt, andThen, Put.granted, put4BytesUInt_eq]
  by_cases hfirst : (s.expand alloc 4).1 = true
  · simp only [hfirst, if_true, Bool.true_and, put4BytesUInt_eq]
    generalize hgrown : (s.expand alloc 4).2.append (encode4Bytes (value >>> 32).toUInt32) = grown
    have hbytes : grown.bytes = s.bytes ++ encode4Bytes (value >>> 32).toUInt32 := by
      rw [← hgrown, append, expand_bytes]
    have hroom := @expand_bytes alloc grown 4
    generalize grown.expand alloc 4 = room at hroom ⊢
    obtain ⟨_ | _, t⟩ := room
    · exact ⟨_, rfl, rfl⟩
    · refine ⟨_, rfl, ?_⟩
      replace hroom : t.bytes = grown.bytes := hroom
      simp only [if_true]
      rw [append, hroom, hbytes, Put.encode, List.append_assoc]
  · simp only [hfirst, Bool.false_eq_true, if_false, Bool.false_and]
    exact ⟨_, rfl, rfl⟩

end Appended

/-! ### When the result of a put is true -/

namespace Put

variable {alloc}

theorem encode_ne_nil (p : Put) : p.encode ≠ [] := by
  cases p with
  | fourBytes value => exact encode4Bytes_ne_nil value
  | eightBytes value => exact List.append_ne_nil_of_left_ne_nil (encode4Bytes_ne_nil _) _
  | varint value => exact encodeVarint_ne_nil _
  | sizedString bytes => exact encodeSized_ne_nil bytes
  | sizedData bytes => exact encodeSized_ne_nil bytes
  | string bytes => simp [encode]

/-- Success is reported by a put that had its room, and by a sized put always. The encoding is
written by a put that had its room, except for a string. -/
theorem run_spec (p : Put) (s : Serialization) :
    (p.run alloc s).1 = (p.granted alloc s || !p.primitive) ∧
      (p.run alloc s).2.bytes =
        if p.granted alloc s && p.appends then s.bytes ++ p.encode else s.bytes := by
  cases p with
  | fourBytes value =>
    rw [run, granted, put4BytesUInt_eq]
    split_ifs <;> simp_all [primitive, appends, append, encode]
  | eightBytes value =>
    obtain ⟨t, ht, hbytes⟩ := @put8BytesUInt_eq alloc value s
    rw [run, ht]
    simp [hbytes, primitive, appends]
  | varint value =>
    rw [run, granted, putVarintOk_eq, u64_of_lt value.toNat_lt]
    split_ifs <;> simp_all [primitive, appends, append, encode]
  | sizedString bytes =>
    obtain ⟨t, ht, hbytes⟩ := @putSizedString_eq alloc bytes s
    rw [run, ht]
    simp [hbytes, granted, primitive, appends, encode]
  | sizedData bytes =>
    obtain ⟨t, ht, hbytes⟩ := @putSizedString_eq alloc bytes s
    rw [run, ht]
    simp [hbytes, granted, primitive, appends, encode]
  | string bytes => simp [run, putString, granted, primitive, appends]

theorem sound_eq (p : Put) (s : Serialization) :
    p.sound alloc s = (!(p.granted alloc s || !p.primitive) || p.granted alloc s && p.appends) := by
  cases p with
  | sizedString | sizedData | string => simp [sound, granted, primitive, appends]
  | fourBytes value | eightBytes value | varint value => simp [sound, primitive, appends]

/-- **A put tells the truth** exactly where it is sound. -/
theorem truthful_iff (p : Put) (s : Serialization) :
    p.Truthful alloc s ↔ p.sound alloc s = true := by
  obtain ⟨hreported, hbytes⟩ := @run_spec alloc p s
  have hne : s.bytes ≠ s.bytes ++ p.encode := by simp [p.encode_ne_nil]
  rw [Truthful, sound_eq]
  generalize p.run alloc s = result at *
  obtain ⟨reported, t⟩ := result
  simp only at hreported hbytes
  simp only [Prod.mk.injEq]
  constructor
  · rintro ⟨hsuccess, -⟩
    by_contra hsound
    simp only [Bool.not_eq_true, Bool.or_eq_false_iff, Bool.not_eq_eq_eq_not,
      Bool.not_false] at hsound
    rw [hsound.1] at hreported
    rw [hsound.2, if_neg (by decide)] at hbytes
    exact hne (hbytes ▸ hsuccess t ⟨hreported, rfl⟩)
  · intro hsound
    refine ⟨?_, ?_⟩
    · rintro t' ⟨hsuccess, rfl⟩
      rw [hsuccess] at hreported
      rw [← hreported] at hsound
      rw [hbytes, if_pos (by simpa using hsound)]
    · rintro t' ⟨hfailure, rfl⟩
      rw [hfailure] at hreported
      have hrefused : p.granted alloc s = false := by
        cases hgranted : p.granted alloc s
        · rfl
        · rw [hgranted] at hreported
          exact Bool.noConfusion hreported
      simp [hbytes, hrefused]

end Put

/-! ### Sequences of puts -/

section Sequence

/-- The puts of a sequence, each with the writer it finds. -/
def visited : List Put → Serialization → List (Put × Serialization)
  | [], _ => []
  | p :: puts, s => (p, s) :: visited puts (p.run alloc s).2

variable {alloc}

/-- The results of a sequence of puts are true exactly if every put of it is sound. -/
theorem truthful_visited_iff (puts : List Put) (s : Serialization) :
    (∀ put ∈ visited alloc puts s, put.1.Truthful alloc put.2) ↔
      ∀ put ∈ visited alloc puts s, put.1.sound alloc put.2 = true :=
  forall₂_congr fun put _ => Put.truthful_iff put.1 put.2

end Sequence

/-! ### Serializers -/

/-- A step of a serializer: room asked for in advance, a put whose result is looked at, and a put
whose result is not. -/
inductive Step where
  | reserve (size : ℕ)
  | checked (p : Put)
  | ignored (p : Put)
  deriving DecidableEq, Repr

namespace Step

def run : Step → Serialization → Bool × Serialization
  | .reserve size => fun s => s.expand alloc size
  | .checked p => p.run alloc
  | .ignored p => fun s => (true, (p.run alloc s).2)

def encode : Step → List UInt8
  | .reserve _ => []
  | .checked p => p.encode
  | .ignored p => p.encode

/-- No step but that of a string leaves the cursor behind. -/
def appends : Step → Bool
  | .reserve _ => true
  | .checked p => p.appends
  | .ignored p => p.appends

/-- The step loses nothing without saying so. -/
def sound (step : Step) (s : Serialization) : Bool :=
  match step with
  | .reserve _ => true
  | .checked p => p.sound alloc s
  | .ignored p => p.granted alloc s && p.appends

end Step

/-- The steps up to the first that reports a failure. -/
def runSteps (steps : List Step) : Serialization → Bool × Serialization :=
  forEach (Step.run alloc) steps

/-- No step of the run loses anything. -/
def soundSteps : List Step → Serialization → Bool
  | [], _ => true
  | step :: steps, s =>
      step.sound alloc s && (!(step.run alloc s).1 || soundSteps steps (step.run alloc s).2)

section Steps

variable {alloc}

theorem andThen_done (f : Serialization → Bool × Serialization) :
    andThen f (fun s => (true, s)) = f := by
  funext s
  rw [andThen]
  rcases f s with ⟨_ | _, t⟩
  · rfl
  · rfl

theorem andThen_assoc (f g k : Serialization → Bool × Serialization) :
    andThen (andThen f g) k = andThen f (andThen g k) := by
  funext s
  simp only [andThen]
  rcases f s with ⟨_ | _, t⟩
  · rfl
  · rfl

theorem runSteps_append (steps steps' : List Step) :
    runSteps alloc (steps ++ steps') = andThen (runSteps alloc steps) (runSteps alloc steps') := by
  induction steps with
  | nil => rfl
  | cons step steps ih =>
    rw [List.cons_append, runSteps, forEach]
    change andThen (step.run alloc) (runSteps alloc (steps ++ steps')) = _
    rw [ih, ← andThen_assoc]
    rfl

/-- A step that reports success has written its encoding, or it was not sound and has written
nothing. -/
theorem Step.run_spec {step : Step} {s t : Serialization} (h : step.run alloc s = (true, t)) :
    step.sound alloc s = true ∧ t.bytes = s.bytes ++ step.encode ∨
      step.sound alloc s = false ∧ t.bytes = s.bytes ∧ step.encode ≠ [] := by
  cases step with
  | reserve size =>
    have hbytes := @expand_bytes alloc s size
    rw [show s.expand alloc size = (true, t) from h] at hbytes
    exact .inl ⟨rfl, by simpa [Step.encode] using hbytes⟩
  | checked p =>
    obtain ⟨hreported, hbytes⟩ := @Put.run_spec alloc p s
    rw [show p.run alloc s = (true, t) from h] at hreported hbytes
    rw [Step.sound, Put.sound_eq, ← hreported, Step.encode]
    cases hwritten : p.granted alloc s && p.appends with
    | true => exact .inl ⟨by simp, by simpa [hwritten] using hbytes⟩
    | false => exact .inr ⟨by simp, by simpa [hwritten] using hbytes, p.encode_ne_nil⟩
  | ignored p =>
    obtain ⟨-, hbytes⟩ := @Put.run_spec alloc p s
    have ht : (p.run alloc s).2 = t := congrArg Prod.snd h
    rw [ht] at hbytes
    rw [Step.sound, Step.encode]
    cases hwritten : p.granted alloc s && p.appends with
    | true => exact .inl ⟨rfl, by simpa [hwritten] using hbytes⟩
    | false => exact .inr ⟨rfl, by simpa [hwritten] using hbytes, p.encode_ne_nil⟩

/-- A run that reports success writes the encodings of its steps if all are sound, and fewer bytes
otherwise. -/
theorem runSteps_spec {steps : List Step} {s t : Serialization}
    (h : runSteps alloc steps s = (true, t)) :
    soundSteps alloc steps s = true ∧ t.bytes = s.bytes ++ steps.flatMap Step.encode ∨
      soundSteps alloc steps s = false ∧
        ∃ kept, t.bytes = s.bytes ++ kept ∧ kept.length < (steps.flatMap Step.encode).length := by
  induction steps generalizing s with
  | nil =>
    have ht : s = t := congrArg Prod.snd h
    exact .inl ⟨rfl, by simp [ht]⟩
  | cons step steps ih =>
    rw [runSteps, forEach, andThen] at h
    rcases hstep : step.run alloc s with ⟨_ | _, w⟩
    · rw [hstep] at h
      exact absurd h (by simp)
    rw [hstep] at h
    rw [soundSteps, hstep, List.flatMap_cons]
    rcases Step.run_spec hstep with ⟨hsound, hbytes⟩ | ⟨hsound, hbytes, hne⟩
    · rcases ih h with ⟨hrest, hbytes'⟩ | ⟨hrest, kept, hbytes', hlt⟩
      · exact .inl ⟨by simp [hsound, hrest], by rw [hbytes', hbytes, List.append_assoc]⟩
      · refine .inr ⟨by simp [hsound, hrest], step.encode ++ kept, ?_, ?_⟩
        · rw [hbytes', hbytes, List.append_assoc]
        · simpa using hlt
    · have hpos := List.length_pos_iff.mpr hne
      refine .inr ⟨by simp [hsound], ?_⟩
      rcases ih h with ⟨_, hbytes'⟩ | ⟨_, kept, hbytes', hlt⟩
      · exact ⟨_, by rw [hbytes', hbytes], by simpa using hpos⟩
      · exact ⟨kept, by rw [hbytes', hbytes], by rw [List.length_append]; omega⟩

/-- What is left of the encodings: all of them exactly if all steps are sound, and then as many
bytes. -/
theorem runSteps_kept {steps : List Step} {s t : Serialization}
    (h : runSteps alloc steps s = (true, t)) :
    ∃ kept, t.bytes = s.bytes ++ kept ∧ kept.length ≤ (steps.flatMap Step.encode).length ∧
      (soundSteps alloc steps s = true → kept = steps.flatMap Step.encode) ∧
        (kept.length = (steps.flatMap Step.encode).length → soundSteps alloc steps s = true) := by
  rcases runSteps_spec h with ⟨hsound, hbytes⟩ | ⟨hsound, kept, hbytes, hlt⟩
  · exact ⟨_, hbytes, le_rfl, fun _ => rfl, fun _ => hsound⟩
  · exact ⟨kept, hbytes, hlt.le, fun h => by simp [hsound] at h, fun h => by omega⟩

/-- Without refusals every step reports success and has written its encoding. -/
theorem Step.puts (halloc : ∀ n, alloc n = true) {step : Step} (happends : step.appends = true) :
    Puts (step.run alloc) step.encode := by
  have hexpand (s : Serialization) (size : ℕ) : (s.expand alloc size).1 = true := by
    obtain ⟨t, ht, -⟩ := puts_expand halloc size s
    exact congrArg Prod.fst ht
  have hput (p : Put) (s : Serialization) : p.granted alloc s = true := by
    cases p with
    | fourBytes value | varint value | string bytes => exact hexpand s _
    | eightBytes value => simp [Put.granted, hexpand]
    | sizedString bytes | sizedData bytes => simp [Put.granted, Put.sizedGranted, hexpand]
  intro s
  cases step with
  | reserve size => exact puts_expand halloc size s
  | checked p =>
    obtain ⟨hreported, hbytes⟩ := @Put.run_spec alloc p s
    rw [hput] at hreported hbytes
    refine ⟨(p.run alloc s).2, Prod.ext hreported rfl, ?_⟩
    rw [hbytes, show p.appends = true from happends]
    rfl
  | ignored p =>
    obtain ⟨-, hbytes⟩ := @Put.run_spec alloc p s
    rw [hput] at hbytes
    refine ⟨(p.run alloc s).2, rfl, ?_⟩
    rw [hbytes, show p.appends = true from happends]
    rfl

theorem runSteps_puts (halloc : ∀ n, alloc n = true) {steps : List Step}
    (happends : ∀ step ∈ steps, step.appends = true) :
    Puts (runSteps alloc steps) (steps.flatMap Step.encode) :=
  Puts.forEach steps fun step hstep => Step.puts halloc (happends step hstep)

end Steps

end Wcdb.Serialization
