import Wcdb.Repair.Factory
import Mathlib.Data.Int.Order.Lemmas
import Mathlib.Tactic.Ring

/-!
# The rotation of the two materials

A backup is written to one of two files, and three functions of `Factory` order the two by their
modification times: the one to write next (`materialForSerializingForDatabase`), the newest
(`latestMaterialForDatabase`) and both, newest first
(`materialsForDeserializingForDatabase`). A missing or empty file counts as time zero.

The three agree on which backup is the newest (`KeepsNewest`) exactly when the times are in order
(`Ordered`): not equal, and a time in the future only on a first material older than the last
(`keepsNewest_iff`).
-/

namespace Wcdb

/-- `std::chrono::system_clock`, by the length of a tick. -/
structure SystemClock where
  nanoseconds : ℕ
  pos : 0 < nanoseconds
  divides : nanoseconds ∣ 10 ^ 9

namespace SystemClock

/-- The clock of libc++ counts microseconds. -/
def microseconds : SystemClock := ⟨1000, by decide, by decide⟩

variable (clock : SystemClock)

/-- A `Time` from a `timespec`; a time is its number of ticks since the epoch. -/
def ofTimespec (seconds : ℤ) (nanoseconds : ℕ) : ℤ :=
  (seconds * 10 ^ 9 + nanoseconds).tdiv clock.nanoseconds

/-- `Time::seconds`, rounded towards zero. -/
def seconds (time : ℤ) : ℤ := time.tdiv (10 ^ 9 / clock.nanoseconds : ℕ)

theorem seconds_mono {a b : ℤ} (h : a ≤ b) : clock.seconds a ≤ clock.seconds b := by
  have hpos : 0 < 10 ^ 9 / clock.nanoseconds :=
    Nat.div_pos (Nat.le_of_dvd (by decide) clock.divides) clock.pos
  exact Int.tdiv_le_tdiv (by exact_mod_cast hpos) h

end SystemClock

/-- What `stat` says about a path; it fails on `none`. -/
inductive FileStatus where
  | missing
  | directory (seconds : ℤ) (nanoseconds : ℕ)
  | file (size : ℕ) (seconds : ℤ) (nanoseconds : ℕ)
  deriving DecidableEq, Repr

namespace FileManager

def fileExistsAndNotEmpty : Option FileStatus → Option Bool
  | none => none
  | some .missing => some false
  | some (.directory _ _) => some false
  | some (.file size _ _) => some (decide (0 < size))

/-- `stat` of a missing file is an error here. -/
def getFileModifiedTime (clock : SystemClock) : Option FileStatus → Option ℤ
  | some (.file _ seconds nanoseconds) => some (clock.ofTimespec seconds nanoseconds)
  | some (.directory seconds nanoseconds) => some (clock.ofTimespec seconds nanoseconds)
  | some .missing => none
  | none => none

end FileManager

namespace Factory

open FileManager

section Rotation

variable (clock : SystemClock) (stat : Path → Option FileStatus) (now : ℤ)

def firstMaterialPathForDatabase (database : Dir) : Path := ⟨database, .firstMaterial⟩

def lastMaterialPathForDatabase (database : Dir) : Path := ⟨database, .lastMaterial⟩

def getModifiedTimeOr0IfNotExists (path : Path) : Option ℤ := do
  if ← fileExistsAndNotEmpty (stat path) then getFileModifiedTime clock (stat path) else some 0

/-- `Time::empty` of the one, or the one later than now by whole seconds. -/
def emptyOrAhead (time : ℤ) : Bool := time = 0 || clock.seconds now < clock.seconds time

def materialForSerializingForDatabase (database : Dir) : Option Path := do
  let firstMaterialPath := firstMaterialPathForDatabase database
  let firstMaterialModifiedTime ← getModifiedTimeOr0IfNotExists clock stat firstMaterialPath
  if emptyOrAhead clock now firstMaterialModifiedTime then
    return firstMaterialPath
  let lastMaterialPath := lastMaterialPathForDatabase database
  let lastMaterialModifiedTime ← getModifiedTimeOr0IfNotExists clock stat lastMaterialPath
  if emptyOrAhead clock now lastMaterialModifiedTime then
    return lastMaterialPath
  return if firstMaterialModifiedTime > lastMaterialModifiedTime then lastMaterialPath
    else firstMaterialPath

/-- The empty path is `some none`. -/
def latestMaterialForDatabase (database : Dir) : Option (Option Path) := do
  let firstMaterialPath := firstMaterialPathForDatabase database
  let firstMaterialModifiedTime ← getModifiedTimeOr0IfNotExists clock stat firstMaterialPath
  let lastMaterialPath := lastMaterialPathForDatabase database
  let lastMaterialModifiedTime ← getModifiedTimeOr0IfNotExists clock stat lastMaterialPath
  if lastMaterialModifiedTime = 0 ∧ firstMaterialModifiedTime = 0 then
    return none
  if emptyOrAhead clock now firstMaterialModifiedTime then
    return lastMaterialPath
  if emptyOrAhead clock now lastMaterialModifiedTime then
    return firstMaterialPath
  return if firstMaterialModifiedTime < lastMaterialModifiedTime then lastMaterialPath
    else firstMaterialPath

def materialsForDeserializingForDatabase (database : Dir) : Option (List Path) := do
  let firstMaterialPath := firstMaterialPathForDatabase database
  let firstMaterialModifiedTime ← getModifiedTimeOr0IfNotExists clock stat firstMaterialPath
  let lastMaterialPath := lastMaterialPathForDatabase database
  let lastMaterialModifiedTime ← getModifiedTimeOr0IfNotExists clock stat lastMaterialPath
  let materialPaths :=
    (if firstMaterialModifiedTime ≠ 0 then [firstMaterialPath] else []) ++
      if lastMaterialModifiedTime ≠ 0 then [lastMaterialPath] else []
  return if firstMaterialModifiedTime < lastMaterialModifiedTime then materialPaths.reverse
    else materialPaths

end Rotation

/-! ### The newest backup is kept -/

section Newest

variable (clock : SystemClock) (files : Path → FileStatus) (now : ℤ) (database : Dir)

/-- A material that exists and is not empty. -/
def HasMaterial (path : Path) : Prop := fileExistsAndNotEmpty (some (files path)) = some true

instance (path : Path) : Decidable (HasMaterial files path) :=
  inferInstanceAs (Decidable (_ = _))

/-- The time that orders a material, zero for a missing or empty file. -/
def modifiedTime (path : Path) : ℤ :=
  match files path with
  | .file (_ + 1) seconds nanoseconds => clock.ofTimespec seconds nanoseconds
  | _ => 0

/-- **The newest backup is kept**: with a material, the latest is one that exists; with two, the
one to write is neither the latest nor the first to read; with one, the other path is written. -/
structure KeepsNewest : Prop where
  latest : HasMaterial files (firstMaterialPathForDatabase database) ∨
      HasMaterial files (lastMaterialPathForDatabase database) →
    ∃ path, latestMaterialForDatabase clock (fun p => some (files p)) now database =
      some (some path) ∧ HasMaterial files path
  both : HasMaterial files (firstMaterialPathForDatabase database) →
      HasMaterial files (lastMaterialPathForDatabase database) →
    ∃ written latest head rest,
      materialForSerializingForDatabase clock (fun p => some (files p)) now database =
        some written ∧
      latestMaterialForDatabase clock (fun p => some (files p)) now database =
        some (some latest) ∧
      materialsForDeserializingForDatabase clock (fun p => some (files p)) database =
        some (head :: rest) ∧
      written ≠ latest ∧ written ≠ head
  onlyFirst : HasMaterial files (firstMaterialPathForDatabase database) →
      ¬ HasMaterial files (lastMaterialPathForDatabase database) →
    materialForSerializingForDatabase clock (fun p => some (files p)) now database =
      some (lastMaterialPathForDatabase database)
  onlyLast : HasMaterial files (lastMaterialPathForDatabase database) →
      ¬ HasMaterial files (firstMaterialPathForDatabase database) →
    materialForSerializingForDatabase clock (fun p => some (files p)) now database =
      some (firstMaterialPathForDatabase database)

variable {clock files now database}

theorem getModifiedTimeOr0IfNotExists_eq (path : Path) :
    getModifiedTimeOr0IfNotExists clock (fun p => some (files p)) path =
      some (modifiedTime clock files path) := by
  simp only [getModifiedTimeOr0IfNotExists, modifiedTime]
  cases files path with
  | missing => rfl
  | directory seconds nanoseconds => rfl
  | file size seconds nanoseconds => cases size <;> rfl

variable (clock files) in
/-- Only an existing material has a time. -/
theorem hasMaterial_of_modifiedTime (path : Path) (h : modifiedTime clock files path ≠ 0) :
    HasMaterial files path := by
  unfold modifiedTime at h
  split at h
  next hfile => simp [HasMaterial, hfile, fileExistsAndNotEmpty]
  next => exact absurd rfl h

/-- The times are in order, zero standing for a missing material. -/
def Ordered (clock : SystemClock) (now first last : ℤ) : Prop :=
  if first = 0 then last ≠ 0
  else if clock.seconds now < clock.seconds first then last ≠ 0 ∧ first < last
  else last = 0 ∨ (clock.seconds last ≤ clock.seconds now ∧ first ≠ last)

section Values

variable (clock files now database)

theorem materialForSerializingForDatabase_eq :
    materialForSerializingForDatabase clock (fun p => some (files p)) now database =
      let first := modifiedTime clock files (firstMaterialPathForDatabase database)
      let last := modifiedTime clock files (lastMaterialPathForDatabase database)
      some (if emptyOrAhead clock now first then firstMaterialPathForDatabase database
        else if emptyOrAhead clock now last then lastMaterialPathForDatabase database
        else if first > last then lastMaterialPathForDatabase database
        else firstMaterialPathForDatabase database) := by
  simp only [materialForSerializingForDatabase, getModifiedTimeOr0IfNotExists_eq, bind,
    Option.bind, pure]
  split_ifs <;> rfl

theorem latestMaterialForDatabase_eq :
    latestMaterialForDatabase clock (fun p => some (files p)) now database =
      let first := modifiedTime clock files (firstMaterialPathForDatabase database)
      let last := modifiedTime clock files (lastMaterialPathForDatabase database)
      some (if last = 0 ∧ first = 0 then none
        else if emptyOrAhead clock now first then some (lastMaterialPathForDatabase database)
        else if emptyOrAhead clock now last then some (firstMaterialPathForDatabase database)
        else if first < last then some (lastMaterialPathForDatabase database)
        else some (firstMaterialPathForDatabase database)) := by
  simp only [latestMaterialForDatabase, getModifiedTimeOr0IfNotExists_eq, bind, Option.bind, pure]
  split_ifs <;> rfl

theorem materialsForDeserializingForDatabase_eq :
    materialsForDeserializingForDatabase clock (fun p => some (files p)) database =
      let first := modifiedTime clock files (firstMaterialPathForDatabase database)
      let last := modifiedTime clock files (lastMaterialPathForDatabase database)
      let paths := (if first ≠ 0 then [firstMaterialPathForDatabase database] else []) ++
        if last ≠ 0 then [lastMaterialPathForDatabase database] else []
      some (if first < last then paths.reverse else paths) := by
  simp only [materialsForDeserializingForDatabase, getModifiedTimeOr0IfNotExists_eq, bind,
    Option.bind, pure]

end Values

theorem first_ne_last :
    firstMaterialPathForDatabase database ≠ lastMaterialPathForDatabase database := by
  simp [firstMaterialPathForDatabase, lastMaterialPathForDatabase]

theorem keepsNewest_of_none
    (hfirst : ¬ HasMaterial files (firstMaterialPathForDatabase database))
    (hlast : ¬ HasMaterial files (lastMaterialPathForDatabase database)) :
    KeepsNewest clock files now database where
  latest h := absurd h (not_or.mpr ⟨hfirst, hlast⟩)
  both h := absurd h hfirst
  onlyFirst h := absurd h hfirst
  onlyLast h := absurd h hlast

/-- The three functions agree that `newest` is the newest backup and `written` the other file. -/
structure Agrees (clock : SystemClock) (files : Path → FileStatus) (now : ℤ) (database : Dir)
    (written newest : Path) : Prop where
  serializing : materialForSerializingForDatabase clock (fun p => some (files p)) now database =
    some written
  latest : latestMaterialForDatabase clock (fun p => some (files p)) now database =
    some (some newest)
  deserializing : ∃ rest, materialsForDeserializingForDatabase clock (fun p => some (files p))
    database = some (newest :: rest)
  exists_newest : HasMaterial files newest

theorem Agrees.both {written newest : Path} (h : Agrees clock files now database written newest)
    (hne : written ≠ newest) :
    ∃ written latest head rest,
      materialForSerializingForDatabase clock (fun p => some (files p)) now database =
        some written ∧
      latestMaterialForDatabase clock (fun p => some (files p)) now database =
        some (some latest) ∧
      materialsForDeserializingForDatabase clock (fun p => some (files p)) database =
        some (head :: rest) ∧
      written ≠ latest ∧ written ≠ head := by
  obtain ⟨rest, hrest⟩ := h.deserializing
  exact ⟨written, newest, newest, rest, h.serializing, h.latest, hrest, hne, hne⟩

theorem Agrees.keepsNewest_last (h : Agrees clock files now database
    (firstMaterialPathForDatabase database) (lastMaterialPathForDatabase database)) :
    KeepsNewest clock files now database where
  latest _ := ⟨_, h.latest, h.exists_newest⟩
  both _ _ := h.both first_ne_last
  onlyFirst _ hlast := absurd h.exists_newest hlast
  onlyLast _ _ := h.serializing

theorem Agrees.keepsNewest_first (h : Agrees clock files now database
    (lastMaterialPathForDatabase database) (firstMaterialPathForDatabase database)) :
    KeepsNewest clock files now database where
  latest _ := ⟨_, h.latest, h.exists_newest⟩
  both _ _ := h.both first_ne_last.symm
  onlyFirst _ _ := h.serializing
  onlyLast _ hfirst := absurd h.exists_newest hfirst

theorem keepsNewest_of_ordered
    (h : Ordered clock now (modifiedTime clock files (firstMaterialPathForDatabase database))
      (modifiedTime clock files (lastMaterialPathForDatabase database))) :
    KeepsNewest clock files now database := by
  have hfirst := fun h =>
    hasMaterial_of_modifiedTime clock files (firstMaterialPathForDatabase database) h
  have hlast := fun h =>
    hasMaterial_of_modifiedTime clock files (lastMaterialPathForDatabase database) h
  have hwrite := materialForSerializingForDatabase_eq clock files now database
  have hlatest := latestMaterialForDatabase_eq clock files now database
  have hread := materialsForDeserializingForDatabase_eq clock files database
  simp only [emptyOrAhead, Bool.or_eq_true, decide_eq_true_eq] at hwrite hlatest hread
  generalize modifiedTime clock files (firstMaterialPathForDatabase database) = first at *
  generalize modifiedTime clock files (lastMaterialPathForDatabase database) = last at *
  unfold Ordered at h
  split_ifs at h with hzero hahead
  · refine Agrees.keepsNewest_last ⟨?_, ?_, ?_, hlast h⟩
    · simpa [hzero] using hwrite
    · simpa [hzero, h] using hlatest
    · exact ⟨_, by simpa [hzero, h] using hread⟩
  · obtain ⟨hne, hlt⟩ := h
    refine Agrees.keepsNewest_last ⟨?_, ?_, ?_, hlast hne⟩
    · simpa [hahead] using hwrite
    · simpa [hahead, hne] using hlatest
    · exact ⟨_, by simpa [hzero, hne, hlt] using hread⟩
  · by_cases hlastZero : last = 0
    · refine Agrees.keepsNewest_first ⟨?_, ?_, ?_, hfirst hzero⟩
      · simpa [hzero, hahead, hlastZero] using hwrite
      · simpa [hzero, hahead, hlastZero] using hlatest
      · exact ⟨[], by simpa [hzero, hlastZero] using hread⟩
    · obtain ⟨hnow, hne⟩ := h.resolve_left hlastZero
      have hlastAhead := not_lt.mpr hnow
      rcases lt_or_gt_of_ne hne with hlt | hgt
      · have hnot : ¬ last < first := not_lt.mpr (le_of_lt hlt)
        refine Agrees.keepsNewest_last ⟨?_, ?_, ?_, hlast hlastZero⟩
        · simpa [hzero, hahead, hlastZero, hlastAhead, hnot] using hwrite
        · simpa [hzero, hahead, hlastZero, hlastAhead, hlt] using hlatest
        · exact ⟨_, by simpa [hzero, hlastZero, hlt] using hread⟩
      · have hnot : ¬ first < last := not_lt.mpr (le_of_lt hgt)
        refine Agrees.keepsNewest_first ⟨?_, ?_, ?_, hfirst hzero⟩
        · simpa [hzero, hahead, hlastZero, hlastAhead, hgt] using hwrite
        · simpa [hzero, hahead, hlastZero, hlastAhead, hnot] using hlatest
        · exact ⟨_, by simpa [hzero, hlastZero, hnot] using hread⟩

theorem ordered_of_keepsNewest (h : KeepsNewest clock files now database)
    (hsome : HasMaterial files (firstMaterialPathForDatabase database) ∨
      HasMaterial files (lastMaterialPathForDatabase database)) :
    Ordered clock now (modifiedTime clock files (firstMaterialPathForDatabase database))
      (modifiedTime clock files (lastMaterialPathForDatabase database)) := by
  have hfirst := fun h =>
    hasMaterial_of_modifiedTime clock files (firstMaterialPathForDatabase database) h
  have hlast := fun h =>
    hasMaterial_of_modifiedTime clock files (lastMaterialPathForDatabase database) h
  obtain ⟨newest, hnewest, hexists⟩ := h.latest hsome
  have hboth := h.both
  rw [materialForSerializingForDatabase_eq, materialsForDeserializingForDatabase_eq] at hboth
  rw [latestMaterialForDatabase_eq] at hboth hnewest
  simp only [emptyOrAhead, Bool.or_eq_true, decide_eq_true_eq] at hboth hnewest
  generalize modifiedTime clock files (firstMaterialPathForDatabase database) = first at *
  generalize modifiedTime clock files (lastMaterialPathForDatabase database) = last at *
  unfold Ordered
  split_ifs with hzero hahead
  · rintro rfl
    simp [hzero] at hnewest
  · have hne : last ≠ 0 := by
      rintro rfl
      -- The latest is said to be the last material; it is there, and yet the first is read.
      obtain rfl : lastMaterialPathForDatabase database = newest := by
        simpa [hzero, hahead] using hnewest
      obtain ⟨written, _, head, rest, hw, -, hd, -, hdiff⟩ := hboth (hfirst hzero) hexists
      have hw' : firstMaterialPathForDatabase database = written := by simpa [hahead] using hw
      have hd' : firstMaterialPathForDatabase database = head := by
        split_ifs at hd <;> simp_all
      exact hdiff (hw'.symm.trans hd')
    refine ⟨hne, ?_⟩
    by_contra hlt
    obtain ⟨written, _, head, rest, hw, -, hd, -, hdiff⟩ := hboth (hfirst hzero) (hlast hne)
    have hw' : firstMaterialPathForDatabase database = written := by simpa [hahead] using hw
    have hd' : firstMaterialPathForDatabase database = head := by
      have := by simpa [hzero, hne, hlt] using hd
      exact this.1
    exact hdiff (hw'.symm.trans hd')
  · by_cases hlastZero : last = 0
    · exact Or.inl hlastZero
    · obtain ⟨written, _, head, rest, hw, -, hd, -, hdiff⟩ :=
        hboth (hfirst hzero) (hlast hlastZero)
      have hnow : clock.seconds last ≤ clock.seconds now := by
        by_contra hlastAhead
        have hlt : first < last := by
          by_contra hle
          have := clock.seconds_mono (not_lt.mp hle)
          omega
        have hw' : lastMaterialPathForDatabase database = written := by
          simpa [hzero, hahead, not_le.mp hlastAhead] using hw
        have hd' : lastMaterialPathForDatabase database = head := by
          have := by simpa [hzero, hlastZero, hlt] using hd
          exact this.1
        exact hdiff (hw'.symm.trans hd')
      refine Or.inr ⟨hnow, ?_⟩
      rintro rfl
      have hw' : firstMaterialPathForDatabase database = written := by
        simpa [hzero, hahead] using hw
      have hd' : firstMaterialPathForDatabase database = head := by
        have := by simpa [hzero] using hd
        exact this.1
      exact hdiff (hw'.symm.trans hd')

/-- **The newest backup is kept exactly when the times are in order.** -/
theorem keepsNewest_iff :
    KeepsNewest clock files now database ↔
      (¬ HasMaterial files (firstMaterialPathForDatabase database) ∧
        ¬ HasMaterial files (lastMaterialPathForDatabase database)) ∨
      Ordered clock now (modifiedTime clock files (firstMaterialPathForDatabase database))
        (modifiedTime clock files (lastMaterialPathForDatabase database)) := by
  constructor
  · intro h
    by_cases hnone : ¬ HasMaterial files (firstMaterialPathForDatabase database) ∧
        ¬ HasMaterial files (lastMaterialPathForDatabase database)
    · exact Or.inl hnone
    · refine Or.inr (ordered_of_keepsNewest h ?_)
      by_contra hnot
      exact hnone (not_or.mp hnot)
  · rintro (⟨hfirst, hlast⟩ | h)
    · exact keepsNewest_of_none hfirst hlast
    · exact keepsNewest_of_ordered h

/-- Only the first material exists, and its time is ten minutes ahead of now. -/
def aheadOfNow : Path → FileStatus := fun path =>
  if path.ext = .firstMaterial then .file 4096 1700000600 0 else .missing

/-- The only backup is the one that is written over, and the latest is said to be the missing
one. -/
theorem not_keepsNewest_aheadOfNow :
    ¬ KeepsNewest SystemClock.microseconds aheadOfNow 1700000000000000 .base ∧
      materialForSerializingForDatabase SystemClock.microseconds (fun p => some (aheadOfNow p))
        1700000000000000 .base = some (firstMaterialPathForDatabase .base) ∧
      latestMaterialForDatabase SystemClock.microseconds (fun p => some (aheadOfNow p))
        1700000000000000 .base = some (some (lastMaterialPathForDatabase .base)) := by
  refine ⟨fun h => ?_, by decide +kernel, by decide +kernel⟩
  have hwrite := h.onlyFirst (by decide +kernel) (by decide +kernel)
  exact absurd hwrite (by decide +kernel)

end Newest

end Factory

end Wcdb
