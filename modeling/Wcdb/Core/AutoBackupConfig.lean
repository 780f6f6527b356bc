import Wcdb.Lib.Run
import Wcdb.Repair.IncrementalMaterial
import Mathlib.Algebra.Group.Nat.Defs

/-!
# `AutoBackupConfig`: following the checkpoints of a write-ahead log

Three hooks called by `walCheckpoint` keep the incremental material of a database up to date:
at the **begin** of a checkpoint the position of the log (its two salts and the number of
backfilled frames) is compared with the position recorded last, and a material that may have
missed a checkpoint is dropped; every copied **page** is noted; at the **finish** the noted
pages enter the material, with the new position.

Checkpoints run by another process or by a handle without hooks are not seen, and after a
complete backfill the log restarts with its first salt increased by one. The system here is the
log together with the hooks, and a run is any interleaving of appending frames, checkpoints
(seen or not, finished or interrupted) and restarts.

**Main result** (`recorded_of_trackStep`): after every seen checkpoint that finished, a material
still registered has every page overwritten since the backup, as it was overwritten last —
provided the log does not restart at a moment when the recorded position is that of the same
log, `lastCheckPointFinish` is set and an unseen checkpoint has moved on; and provided a
finishing checkpoint copies again what an interrupted one has copied. The first proviso is
needed (`page_missed_after_restart`).
-/

namespace Wcdb

/-- A frame of the log: a page and its content. -/
structure Frame where
  page : ℕ
  data : PageData
  deriving DecidableEq

/-- The write-ahead log. `nCkpt` counts its restarts. -/
structure Wal where
  salt1 : UInt32
  salt2 : UInt32
  nBackfill : ℕ
  frames : List Frame
  nCkpt : ℕ

namespace Wal

/-- The number of frames. -/
def mxFrame (w : Wal) : ℕ := w.frames.length

/-- `Wal::isCheckpointIncreasedSalt`. -/
def isCheckpointIncreasedSalt (before after : UInt32 × UInt32) : Bool :=
  before.1 + 1 == after.1 && before.2 != after.2

/-- The last of the frames of a page, with its index; the frames are numbered from `i` on. -/
def lastFrameFrom (page : ℕ) : ℕ → List Frame → Option (ℕ × PageData)
  | _, [] => none
  | i, f :: fs =>
      match lastFrameFrom page (i + 1) fs with
      | some x => some x
      | none => if f.page = page then some (i, f.data) else none

def lastFrame (w : Wal) (page : ℕ) : Option (ℕ × PageData) := lastFrameFrom page 1 w.frames

/-- What `walIteratorNext` delivers to the copying loop of `walCheckpoint`: in ascending order
the pages whose last frame has not been backfilled and may be, up to the size of the
database. -/
def copyList (w : Wal) (mxSafeFrame mxPage : ℕ) : List (ℕ × PageData) :=
  (List.range (mxPage + 1)).filterMap fun page =>
    match w.lastFrame page with
    | some (i, data) => if w.nBackfill < i ∧ i ≤ mxSafeFrame then some (page, data) else none
    | none => none

/-- `walRestartHdr`. -/
def restart (w : Wal) (salt2 : UInt32) : Wal where
  salt1 := w.salt1 + 1
  salt2 := salt2
  nBackfill := 0
  frames := []
  nCkpt := w.nCkpt + 1

end Wal

/-! ### The hooks -/

/-- The state of `AutoBackupConfig` for one database. -/
structure AutoBackupConfig where
  materials : Option IncrementalMaterial
  checkpointPages : Option (PageMap IncrementalMaterial.Page)

namespace AutoBackupConfig

def onCheckpointBegin (c : AutoBackupConfig) (nBackFill : ℕ) (salt1 salt2 : UInt32) :
    AutoBackupConfig :=
  match c.materials with
  | none => c
  | some material =>
    if material.info.currentWalSalt = (salt1, salt2) ∧
        material.info.currentNBackFill = nBackFill then
      { c with checkpointPages := some fun _ => none }
    else if Wal.isCheckpointIncreasedSalt material.info.currentWalSalt (salt1, salt2) = true ∧
        nBackFill = 0 ∧ material.info.lastCheckPointFinish = true then
      let info : IncrementalMaterial.Info :=
        { currentWalSalt := (salt1, salt2), currentNBackFill := nBackFill,
          lastCheckPointFinish := false }
      { materials := some ⟨info, material.pages⟩, checkpointPages := some fun _ => none }
    else { materials := none, checkpointPages := none }

def onCheckpointPage (hash : PageData → UInt32) (c : AutoBackupConfig) (pageNo : ℕ)
    (data : PageData) : AutoBackupConfig :=
  match c.checkpointPages with
  | none => c
  | some pages =>
    { c with checkpointPages := some fun q =>
        if q = pageNo then some (IncrementalMaterial.Page.of hash pageNo data) else pages q }

def onCheckpointFinish (c : AutoBackupConfig) (nBackFill mxFrame : ℕ) (salt1 salt2 : UInt32) :
    AutoBackupConfig :=
  match c.materials with
  | none => c
  | some material =>
    let info : IncrementalMaterial.Info :=
      { currentWalSalt := (salt1, salt2), currentNBackFill := nBackFill,
        lastCheckPointFinish := decide (nBackFill = mxFrame) }
    let pages : PageMap IncrementalMaterial.Page := fun q =>
      (c.checkpointPages.bind fun pages => pages q).or (material.pages q)
    { c with materials := some ⟨info, pages⟩ }

/-- The page hook, called for every copied page in turn. -/
def onCheckpointPages (hash : PageData → UInt32) (c : AutoBackupConfig)
    (copied : List (ℕ × PageData)) : AutoBackupConfig :=
  copied.foldl (fun c x => onCheckpointPage hash c x.1 x.2) c

end AutoBackupConfig

/-! ### The system -/

/-- The log, the hooks, and what the checkpoints have done to the main file since the backup:
the content each page was overwritten with last, and the pages copied by interrupted
checkpoints since the last one that finished. -/
structure WalSystem where
  wal : Wal
  config : AutoBackupConfig
  overwritten : PageMap PageData
  torn : List ℕ

/-- The steps. A checkpoint is seen by the hooks or not, copies frames up to `mxSafeFrame`, and
finishes or is interrupted after some pages. -/
inductive WalAction where
  | append (frames : List Frame)
  | checkpoint (seen : Bool) (mxSafeFrame mxPage : ℕ)
  | interrupted (seen : Bool) (mxSafeFrame mxPage copied : ℕ)
  | restart (salt2 : UInt32)
  deriving DecidableEq

/-- The main file after copying pages. -/
def overwrite (copied : List (ℕ × PageData)) (m : PageMap PageData) : PageMap PageData :=
  copied.foldl (fun m x q => if q = x.1 then some x.2 else m q) m

namespace WalSystem

variable (hash : PageData → UInt32)

/-- The hooks up to the finish, when the checkpoint is seen. -/
def beginAndPages (s : WalSystem) (seen : Bool) (copied : List (ℕ × PageData)) :
    AutoBackupConfig :=
  if seen then
    (s.config.onCheckpointBegin s.wal.nBackfill s.wal.salt1 s.wal.salt2).onCheckpointPages hash
      copied
  else s.config

def step (s : WalSystem) : WalAction → Option WalSystem
  | .append frames => some { s with wal := { s.wal with frames := s.wal.frames ++ frames } }
  | .checkpoint seen mxSafeFrame mxPage =>
      if s.wal.nBackfill < mxSafeFrame ∧ mxSafeFrame ≤ s.wal.mxFrame then
        let copied := s.wal.copyList mxSafeFrame mxPage
        let config := s.beginAndPages hash seen copied
        some
          { wal := { s.wal with nBackfill := mxSafeFrame }
            config := if seen then
                config.onCheckpointFinish mxSafeFrame s.wal.mxFrame s.wal.salt1 s.wal.salt2
              else config
            overwritten := overwrite copied s.overwritten
            torn := [] }
      else none
  | .interrupted seen mxSafeFrame mxPage copied =>
      let copied := (s.wal.copyList mxSafeFrame mxPage).take copied
      some
        { s with
          config := s.beginAndPages hash seen copied
          overwritten := overwrite copied s.overwritten
          torn := s.torn ++ copied.map Prod.fst }
  | .restart salt2 =>
      if s.wal.nBackfill = s.wal.mxFrame then some { s with wal := s.wal.restart salt2 } else none

/-- **What the protocol is for**: a registered material has every overwritten page, as it was
overwritten last. -/
def Recorded (s : WalSystem) : Prop :=
  ∀ material, s.config.materials = some material → ∀ q data, s.overwritten q = some data →
    material.pages q = some (IncrementalMaterial.Page.of hash q data)

/-- The condition on one step: when the log restarts, a material that follows this very log
and has missed a checkpoint of it does not have `lastCheckPointFinish` set; and a seen
checkpoint that finishes copies every page that was copied by an interrupted one. The first
salt is a 32-bit counter, so the restarts are fewer than its period. -/
def TrackStep (s : WalSystem) : WalAction → Prop
  | .restart _ => s.wal.nCkpt + 2 < 2 ^ 32 ∧
      ∀ m ∈ s.config.materials, m.info.currentWalSalt.1 = s.wal.salt1 →
        m.info.currentNBackFill ≠ s.wal.nBackfill → m.info.lastCheckPointFinish = false
  | .checkpoint true mxSafeFrame mxPage =>
      ∀ q ∈ s.torn, ∃ x ∈ s.wal.copyList mxSafeFrame mxPage, x.1 = q
  | _ => True

instance (s : WalSystem) (a : WalAction) : Decidable (s.TrackStep a) :=
  match a with
  | .append _ => inferInstanceAs (Decidable True)
  | .checkpoint true _ _ => inferInstanceAs (Decidable (∀ q ∈ s.torn, _))
  | .checkpoint false _ _ => inferInstanceAs (Decidable True)
  | .interrupted _ _ _ _ => inferInstanceAs (Decidable True)
  | .restart _ => inferInstanceAs (Decidable (_ ∧ _))

end WalSystem

/-! ### Frames and copied pages -/

theorem Wal.lastFrameFrom_bounds {page i j : ℕ} {fs : List Frame} {d : PageData}
    (h : Wal.lastFrameFrom page i fs = some (j, d)) : i ≤ j ∧ j < i + fs.length := by
  induction fs generalizing i with
  | nil => simp [Wal.lastFrameFrom] at h
  | cons f fs ih =>
    simp only [Wal.lastFrameFrom] at h
    cases hrest : Wal.lastFrameFrom page (i + 1) fs with
    | some x =>
      rw [hrest] at h
      obtain rfl : x = (j, d) := Option.some.inj h
      have := ih hrest
      simp only [List.length_cons]
      omega
    | none =>
      rw [hrest] at h
      split_ifs at h
      obtain ⟨rfl, -⟩ := Prod.mk.inj (Option.some.inj h)
      simp

theorem Wal.lastFrameFrom_append (page i : ℕ) (fs gs : List Frame) :
    Wal.lastFrameFrom page i (fs ++ gs) =
      (Wal.lastFrameFrom page (i + fs.length) gs).or (Wal.lastFrameFrom page i fs) := by
  induction fs generalizing i with
  | nil => simp [Wal.lastFrameFrom]
  | cons f fs ih =>
    simp only [List.cons_append, Wal.lastFrameFrom, ih, List.length_cons,
      show i + (fs.length + 1) = i + 1 + fs.length by omega]
    cases Wal.lastFrameFrom page (i + 1 + fs.length) gs <;> simp

/-- The page has a frame that has not been backfilled. -/
def Wal.Dirty (w : Wal) (page : ℕ) : Prop :=
  ∃ i d, w.lastFrame page = some (i, d) ∧ w.nBackfill < i

theorem Wal.not_dirty_of_complete {w : Wal} (h : w.nBackfill = w.mxFrame) (page : ℕ) :
    ¬w.Dirty page := by
  rintro ⟨i, d, hi, hlt⟩
  have := Wal.lastFrameFrom_bounds hi
  simp only [Wal.mxFrame] at h
  omega

theorem Wal.Dirty.append {w : Wal} {page : ℕ} (h : w.Dirty page) (hle : w.nBackfill ≤ w.mxFrame)
    (fs : List Frame) : Wal.Dirty { w with frames := w.frames ++ fs } page := by
  obtain ⟨i, d, hi, hlt⟩ := h
  simp only [Wal.mxFrame] at hle
  simp only [Wal.Dirty, Wal.lastFrame, Wal.lastFrameFrom_append] at hi ⊢
  cases hnew : Wal.lastFrameFrom page (1 + w.frames.length) fs with
  | none => exact ⟨i, d, by simp [hi], hlt⟩
  | some x =>
    have := Wal.lastFrameFrom_bounds hnew
    exact ⟨x.1, x.2, by simp, by omega⟩

theorem Wal.dirty_of_mem_copyList {w : Wal} {mxSafeFrame mxPage : ℕ} {x : ℕ × PageData}
    (h : x ∈ w.copyList mxSafeFrame mxPage) : w.Dirty x.1 := by
  obtain ⟨page, -, hp⟩ := List.mem_filterMap.mp h
  cases hl : w.lastFrame page with
  | none => simp [hl] at hp
  | some y =>
    obtain ⟨i, d⟩ := y
    simp only [hl] at hp
    split_ifs at hp with hc
    obtain rfl := Option.some.inj hp
    exact ⟨i, d, hl, hc.1⟩

theorem overwrite_eq (l : List (ℕ × PageData)) (m : PageMap PageData) (q : ℕ) :
    overwrite l m q = (overwrite l (fun _ => none) q).or (m q) := by
  induction l generalizing m with
  | nil => simp [overwrite]
  | cons x l ih =>
    have hcons : ∀ m, overwrite (x :: l) m = overwrite l fun q =>
        if q = x.1 then some x.2 else m q := fun _ => rfl
    rw [hcons, hcons, ih, ih fun q => if q = x.1 then some x.2 else none]
    by_cases hq : q = x.1 <;> simp [hq]

theorem overwrite_empty_eq_none {l : List (ℕ × PageData)} {q : ℕ} :
    overwrite l (fun _ => none) q = none ↔ ∀ x ∈ l, x.1 ≠ q := by
  induction l with
  | nil => simp [overwrite]
  | cons x l ih =>
    have hcons : overwrite (x :: l) (fun _ => none) = overwrite l fun q =>
        if q = x.1 then some x.2 else none := rfl
    rw [hcons, overwrite_eq, Option.or_eq_none_iff, ih, List.forall_mem_cons, and_comm]
    simp [eq_comm]

/-- The page hook notes what is copied. -/
theorem AutoBackupConfig.onCheckpointPages_spec (hash : PageData → UInt32)
    (l : List (ℕ × PageData)) {c : AutoBackupConfig} {m : PageMap PageData}
    (hc : c.checkpointPages = some fun q => (m q).map (IncrementalMaterial.Page.of hash q)) :
    (c.onCheckpointPages hash l).materials = c.materials ∧
    (c.onCheckpointPages hash l).checkpointPages =
      some fun q => (overwrite l m q).map (IncrementalMaterial.Page.of hash q) := by
  induction l generalizing c m with
  | nil => exact ⟨rfl, hc⟩
  | cons x l ih =>
    have hx : (c.onCheckpointPage hash x.1 x.2).checkpointPages = some fun q =>
        ((fun q => if q = x.1 then some x.2 else m q) q).map
          (IncrementalMaterial.Page.of hash q) := by
      simp only [onCheckpointPage, hc]
      congr 1
      funext q
      by_cases hq : q = x.1 <;> simp [hq]
    obtain ⟨hm, hp⟩ := ih hx
    refine ⟨hm.trans ?_, hp⟩
    simp [onCheckpointPage, hc]

/-- Without a material to fill, the hooks register none. -/
theorem AutoBackupConfig.onCheckpointPages_materials (hash : PageData → UInt32)
    (l : List (ℕ × PageData)) (c : AutoBackupConfig) :
    (c.onCheckpointPages hash l).materials = c.materials := by
  induction l generalizing c with
  | nil => rfl
  | cons x l ih =>
    refine (ih (c.onCheckpointPage hash x.1 x.2)).trans ?_
    unfold onCheckpointPage
    split <;> rfl

/-! ### The invariant -/

namespace WalSystem

variable (hash : PageData → UInt32)

/-- Every overwritten page is recorded as it is, or was copied by an interrupted checkpoint. -/
def Covered (s : WalSystem) (m : IncrementalMaterial) : Prop :=
  ∀ q d, s.overwritten q = some d →
    m.pages q = some (IncrementalMaterial.Page.of hash q d) ∨ q ∈ s.torn

/-- How a registered material can stand to the log, `e` being the number of restarts before its
recorded position. Only in the cases **sync** and **next** will the next seen checkpoint be
accepted, and in both the material is complete up to torn pages. -/
inductive Tracks (s : WalSystem) (m : IncrementalMaterial) (e : ℕ) : Prop where
  | sync (he : e = s.wal.nCkpt) (hn : m.info.currentNBackFill = s.wal.nBackfill)
      (hc : s.Covered hash m)
  | behind (he : e = s.wal.nCkpt) (hn : m.info.currentNBackFill < s.wal.nBackfill)
  | next (he : e + 1 = s.wal.nCkpt) (hn : s.wal.nBackfill = 0) (hc : s.Covered hash m)
  | lost (he : e + 1 = s.wal.nCkpt)
      (h : 0 < s.wal.nBackfill ∨ m.info.lastCheckPointFinish = false)
  | far (he : e + 1 < s.wal.nCkpt)

/-- The invariant; `base` is the first salt before any restart. -/
structure Inv (base : ℕ) (s : WalSystem) : Prop where
  backfill_le : s.wal.nBackfill ≤ s.wal.mxFrame
  torn_dirty : ∀ q ∈ s.torn, s.wal.Dirty q
  salt : s.wal.salt1.toNat = (base + s.wal.nCkpt) % 2 ^ 32
  few : s.wal.nCkpt + 1 < 2 ^ 32
  tracks : ∀ m ∈ s.config.materials, ∃ e,
    m.info.currentWalSalt.1.toNat = (base + e) % 2 ^ 32 ∧ s.Tracks hash m e

variable {hash} {base : ℕ} {s : WalSystem}

theorem Tracks.le {m : IncrementalMaterial} {e : ℕ} (h : s.Tracks hash m e) :
    e ≤ s.wal.nCkpt := by
  cases h <;> omega

/-- Equal salts are salts of the same log. -/
theorem Inv.eq_of_salt (hs : Inv hash base s) {m : IncrementalMaterial} {e : ℕ}
    (ht : s.Tracks hash m e) (he : m.info.currentWalSalt.1.toNat = (base + e) % 2 ^ 32)
    (heq : m.info.currentWalSalt.1 = s.wal.salt1) : e = s.wal.nCkpt := by
  have hle := ht.le
  have hsalt := hs.salt
  have hfew := hs.few
  rw [← heq, he] at hsalt
  omega

/-- A salt increased by one is that of the next log. -/
theorem Inv.eq_succ_of_salt (hs : Inv hash base s) {m : IncrementalMaterial} {e : ℕ}
    (ht : s.Tracks hash m e) (he : m.info.currentWalSalt.1.toNat = (base + e) % 2 ^ 32)
    (heq : m.info.currentWalSalt.1 + 1 = s.wal.salt1) : e + 1 = s.wal.nCkpt := by
  have hle := ht.le
  have hsalt := hs.salt
  have hfew := hs.few
  rw [← heq, UInt32.toNat_add, he] at hsalt
  simp only [UInt32.reduceToNat] at hsalt
  omega

/-- A material recorded at the present position of the log, complete up to torn pages. -/
structure InSync (hash : PageData → UInt32) (s : WalSystem) (c : AutoBackupConfig)
    (m : IncrementalMaterial) : Prop where
  salt : m.info.currentWalSalt.1 = s.wal.salt1
  backfill : m.info.currentNBackFill = s.wal.nBackfill
  covered : s.Covered hash m
  noted : c.checkpointPages = some fun _ => none

/-- **The begin hook** leaves a material registered only if it is in sync. -/
theorem Inv.onCheckpointBegin (hs : Inv hash base s) {m : IncrementalMaterial}
    (hm : (s.config.onCheckpointBegin s.wal.nBackfill s.wal.salt1 s.wal.salt2).materials = some m) :
    InSync hash s (s.config.onCheckpointBegin s.wal.nBackfill s.wal.salt1 s.wal.salt2) m := by
  unfold AutoBackupConfig.onCheckpointBegin at hm ⊢
  cases hmat : s.config.materials with
  | none => simp [hmat] at hm
  | some m₀ =>
    obtain ⟨e, he, ht⟩ := hs.tracks m₀ hmat
    simp only [hmat] at hm ⊢
    split_ifs at hm ⊢ with hsame hincr
    · obtain rfl : m₀ = m := Option.some.inj hm
      have hsalt : m₀.info.currentWalSalt.1 = s.wal.salt1 := by rw [hsame.1]
      have hnow := hs.eq_of_salt ht he hsalt
      cases ht with
      | sync _ hn hc => exact ⟨hsalt, hn, hc, rfl⟩
      | behind _ hn => omega
      | next he' => omega
      | lost he' => omega
      | far he' => omega
    · obtain rfl := Option.some.inj hm
      have hsalt : m₀.info.currentWalSalt.1 + 1 = s.wal.salt1 := by
        have := hincr.1
        simp only [Wal.isCheckpointIncreasedSalt, Bool.and_eq_true, beq_iff_eq] at this
        exact this.1
      have hnext := hs.eq_succ_of_salt ht he hsalt
      cases ht with
      | sync he' => omega
      | behind he' => omega
      | next _ _ hc => exact ⟨rfl, rfl, hc, rfl⟩
      | lost _ h =>
        rcases h with h | h
        · omega
        · simp [hincr.2.2] at h
      | far he' => omega

/-- After the begin and page hooks of a seen checkpoint a registered material is in sync, and
the copied pages are noted. -/
theorem Inv.beginAndPages_seen (hs : Inv hash base s) {copied : List (ℕ × PageData)}
    {m : IncrementalMaterial} (hm : (s.beginAndPages hash true copied).materials = some m) :
    m.info.currentWalSalt.1 = s.wal.salt1 ∧ m.info.currentNBackFill = s.wal.nBackfill ∧
      s.Covered hash m ∧ (s.beginAndPages hash true copied).checkpointPages = some fun q =>
        (overwrite copied (fun _ => none) q).map (IncrementalMaterial.Page.of hash q) := by
  simp only [beginAndPages, if_true] at hm ⊢
  rw [AutoBackupConfig.onCheckpointPages_materials] at hm
  obtain ⟨hsalt, hback, hcov, hnoted⟩ := hs.onCheckpointBegin hm
  refine ⟨hsalt, hback, hcov, ?_⟩
  exact (AutoBackupConfig.onCheckpointPages_spec hash copied (by simpa using hnoted)).2

/-- Copied pages are covered as torn ones. -/
theorem Covered.interrupted {m : IncrementalMaterial} (hc : s.Covered hash m)
    (config : AutoBackupConfig) (copied : List (ℕ × PageData)) :
    Covered hash { s with config := config, overwritten := overwrite copied s.overwritten,
                          torn := s.torn ++ copied.map Prod.fst } m := by
  intro q d hq
  simp only [overwrite_eq copied s.overwritten] at hq
  by_cases hnew : overwrite copied (fun _ => none) q = none
  · rw [hnew, Option.none_or] at hq
    exact (hc q d hq).imp_right (List.mem_append_left _)
  · obtain ⟨x, hx, hxq⟩ : ∃ x ∈ copied, x.1 = q := by
      by_contra hnone
      exact hnew (overwrite_empty_eq_none.mpr fun x hx hxq => hnone ⟨x, hx, hxq⟩)
    exact Or.inr (List.mem_append_right _ (List.mem_map.mpr ⟨x, hx, hxq⟩))

theorem Inv.append (hs : Inv hash base s) (frames : List Frame) :
    Inv hash base { s with wal := { s.wal with frames := s.wal.frames ++ frames } } where
  backfill_le := by
    have := hs.backfill_le
    simp only [Wal.mxFrame, List.length_append] at this ⊢
    omega
  torn_dirty q hq := (hs.torn_dirty q hq).append hs.backfill_le frames
  salt := hs.salt
  few := hs.few
  tracks m hm := by
    obtain ⟨e, he, ht⟩ := hs.tracks m hm
    refine ⟨e, he, ?_⟩
    cases ht with
    | sync he' hn hc => exact .sync he' hn hc
    | behind he' hn => exact .behind he' hn
    | next he' hn hc => exact .next he' hn hc
    | lost he' h => exact .lost he' h
    | far he' => exact .far he'

theorem Inv.restart (hs : Inv hash base s) {salt2 : UInt32} (hok : s.TrackStep (.restart salt2))
    (hfull : s.wal.nBackfill = s.wal.mxFrame) :
    Inv hash base { s with wal := s.wal.restart salt2 } where
  backfill_le := Nat.zero_le _
  torn_dirty q hq := absurd (hs.torn_dirty q hq) (Wal.not_dirty_of_complete hfull q)
  salt := by
    have := hs.salt
    simp only [Wal.restart, UInt32.toNat_add, UInt32.reduceToNat]
    omega
  few := by
    have := hok.1
    simp only [Wal.restart]
    omega
  tracks m hm := by
    obtain ⟨e, he, ht⟩ := hs.tracks m hm
    refine ⟨e, he, ?_⟩
    have hnew : ({ s with wal := s.wal.restart salt2 } : WalSystem).wal.nCkpt = s.wal.nCkpt + 1 :=
      rfl
    cases ht with
    | sync he' hn hc => exact .next (by omega) rfl hc
    | behind he' hn =>
      have hsalt : m.info.currentWalSalt.1 = s.wal.salt1 := by
        rw [← UInt32.toNat_inj, he, hs.salt, he']
      exact .lost (by omega) (Or.inr (hok.2 m hm hsalt (by omega)))
    | next he' hn hc => exact .far (by omega)
    | lost he' h => exact .far (by omega)
    | far he' => exact .far (by omega)

theorem Inv.interrupted (hs : Inv hash base s) (seen : Bool) (mxSafeFrame mxPage k : ℕ) :
    Inv hash base
      { s with
        config := s.beginAndPages hash seen ((s.wal.copyList mxSafeFrame mxPage).take k)
        overwritten := overwrite ((s.wal.copyList mxSafeFrame mxPage).take k) s.overwritten
        torn := s.torn ++ ((s.wal.copyList mxSafeFrame mxPage).take k).map Prod.fst } where
  backfill_le := hs.backfill_le
  torn_dirty q hq := by
    rcases List.mem_append.mp hq with hq | hq
    · exact hs.torn_dirty q hq
    · obtain ⟨x, hx, rfl⟩ := List.mem_map.mp hq
      exact Wal.dirty_of_mem_copyList (List.mem_of_mem_take hx)
  salt := hs.salt
  few := hs.few
  tracks m hm := by
    cases seen with
    | true =>
      obtain ⟨hsalt, hback, hcov, -⟩ := hs.beginAndPages_seen hm
      exact ⟨s.wal.nCkpt, hsalt ▸ hs.salt, .sync rfl hback (hcov.interrupted _ _)⟩
    | false =>
      obtain ⟨e, he, ht⟩ := hs.tracks m hm
      refine ⟨e, he, ?_⟩
      cases ht with
      | sync he' hn hc => exact .sync he' hn (hc.interrupted _ _)
      | behind he' hn => exact .behind he' hn
      | next he' hn hc => exact .next he' hn (hc.interrupted _ _)
      | lost he' h => exact .lost he' h
      | far he' => exact .far he'

/-- A checkpoint that no hook sees leaves every material behind. -/
theorem Inv.unseen (hs : Inv hash base s) {mxSafeFrame : ℕ} (hlt : s.wal.nBackfill < mxSafeFrame)
    (hle : mxSafeFrame ≤ s.wal.mxFrame) (overwritten : PageMap PageData) :
    Inv hash base ⟨{ s.wal with nBackfill := mxSafeFrame }, s.config, overwritten, []⟩ where
  backfill_le := hle
  torn_dirty q hq := absurd hq List.not_mem_nil
  salt := hs.salt
  few := hs.few
  tracks m hm := by
    obtain ⟨e, he, ht⟩ := hs.tracks m hm
    refine ⟨e, he, ?_⟩
    cases ht with
    | sync he' hn hc => exact .behind he' (hn ▸ hlt)
    | behind he' hn => exact .behind he' (Nat.lt_trans hn hlt)
    | next he' hn hc => exact .lost he' (Or.inl (Nat.zero_lt_of_lt hlt))
    | lost he' h => exact .lost he' (Or.inl (Nat.zero_lt_of_lt hlt))
    | far he' => exact .far he'

/-- **A seen checkpoint that finishes** records every overwritten page. -/
theorem Inv.recorded (hs : Inv hash base s) {mxSafeFrame mxPage : ℕ}
    (hok : s.TrackStep (.checkpoint true mxSafeFrame mxPage)) {t : WalSystem}
    (hstep : s.step hash (.checkpoint true mxSafeFrame mxPage) = some t) : t.Recorded hash := by
  simp only [step, if_true] at hstep
  split_ifs at hstep with hguard
  obtain rfl := Option.some.inj hstep
  intro material hm q d hq
  simp only [AutoBackupConfig.onCheckpointFinish] at hm
  cases hmat : (s.beginAndPages hash true (s.wal.copyList mxSafeFrame mxPage)).materials with
  | none => simp [hmat] at hm
  | some m₀ =>
    obtain ⟨-, -, hcov, hnoted⟩ := hs.beginAndPages_seen hmat
    simp only [hmat] at hm
    obtain rfl := Option.some.inj hm
    simp only [hnoted, Option.bind_some]
    simp only [overwrite_eq _ s.overwritten] at hq
    by_cases hnew : overwrite (s.wal.copyList mxSafeFrame mxPage) (fun _ => none) q = none
    · rw [hnew, Option.none_or] at hq
      rw [hnew, Option.map_none, Option.none_or]
      refine (hcov q d hq).resolve_right fun htorn => ?_
      obtain ⟨x, hx, hxq⟩ := hok q htorn
      exact overwrite_empty_eq_none.mp hnew x hx hxq
    · obtain ⟨d', hd'⟩ := Option.ne_none_iff_exists'.mp hnew
      rw [hd', Option.some_or] at hq
      rw [hd', ← Option.some.inj hq, Option.map_some, Option.some_or]

/-- **One step** keeps the invariant. -/
theorem Inv.step (hs : Inv hash base s) {a : WalAction} {t : WalSystem} (hok : s.TrackStep a)
    (hstep : s.step hash a = some t) : Inv hash base t := by
  cases a with
  | append frames =>
    obtain rfl := Option.some.inj hstep
    exact hs.append frames
  | interrupted seen mxSafeFrame mxPage k =>
    obtain rfl := Option.some.inj hstep
    exact hs.interrupted seen mxSafeFrame mxPage k
  | restart salt2 =>
    simp only [WalSystem.step] at hstep
    split_ifs at hstep with hguard
    obtain rfl := Option.some.inj hstep
    exact hs.restart hok hguard
  | checkpoint seen mxSafeFrame mxPage =>
    cases seen with
    | true =>
      have hrec := hs.recorded hok hstep
      simp only [WalSystem.step, if_true] at hstep
      split_ifs at hstep with hguard
      obtain rfl := Option.some.inj hstep
      refine ⟨hguard.2, by simp, hs.salt, hs.few, fun m hm => ⟨s.wal.nCkpt, ?_⟩⟩
      have hcov := hrec m hm
      have hinfo : m.info.currentWalSalt = (s.wal.salt1, s.wal.salt2) ∧
          m.info.currentNBackFill = mxSafeFrame := by
        simp only [AutoBackupConfig.onCheckpointFinish] at hm
        cases hmat : (s.beginAndPages hash true (s.wal.copyList mxSafeFrame mxPage)).materials with
        | none => simp [hmat] at hm
        | some m₀ =>
          simp only [hmat] at hm
          obtain rfl := Option.some.inj hm
          exact ⟨rfl, rfl⟩
      exact ⟨by rw [hinfo.1]; exact hs.salt, .sync rfl hinfo.2 fun q d hq => Or.inl (hcov q d hq)⟩
    | false =>
      simp only [WalSystem.step, beginAndPages, Bool.false_eq_true, if_false] at hstep
      split_ifs at hstep with hguard
      obtain rfl := Option.some.inj hstep
      exact hs.unseen hguard.1 hguard.2 _

/-- The state a backup leaves: its material is registered with a position of the log, `nCkpt`
restarts ago at most as far as the log is now, and nothing has been overwritten since. -/
structure AfterBackup (s : WalSystem) (m : IncrementalMaterial) : Prop where
  registered : s.config.materials = some m
  backfill_le : s.wal.nBackfill ≤ s.wal.mxFrame
  salt : s.wal.salt1 = m.info.currentWalSalt.1 + UInt32.ofNat s.wal.nCkpt
  few : s.wal.nCkpt + 1 < 2 ^ 32
  position : s.wal.nCkpt = 0 → m.info.currentNBackFill ≤ s.wal.nBackfill
  overwritten : ∀ q, s.overwritten q = none
  torn : s.torn = []

theorem AfterBackup.inv {m : IncrementalMaterial} (h : AfterBackup s m) :
    Inv hash m.info.currentWalSalt.1.toNat s where
  backfill_le := h.backfill_le
  torn_dirty q hq := by simp [h.torn] at hq
  salt := by
    rw [h.salt, UInt32.toNat_add, UInt32.toNat_ofNat']
    omega
  few := h.few
  tracks m' hm' := by
    obtain rfl : m = m' := Option.some.inj (h.registered.symm.trans hm')
    refine ⟨0, ?_, ?_⟩
    · have := m.info.currentWalSalt.1.toNat_lt
      omega
    · have hc : s.Covered hash m := fun q d hq => by simp [h.overwritten q] at hq
      rcases Nat.lt_trichotomy s.wal.nCkpt 1 with hn | hn | hn
      · have hzero : s.wal.nCkpt = 0 := by omega
        rcases Nat.eq_or_lt_of_le (h.position hzero) with hb | hb
        · exact .sync hzero.symm hb hc
        · exact .behind hzero.symm hb
      · rcases Nat.eq_zero_or_pos s.wal.nBackfill with hb | hb
        · exact .next (by omega) hb hc
        · exact .lost (by omega) (Or.inl hb)
      · exact .far hn

end WalSystem

/-- **Every overwritten page is recorded** after a seen checkpoint that finished, in every run
from a backup whose steps all meet `TrackStep`. -/
theorem recorded_of_trackStep (hash : PageData → UInt32) (s : WalSystem) (m : IncrementalMaterial)
    (hs : s.AfterBackup m) (run : List WalAction) (mxSafeFrame mxPage : ℕ) (t : WalSystem)
    (hmeets : Run.Meets (WalSystem.step hash) WalSystem.TrackStep s
      (run ++ [.checkpoint true mxSafeFrame mxPage]))
    (hrun : Run.exec (WalSystem.step hash) s (run ++ [.checkpoint true mxSafeFrame mxPage]) =
      some t) : t.Recorded hash := by
  rw [Run.exec_append] at hrun
  obtain ⟨u, hu, hlast⟩ := Option.bind_eq_some_iff.mp hrun
  obtain ⟨hrunMeets, hlastMeets⟩ := Run.Meets.append hmeets hu
  have hinv : WalSystem.Inv hash m.info.currentWalSalt.1.toNat u :=
    Run.inv_exec (fun _ _ _ hI hok hstep => hI.step hok hstep) hs.inv hrunMeets hu
  obtain ⟨w, hw, hend⟩ := Option.bind_eq_some_iff.mp hlast
  obtain rfl : w = t := Option.some.inj hend
  exact hinv.recorded hlastMeets.1 hw

/-! ### A run that records every page and a run that misses one -/

/-- A table leaf page of two bytes. -/
def leafPage (b : UInt8) : PageData := ⟨[13, b], by simp⟩

/-- A toy hash. -/
def sumHash (data : PageData) : UInt32 := data.bytes.foldl (fun h b => h + b.toUInt32) 0

/-- A backup right after a complete checkpoint of a log with one frame. -/
def justBackedUp : WalSystem where
  wal := ⟨10, 20, 1, [⟨1, leafPage 1⟩], 0⟩
  config := ⟨some ⟨⟨(10, 20), 1, true⟩, fun _ => none⟩, none⟩
  overwritten _ := none
  torn := []

theorem justBackedUp_afterBackup :
    justBackedUp.AfterBackup ⟨⟨(10, 20), 1, true⟩, fun _ => none⟩ :=
  ⟨rfl, by decide, by decide, by decide, by decide, fun _ => rfl, rfl⟩

/-- An interrupted checkpoint, a complete one and a restart, all seen, and new frames. -/
def seenRun : List WalAction :=
  [.append [⟨2, leafPage 2⟩, ⟨3, leafPage 3⟩], .interrupted true 3 9 1, .checkpoint true 3 9,
    .restart 21, .append [⟨2, leafPage 4⟩]]

theorem recorded_across_restart : ∃ t, Run.exec (WalSystem.step sumHash) justBackedUp
      (seenRun ++ [.checkpoint true 1 9]) = some t ∧ t.Recorded sumHash :=
  ⟨_, rfl, recorded_of_trackStep sumHash justBackedUp _ justBackedUp_afterBackup seenRun 1 9 _
    (by decide +kernel) rfl⟩

/-- **A page is missed**: after the backup a frame is appended and an unseen checkpoint copies
it, the log restarts, and the next seen checkpoint is taken for the first one since. -/
theorem page_missed_after_restart : ∃ t, Run.exec (WalSystem.step sumHash) justBackedUp
      [.append [⟨2, leafPage 2⟩], .checkpoint false 2 9, .restart 21,
        .append [⟨3, leafPage 3⟩], .checkpoint true 1 9] = some t ∧
      justBackedUp.AfterBackup ⟨⟨(10, 20), 1, true⟩, fun _ => none⟩ ∧ ¬t.Recorded sumHash := by
  refine ⟨_, rfl, justBackedUp_afterBackup, fun h => ?_⟩
  have hpage := h _ rfl 2 (leafPage 2) rfl
  revert hpage
  decide

end Wcdb
