import Wcdb.Repair.WalExposure

/-!
# Leftover frames of an earlier generation

SQLite starts a log over without cutting its file, so the frames of the current generation are
commonly followed by **leftover** frames, which carry another salt. To SQLite they end the log. A
frame of the right salt whose checksum is wrong ends the log for `Wal::doInitialize` too; a frame of
the wrong salt makes it fail, and a pager to which the log is not important goes on without any log.
-/

namespace Wcdb.Repair

namespace Wal

open Log

/-- A log of `n` frames that make up complete transactions, and `k` leftover frames. -/
structure Leftover (L : Log) (n k : ℕ) : Prop where
  size : L.file.size = Log.headerSize + L.frameSize * (n + k)
  magic : L.magic &&& 0xFFFFFFFE = 0x377F0682
  header : L.calculateChecksum (L.header.take 24) (0, 0) = L.headerChecksum
  sound : ∀ j : ℤ, 0 < j → j ≤ n → L.Sound j
  commit : 0 < n → Frame.truncate (L.frame n) ≠ 0
  stale : ∀ j : ℤ, n < j → j ≤ n + k → Frame.salt (L.frame j) ≠ L.salt

/-- What `Pager::doInitialize` makes of the log. -/
inductive LogUse where
  | used
  | disposed
  | failed
  deriving DecidableEq, Repr

/-- The end of `Pager::doInitialize`, after `Wal::doInitialize`. `isCorruption` is about the error
that the pager has. -/
def useLog (walImportance isCorruption : Bool) (initialized : Bool) : LogUse :=
  if initialized then .used else if walImportance ∨ !isCorruption then .failed else .disposed

/-- The log is used, and of its first `n` frames, the last of which is a commit, all that are not
checkpointed are exposed, and nothing else. -/
structure EndsAfter (L : Log) (n : ℕ) (b : ℤ) (result : Bool × Wal) : Prop where
  used : ∀ walImportance isCorruption, useLog walImportance isCorruption result.1 = .used
  maxFrame : result.2.maxFrame = if b < n then n else 0
  pages : ∀ p j, result.2.pages2Frames p = some j ↔ Latest L.page b n p j

variable {L : Log} {n k : ℕ} {b c j m : ℤ} {s : Scan} {w : Wal}

namespace Leftover

/-- A frame past the first `n` is leftover, or past the end of the file. -/
theorem initializeFrame_eq_none (hL : Leftover L n k) (hj : n < j) :
    L.initializeFrame L.salt j = none := by
  cases hframe : L.initializeFrame L.salt j with
  | none => rfl
  | some data =>
    obtain ⟨-, hin, hsalt⟩ := initializeFrame_eq_some hframe
    refine absurd hsalt (hL.stale j hj ?_)
    have hend := hin.2
    rw [hL.size] at hend
    have hoff := hin.1
    have hpos : (0 : ℤ) < L.frameSize := by
      simp only [Log.frameSize]
      omega
    have hle : L.frameOffset j + L.frameSize ≤ Log.headerSize + L.frameSize * (n + k) := by
      zify at hend
      rwa [Int.toNat_of_nonneg hoff] at hend
    simp only [Log.frameOffset] at hle
    by_contra hlt
    nlinarith

/-- The walk does not come past the first `n` frames. -/
theorem scanFrames_unreadable (hL : Leftover L n k) (hb : 0 ≤ b) (hjn : j ≤ n) (hnm : n < m)
    (h : ScanAt L b c j s) :
    (scanFrames L false L.salt (frameNumbers j m) s).1 = .unreadable := by
  obtain ⟨d, hd⟩ := Int.eq_ofNat_of_zero_le (sub_nonneg.mpr hjn)
  induction d generalizing j c s with
  | zero =>
    rw [frameNumbers_of_lt (by omega), scanFrames, hL.initializeFrame_eq_none (by omega)]
  | succ d ih =>
    have hbj := h.start_le.trans h.le_read
    have hnext : L.Sound (j + 1) := hL.sound _ (by omega) (by omega)
    have hchain := hnext.chain
    rw [add_sub_cancel_right, ← h.chain, stored_of_inFile hnext.inFile] at hchain
    obtain ⟨c', hc'⟩ := h.frame hnext
    rw [frameNumbers_of_lt (by omega), scanFrames, initializeFrame_of_sound hnext]
    simp only [hchain, ne_eq, not_true_eq_false, if_false]
    exact ih (by omega) hc' (by omega)

/-- The frames are read exactly when none of them is looked at, or no leftover one. -/
theorem readFrames_ok_iff (hL : Leftover L n k) (hw : Unread w) (hsalt : w.salt = L.salt) :
    (readFrames L false m w).1 = true ↔ m ≤ w.nbackfill ∨ 0 ≤ w.nbackfill ∧ m ≤ n := by
  unfold readFrames
  split
  · next hle => simp [hle]
  next hlt =>
  rw [if_neg (not_not.mpr hL.header), hsalt]
  rcases lt_or_ge w.nbackfill 0 with hneg | hpos
  · -- The walk starts before the first frame, where the file has none.
    have hnone : L.initializeFrame L.salt (w.nbackfill + 1) = none := by
      cases hframe : L.initializeFrame L.salt (w.nbackfill + 1) with
      | none => rfl
      | some data =>
        have := (initializeFrame_eq_some hframe).2.1.pos
        omega
    have hstart : chainStart L L.salt w.nbackfill = some L.headerChecksum := by
      simp [chainStart, hneg.le]
    have hnumbers := frameNumbers_of_lt (by omega : w.nbackfill < m)
    simp only [hstart, hnumbers, scanFrames, hnone, Bool.false_eq_true, false_iff]
    omega
  rcases lt_or_ge (n : ℤ) w.nbackfill with hgt | hle
  · have hstart : chainStart L L.salt w.nbackfill = none := by
      simp [chainStart, hL.initializeFrame_eq_none hgt, show 0 < w.nbackfill by omega]
    simp only [hstart, Bool.false_eq_true, false_iff]
    omega
  · have hstart : chainStart L L.salt w.nbackfill = some (L.stored w.nbackfill) := by
      rcases eq_or_lt_of_le hpos with hzero | hb
      · simp [chainStart, ← hzero, stored]
      · have hsound := hL.sound _ hb hle
        simp [chainStart, hb, initializeFrame_of_sound hsound, stored_of_inFile hsound.inFile]
    have hat := hw.scanAt (L := L) (rfl : L.stored w.nbackfill = _)
    simp only [hstart]
    rcases le_or_gt m n with hmn | hmn
    · have hfinished := scanFrames_finished false (by omega : w.nbackfill ≤ m) hat
        fun j hj hj' => hL.sound j (by omega) (hj'.trans hmn)
      simp [hfinished, hpos, hmn]
    · have hunreadable := hL.scanFrames_unreadable hpos hle hmn hat
      simp only [hunreadable, Bool.false_eq_true, false_iff]
      omega

end Leftover

/-- The number of frames is an `int`. -/
theorem numberOfFramesInFile_le (L : Log) : numberOfFramesInFile L ≤ maxInt := by
  have hsize : int32 L.file.size ≤ maxInt := by
    have hlt := Int.bmod_lt (x := (L.file.size : ℤ)) (by decide : 0 < 2 ^ 32)
    unfold int32 maxInt
    omega
  have hpos : (0 : ℤ) ≤ L.frameSize := Int.natCast_nonneg _
  unfold numberOfFramesInFile
  rcases le_or_gt 0 (int32 L.file.size - Log.headerSize) with hsign | hsign
  · have := Int.tdiv_le_self (L.frameSize : ℤ) hsign
    simp only [Log.headerSize] at this ⊢
    omega
  · have hle :=
      Int.tdiv_le_tdiv (c := (L.frameSize : ℤ)) (by simp only [Log.frameSize]; omega) hsign.le
    rw [Int.zero_tdiv] at hle
    exact hle.trans (by decide)

/-- Reading the frames up to `m` shows the first `n` exactly when no other is looked at. -/
theorem endsAfter_readFrames_iff (hL : Leftover L n k) (hw : Unread w) (hsalt : w.salt = L.salt) :
    EndsAfter L n w.nbackfill (readFrames L false m w) ↔
      m ≤ w.nbackfill ∧ n ≤ w.nbackfill ∨ 0 ≤ w.nbackfill ∧ w.nbackfill < n ∧ m = n := by
  have hok := hL.readFrames_ok_iff (m := m) hw hsalt
  generalize hrun : readFrames L false m w = result at hok ⊢
  obtain ⟨ok, w'⟩ := result
  have hused : (∀ walImportance isCorruption, useLog walImportance isCorruption ok = .used) ↔
      ok = true := by
    cases ok <;> simp [useLog]
  constructor
  · intro h
    obtain rfl : ok = true := hused.mp h.used
    obtain ⟨c, e, hread, hem, hend⟩ := readFrames_spec hw hsalt hrun
    have hbc := hread.start_le
    have hce := hread.le_read
    rcases le_or_gt (n : ℤ) w.nbackfill with hnb | hbn
    · have := hok.mp rfl
      omega
    · have hself : Latest L.page w.nbackfill n (L.page n) n :=
        ⟨hbn, le_rfl, rfl, fun j hj hj' => by omega⟩
      have hnc := ((hread.pages _ _).mp ((h.pages _ _).mpr hself)).upto
      have := hok.mp rfl
      omega
  · intro hcond
    obtain rfl : ok = true := hok.mpr (by omega)
    obtain ⟨c, e, hread, hem, hend⟩ := readFrames_spec hw hsalt hrun
    have hbc := hread.start_le
    have hce := hread.le_read
    have he : e = max w.nbackfill n := by
      rcases hend with hle | hbroken
      · omega
      · by_contra hne
        exact hbroken (hL.sound (e + 1) (by omega) (by omega))
    have hc : c = max w.nbackfill n := by
      by_contra hne
      exact hL.commit (by omega) (hread.open_end n (by omega) (by omega))
    refine ⟨hused.mpr rfl, ?_, fun p j => ?_⟩
    · rw [hread.commit.1, hc]
      split_ifs <;> omega
    · rw [hread.pages, hc]
      rcases le_or_gt (n : ℤ) w.nbackfill with hnb | hbn
      · rw [max_eq_left hnb]
        exact iff_of_false (Latest.not_of_le le_rfl) (Latest.not_of_le hnb)
      · rw [max_eq_right hbn.le]

/-- **Leftover frames.** With the `-shm` file not trusted, a log with leftover frames is used and
shows the committed pages of its generation if and only if the frames that are counted from the size
of the file are those of the generation, or all frames are checkpointed. -/
theorem endsAfter_iff {format : LogFormat} {data : FileData} (hL : Leftover ⟨format, data⟩ n k)
    (shm : OnDisk) (memory : Salt) (known : Salt × ℤ) :
    let L : Log := ⟨format, data⟩
    let b := (reconcile known.1 known.2 maxInt L.salt).1
    EndsAfter L n b (doInitialize format (.file true data) shm memory false known) ↔
      numberOfFramesInFile L ≤ b ∧ n ≤ b ∨ 0 ≤ b ∧ b < n ∧ numberOfFramesInFile L = n := by
  intro L b
  have hsize : 32 ≤ data.size := by
    rw [show data.size = _ from hL.size]
    simp [Log.headerSize]
  have hmagic : ¬ L.magic &&& 0xFFFFFFFE ≠ 0x377F0682 := not_not.mpr hL.magic
  have hbound : (reconcile known.1 known.2 maxInt L.salt).2 = maxInt := by
    unfold reconcile
    split <;> rfl
  have hread : doInitialize format (.file true data) shm memory false known =
      readFrames L false (min (numberOfFramesInFile L) (reconcile known.1 known.2 maxInt L.salt).2)
        { fresh known.1 known.2 with fileSize := data.size, nbackfill := b, salt := L.salt } := by
    simp only [doInitialize, atHand, readLog, OnDisk.getFileSize, OnDisk.open?, Log.headerSize,
      Bool.false_eq_true, if_false]
    rw [if_neg (by omega), if_neg (by omega), if_neg hmagic]
    rfl
  rw [hread, hbound, min_eq_left (numberOfFramesInFile_le L)]
  exact endsAfter_readFrames_iff (w := { fresh known.1 known.2 with
    fileSize := data.size, nbackfill := b, salt := L.salt }) hL ⟨rfl, rfl, rfl⟩ rfl

/-- The two transactions of `twoCommits`, and nothing behind them. -/
theorem endsAfter_twoCommits :
    EndsAfter ⟨littleFormat, twoCommits 1104⟩ 2 0
      (doInitialize littleFormat (.file true (twoCommits 1104)) .missing (7, 7) false
        ((0, 0), 0)) := by
  have hL : Leftover ⟨littleFormat, twoCommits 1104⟩ 2 0 :=
    ⟨by decide, by decide +kernel, by decide +kernel,
      fun j hj hj' => sound_twoCommits le_rfl (by omega), fun _ => by decide +kernel,
      fun j hj hj' => by omega⟩
  have hcount : numberOfFramesInFile ⟨littleFormat, twoCommits 1104⟩ = 2 := by decide +kernel
  have hb : (reconcile (0, 0) 0 maxInt (Log.salt ⟨littleFormat, twoCommits 1104⟩)).1 = 0 := by
    decide +kernel
  have hiff := endsAfter_iff hL .missing (7, 7) ((0, 0), 0)
  simp only [hb, hcount] at hiff
  exact hiff.mpr (.inr ⟨le_rfl, by decide, rfl⟩)

/-- The same two transactions, and one frame with another salt. -/
def staleTail : FileData :=
  sparse 1640
    [(0, [55, 127, 6, 130]), (24, [138, 32, 124, 19, 16, 51, 249, 184]),
      (35, [1, 0, 0, 0, 1]), (48, [125, 90, 133, 206, 76, 23, 194, 221]),
      (571, [2, 0, 0, 0, 1]), (584, [238, 56, 75, 7, 112, 162, 119, 167]), (1112, [1])]

theorem leftover_staleTail : Leftover ⟨littleFormat, staleTail⟩ 2 1 where
  size := by decide
  magic := by decide +kernel
  header := by decide +kernel
  sound j hj hj' := by
    obtain rfl | rfl : j = 1 ∨ j = 2 := by omega
    · exact ⟨⟨by decide +kernel, by decide +kernel⟩, by decide +kernel, by decide +kernel⟩
    · exact ⟨⟨by decide +kernel, by decide +kernel⟩, by decide +kernel, by decide +kernel⟩
  commit _ := by decide +kernel
  stale j hj hj' := by
    obtain rfl : j = 3 := by omega
    decide +kernel

/-- The log is disposed of. -/
theorem not_endsAfter_staleTail :
    let result := doInitialize littleFormat (.file true staleTail) .missing (7, 7) false ((0, 0), 0)
    Leftover ⟨littleFormat, staleTail⟩ 2 1 ∧ useLog false true result.1 = .disposed ∧
      result.2.pages2Frames 2 = none ∧ ¬EndsAfter ⟨littleFormat, staleTail⟩ 2 0 result := by
  intro result
  have hresult : useLog false true result.1 = .disposed ∧ result.2.pages2Frames 2 = none := by
    decide +kernel
  refine ⟨leftover_staleTail, hresult.1, hresult.2, fun h => ?_⟩
  exact absurd ((h.used false true).symm.trans hresult.1) (by decide)

end Wal

end Wcdb.Repair
