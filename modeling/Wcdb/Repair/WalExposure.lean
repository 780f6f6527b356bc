import Wcdb.Repair.Wal
import Mathlib.Tactic.Linarith

/-!
# Which pages of the log are exposed

What a reader of the log should see is stated on the frames alone (`Log.Valid`, `Committed`,
`Latest`): the last commit frame of the valid range, for each page its largest frame up to that
commit, and the pages of the frames behind it as disposed (`Exposes`).

The walk over the frames keeps `ScanAt`: everything read so far is described exactly, whatever
the content of the file. `readFrames_spec` brings this to the whole of `doInitialize`. What it
then misses is only what `numberOfFramesInFile` does not count: the size of the file is cast to
`int`, so that a log of two gigabytes or more is read as a shorter one.

Without a `-shm` file the fields of `Shm` keep the values of `Shm.fresh`. The largest `uint32_t`
becomes `-1` as an `int`, and no frame is read unless the *uninitialised* salt happens to
disagree with the log.
-/

namespace Wcdb.Repair

/-- Among the numbers in `(lo, hi]` that `page` maps to `p`, `k` is the largest. -/
structure Latest (page : ℤ → ℤ) (lo hi p k : ℤ) : Prop where
  above : lo < k
  upto : k ≤ hi
  writes : page k = p
  last : ∀ j, k < j → j ≤ hi → page j ≠ p

namespace Latest

variable {page : ℤ → ℤ} {lo mid hi p k k' : ℤ}

theorem not_of_le (h : hi ≤ lo) : ¬ Latest page lo hi p k := fun hk => by
  have := hk.above
  have := hk.upto
  omega

/-- One more number at the top. -/
theorem succ_iff (h : lo ≤ hi) : Latest page lo (hi + 1) p k ↔
    if p = page (hi + 1) then k = hi + 1 else Latest page lo hi p k := by
  split
  · next hp =>
    refine ⟨fun hk => ?_, ?_⟩
    · by_contra hne
      have hlt : k < hi + 1 := lt_of_le_of_ne hk.upto hne
      exact hk.last (hi + 1) hlt le_rfl hp.symm
    · rintro rfl
      exact ⟨by omega, le_rfl, hp.symm, fun j hj hj' => absurd hj (by omega)⟩
  · next hp =>
    constructor
    · intro hk
      have hne : k ≠ hi + 1 := by
        rintro rfl
        exact hp hk.writes.symm
      have hup := hk.upto
      exact ⟨hk.above, by omega, hk.writes, fun j hj hj' => hk.last j hj (by omega)⟩
    · intro hk
      have hup := hk.upto
      refine ⟨hk.above, by omega, hk.writes, fun j hj hj' => ?_⟩
      rcases eq_or_lt_of_le hj' with rfl | hlt
      · exact fun hp' => hp hp'.symm
      · exact hk.last j hj (by omega)

/-- A number mapped to `p` gives a largest one. -/
theorem exists_of_mem {j : ℤ} (hlo : lo < j) (hhi : j ≤ hi) (hp : page j = p) :
    ∃ k, Latest page lo hi p k := by
  obtain ⟨n, hn⟩ := Int.eq_ofNat_of_zero_le (sub_nonneg.mpr hhi)
  induction n using Nat.strong_induction_on generalizing j with
  | _ n ih =>
    by_cases hlater : ∃ i, j < i ∧ i ≤ hi ∧ page i = p
    · obtain ⟨i, hji, hihi, hip⟩ := hlater
      obtain ⟨m, hm⟩ := Int.eq_ofNat_of_zero_le (sub_nonneg.mpr hihi)
      exact ih m (by omega) (by omega) hihi hip hm
    · push Not at hlater
      exact ⟨j, hlo, hhi, hp, hlater⟩

/-- Two intervals, one behind the other. -/
theorem append_iff (hlo : lo ≤ mid) (hhi : mid ≤ hi) : Latest page lo hi p k ↔
    Latest page mid hi p k ∨ (∀ j, ¬ Latest page mid hi p j) ∧ Latest page lo mid p k := by
  constructor
  · intro hk
    rcases lt_or_ge mid k with hmid | hmid
    · exact Or.inl ⟨hmid, hk.upto, hk.writes, hk.last⟩
    · refine Or.inr ⟨fun j hj => ?_, hk.above, hmid, hk.writes,
        fun j hj hj' => hk.last j hj (by omega)⟩
      have := hj.above
      exact hk.last j (by omega) hj.upto hj.writes
  · rintro (hk | ⟨hnone, hk⟩)
    · exact ⟨lt_of_le_of_lt hlo hk.above, hk.upto, hk.writes, hk.last⟩
    · refine ⟨hk.above, hk.upto.trans hhi, hk.writes, fun j hj hj' hpage => ?_⟩
      rcases le_or_gt j mid with hmid | hmid
      · exact hk.last j hj hmid hpage
      · obtain ⟨i, hi'⟩ := exists_of_mem hmid hj' hpage
        exact hnone i hi'

end Latest

/-! ### The frames of a log -/

namespace Log

variable (L : Log)

/-- The bytes of a frame. -/
def frame (k : ℤ) : List UInt8 :=
  (List.range L.frameSize).map fun i => L.file.byte ((L.frameOffset k).toNat + i)

def page (k : ℤ) : ℤ := Frame.pageno (L.frame k)

/-- The checksum stored in a frame; the header stands before the first one. -/
def stored (k : ℤ) : Checksum := if k = 0 then L.headerChecksum else Frame.checksum (L.frame k)

/-- The frame lies within the file. -/
def InFile (k : ℤ) : Prop :=
  0 ≤ L.frameOffset k ∧ (L.frameOffset k).toNat + L.frameSize ≤ L.file.size

/-- The frame lies within the file, carries the salt of the header and continues the chain. -/
structure Sound (k : ℤ) : Prop where
  inFile : L.InFile k
  salt : Frame.salt (L.frame k) = L.salt
  chain : L.frameChecksum (L.frame k) (L.stored (k - 1)) = L.stored k

/-- Every frame from `b + 1` to `f` is sound and lies within `m`. -/
def ValidTo (b m f : ℤ) : Prop := f ≤ m ∧ ∀ k, b < k → k ≤ f → L.Sound k

/-- A commit frame of the valid range. -/
structure Committed (b m f : ℤ) : Prop where
  above : b < f
  valid : L.ValidTo b m f
  commit : Frame.truncate (L.frame f) ≠ 0

variable {L}

theorem InFile.pos {k : ℤ} (h : L.InFile k) : 0 < k := by
  have hsize : (512 : ℤ) ≤ L.pageSize := by exact_mod_cast L.pageSize_ge
  have hoff := h.1
  simp only [frameOffset, frameSize, headerSize] at hoff
  push_cast at hoff
  by_contra hk
  nlinarith

theorem stored_of_inFile {k : ℤ} (h : L.InFile k) : L.stored k = Frame.checksum (L.frame k) := by
  have := h.pos
  simp [stored, this.ne']

theorem acquireFrameData_of_inFile {k : ℤ} (h : L.InFile k) :
    L.acquireFrameData k = some (L.frame k) := by
  simp [acquireFrameData, FileData.map, frame, h.1, h.2]

theorem initializeFrame_eq_some {k : ℤ} {data : List UInt8}
    (h : L.initializeFrame L.salt k = some data) :
    data = L.frame k ∧ L.InFile k ∧ Frame.salt (L.frame k) = L.salt := by
  by_cases hin : L.InFile k
  · simp only [initializeFrame, acquireFrameData_of_inFile hin, Option.bind_eq_bind,
      Option.bind_some] at h
    split at h
    · simp at h
    · next hsalt =>
      refine ⟨?_, hin, not_not.mp hsalt⟩
      simpa using h.symm
  · have hdata : L.acquireFrameData k = none := by
      simp only [acquireFrameData, FileData.map]
      exact if_neg hin
    simp [initializeFrame, hdata] at h

theorem initializeFrame_of_sound {k : ℤ} (h : L.Sound k) :
    L.initializeFrame L.salt k = some (L.frame k) := by
  simp [initializeFrame, acquireFrameData_of_inFile h.inFile, h.salt]

end Log

/-! ### The walk over the frames -/

namespace Wal

open Log

/-- **What has been read.** The frames `b + 1, …, j` are sound, and the last commit among them is
`c`, with `c = b` standing for none. -/
structure ScanAt (L : Log) (b c j : ℤ) (s : Scan) : Prop where
  start_le : b ≤ c
  le_read : c ≤ j
  chain : s.checksum = L.stored j
  sound : ∀ k, b < k → k ≤ j → L.Sound k
  commit : s.maxFrame = (if c = b then 0 else c) ∧ (c ≠ b → Frame.truncate (L.frame c) ≠ 0)
  open_end : ∀ k, c < k → k ≤ j → Frame.truncate (L.frame k) = 0
  records : ∀ p k, s.committedRecords p = some k ↔ Latest L.page c j p k
  pages : ∀ p k, s.pages2Frames p = some k ↔ Latest L.page b c p k

variable {L : Log} {b c j m : ℤ} {s : Scan}

/-- One more sound frame. -/
theorem ScanAt.frame (h : ScanAt L b c j s) (hsound : L.Sound (j + 1)) :
    ∃ c', ScanAt L b c' (j + 1) (s.frame (j + 1) (L.frame (j + 1))) := by
  have hbc := h.start_le
  have hcj := h.le_read
  have hchain : Frame.checksum (L.frame (j + 1)) = L.stored (j + 1) :=
    (stored_of_inFile hsound.inFile).symm
  have hsounds : ∀ k, b < k → k ≤ j + 1 → L.Sound k := fun k hk hk' => by
    rcases eq_or_lt_of_le hk' with rfl | hlt
    · exact hsound
    · exact h.sound k hk (by omega)
  -- The buffer after the frame, before a commit empties it.
  have hrecords : ∀ p k, (if p = Frame.pageno (L.frame (j + 1)) then some (j + 1)
      else s.committedRecords p) = some k ↔ Latest L.page c (j + 1) p k := fun p k => by
    rw [Latest.succ_iff hcj]
    by_cases hp : p = Frame.pageno (L.frame (j + 1))
    · simp [hp, page, eq_comm]
    · simp [hp, page, h.records]
  by_cases hcommit : Frame.truncate (L.frame (j + 1)) = 0
  · refine ⟨c, ?_⟩
    simp only [Scan.frame, hcommit, ne_eq, not_true_eq_false, if_false]
    refine ⟨hbc, by omega, hchain, hsounds, h.commit, fun k hk hk' => ?_, hrecords, h.pages⟩
    rcases eq_or_lt_of_le hk' with rfl | hlt
    · exact hcommit
    · exact h.open_end k hk (by omega)
  · refine ⟨j + 1, ?_⟩
    simp only [Scan.frame, hcommit, ne_eq, not_false_eq_true, if_true]
    have hb : j + 1 ≠ b := by omega
    refine ⟨by omega, le_rfl, hchain, hsounds, ⟨by simp [hb], fun _ => hcommit⟩,
      fun k hk hk' => by omega, fun p k => ?_, fun p k => ?_⟩
    · simp [Latest.not_of_le (le_refl (j + 1))]
    · rw [Latest.append_iff hbc (by omega : c ≤ j + 1), Option.or_eq_some_iff, hrecords, h.pages]
      refine or_congr_right (and_congr_left' ?_)
      rw [Option.eq_none_iff_forall_not_mem]
      exact forall_congr' fun i => not_congr (hrecords p i)

theorem frameNumbers_of_lt (h : j < m) : frameNumbers j m = (j + 1) :: frameNumbers (j + 1) m := by
  have hn : (m - j).toNat = (m - (j + 1)).toNat + 1 := by omega
  rw [frameNumbers, hn, List.range_succ_eq_map, frameNumbers]
  simp only [List.map_cons, List.map_map, Nat.cast_zero, add_zero, List.cons.injEq, true_and]
  refine List.map_congr_left fun i _ => ?_
  simp only [Function.comp_apply, Nat.cast_succ]
  ring

theorem frameNumbers_of_ge (h : m ≤ j) : frameNumbers j m = [] := by
  simp [frameNumbers, Int.toNat_eq_zero.mpr (by omega : m - j ≤ 0)]

/-- **The walk.** If it finishes, it has read the frames up to some `e`, and it stopped there
because `m` was reached or, when the `-shm` file is not trusted, because the chain broke. -/
theorem scanFrames_spec {shmLegality : Bool} {s' : Scan} (hjm : j ≤ m) (h : ScanAt L b c j s)
    (hrun : scanFrames L shmLegality L.salt (frameNumbers j m) s = (.finished, s')) :
    ∃ c' e, ScanAt L b c' e s' ∧ j ≤ e ∧ e ≤ m ∧ (e = m ∨ ¬ L.Sound (e + 1)) := by
  obtain ⟨n, hn⟩ := Int.eq_ofNat_of_zero_le (sub_nonneg.mpr hjm)
  induction n generalizing j c s with
  | zero =>
    have hj : j = m := by omega
    rw [frameNumbers_of_ge hj.ge, scanFrames] at hrun
    obtain rfl : s = s' := by simpa using hrun
    exact ⟨c, j, h, le_rfl, hjm, Or.inl hj⟩
  | succ n ih =>
    have hlt : j < m := by omega
    rw [frameNumbers_of_lt hlt, scanFrames] at hrun
    cases hframe : L.initializeFrame L.salt (j + 1) with
    | none => simp [hframe] at hrun
    | some data =>
      obtain ⟨rfl, hin, hsalt⟩ := initializeFrame_eq_some hframe
      have hprev : L.stored (j + 1 - 1) = s.checksum := by rw [add_sub_cancel_right, h.chain]
      simp only [hframe] at hrun
      split at hrun
      · next hbroken =>
        obtain rfl : s = s' := by simpa using congrArg Prod.snd hrun
        refine ⟨c, j, h, le_rfl, hjm, Or.inr fun hsound => hbroken ?_⟩
        rw [← hprev, hsound.chain, stored_of_inFile hin]
      · next hchain =>
        have hsound : L.Sound (j + 1) := by
          refine ⟨hin, hsalt, ?_⟩
          rw [hprev, not_not.mp hchain, stored_of_inFile hin]
        obtain ⟨c', hc'⟩ := h.frame hsound
        obtain ⟨c'', e, he, hje, hem, hend⟩ := ih (by omega) hc' hrun (by omega)
        exact ⟨c'', e, he, by omega, hem, hend⟩

/-- Over sound frames the walk finishes. -/
theorem scanFrames_finished (shmLegality : Bool) (hjm : j ≤ m) (h : ScanAt L b c j s)
    (hsound : ∀ k, j < k → k ≤ m → L.Sound k) :
    (scanFrames L shmLegality L.salt (frameNumbers j m) s).1 = .finished := by
  obtain ⟨n, hn⟩ := Int.eq_ofNat_of_zero_le (sub_nonneg.mpr hjm)
  induction n generalizing j c s with
  | zero => rw [frameNumbers_of_ge (by omega), scanFrames]
  | succ n ih =>
    have hnext : L.Sound (j + 1) := hsound _ (by omega) (by omega)
    have hchain := hnext.chain
    rw [add_sub_cancel_right, ← h.chain, stored_of_inFile hnext.inFile] at hchain
    obtain ⟨c', hc'⟩ := h.frame hnext
    rw [frameNumbers_of_lt (by omega), scanFrames, initializeFrame_of_sound hnext]
    simp only [hchain, ne_eq, not_true_eq_false, if_false]
    exact ih (by omega) hc' (fun k hk hk' => hsound k (by omega) hk') (by omega)

/-! ### What `doInitialize` leaves -/

/-- The state of `Wal` after the frames `b + 1, …, e` were read, with the last commit `c`. -/
structure ReadTo (L : Log) (b c e : ℤ) (w : Wal) : Prop where
  start_le : b ≤ c
  le_read : c ≤ e
  sound : ∀ k, b < k → k ≤ e → L.Sound k
  commit : w.maxFrame = (if c = b then 0 else c) ∧ (c ≠ b → Frame.truncate (L.frame c) ≠ 0)
  open_end : ∀ k, c < k → k ≤ e → Frame.truncate (L.frame k) = 0
  pages : ∀ p k, w.pages2Frames p = some k ↔ Latest L.page b c p k
  disposed : ∀ p, w.disposedPages p = true ↔ ∃ k, Latest L.page c e p k

/-- Nothing has been read yet. -/
structure Unread (w : Wal) : Prop where
  maxFrame : w.maxFrame = 0
  pages : w.pages2Frames = fun _ => none
  disposed : w.disposedPages = fun _ => false

theorem Unread.readTo {w : Wal} (h : Unread w) (b : ℤ) : ReadTo L b b b w where
  start_le := le_rfl
  le_read := le_rfl
  sound k hk hk' := by omega
  commit := by simp [h.maxFrame]
  open_end k hk hk' := by omega
  pages p k := by simp [h.pages, Latest.not_of_le (le_refl b)]
  disposed p := by simp [h.disposed, Latest.not_of_le (le_refl b)]

/-- The walk starts with nothing read. -/
theorem Unread.scanAt {w : Wal} (h : Unread w) {checksum : Checksum}
    (hchecksum : checksum = L.stored b) :
    ScanAt L b b b ⟨checksum, fun _ => none, w.truncate, w.maxFrame, w.pages2Frames⟩ := by
  have hread := h.readTo (L := L) b
  exact ⟨le_rfl, le_rfl, hchecksum, hread.sound, hread.commit, hread.open_end,
    fun p k => by simp [Latest.not_of_le (le_refl b)], hread.pages⟩

/-- **The frames of a log.** Whenever the reading succeeds, the frames up to some `e` were read,
and `e` is the bound or the last frame before the chain breaks. -/
theorem readFrames_spec {shmLegality : Bool} {w w' : Wal} (hw : Unread w) (hsalt : w.salt = L.salt)
    (hrun : readFrames L shmLegality m w = (true, w')) :
    ∃ c e, ReadTo L w.nbackfill c e w' ∧ e ≤ max w.nbackfill m ∧ (m ≤ e ∨ ¬ L.Sound (e + 1)) := by
  unfold readFrames at hrun
  split at hrun
  · next hle =>
    obtain rfl : w = w' := by simpa using hrun
    exact ⟨_, _, hw.readTo _, le_max_left _ _, Or.inl hle⟩
  next hlt =>
  split at hrun
  · simp at hrun
  rw [hsalt] at hrun
  cases hstart : chainStart L L.salt w.nbackfill with
  | none => simp [hstart] at hrun
  | some checksum =>
    simp only [hstart] at hrun
    generalize hscan : scanFrames L shmLegality L.salt (frameNumbers w.nbackfill m)
      ⟨checksum, fun _ => none, w.truncate, w.maxFrame, w.pages2Frames⟩ = result at hrun
    obtain ⟨outcome, s⟩ := result
    cases outcome with
    | unreadable => simp at hrun
    | corrupted => simp at hrun
    | finished =>
      have hb : w.nbackfill < m := by omega
      -- A negative frame number is not in the file, so the walk started at a frame or the header.
      have hpos : 0 ≤ w.nbackfill := by
        rw [frameNumbers_of_lt hb, scanFrames] at hscan
        cases hframe : L.initializeFrame L.salt (w.nbackfill + 1) with
        | none => simp [hframe] at hscan
        | some data =>
          obtain ⟨-, hin, -⟩ := initializeFrame_eq_some hframe
          have := hin.pos
          omega
      have hchecksum : checksum = L.stored w.nbackfill := by
        unfold chainStart at hstart
        split at hstart
        · obtain ⟨data, hdata, rfl⟩ := Option.map_eq_some_iff.mp hstart
          obtain ⟨rfl, hin, -⟩ := initializeFrame_eq_some hdata
          exact (stored_of_inFile hin).symm
        · have hzero : w.nbackfill = 0 := by omega
          simpa [stored, hzero] using hstart.symm
      obtain ⟨c, e, he, -, hem, hend⟩ := scanFrames_spec hb.le (hw.scanAt hchecksum) hscan
      obtain rfl := (Prod.mk.inj hrun).2
      refine ⟨c, e, ⟨he.start_le, he.le_read, he.sound, he.commit, he.open_end, he.pages,
        fun p => ?_⟩, by omega, hend.imp (fun h => h.ge) id⟩
      simp only [hw.disposed, Bool.false_or, Option.isSome_iff_exists]
      exact exists_congr fun k => he.records p k

/-- **The committed pages that are not checkpointed**, for a log checkpointed up to `b` and valid
up to `m`: the last commit, the largest frame of each page up to it, and the pages behind it. -/
structure Exposes (L : Log) (b m : ℤ) (w : Wal) : Prop where
  maxFrame : (L.Committed b m w.maxFrame ∧ ∀ f, L.Committed b m f → f ≤ w.maxFrame) ∨
    (w.maxFrame = 0 ∧ ∀ f, ¬ L.Committed b m f)
  pages : ∀ p k, w.pages2Frames p = some k ↔ L.InFile k ∧ Latest L.page b w.maxFrame p k
  disposed : ∀ p, w.disposedPages p = true ↔
    ∃ k, b < k ∧ w.maxFrame < k ∧ L.ValidTo b m k ∧ L.page k = p

/-- Every valid frame past the first `n` is uncommitted, and writes a page that one of the
uncommitted frames at the end of the first `n` writes. -/
def NothingPast (L : Log) (b m n : ℤ) : Prop :=
  ∀ k, n < k → b < k → L.ValidTo b m k → Frame.truncate (L.frame k) = 0 ∧
    ∃ j, b < j ∧ j ≤ n ∧ L.page j = L.page k ∧
      ∀ i, j ≤ i → i ≤ n → Frame.truncate (L.frame i) = 0

section ReadTo

variable {e n : ℤ} {w : Wal}

theorem ReadTo.maxFrame_lt (h : ReadTo L b c e w) {k : ℤ} (hk : c < k) (hin : L.InFile k) :
    w.maxFrame < k := by
  have := hin.pos
  rw [h.commit.1]
  split <;> omega

theorem ReadTo.lt_of_maxFrame (h : ReadTo L b c e w) {k : ℤ} (hb : b < k) (hk : w.maxFrame < k) :
    c < k := by
  rw [h.commit.1] at hk
  split at hk <;> omega

theorem ReadTo.committed (h : ReadTo L b c e w) (hc : c ≠ b) (hm : e ≤ m) : L.Committed b m c :=
  ⟨lt_of_le_of_ne h.start_le hc.symm, ⟨h.le_read.trans hm, fun k hk hk' =>
    h.sound k hk (hk'.trans h.le_read)⟩, h.commit.2 hc⟩

/-- What was read is exposed exactly when no later valid frame adds anything. -/
theorem ReadTo.exposes_iff (h : ReadTo L b c e w) (hem : e ≤ max b m) :
    Exposes L b m w ↔ ∀ k, e < k → L.ValidTo b m k → Frame.truncate (L.frame k) = 0 ∧
      ∃ j, Latest L.page c e (L.page k) j := by
  have hbc := h.start_le
  have hce := h.le_read
  constructor
  · intro hx k hk hvalid
    have hbk : b < k := by omega
    have hin : L.InFile k := (hvalid.2 k hbk le_rfl).inFile
    have hlt : w.maxFrame < k := h.maxFrame_lt (by omega) hin
    refine ⟨?_, (h.disposed _).mp ((hx.disposed _).mpr ⟨k, hbk, hlt, hvalid, rfl⟩)⟩
    by_contra htrunc
    rcases hx.maxFrame with ⟨-, hlast⟩ | ⟨-, hnone⟩
    · exact absurd (hlast k ⟨hbk, hvalid, htrunc⟩) (by omega)
    · exact hnone k ⟨hbk, hvalid, htrunc⟩
  · intro hpast
    have hcommitted : ∀ f, L.Committed b m f → f ≤ c := fun f hf => by
      by_contra hfc
      rcases le_or_gt f e with hfe | hfe
      · exact hf.commit (h.open_end f (by omega) hfe)
      · exact hf.commit (hpast f hfe hf.valid).1
    refine ⟨?_, fun p k => ?_, fun p => ?_⟩
    · by_cases hc : c = b
      · refine Or.inr ⟨by simp [h.commit.1, hc], fun f hf => ?_⟩
        have := hcommitted f hf
        have := hf.above
        omega
      · have hmax : w.maxFrame = c := by simp [h.commit.1, hc]
        rw [hmax]
        exact Or.inl ⟨h.committed hc (by omega), hcommitted⟩
    · rw [h.pages]
      by_cases hc : c = b
      · have hmax : w.maxFrame = 0 := by simp [h.commit.1, hc]
        refine ⟨fun hk => absurd hk (Latest.not_of_le hc.le), fun ⟨hin, hk⟩ => ?_⟩
        have := hin.pos
        have := hk.upto
        omega
      · have hmax : w.maxFrame = c := by simp [h.commit.1, hc]
        rw [hmax]
        exact ⟨fun hk => ⟨(h.sound k hk.above (hk.upto.trans hce)).inFile, hk⟩, fun hk => hk.2⟩
    · rw [h.disposed]
      constructor
      · rintro ⟨k, hk⟩
        have hbk : b < k := lt_of_le_of_lt hbc hk.above
        have hke := hk.upto
        exact ⟨k, hbk, h.maxFrame_lt hk.above (h.sound k hbk hke).inFile,
          ⟨by omega, fun i hi hi' => h.sound i hi (hi'.trans hke)⟩, hk.writes⟩
      · rintro ⟨k, hbk, hmk, hvalid, rfl⟩
        rcases le_or_gt k e with hke | hke
        · exact Latest.exists_of_mem (h.lt_of_maxFrame hbk hmk) hke rfl
        · exact (hpast k hke hvalid).2

/-- The same with the number of frames that were counted. -/
theorem ReadTo.exposes_iff_nothingPast (h : ReadTo L b c e w) (hem : e ≤ max b (min n m))
    (hend : min n m ≤ e ∨ ¬ L.Sound (e + 1)) : Exposes L b m w ↔ NothingPast L b m n := by
  have hbc := h.start_le
  have hce := h.le_read
  rw [h.exposes_iff (by omega)]
  -- A valid frame past the last one read is past the counted ones, which were all read.
  have hread : ∀ k, b < k → L.ValidTo b m k → e < k → n ≤ e := fun k hbk hvalid hek => by
    have hkm := hvalid.1
    rcases hend with hle | hbroken
    · omega
    · exact absurd (hvalid.2 (e + 1) (by omega) (by omega)) hbroken
  constructor
  · intro hpast k hnk hbk hvalid
    have hek : e < k := by omega
    have hne := hread k hbk hvalid hek
    obtain ⟨htrunc, j, hj⟩ := hpast k hek hvalid
    have hcj := hj.above
    have hje := hj.upto
    exact ⟨htrunc, j, by omega, by omega, hj.writes,
      fun i hi hi' => h.open_end i (by omega) (by omega)⟩
  · intro hpast k hek hvalid
    have hbk : b < k := by omega
    have hne := hread k hbk hvalid hek
    obtain ⟨htrunc, j, hbj, hjn, hpage, hopen⟩ := hpast k (by omega) hbk hvalid
    refine ⟨htrunc, Latest.exists_of_mem ?_ (hjn.trans hne) hpage⟩
    by_contra hcj
    have hc : c ≠ b := by omega
    exact h.commit.2 hc (hopen c (by omega) (by omega))

end ReadTo

/-- **What a repair sees of a log.** Whatever the bytes of the log and the `-shm` file, a
successful `doInitialize` exposes exactly the committed pages that are not checkpointed if and
only if the frames past the counted ones add nothing. -/
theorem doInitialize_exposes_iff {format : LogFormat} {opens : Bool} {data : FileData}
    {shm : OnDisk} {memory : Salt} {shmLegality : Bool} {known : Salt × ℤ} {salt : Salt}
    {nbackfill maxWalFrame : ℤ} {w : Wal}
    (hhand : atHand format.isBigEndian shm memory shmLegality known =
      some (salt, nbackfill, maxWalFrame))
    (hrun : doInitialize format (.file opens data) shm memory shmLegality known = (true, w)) :
    let L : Log := ⟨format, data⟩
    let range := reconcile salt nbackfill maxWalFrame L.salt
    Exposes L range.1 range.2 w ↔ NothingPast L range.1 range.2 (numberOfFramesInFile L) := by
  intro L range
  simp only [doInitialize, hhand, readLog, OnDisk.getFileSize] at hrun
  split at hrun
  · next hzero =>
    -- An empty file has no frames at all.
    have hnone : ∀ k, ¬ L.Sound k := fun k hk => by
      have hsize := hk.inFile.2
      have hbytes : L.frameSize ≤ data.size := le_trans (Nat.le_add_left _ _) hsize
      simp [Log.frameSize, hzero] at hbytes
    obtain rfl := (Prod.mk.inj hrun).2
    have hread :
      ReadTo L range.1 range.1 range.1 { fresh salt nbackfill with fileSize := data.size } :=
      Unread.readTo ⟨rfl, rfl, rfl⟩ _
    refine ⟨fun _ k _ hbk hvalid => absurd (hvalid.2 k hbk le_rfl) (hnone k), fun _ => ?_⟩
    rw [hread.exposes_iff (le_max_left _ _)]
    exact fun k hbk hvalid => absurd (hvalid.2 k hbk le_rfl) (hnone k)
  · cases opens with
    | false => simp [OnDisk.open?] at hrun
    | true =>
      simp only [OnDisk.open?] at hrun
      split at hrun
      · simp at hrun
      split at hrun
      · simp at hrun
      obtain ⟨c, e, hread, hem, hend⟩ := readFrames_spec (L := L) ⟨rfl, rfl, rfl⟩ rfl hrun
      exact hread.exposes_iff_nothingPast hem hend

/-- The byte at an offset, from chunks given with the offset they start at; zero elsewhere. -/
def chunkByte (i : ℕ) : List (ℕ × List UInt8) → UInt8
  | [] => 0
  | (start, bytes) :: rest =>
      if start ≤ i ∧ i < start + bytes.length then bytes.getD (i - start) 0 else chunkByte i rest

/-- A file of zeros but for some chunks. -/
def sparse (size : ℕ) (chunks : List (ℕ × List UInt8)) : FileData := ⟨size, (chunkByte · chunks)⟩

/-- A log with two committed transactions of one page each, in a file of the given size. -/
def twoCommits (size : ℕ) : FileData :=
  sparse size
    [(0, [55, 127, 6, 130]), (24, [138, 32, 124, 19, 16, 51, 249, 184]),
      (35, [1, 0, 0, 0, 1]), (48, [125, 90, 133, 206, 76, 23, 194, 221]),
      (571, [2, 0, 0, 0, 1]), (584, [238, 56, 75, 7, 112, 162, 119, 167])]

/-- Its `-shm` file: two frames, none of them checkpointed. -/
def twoFramesShm : OnDisk := .file true (sparse 136 [(0, [24, 226, 45]), (16, [2])])

def littleFormat : LogFormat := ⟨false, 512, le_rfl⟩

/-- Both frames are sound, whatever follows them in the file. -/
theorem sound_twoCommits {size : ℕ} (hsize : 1104 ≤ size) {k : ℤ} (hk : k = 1 ∨ k = 2) :
    Log.Sound ⟨littleFormat, twoCommits size⟩ k := by
  -- Neither the salt nor the checksum of a frame depends on the size of the file.
  have hsalt : ∀ k : ℤ, k = 1 ∨ k = 2 → Frame.salt (Log.frame ⟨littleFormat, twoCommits 0⟩ k) =
      Log.salt ⟨littleFormat, twoCommits 0⟩ := by
    rintro k (rfl | rfl) <;> decide +kernel
  have hchain : ∀ k : ℤ, k = 1 ∨ k = 2 →
      Log.frameChecksum ⟨littleFormat, twoCommits 0⟩ (Log.frame ⟨littleFormat, twoCommits 0⟩ k)
        (Log.stored ⟨littleFormat, twoCommits 0⟩ (k - 1)) =
      Log.stored ⟨littleFormat, twoCommits 0⟩ k := by
    rintro k (rfl | rfl) <;> decide +kernel
  refine ⟨⟨?_, ?_⟩, hsalt k hk, hchain k hk⟩
  · rcases hk with rfl | rfl <;>
      simp [Log.frameOffset, Log.frameSize, Log.headerSize, littleFormat]
  · refine le_trans ?_ hsize
    rcases hk with rfl | rfl <;>
      simp [Log.frameOffset, Log.frameSize, Log.headerSize, littleFormat]

theorem doInitialize_twoCommits :
    Exposes ⟨littleFormat, twoCommits 1104⟩ 0 2
      (doInitialize littleFormat (.file true (twoCommits 1104)) twoFramesShm (7, 7) true
        ((0, 0), 0)).2 := by
  have hok : (doInitialize littleFormat (.file true (twoCommits 1104)) twoFramesShm (7, 7) true
      ((0, 0), 0)).1 = true := by decide +kernel
  have hhand : atHand littleFormat.isBigEndian twoFramesShm (7, 7) true ((0, 0), 0) =
      some ((0, 0), 0, 2) := by decide +kernel
  have hrange : reconcile (0, 0) 0 2 (Log.salt ⟨littleFormat, twoCommits 1104⟩) = (0, 2) := by
    decide +kernel
  have hcount : numberOfFramesInFile ⟨littleFormat, twoCommits 1104⟩ = 2 := by decide +kernel
  generalize hrun : doInitialize littleFormat (.file true (twoCommits 1104)) twoFramesShm (7, 7)
    true ((0, 0), 0) = result at hok ⊢
  obtain ⟨ok, w⟩ := result
  obtain rfl : ok = true := hok
  have hiff := doInitialize_exposes_iff hhand hrun
  simp only [hrange, hcount] at hiff
  refine hiff.mpr fun k hk _ hvalid => ?_
  have hle : k ≤ 2 := hvalid.1
  omega

/-- With the same two transactions at the start of a file of more than four gigabytes, one frame is
counted and the second transaction is lost. -/
theorem doInitialize_hides_commit :
    let log := twoCommits (2 ^ 32 + 568)
    let result := doInitialize littleFormat (.file true log) twoFramesShm (7, 7) true ((0, 0), 0)
    result.1 = true ∧ ¬ Exposes ⟨littleFormat, log⟩ 0 2 result.2 := by
  intro log result
  have hresult : result.1 = true ∧ result.2.maxFrame = 1 := by decide +kernel
  refine ⟨hresult.1, fun hx => ?_⟩
  have hcommitted : Log.Committed ⟨littleFormat, log⟩ 0 2 2 :=
    ⟨by decide, ⟨le_rfl, fun k hk hk' => sound_twoCommits (by norm_num) (by omega)⟩,
      by decide +kernel⟩
  have hmax := hresult.2
  rcases hx.maxFrame with ⟨-, hlast⟩ | ⟨-, hnone⟩
  · have := hlast 2 hcommitted
    omega
  · exact hnone 2 hcommitted

/-! ### Without a `-shm` file -/

/-- Below two gigabytes the frames are counted. -/
theorem numberOfFramesInFile_of_lt {n : ℕ} (hsize : L.file.size = Log.headerSize + L.frameSize * n)
    (h : L.file.size < 2 ^ 31) : numberOfFramesInFile L = n := by
  have hpos : (L.frameSize : ℤ) ≠ 0 := by
    simp only [Log.frameSize]
    omega
  have hframes : (L.file.size : ℤ) - Log.headerSize = L.frameSize * n := by
    rw [hsize]
    push_cast
    ring
  rw [numberOfFramesInFile, int32_of_lt h, hframes, Int.mul_tdiv_cancel_left _ hpos]

/-- A log of `n` frames that make up complete transactions. -/
structure WellFormed (L : Log) (n : ℕ) : Prop where
  size : L.file.size = Log.headerSize + L.frameSize * n
  magic : L.magic &&& 0xFFFFFFFE = 0x377F0682
  header : L.calculateChecksum (L.header.take 24) (0, 0) = L.headerChecksum
  sound : ∀ k : ℤ, 0 < k → k ≤ n → L.Sound k
  commit : 0 < n → Frame.truncate (L.frame n) ≠ 0

namespace WellFormed

variable {n : ℕ} (hL : WellFormed L n)
include hL

theorem size_cast : (L.file.size : ℤ) = 32 + L.frameSize * n := by
  rw [hL.size]
  simp [Log.headerSize]

/-- From two gigabytes on fewer are. -/
theorem count_lt_of_ge (hn : 0 < n) (h : 2 ^ 31 ≤ L.file.size) : numberOfFramesInFile L < n := by
  have hcast := int32_le_of_ge h
  rw [hL.size_cast] at hcast
  have hsize : (0 : ℤ) < L.frameSize := by
    simp only [Log.frameSize]
    omega
  rw [numberOfFramesInFile]
  rcases le_or_gt 0 (int32 L.file.size - Log.headerSize) with hsign | hsign
  · rw [Int.tdiv_eq_ediv_of_nonneg hsign, Int.ediv_lt_iff_lt_mul hsize]
    simp only [Log.headerSize]
    linarith
  · have hle := Int.tdiv_le_tdiv hsize hsign.le
    rw [Int.zero_tdiv] at hle
    omega

/-- The frames of a well-formed log are read, as far as they are counted. -/
theorem readFrames_ok (shmLegality : Bool) {w : Wal} (hw : Unread w) (hsalt : w.salt = L.salt)
    (hb : w.nbackfill = 0) (hm : m ≤ n) : (readFrames L shmLegality m w).1 = true := by
  unfold readFrames
  split
  · rfl
  next hlt =>
  rw [hb] at hlt
  have hstart : L.headerChecksum = L.stored 0 := by simp [stored]
  have hfinished := scanFrames_finished shmLegality (by omega : 0 ≤ m) (hw.scanAt hstart)
    fun k hk hk' => hL.sound k hk (hk'.trans hm)
  generalize hscan : scanFrames L shmLegality L.salt (frameNumbers 0 m)
    ⟨L.headerChecksum, fun _ => none, w.truncate, w.maxFrame, w.pages2Frames⟩ = result at hfinished
  obtain ⟨outcome, s⟩ := result
  obtain rfl : outcome = .finished := hfinished
  simp [hL.header, hb, hsalt, chainStart, hscan]

end WellFormed

/-- What recovery exposes of a log of `n` frames that make up complete transactions: every page
that was written, at its largest frame. -/
def Recovers (L : Log) (n : ℕ) (result : Bool × Wal) : Prop :=
  result.1 = true ∧ ∀ p k, Latest L.page 0 n p k → result.2.pages2Frames p = some k

/-- Reading the frames up to `m` recovers a well-formed log exactly when they are all frames. -/
theorem recovers_readFrames_iff {n : ℕ} (hL : WellFormed L n) {shmLegality : Bool} {w : Wal}
    (hw : Unread w) (hsalt : w.salt = L.salt) (hb : w.nbackfill = 0) (hm : m ≤ n) :
    Recovers L n (readFrames L shmLegality m w) ↔ n = 0 ∨ m = n := by
  have hok := hL.readFrames_ok shmLegality hw hsalt hb hm
  generalize hrun : readFrames L shmLegality m w = result at hok ⊢
  obtain ⟨ok, w'⟩ := result
  obtain rfl : ok = true := hok
  obtain ⟨c, e, hread, hem, hend⟩ := readFrames_spec hw hsalt hrun
  rw [hb] at hread hem
  have hbc := hread.start_le
  have hce := hread.le_read
  constructor
  · rintro ⟨-, hpages⟩
    by_contra hne
    push Not at hne
    have hn : (0 : ℤ) < n := by omega
    have hlatest : Latest L.page 0 n (L.page n) n :=
      ⟨hn, le_rfl, rfl, fun j hj hj' => by omega⟩
    have hle := ((hread.pages _ _).mp (hpages _ _ hlatest)).upto
    omega
  · intro hall
    refine ⟨rfl, fun p k hk => ?_⟩
    have hkn := hk.above
    have hkn' := hk.upto
    have hmn : m = n := hall.resolve_left (by omega)
    have hen : e = n := by
      rcases hend with hle | hbroken
      · omega
      · by_contra hne
        exact hbroken (hL.sound (e + 1) (by omega) (by omega))
    have hcn : c = n := by
      by_contra hne
      exact hL.commit (by omega) (hread.open_end n (by omega) hen.ge)
    rw [hread.pages, hcn]
    exact hk

/-- **A missing `-shm` file.** With the `-shm` file missing or empty, a well-formed log is
recovered if and only if it has no frames, or the uninitialised salt of `Shm` is neither zero nor
the salt of the log and the log is shorter than two gigabytes. -/
theorem recovers_without_shm_iff {format : LogFormat} {data : FileData} {n : ℕ}
    (hL : WellFormed ⟨format, data⟩ n) {shm : OnDisk} (hshm : shm.getFileSize = some 0)
    (memory : Salt) (known : Salt × ℤ) :
    let L : Log := ⟨format, data⟩
    Recovers L n (doInitialize format (.file true data) shm memory true known) ↔
      n = 0 ∨ (memory ≠ (0, 0) ∧ memory ≠ L.salt ∧ data.size < 2 ^ 31) := by
  intro L
  have hhand : atHand format.isBigEndian shm memory true known = some (memory, 0, -1) := by
    have hmax : int32 4294967295 = -1 := by decide
    have hzero : int32 0 = 0 := by decide
    simp [atHand, Shm.doInitialize, hshm, Shm.fresh, hmax, hzero]
  have hsize : 32 ≤ data.size := by
    rw [show data.size = _ from hL.size]
    simp [Log.headerSize]
  have hmagic : ¬ L.magic &&& 0xFFFFFFFE ≠ 0x377F0682 := not_not.mpr hL.magic
  have hread : doInitialize format (.file true data) shm memory true known =
      readFrames L true (min (numberOfFramesInFile L) (reconcile memory 0 (-1) L.salt).2)
        { fresh memory 0 with
          fileSize := data.size, nbackfill := (reconcile memory 0 (-1) L.salt).1,
          salt := L.salt } := by
    simp only [doInitialize, hhand, readLog, OnDisk.getFileSize, OnDisk.open?, Log.headerSize]
    rw [if_neg (by omega), if_neg (by omega), if_neg hmagic]
    rfl
  rw [hread]
  have hw : Unread { fresh memory 0 with
      fileSize := data.size, nbackfill := (reconcile memory 0 (-1) L.salt).1, salt := L.salt } :=
    ⟨rfl, rfl, rfl⟩
  have hb : (reconcile memory 0 (-1) L.salt).1 = 0 := by
    unfold reconcile
    split <;> rfl
  by_cases hmemory : memory ≠ (0, 0) ∧ memory ≠ L.salt
  · -- The salt disagrees with the log, and the bound is given up.
    have hbound : (reconcile memory 0 (-1) L.salt).2 = maxInt := by
      simp [reconcile, hmemory]
    rw [hbound]
    rcases lt_or_ge data.size (2 ^ 31) with hlt | hge
    · have hcount := numberOfFramesInFile_of_lt hL.size hlt
      have hn : (n : ℤ) ≤ maxInt := by
        have := hL.size_cast
        have hframe : (512 : ℤ) ≤ L.frameSize := by
          have := L.pageSize_ge
          simp only [Log.frameSize]
          omega
        have hdata : (data.size : ℤ) < 2 ^ 31 := by exact_mod_cast hlt
        unfold maxInt
        nlinarith
      rw [hcount, min_eq_left hn, recovers_readFrames_iff hL hw rfl hb le_rfl]
      exact ⟨fun _ => Or.inr ⟨hmemory.1, hmemory.2, hlt⟩, fun _ => Or.inr rfl⟩
    · have hn : 0 < n := by
        by_contra hzero
        have hsize' : data.size = Log.headerSize + L.frameSize * n := hL.size
        rw [Nat.eq_zero_of_not_pos hzero] at hsize'
        simp only [Log.headerSize] at hsize'
        omega
      have hcount : numberOfFramesInFile L < n := hL.count_lt_of_ge hn hge
      have hmin := min_le_left (numberOfFramesInFile L) maxInt
      rw [recovers_readFrames_iff hL hw rfl hb (hmin.trans hcount.le)]
      omega
  · -- The bound is the maximal `uint32_t`, cast to `-1`.
    have hbound : (reconcile memory 0 (-1) L.salt).2 = -1 := by
      have : ¬ (memory ≠ (0, 0) ∧ memory ≠ L.salt ∧
          ¬ (isCheckpointIncreasedSalt memory L.salt ∧ (0 : ℤ) < 0)) :=
        fun h => hmemory ⟨h.1, h.2.1⟩
      simp only [reconcile, if_neg this]
    rw [hbound, recovers_readFrames_iff hL hw rfl hb (by omega)]
    constructor
    · rintro (h | h)
      · exact Or.inl h
      · omega
    · rintro (h | h)
      · exact Or.inl h
      · exact absurd ⟨h.1, h.2.1⟩ hmemory

theorem wellFormed_twoCommits : WellFormed ⟨littleFormat, twoCommits 1104⟩ 2 where
  size := by decide
  magic := by decide +kernel
  header := by decide +kernel
  sound k hk hk' := sound_twoCommits le_rfl (by omega)
  commit _ := by decide +kernel

theorem recovers_twoCommits :
    Recovers ⟨littleFormat, twoCommits 1104⟩ 2
      (doInitialize littleFormat (.file true (twoCommits 1104)) .missing (7, 7) true
        ((0, 0), 0)) := by
  refine (recovers_without_shm_iff wellFormed_twoCommits rfl (7, 7) ((0, 0), 0)).mpr (Or.inr ?_)
  exact ⟨by decide, by decide +kernel, by decide⟩

/-- With a zeroed salt in memory the two transactions are hidden. -/
theorem not_recovers_twoCommits :
    WellFormed ⟨littleFormat, twoCommits 1104⟩ 2 ∧
      ¬ Recovers ⟨littleFormat, twoCommits 1104⟩ 2
        (doInitialize littleFormat (.file true (twoCommits 1104)) .missing (0, 0) true
          ((0, 0), 0)) := by
  refine ⟨wellFormed_twoCommits, fun h => ?_⟩
  have hlatest : Latest (Log.page ⟨littleFormat, twoCommits 1104⟩) 0 2 2 2 :=
    ⟨by decide, le_rfl, by decide +kernel, fun j hj hj' => by omega⟩
  have hnone : (doInitialize littleFormat (.file true (twoCommits 1104)) .missing (0, 0) true
      ((0, 0), 0)).2.pages2Frames 2 = none := by decide +kernel
  rw [h.2 2 2 hlatest] at hnone
  simp at hnone

end Wal

end Wcdb.Repair
