import Wcdb.Repair.Factory

/-!
# `FactoryVacuum`: rebuild a database and put it in place

`prepare` has `executeVacuum` copy all rows into a new database in a temporary directory, moves
that database to the vacuum directory and removes the original; `work`, run right after and again
at every start, moves it to the original path. Every error of either one leaves through `exit`,
which removes the vacuum directory.

The rows of a database are read off its main file and its write-ahead log by a function
`rows`, which stays abstract. `VacuumHandleOperator::executeVacuum` enters as a call, of which
`EngineSound` states what it does: when it reports success, the copy alone holds all rows, and
whether it succeeds or not, attaching and closing the original database keeps its rows.

**Main result** (`rows_kept_of_vacuumStep`): the rows are kept wherever a run of `prepare`,
followed by any number of restarts of `work`, stops — provided no status that `moveItems` asks
for fails, and no call fails while the main file is missing from the original path. Without
the second condition they are lost (`rows_lost_on_failed_removal`): the error exit removes the
vacuum directory when it holds the only copy.
-/

namespace Wcdb

open Crash FileManager Factory

namespace FactoryVacuum

/-- `FactoryVacuum::directory`. -/
def directory : Dir := getVacuumDirectory

def tempDirectory : Dir := .sub directory .temp

def exit (fuel : ℕ) (result : Bool) : FileM Bool := do
  let _ ← removeItem fuel (.dir directory)
  let _ ← removeDirectoryIfEmpty fuel
  pure result

def work (v : MoveVariant) (fuel : ℕ) : FileM Bool := do
  match (← fileExists (.file ⟨directory, .main⟩)) with
  | none => exit fuel false
  | some false => exit fuel true
  | some true =>
    match (← fileExists (.file ⟨.base, .main⟩)) with
    | none => exit fuel false
    | some true => exit fuel true
    | some false =>
      if (← removeItems fuel (associatedPathsForDatabase .base)) then
        if (← moveItems v fuel (associatedPathsForDatabase directory).reverse .base) then
          exit fuel true
        else exit fuel false
      else exit fuel false

def prepare (v : MoveVariant) (fuel : ℕ) : FileM Bool := do
  -- 1. create temp directory for acquisition
  if (← removeItem fuel (.dir tempDirectory)) then
    if (← createDirectoryWithIntermediateDirectories tempDirectory) then
      -- 2. copy all data into the temp database
      if (← (Prog.issue (Call.executeVacuum tempDirectory) : FileM Bool)) then
        -- 3. move the assembled database to the vacuum directory
        if (← removeItems fuel (associatedPathsForDatabase directory).reverse) then
          if (← moveItems v fuel (associatedPathsForDatabase tempDirectory).reverse directory) then
            let _ ← removeItem fuel (.dir tempDirectory)
            -- 4. remove the original database
            if (← removeItems fuel (associatedPathsForDatabase .base)) then pure true
            else exit fuel false
          else exit fuel false
        else exit fuel false
      else exit fuel false
    else exit fuel false
  else exit fuel false

end FactoryVacuum

/-! ### What `work` touches -/

theorem below_vacuum {p : Path} (h : below FactoryVacuum.directory p) :
    below Factory.directory p := below_sub h

theorem below_vacuum_temp {p : Path} (h : below FactoryVacuum.tempDirectory p) :
    below FactoryVacuum.directory p := below_sub h

theorem touches_vacuumExit (fuel : ℕ) (result : Bool) :
    Touches (below Factory.directory) (FactoryVacuum.exit fuel result) :=
  Touches.bind ((touches_removeItem fuel (.dir FactoryVacuum.directory)).mono fun _ => below_vacuum)
    fun _ => Touches.bind (touches_removeDirectoryIfEmpty fuel) fun _ => Touches.done _

/-- While the main file is at the original path, `work` stays in the factory directory: every
way through it leaves by `exit`. -/
theorem safe_vacuumWork_of_main {F : Type} {empty : F} {ok : Call → Oracle F → Fs F → Prop}
    {I : Fs F → Prop} (v : MoveVariant) (fuel : ℕ) {s : Fs F} {m : F}
    (hm : s.files ⟨.base, .main⟩ = some m)
    (hI : ∀ t, SameOff (below Factory.directory) s t → I t) :
    Prog.Safe (handle empty) ok I (FactoryVacuum.work v fuel)
      (fun _ t => SameOff (below Factory.directory) s t) s := by
  have hs : I s := hI s (SameOff.refl _ s)
  have hexit : ∀ result, Prog.Safe (handle empty) ok I (FactoryVacuum.exit fuel result)
      (fun _ t => SameOff (below Factory.directory) s t) s := fun result =>
    (touches_vacuumExit fuel result).safe hI
  refine Prog.Safe.call hs fun o _ => ?_
  cases hf : o.fault with
  | true =>
    rw [handle_stat_fault hf]
    exact hexit false
  | false =>
    rw [handle_stat hf]
    cases hv : s.files ⟨FactoryVacuum.directory, .main⟩ with
    | none =>
      rw [Fs.status_file_none hv]
      exact hexit true
    | some f =>
      rw [Fs.status_file_some hv]
      refine Prog.Safe.call hs fun o' _ => ?_
      cases hf' : o'.fault with
      | true =>
        rw [handle_stat_fault hf']
        exact hexit false
      | false =>
        rw [handle_stat hf', Fs.status_file_some hm]
        exact hexit true

/-! ### The rows of a database -/

section Rows

variable {F R : Type} (rows : F → Option F → R) (r₀ : R)

/-- The database in the directory `d`, main file together with its log, holds the rows `r₀`. -/
def HoldsRows (d : Dir) (s : Fs F) : Prop :=
  (s.files ⟨d, .main⟩).map (fun m => rows m (s.files ⟨d, .wal⟩)) = some r₀

instance [DecidableEq R] (d : Dir) (s : Fs F) : Decidable (HoldsRows rows r₀ d s) :=
  inferInstanceAs (Decidable (_ = _))

/-- The rows exist at the original path or in the vacuum directory. -/
def RowsKept (s : Fs F) : Prop :=
  HoldsRows rows r₀ .base s ∨ HoldsRows rows r₀ FactoryVacuum.directory s

instance [DecidableEq R] (s : Fs F) : Decidable (RowsKept rows r₀ s) :=
  inferInstanceAs (Decidable (_ ∨ _))

/-- **What `VacuumHandleOperator::executeVacuum` is taken to do.** The copy is written with
`journal_mode = OFF`, hence has no log. -/
def EngineSound : Call → Oracle F → Fs F → Prop
  | .executeVacuum _, o, _ =>
      (o.origin.map (fun x => rows x.1 x.2)).getD r₀ = r₀ ∧
      (o.fault = false → (o.content .main).map (fun m => rows m none) = some r₀ ∧
        o.content .wal = none)
  | _, _, _ => True

instance [DecidableEq F] [DecidableEq R] (c : Call) (o : Oracle F) (s : Fs F) :
    Decidable (EngineSound rows r₀ c o s) :=
  match c with
  | .executeVacuum _ => inferInstanceAs (Decidable (_ ∧ (_ → _)))
  | .stat _ _ | .unlink _ | .rmdir _ | .mkdir _ | .link _ _ | .rename _ _ | .renameDir _ _
  | .opendir _ | .createFile _ | .now | .assemble _ => inferInstanceAs (Decidable True)

/-- The main file is missing from the original path. -/
def MainMissing (s : Fs F) : Prop := s.files ⟨.base, .main⟩ = none

/-- The call is a status asked for by `moveItems`. -/
def Call.isMoveStat : Call → Bool
  | .stat .moveItems _ => true
  | _ => false

/-- The condition on one call under which vacuuming keeps the rows. -/
structure VacuumStep (c : Call) (o : Oracle F) (s : Fs F) : Prop where
  engine : EngineSound rows r₀ c o s
  move_stat : c.isMoveStat = true → o.fault = false
  calm : MainMissing s → o.fault = false

instance [DecidableEq F] [DecidableEq R] (c : Call) (o : Oracle F) (s : Fs F) :
    Decidable (VacuumStep rows r₀ c o s) :=
  decidable_of_iff (EngineSound rows r₀ c o s ∧ (c.isMoveStat = true → o.fault = false) ∧
      (s.files ⟨.base, .main⟩ = none → o.fault = false))
    ⟨fun h => ⟨h.1, h.2.1, h.2.2⟩, fun h => ⟨h.engine, h.move_stat, h.calm⟩⟩

/-- The stop invariant: the rows are at the original path, or the main file is missing there
and the vacuum directory holds them in a main file without a log. -/
def VacuumInv (s : Fs F) : Prop :=
  HoldsRows rows r₀ .base s ∨
    (MainMissing s ∧ HoldsRows rows r₀ FactoryVacuum.directory s ∧
      s.files ⟨FactoryVacuum.directory, .wal⟩ = none)

variable {rows r₀}

theorem VacuumInv.rowsKept {s : Fs F} (h : VacuumInv rows r₀ s) : RowsKept rows r₀ s :=
  h.imp id fun h => h.2.1

/-- Whether a directory holds the rows depends on its main file and its log only. -/
theorem HoldsRows.congr {d : Dir} {s t : Fs F} (h : HoldsRows rows r₀ d s)
    (hm : t.files ⟨d, .main⟩ = s.files ⟨d, .main⟩) (hw : t.files ⟨d, .wal⟩ = s.files ⟨d, .wal⟩) :
    HoldsRows rows r₀ d t := by
  unfold HoldsRows at h ⊢
  rw [hm, hw]
  exact h

theorem HoldsRows.base_of_sameOff {s t : Fs F} (h : HoldsRows rows r₀ .base s)
    (hst : SameOff (below Factory.directory) s t) : HoldsRows rows r₀ .base t :=
  h.congr (hst _ (not_below_factory_base _)) (hst _ (not_below_factory_base _))

theorem HoldsRows.exists_main {d : Dir} {s : Fs F} (h : HoldsRows rows r₀ d s) :
    ∃ m, s.files ⟨d, .main⟩ = some m := by
  obtain ⟨m, hm, -⟩ := Option.map_eq_some_iff.mp h
  exact ⟨m, hm⟩

/-! ### The rows survive -/

section Safety

variable {empty : F} {v : MoveVariant} {fuel : ℕ}

/-- Programs that stay in the factory directory are safe while the original path holds the
rows. -/
theorem safe_of_touches_factory {α : Type} {p : FileM α} {s : Fs F}
    (hp : Touches (below Factory.directory) p) (hs : HoldsRows rows r₀ .base s) :
    Prog.Safe (handle empty) (VacuumStep rows r₀) (VacuumInv rows r₀) p
      (fun _ t => HoldsRows rows r₀ .base t) s :=
  (hp.safe fun _ ht => Or.inl (hs.base_of_sameOff ht)).mono fun _ _ _ ht => hs.base_of_sameOff ht

/-- Leaving is safe once the original path holds the rows. -/
theorem safe_exit (result : Bool) {s : Fs F} (hs : HoldsRows rows r₀ .base s) :
    Prog.Safe (handle empty) (VacuumStep rows r₀) (VacuumInv rows r₀)
      (FactoryVacuum.exit fuel result) (fun _ _ => True) s :=
  (safe_of_touches_factory (touches_vacuumExit fuel result) hs).mono fun _ _ _ _ => trivial

theorem associatedPaths_reverse (d : Dir) :
    (associatedPathsForDatabase d).reverse = filesIn d Ext.all.reverse := by
  simp [associatedPathsForDatabase, filesIn]

/-- In the order from end to start the main file comes last. -/
theorem main_mem_suffix {pre post : List Ext} {e : Ext} (h : Ext.all.reverse = pre ++ e :: post) :
    Ext.main ∈ e :: post := by
  have hlast : (pre ++ e :: post).getLast? = some .main := by rw [← h]; rfl
  rw [List.getLast?_append_of_ne_nil _ (by simp)] at hlast
  exact List.mem_of_getLast? hlast

/-- The two files of the vacuum directory are not those of the original path. -/
theorem vacuum_ne_base : FactoryVacuum.directory ≠ .base := by decide

/-- Moving the vacuum database to the original path, while the main file is missing there. -/
theorem safe_moveBack {s : Fs F} (hmiss : MainMissing s)
    (hvac : HoldsRows rows r₀ FactoryVacuum.directory s)
    (hvwal : s.files ⟨FactoryVacuum.directory, .wal⟩ = none)
    (hbwal : s.files ⟨.base, .wal⟩ = none) :
    Prog.Safe (handle empty) (VacuumStep rows r₀) (VacuumInv rows r₀)
      (moveItems v fuel (associatedPathsForDatabase FactoryVacuum.directory).reverse .base)
      (fun _ t => HoldsRows rows r₀ .base t) s := by
  obtain ⟨m, hm⟩ := hvac.exists_main
  have hrows : rows m none = r₀ := by simpa [HoldsRows, hm, hvwal] using hvac
  have hbase : Dir.base ∈ s.dirs :=
    s.sub_dir _ .factory (s.sub_dir _ .vacuum (s.file_dir ⟨FactoryVacuum.directory, .main⟩
      (by simp [hm])))
  -- While the main file has not arrived, the vacuum directory has it; then the original path.
  have hmoving : ∀ t, Moving v FactoryVacuum.directory .base s t → VacuumInv rows r₀ t := by
    intro t ht
    have hw := ht.file .wal
    simp only [MovingFile, hvwal, hbwal] at hw
    have hwal : t.files ⟨.base, .wal⟩ = none ∧ t.files ⟨FactoryVacuum.directory, .wal⟩ = none := by
      tauto
    have hmain := ht.file .main
    simp only [MovingFile, hm] at hmain
    rw [show s.files ⟨.base, .main⟩ = none from hmiss] at hmain
    rcases hmain with ⟨hv, hb | hb | ⟨-, hb⟩⟩ | ⟨-, -, hb⟩
    · exact Or.inr ⟨hb, by simp [HoldsRows, hv, hwal.2, hrows], hwal.2⟩
    · exact Or.inr ⟨hb, by simp [HoldsRows, hv, hwal.2, hrows], hwal.2⟩
    · exact Or.inl (by simp [HoldsRows, hb, hwal.1, hrows])
    · exact Or.inl (by simp [HoldsRows, hb, hwal.1, hrows])
  have hs : VacuumInv rows r₀ s := hmoving s (Moving.refl v _ _ s)
  rw [associatedPaths_reverse]
  refine Prog.Safe.bind (safe_createDirectory_existing hbase hs) ?_
  rintro r t ht ⟨rfl, rfl | ⟨c, o, ho, hf⟩⟩
  · simp only [if_true, filesIn_newPath]
    refine safe_movePairedItems v fuel vacuum_ne_base (by decide) hmoving ?_ ?_
    · intro recovers u hout
      cases hout with
      | finished hend =>
        have hbm := hend.placed .main (by decide)
        have hbw := hend.placed .wal (by decide)
        rw [hm, Option.some_or] at hbm
        rw [hvwal, hbwal, Option.or_none] at hbw
        have hu : HoldsRows rows r₀ .base u := by simp [HoldsRows, hbm, hbw, hrows]
        refine safe_of_touches_factory (touches_removeItems fuel fun i hi p hp => ?_) hu
        exact below_vacuum (inDir_below (filesIn_region hi hp))
      | broke pre e post hsplit hat o ho hf => simp [ho.move_stat rfl] at hf
    · intro recovers u hout
      cases hout with
      | failed pre e post hsplit hmov hsrc hdst hrec hcause =>
        have hmu : MainMissing u := by
          rcases hdst .main (main_mem_suffix hsplit) with h | h
          · exact h.trans hmiss
          · exact h
        rcases hcause with hd | ⟨c, o, ho, hf, -⟩
        · exact absurd hbase hd
        · simp [ho.calm hmu] at hf
  · simp [ho.calm hmiss] at hf

/-- **One start**: `work` keeps the invariant, wherever it stops. -/
theorem safe_work {s : Fs F} (hs : VacuumInv rows r₀ s) :
    Prog.Safe (handle empty) (VacuumStep rows r₀) (VacuumInv rows r₀)
      (FactoryVacuum.work v fuel) (fun _ _ => True) s := by
  rcases hs with hbase | ⟨hmiss, hvac, hvwal⟩
  · obtain ⟨m, hm⟩ := hbase.exists_main
    exact (safe_vacuumWork_of_main v fuel hm fun t ht => Or.inl (hbase.base_of_sameOff ht)).mono
      fun _ _ _ _ => trivial
  · -- The vacuum directory holds the only copy: no call fails until it has been moved.
    have hI : VacuumInv rows r₀ s := Or.inr ⟨hmiss, hvac, hvwal⟩
    obtain ⟨m, hm⟩ := hvac.exists_main
    refine Prog.Safe.call hI fun o ho => ?_
    rw [handle_stat (ho.calm hmiss), Fs.status_file_some hm]
    refine Prog.Safe.call hI fun o' ho' => ?_
    rw [handle_stat (ho'.calm hmiss), Fs.status_file_none hmiss]
    have herasing : ∀ t, Erasing .base Ext.all s t →
        MainMissing t ∧ HoldsRows rows r₀ FactoryVacuum.directory t ∧
          t.files ⟨FactoryVacuum.directory, .wal⟩ = none := by
      intro t ht
      have hoff : ∀ e,
        t.files ⟨FactoryVacuum.directory, e⟩ = s.files ⟨FactoryVacuum.directory, e⟩ :=
        fun e => ht.off _ fun h => absurd h vacuum_ne_base
      refine ⟨?_, hvac.congr (hoff _) (hoff _), (hoff _).trans hvwal⟩
      rcases ht.file .main with h | h
      · exact h.trans hmiss
      · exact h
    change Prog.Safe (handle empty) _ _ (removeItems fuel (filesIn .base Ext.all) >>= _) _ s
    refine Prog.Safe.bind (safe_removeItems fuel fun t ht => Or.inr (herasing t ht)) ?_
    rintro r t ht ⟨her, ⟨rfl, hgone⟩ | ⟨rfl, c, o, ho, hf⟩⟩
    · obtain ⟨hm', hv', hw'⟩ := herasing t her
      refine Prog.Safe.bind (safe_moveBack hm' hv' hw' (hgone .wal (Ext.mem_all _))) ?_
      intro r u _ hu
      cases r
      · exact safe_exit false hu
      · exact safe_exit true hu
    · simp [ho.calm (herasing t her).1] at hf

/-- The database in `d` is a main file without a log and holds the rows. -/
def HoldsRowsAlone (rows : F → Option F → R) (r₀ : R) (d : Dir) (s : Fs F) : Prop :=
  (∃ m, s.files ⟨d, .main⟩ = some m ∧ rows m none = r₀) ∧ s.files ⟨d, .wal⟩ = none

theorem HoldsRowsAlone.congr {d : Dir} {s t : Fs F} (h : HoldsRowsAlone rows r₀ d s)
    (hm : t.files ⟨d, .main⟩ = s.files ⟨d, .main⟩) (hw : t.files ⟨d, .wal⟩ = s.files ⟨d, .wal⟩) :
    HoldsRowsAlone rows r₀ d t := by
  unfold HoldsRowsAlone at h ⊢
  rw [hm, hw]
  exact h

theorem HoldsRowsAlone.holdsRows {d : Dir} {s : Fs F} (h : HoldsRowsAlone rows r₀ d s) :
    HoldsRows rows r₀ d s := by
  obtain ⟨⟨m, hm, hr⟩, hw⟩ := h
  simp [HoldsRows, hm, hw, hr]

/-- The engine writes the copy and keeps the rows of the original. -/
theorem safe_executeVacuum {s : Fs F} (hs : HoldsRows rows r₀ .base s) :
    Prog.Safe (handle empty) (VacuumStep rows r₀) (VacuumInv rows r₀)
      (Prog.issue (Call.executeVacuum FactoryVacuum.tempDirectory))
      (fun r t => HoldsRows rows r₀ .base t ∧
        (r = true → HoldsRowsAlone rows r₀ FactoryVacuum.tempDirectory t)) s := by
  refine Prog.Safe.call (Or.inl hs) fun o ho => ?_
  obtain ⟨horigin, hcopy⟩ := ho.engine
  suffices h : HoldsRows rows r₀ .base (handle empty (.executeVacuum FactoryVacuum.tempDirectory)
      o s).2 ∧ ((handle empty (.executeVacuum FactoryVacuum.tempDirectory) o s).1 = true →
        HoldsRowsAlone rows r₀ FactoryVacuum.tempDirectory
          (handle empty (.executeVacuum FactoryVacuum.tempDirectory) o s).2) from
    ⟨Or.inl h.1, h⟩
  have hne : FactoryVacuum.tempDirectory ≠ .base := by decide
  by_cases hd : FactoryVacuum.tempDirectory ∈ s.dirs
  · have hfill : HoldsRows rows r₀ .base (s.fill FactoryVacuum.tempDirectory o.content hd) :=
      hs.congr (by simp [Fs.fill, hne.symm]) (by simp [Fs.fill, hne.symm])
    have halone : o.fault = false → HoldsRowsAlone rows r₀ FactoryVacuum.tempDirectory
        (s.fill FactoryVacuum.tempDirectory o.content hd) := by
      intro hf
      obtain ⟨hm, hw⟩ := hcopy hf
      obtain ⟨m, hm, hr⟩ := Option.map_eq_some_iff.mp hm
      exact ⟨⟨m, by simp [Fs.fill, hm], hr⟩, by simp [Fs.fill, hw]⟩
    have hb : Dir.base ∈ (s.fill FactoryVacuum.tempDirectory o.content hd).dirs := by
      obtain ⟨m, hm⟩ := hs.exists_main
      exact s.file_dir ⟨.base, .main⟩ (by simp [hm])
    cases ho : o.origin with
    | none =>
      simp only [handle, hd, ho, dite_true, Bool.not_eq_true']
      exact ⟨hfill, halone⟩
    | some x =>
      obtain ⟨m, w⟩ := x
      have hrows : rows m w = r₀ := by simpa [ho] using horigin
      simp only [handle, hd, ho, hb, dite_true, Bool.not_eq_true']
      exact ⟨by simp [HoldsRows, Fs.rewrite, hrows], fun hf =>
        (halone hf).congr (by simp [Fs.rewrite, hne]) (by simp [Fs.rewrite, hne])⟩
  · simp only [handle, hd, dite_false]
    exact ⟨hs, by simp⟩

/-- Moving the copy from the temp directory to the vacuum directory. -/
theorem safe_moveCopy {s : Fs F} (hs : HoldsRows rows r₀ .base s)
    (htemp : HoldsRowsAlone rows r₀ FactoryVacuum.tempDirectory s)
    (hvac : s.files ⟨FactoryVacuum.directory, .wal⟩ = none) :
    Prog.Safe (handle empty) (VacuumStep rows r₀) (VacuumInv rows r₀)
      (moveItems v fuel (associatedPathsForDatabase FactoryVacuum.tempDirectory).reverse
        FactoryVacuum.directory)
      (fun r t => HoldsRows rows r₀ .base t ∧
        (r = true → HoldsRowsAlone rows r₀ FactoryVacuum.directory t)) s := by
  have htouch := touches_createDirectoryWithIntermediateDirectories
    (R := fun _ => False) FactoryVacuum.directory
  have hkeep : ∀ t : Fs F, SameOff (fun _ => False) s t → HoldsRows rows r₀ .base t :=
    fun t ht => hs.congr (ht _ id) (ht _ id)
  rw [associatedPaths_reverse]
  refine Prog.Safe.bind (htouch.safe fun t ht => Or.inl (hkeep t ht)) ?_
  intro r t _ ht
  cases r
  · exact ⟨Or.inl (hkeep t ht), hkeep t ht, by simp⟩
  simp only [if_true, filesIn_newPath]
  have hbase : ∀ u, Moving v FactoryVacuum.tempDirectory FactoryVacuum.directory t u →
      HoldsRows rows r₀ .base u := fun u hu =>
    (hkeep t ht).congr (hu.off _ (by decide) (by decide)) (hu.off _ (by decide) (by decide))
  refine safe_movePairedItems v fuel (by decide) (by decide) (fun u hu => Or.inl (hbase u hu)) ?_ ?_
  · intro recovers u hout
    cases hout with
    | finished hend =>
      obtain ⟨⟨m, hm, hr⟩, hw⟩ := htemp
      have hvm := hend.placed .main (by decide)
      have hvw := hend.placed .wal (by decide)
      rw [ht _ id, hm, Option.some_or] at hvm
      rw [ht _ id, hw, Option.none_or, ht _ id, hvac] at hvw
      have hu : HoldsRows rows r₀ .base u := hbase u hend.toMoving
      have hv : HoldsRowsAlone rows r₀ FactoryVacuum.directory u := ⟨⟨m, hvm, hr⟩, hvw⟩
      have hsrc : Touches (inDir FactoryVacuum.tempDirectory)
          (removeItems fuel (filesIn FactoryVacuum.tempDirectory Ext.all.reverse)) :=
        touches_removeItems fuel fun i hi p hp => filesIn_region hi hp
      have hu' : ∀ w, SameOff (inDir FactoryVacuum.tempDirectory) u w →
          HoldsRows rows r₀ .base w := fun w hw =>
        hu.congr (hw _ (by simp [inDir, FactoryVacuum.tempDirectory]))
          (hw _ (by simp [inDir, FactoryVacuum.tempDirectory]))
      refine (hsrc.safe fun w hw => Or.inl (hu' w hw)).mono fun r w _ hw => ⟨hu' w hw, fun _ => ?_⟩
      exact hv.congr (hw _ (by decide)) (hw _ (by decide))
    | broke pre e post hsplit hat o ho hf => simp [ho.move_stat rfl] at hf
  · intro recovers u hout
    cases hout with
    | failed pre e post hsplit hmov hsrc hdst hrec hcause =>
      have htouch' : Touches (below Factory.directory) (recoverItems fuel recovers) := by
        refine touches_recoverItems fuel fun i hi p hp => ?_
        obtain ⟨e', -, rfl⟩ := hrec i hi
        exact below_vacuum (inDir_below (congrArg Path.dir (hp : p = _)))
      exact (safe_of_touches_factory htouch' (hbase u hmov)).mono fun _ w _ hw => ⟨hw, by simp⟩

/-- Removing the original database once the vacuum directory holds the rows. -/
theorem safe_removeOriginal {s : Fs F} (hs : HoldsRows rows r₀ .base s)
    (hvac : HoldsRowsAlone rows r₀ FactoryVacuum.directory s) :
    Prog.Safe (handle empty) (VacuumStep rows r₀) (VacuumInv rows r₀)
      (removeItems fuel (associatedPathsForDatabase .base))
      (fun r t => r = true ∨ HoldsRows rows r₀ .base t) s := by
  have hoff : ∀ t : Fs F, (∀ e, t.files ⟨FactoryVacuum.directory, e⟩ =
      s.files ⟨FactoryVacuum.directory, e⟩) → MainMissing t → VacuumInv rows r₀ t :=
    fun t ht hm => Or.inr ⟨hm, (hvac.congr (ht _) (ht _)).holdsRows, (ht _).trans hvac.2⟩
  have hne : ∀ e e', (⟨FactoryVacuum.directory, e⟩ : Path) ≠ ⟨.base, e'⟩ := fun e e' h =>
    vacuum_ne_base (congrArg Path.dir h)
  have hmiss : MainMissing (s.erase ⟨.base, .main⟩) := by simp [MainMissing]
  have hI : VacuumInv rows r₀ (s.erase ⟨.base, .main⟩) := hoff _ (fun e => by simp [hne]) hmiss
  -- The main file is the first to go; from then on no call fails.
  change Prog.Safe _ _ _ (removeItem fuel (.file ⟨.base, .main⟩) >>= _) _ s
  refine Prog.Safe.bind (safe_removeItem_file fuel (Or.inl hs) hI) ?_
  rintro r t _ (⟨rfl, rfl⟩ | ⟨rfl, rfl, -⟩)
  · have herasing : ∀ t, Erasing .base Ext.all.tail (s.erase ⟨.base, .main⟩) t →
        MainMissing t ∧ VacuumInv rows r₀ t := by
      intro t ht
      have hm : MainMissing t := (ht.off _ fun _ => by decide).trans hmiss
      refine ⟨hm, hoff t (fun e => ?_) hm⟩
      rw [ht.off _ fun h => absurd h vacuum_ne_base]
      simp [hne]
    refine (safe_removeItems fuel fun t ht => (herasing t ht).2).mono ?_
    rintro r t _ ⟨ht, ⟨rfl, -⟩ | ⟨rfl, c, o, ho, hf⟩⟩
    · exact Or.inl rfl
    · simp [ho.calm (herasing t ht).1] at hf
  · exact ⟨Or.inl hs, Or.inr hs⟩

/-- **The first run**: `prepare` keeps the invariant, wherever it stops. -/
theorem safe_prepare {s : Fs F} (hs : HoldsRows rows r₀ .base s) :
    Prog.Safe (handle empty) (VacuumStep rows r₀) (VacuumInv rows r₀)
      (FactoryVacuum.prepare v fuel) (fun _ _ => True) s := by
  have htemp : Touches (below Factory.directory)
      (removeItem fuel (.dir FactoryVacuum.tempDirectory)) :=
    (touches_removeItem fuel (.dir FactoryVacuum.tempDirectory)).mono fun _ hp =>
      below_vacuum (below_vacuum_temp hp)
  refine Prog.Safe.bind (safe_of_touches_factory htemp hs) fun r s₁ _ hs₁ => ?_
  cases r
  · exact safe_exit false hs₁
  refine Prog.Safe.bind (safe_of_touches_factory
    (touches_createDirectoryWithIntermediateDirectories _) hs₁) fun r s₂ _ hs₂ => ?_
  cases r
  · exact safe_exit false hs₂
  refine Prog.Safe.bind (safe_executeVacuum hs₂) ?_
  rintro r s₃ _ ⟨hs₃, hcopy⟩
  cases r
  · exact safe_exit false hs₃
  have hbase : ∀ t, Erasing FactoryVacuum.directory Ext.all.reverse s₃ t →
      HoldsRows rows r₀ .base t := fun t ht =>
    hs₃.congr (ht.off _ fun h => absurd h (by decide)) (ht.off _ fun h => absurd h (by decide))
  simp only [if_true, associatedPaths_reverse FactoryVacuum.directory]
  refine Prog.Safe.bind (safe_removeItems fuel fun t ht => Or.inl (hbase t ht)) ?_
  rintro r s₄ _ ⟨her, ⟨rfl, hgone⟩ | ⟨rfl, -⟩⟩
  · have hcopy₄ : HoldsRowsAlone rows r₀ FactoryVacuum.tempDirectory s₄ :=
      (hcopy rfl).congr (her.off _ fun h => absurd h (by decide))
        (her.off _ fun h => absurd h (by decide))
    refine Prog.Safe.bind (safe_moveCopy (hbase s₄ her) hcopy₄ (hgone .wal (by decide))) ?_
    rintro r s₅ _ ⟨hs₅, hvac⟩
    cases r
    · exact safe_exit false hs₅
    have hkeep : ∀ t, SameOff (below FactoryVacuum.tempDirectory) s₅ t →
        HoldsRows rows r₀ .base t := fun t ht =>
      hs₅.base_of_sameOff (ht.mono fun p hp => below_vacuum (below_vacuum_temp hp))
    refine Prog.Safe.bind ((touches_removeItem fuel (.dir FactoryVacuum.tempDirectory)).safe
      fun t ht => Or.inl (hkeep t ht)) ?_
    intro _ s₆ _ hs₆
    have hvac₆ : HoldsRowsAlone rows r₀ FactoryVacuum.directory s₆ :=
      have hout : ∀ e, ¬below FactoryVacuum.tempDirectory ⟨FactoryVacuum.directory, e⟩ := fun e =>
        show ¬Dir.Within FactoryVacuum.tempDirectory FactoryVacuum.directory by decide
      (hvac rfl).congr (hs₆ _ (hout _)) (hs₆ _ (hout _))
    refine Prog.Safe.bind (safe_removeOriginal (hkeep s₆ hs₆) hvac₆) ?_
    rintro r s₇ hI (rfl | hs₇)
    · exact ⟨hI, trivial⟩
    · cases r
      · exact safe_exit false hs₇
      · exact ⟨hI, trivial⟩
  · exact safe_exit false (hbase s₄ her)

end Safety

/-- **Vacuuming keeps the rows** wherever `prepare`, followed by any number of restarts of
`work`, stops, if no status asked for by `moveItems` fails and no call fails while the main
file is missing from the original path. -/
theorem rows_kept_of_vacuumStep (empty : F) (v : MoveVariant) (fuel : ℕ) (s : Fs F)
    (hs : HoldsRows rows r₀ .base s) (first : List (Oracle F)) (restarts : List (List (Oracle F)))
    (hfirst : Prog.Admits (handle empty) (VacuumStep rows r₀) first
      (FactoryVacuum.prepare v fuel) s)
    (hrestarts : AdmitsRestarts (handle empty) (VacuumStep rows r₀) (FactoryVacuum.work v fuel)
      restarts (Prog.trace (handle empty) first (FactoryVacuum.prepare v fuel) s).2) :
    RowsKept rows r₀ (lifetime (handle empty) (FactoryVacuum.prepare v fuel)
      (FactoryVacuum.work v fuel) first restarts s) :=
  (inv_lifetime (safe_prepare hs) (fun _ => safe_work) first restarts hfirst hrestarts).rowsKept

end Rows

/-! ### A run that keeps the rows and a run that loses them -/

/-- Rows of a toy format: the main file is a number, the log adds to it. -/
def sumRows (m : ℕ) (w : Option ℕ) : ℕ := m + w.getD 0

/-- A call that works; the vacuum copies the database `f`. -/
def calmCall (f : ℕ) : Oracle ℕ where
  content e := if e = .main then some f else none

/-- A call that fails. -/
def failedCall (f : ℕ) : Oracle ℕ := { calmCall f with fault := true }

/-- The first run stops after the removal of the original, the next one while it moves the
copy, and the last one returns. -/
theorem rows_kept_through_two_stops :
    RowsKept sumRows 7 (lifetime (handle 0) (FactoryVacuum.prepare .hardLink 3)
      (FactoryVacuum.work .hardLink 3) (List.replicate 45 (calmCall 7))
      [List.replicate 14 (calmCall 7), List.replicate 60 (calmCall 7)] (Fs.oneDatabase 7 none)) :=
  rows_kept_of_vacuumStep 0 .hardLink 3 (Fs.oneDatabase 7 none) (by decide) _ _ (by decide +kernel)
    (by decide +kernel)

/-- **The rows are lost** when the status of the journal cannot be read while `prepare` removes
the original database: the main file is gone already, and the error exit removes the vacuum
directory. -/
theorem rows_lost_on_failed_removal :
    HoldsRows sumRows 7 .base (Fs.oneDatabase 7 none) ∧
    Prog.Admits (handle 0) (EngineSound sumRows 7)
      (List.replicate 39 (calmCall 7) ++ failedCall 7 :: List.replicate 20 (calmCall 7))
      (FactoryVacuum.prepare .hardLink 3) (Fs.oneDatabase 7 none) ∧
    ¬RowsKept sumRows 7 (lifetime (handle 0) (FactoryVacuum.prepare .hardLink 3)
      (FactoryVacuum.work .hardLink 3)
      (List.replicate 39 (calmCall 7) ++ failedCall 7 :: List.replicate 20 (calmCall 7)) []
      (Fs.oneDatabase 7 none)) := by
  decide +kernel

end Wcdb
