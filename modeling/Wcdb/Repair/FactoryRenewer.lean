import Wcdb.Repair.FactoryVacuum

/-!
# `FactoryRenewer` and `FactoryDepositor`

The renewer assembles an empty database with the old schema in the renew directory
(`FactoryRenewer.prepare`) and moves it to the original path once that is free
(`FactoryRenewer.work`). The depositor moves the current database to a new workshop directory,
main file first.

The database that must not be lost is a main file together with its log (`Holds`). Its safety
rests on three facts proved here: `prepare` stays below the renew directory; as long as the
main file is at the original path, `work` stays below the factory directory; and as long as a
workshop directory holds the database, `work` neither touches that directory nor removes the
factory directory around it.
-/

namespace Wcdb

open Crash FileManager Factory

namespace FactoryRenewer

/-- `FactoryRenewer::directory`. -/
def directory : Dir := getRenewDirectory

def tempDirectory : Dir := .sub directory .temp

def work (v : MoveVariant) (fuel : ℕ) : FileM Bool := do
  match (← fileExists (.file ⟨directory, .main⟩)) with
  | none => pure false
  | some false => do
      let _ ← removeDirectoryIfEmpty fuel
      pure true
  | some true =>
    match (← fileExists (.file ⟨.base, .main⟩)) with
    | none => pure false
    | some true => do
        let _ ← removeItem fuel (.dir directory)
        let _ ← removeDirectoryIfEmpty fuel
        pure true
    | some false =>
      if (← removeItems fuel (associatedPathsForDatabase .base)) then
        if (← moveItems v fuel (associatedPathsForDatabase directory).reverse .base) then do
          let _ ← removeItem fuel (.dir directory)
          let _ ← removeDirectoryIfEmpty fuel
          pure true
        else pure false
      else pure false

/-- Reading the materials, assembling the tables and backing up the result (steps 3 to 5 of the
source) write to the temp directory only and are one call of the database engine. -/
def prepare (v : MoveVariant) (fuel : ℕ) : FileM Bool := do
  -- 1. create temp directory for acquisition
  if (← removeItem fuel (.dir tempDirectory)) then
    if (← createDirectoryWithIntermediateDirectories tempDirectory) then
      -- 2. get deposited directories for acquisition
      match (← (Prog.issue (Call.opendir Factory.directory) : FileM Listing)) with
      | .error => pure false
      | .absent | .entries _ =>
        -- 3. to 5.
        if (← (Prog.issue (Call.assemble tempDirectory) : FileM Bool)) then
          -- 6. move the assembled database to the renew directory and wait for renew
          if (← removeItems fuel (associatedPathsForDatabase directory).reverse) then
            if (← moveItems v fuel (associatedPathsForDatabase tempDirectory).reverse
                directory) then do
              let _ ← removeItem fuel (.dir tempDirectory)
              pure true
            else pure false
          else pure false
        else pure false
    else pure false
  else pure false

end FactoryRenewer

namespace FactoryDepositor

def work (v : MoveVariant) (fuel tries : ℕ) : FileM Bool := do
  match (← getUniqueWorkshopDiectory tries) with
  | none => pure false
  | some workshop =>
    if (← createDirectoryWithIntermediateDirectories workshop) then
      moveItems v fuel (associatedPathsForDatabase .base) workshop
    else pure false

end FactoryDepositor

/-! ### Footprints -/

theorem below_renew {p : Path} (h : below FactoryRenewer.directory p) :
    below Factory.directory p := below_sub h

theorem below_renew_temp {p : Path} (h : below FactoryRenewer.tempDirectory p) :
    below FactoryRenewer.directory p := below_sub h

theorem touches_removeFiles {R : Region} (fuel : ℕ) {d : Dir} {es : List Ext}
    (hR : ∀ p, inDir d p → R p) : Touches R (removeItems fuel (filesIn d es)) :=
  touches_removeItems fuel fun _ hi p hp => hR p (filesIn_region hi hp)

theorem touches_moveFiles {R : Region} (v : MoveVariant) (fuel : ℕ) {a b : Dir} {es : List Ext}
    (ha : ∀ p, inDir a p → R p) (hb : ∀ p, inDir b p → R p) :
    Touches R (moveItems v fuel (filesIn a es) b) := by
  refine touches_moveItems v fuel fun i hi p hp => ?_
  rcases hp with hp | hp
  · exact ha p (filesIn_region hi hp)
  · obtain ⟨e, -, rfl⟩ := List.mem_map.mp hi
    exact hb p (congrArg Path.dir (hp : p = ⟨b, e⟩))

theorem touches_renewerPrepare (v : MoveVariant) (fuel : ℕ) :
    Touches (below FactoryRenewer.directory) (FactoryRenewer.prepare v fuel) := by
  have htemp := (touches_removeItem fuel (.dir FactoryRenewer.tempDirectory)).mono
    fun _ => below_renew_temp
  have hassemble : Touches (below FactoryRenewer.directory) (do
      if (← (Prog.issue (Call.assemble FactoryRenewer.tempDirectory) : FileM Bool)) then
        if (← removeItems fuel (associatedPathsForDatabase FactoryRenewer.directory).reverse) then
          if (← moveItems v fuel (associatedPathsForDatabase FactoryRenewer.tempDirectory).reverse
              FactoryRenewer.directory) then do
            let _ ← removeItem fuel (.dir FactoryRenewer.tempDirectory)
            pure true
          else pure false
        else pure false
      else pure false : FileM Bool) := by
    simp only [associatedPaths_reverse]
    refine Touches.bind (Touches.issue fun p hp => below_renew_temp (inDir_below hp)) fun b => ?_
    cases b
    · exact Touches.done _
    refine Touches.bind (touches_removeFiles fuel fun p => inDir_below) fun b => ?_
    cases b
    · exact Touches.done _
    refine Touches.bind (touches_moveFiles v fuel
      (fun p hp => below_renew_temp (inDir_below hp)) fun p => inDir_below) fun b => ?_
    cases b
    · exact Touches.done _
    exact Touches.bind htemp fun _ => Touches.done _
  refine Touches.bind htemp fun b => ?_
  cases b
  · exact Touches.done _
  refine Touches.bind (touches_createDirectoryWithIntermediateDirectories _) fun b => ?_
  cases b
  · exact Touches.done _
  refine Touches.bind (Touches.issue trivial) fun a => ?_
  cases a with
  | error => exact Touches.done _
  | absent => exact hassemble
  | entries l => exact hassemble

/-! ### `work` in the presence of the main file -/

section Work

variable {F : Type} {empty : F} {ok : Call → Oracle F → Fs F → Prop} {I : Fs F → Prop}

/-- The removals at the end of `work`. -/
theorem touches_renewerCleanup (fuel : ℕ) : Touches (below Factory.directory) (do
    let _ ← removeItem fuel (.dir FactoryRenewer.directory)
    let _ ← removeDirectoryIfEmpty fuel
    pure true : FileM Bool) :=
  Touches.bind ((touches_removeItem fuel (.dir FactoryRenewer.directory)).mono fun _ => below_renew)
    fun _ => Touches.bind (touches_removeDirectoryIfEmpty fuel) fun _ => Touches.done _

theorem safe_renewerWork_of_main (v : MoveVariant) (fuel : ℕ) {s : Fs F} {m : F}
    (hm : s.files ⟨.base, .main⟩ = some m)
    (hI : ∀ t, SameOff (below Factory.directory) s t → I t) :
    Prog.Safe (handle empty) ok I (FactoryRenewer.work v fuel)
      (fun _ t => SameOff (below Factory.directory) s t) s := by
  have hs : I s := hI s (SameOff.refl _ s)
  refine Prog.Safe.call hs fun o _ => ?_
  cases hf : o.fault with
  | true =>
    rw [handle_stat_fault hf]
    exact ⟨hs, SameOff.refl _ s⟩
  | false =>
    rw [handle_stat hf]
    cases hv : s.files ⟨FactoryRenewer.directory, .main⟩ with
    | none =>
      rw [Fs.status_file_none hv]
      have hkeep : Touches (below Factory.directory) (do
          let _ ← removeDirectoryIfEmpty fuel
          pure true : FileM Bool) :=
        Touches.bind (touches_removeDirectoryIfEmpty fuel) fun _ => Touches.done _
      exact hkeep.safe hI
    | some f =>
      rw [Fs.status_file_some hv]
      refine Prog.Safe.call hs fun o' _ => ?_
      cases hf' : o'.fault with
      | true =>
        rw [handle_stat_fault hf']
        exact ⟨hs, SameOff.refl _ s⟩
      | false =>
        rw [handle_stat hf', Fs.status_file_some hm]
        exact (touches_renewerCleanup fuel).safe hI

/-! ### `work` in the presence of a deposited database -/

/-- The files a restart can change while a workshop directory exists. -/
def restartRegion : Region := fun p =>
  inDir .base p ∨ below FactoryVacuum.directory p ∨ below FactoryRenewer.directory p

/-- A workshop directory lies off that region. -/
theorem not_restartRegion_workshop (stamp : ℕ) (e : Ext) :
    ¬restartRegion ⟨workshopDirectory stamp, e⟩ := by
  simp [restartRegion, inDir, below, workshopDirectory, Factory.directory, Dir.Within,
    FactoryVacuum.directory, FactoryRenewer.directory, getVacuumDirectory, getRenewDirectory]

section Workshop

variable {s : Fs F} {stamp : ℕ} {m : F}

/-- The last steps of a restart: remove something, then the factory directory if it is empty,
which it is not. -/
theorem safe_cleanup (fuel : ℕ) {p : FileM Bool} (hp : Touches restartRegion p) (result : Bool)
    (hm : s.files ⟨workshopDirectory stamp, .main⟩ = some m)
    (hI : ∀ t, SameOff restartRegion s t → I t) {t : Fs F} (ht : SameOff restartRegion s t) :
    Prog.Safe (handle empty) ok I (do
      let _ ← p
      let _ ← removeDirectoryIfEmpty fuel
      pure result) (fun _ u => SameOff restartRegion s u) t := by
  refine Prog.Safe.bind (hp.safe_from hI ht) fun _ u hu hsu => ?_
  have hdir : workshopDirectory stamp ∈ u.dirs := by
    refine u.file_dir ⟨workshopDirectory stamp, .main⟩ ?_
    rw [hsu _ (not_restartRegion_workshop stamp _), hm]
    simp
  refine Prog.Safe.bind (safe_removeDirectoryIfEmpty_kept fuel hu hdir) ?_
  rintro _ w hw rfl
  exact ⟨hw, hsu⟩

theorem safe_vacuumWork_of_workshop (v : MoveVariant) (fuel : ℕ)
    (hm : s.files ⟨workshopDirectory stamp, .main⟩ = some m)
    (hI : ∀ t, SameOff restartRegion s t → I t) {t : Fs F} (ht : SameOff restartRegion s t) :
    Prog.Safe (handle empty) ok I (FactoryVacuum.work v fuel)
      (fun _ u => SameOff restartRegion s u) t := by
  have hexit : ∀ (result : Bool) (u : Fs F), SameOff restartRegion s u →
      Prog.Safe (handle empty) ok I (FactoryVacuum.exit fuel result)
        (fun _ w => SameOff restartRegion s w) u := fun result u hu =>
    safe_cleanup fuel ((touches_removeItem fuel (.dir FactoryVacuum.directory)).mono
      fun p hp => Or.inr (Or.inl hp)) result hm hI hu
  refine Prog.Safe.bind ((touches_fileExists _).safe_from hI ht) fun r t₁ _ h₁ => ?_
  rcases r with _ | _ | _
  · exact hexit false t₁ h₁
  · exact hexit true t₁ h₁
  refine Prog.Safe.bind ((touches_fileExists _).safe_from hI h₁) fun r t₂ _ h₂ => ?_
  rcases r with _ | _ | _
  · exact hexit false t₂ h₂
  · refine Prog.Safe.bind ((touches_removeFiles fuel fun p => Or.inl).safe_from hI h₂)
      fun r t₃ _ h₃ => ?_
    cases r
    · exact hexit false t₃ h₃
    simp only [if_true, associatedPaths_reverse]
    refine Prog.Safe.bind ((touches_moveFiles v fuel
      (fun p hp => Or.inr (Or.inl (inDir_below hp))) fun p => Or.inl).safe_from hI h₃)
      fun r t₄ _ h₄ => ?_
    cases r
    · exact hexit false t₄ h₄
    · exact hexit true t₄ h₄
  · exact hexit true t₂ h₂

theorem safe_renewerWork_of_workshop (v : MoveVariant) (fuel : ℕ)
    (hm : s.files ⟨workshopDirectory stamp, .main⟩ = some m)
    (hI : ∀ t, SameOff restartRegion s t → I t) {t : Fs F} (ht : SameOff restartRegion s t) :
    Prog.Safe (handle empty) ok I (FactoryRenewer.work v fuel)
      (fun _ u => SameOff restartRegion s u) t := by
  have hrenew : Touches restartRegion (removeItem fuel (.dir FactoryRenewer.directory)) :=
    (touches_removeItem fuel (.dir FactoryRenewer.directory)).mono fun p hp => Or.inr (Or.inr hp)
  refine Prog.Safe.bind ((touches_fileExists _).safe_from hI ht) fun r t₁ hI₁ h₁ => ?_
  rcases r with _ | _ | _
  · exact ⟨hI₁, h₁⟩
  · exact safe_cleanup fuel (Touches.done true) true hm hI h₁
  refine Prog.Safe.bind ((touches_fileExists _).safe_from hI h₁) fun r t₂ hI₂ h₂ => ?_
  rcases r with _ | _ | _
  · exact ⟨hI₂, h₂⟩
  · refine Prog.Safe.bind ((touches_removeFiles fuel fun p => Or.inl).safe_from hI h₂)
      fun r t₃ hI₃ h₃ => ?_
    cases r
    · exact ⟨hI₃, h₃⟩
    simp only [if_true, associatedPaths_reverse]
    refine Prog.Safe.bind ((touches_moveFiles v fuel
      (fun p hp => Or.inr (Or.inr (inDir_below hp))) fun p => Or.inl).safe_from hI h₃)
      fun r t₄ hI₄ h₄ => ?_
    cases r
    · exact ⟨hI₄, h₄⟩
    · exact safe_cleanup fuel hrenew true hm hI h₄
  · exact safe_cleanup fuel hrenew true hm hI h₂

end Workshop

end Work

end Wcdb
