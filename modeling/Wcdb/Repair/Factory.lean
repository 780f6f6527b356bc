import Wcdb.FileSystem.Moves

/-!
# `Factory`: the directories around a database

The factory directory lies beside the database and holds the vacuum, renew and restore
directories and one workshop directory per deposited database. This module has the paths, the
two functions that read the factory directory, and the rule that
`Factory::removeDirectoryIfEmpty` keeps the directory as long as it has a sub-directory other
than the restore directory.
-/

namespace Wcdb

open Crash FileManager

namespace Factory

/-- The directory `<database>.factory`. -/
def directory : Dir := .sub .base .factory

def getVacuumDirectory : Dir := .sub directory .vacuum

def getRenewDirectory : Dir := .sub directory .renew

def getRestoreDirectory : Dir := .sub directory .restore

/-- The workshop directory of a time stamp. -/
def workshopDirectory (stamp : ℕ) : Dir := .sub directory (.workshop stamp)

/-- The files of the database in a directory: the main file first. -/
def associatedPathsForDatabase (d : Dir) : List Item := filesIn d Ext.all

/-- An entry that does not keep `removeDirectoryIfEmpty` from removing the directory. -/
def removableEntry : Entry → Bool
  | .file _ => true
  | .dir n => n == .restore

def removeDirectoryIfEmpty (fuel : ℕ) : FileM Bool := do
  match (← (Prog.issue (Call.opendir directory) : FileM Listing)) with
  | .error => pure false
  | .absent => removeItem fuel (.dir directory)
  | .entries l => if l.all removableEntry then removeItem fuel (.dir directory) else pure true

/-- `do … while (true)`: names are tried until one is free. `tries` bounds the number of
rounds that are looked at; a run that is still trying has changed nothing. -/
def getUniqueWorkshopDiectory : ℕ → FileM (Option Dir)
  | 0 => pure none
  | tries + 1 => do
      let stamp ← (Prog.issue Call.now : FileM ℕ)
      match (← directoryExists (workshopDirectory stamp)) with
      | none => pure none
      | some true => getUniqueWorkshopDiectory tries
      | some false => pure (some (workshopDirectory stamp))

end Factory

open Factory

/-! ### What lies where -/

theorem filesIn_region {d : Dir} {es : List Ext} {i : Item} (hi : i ∈ filesIn d es) {p : Path}
    (hp : i.region p) : inDir d p := by
  obtain ⟨e, -, rfl⟩ := List.mem_map.mp hi
  exact congrArg Path.dir (hp : p = ⟨d, e⟩)

theorem inDir_below {d : Dir} {p : Path} (h : inDir d p) : below d p := by
  simp only [inDir, below] at h ⊢
  exact h ▸ Dir.within_self d

/-- The directory of the database is not below the factory directory. -/
theorem not_below_factory_base (e : Ext) : ¬below directory ⟨.base, e⟩ := by
  simp [below, Dir.Within, directory]

theorem filesIn_newPath (a b : Dir) (es : List Ext) :
    ((filesIn a es).map fun i => (i, newPath b i)) = movePairs a b es := by
  simp [filesIn, movePairs, newPath]

section Specs

variable {F : Type} {empty : F} {ok : Call → Oracle F → Fs F → Prop} {I : Fs F → Prop}

theorem touches_removeDirectoryIfEmpty (fuel : ℕ) :
    Touches (below directory) (removeDirectoryIfEmpty fuel) := by
  refine Touches.bind (Touches.issue trivial) fun a => ?_
  cases a with
  | error => exact Touches.done _
  | absent => exact touches_removeItem fuel (.dir directory)
  | entries l =>
    by_cases hl : l.all removableEntry
    · simp only [hl, if_true]
      exact touches_removeItem fuel (.dir directory)
    · simp only [hl]
      exact Touches.done _

/-- The two halves of `moveItems` put together: what follows a loop that ended with `true`, and
what follows one that did not. -/
theorem safe_movePairedItems (v : MoveVariant) (fuel : ℕ) {a b : Dir} (hab : a ≠ b)
    {es : List Ext} (hnodup : es.Nodup) {s : Fs F} {Q : Bool → Fs F → Prop}
    (hI : ∀ t, Moving v a b s t → I t)
    (hdone : ∀ recovers t, MoveOutcome ok v a b es s (true, recovers) t →
      Prog.Safe (handle empty) ok I (removeItems fuel (filesIn a es)) Q t)
    (hfail : ∀ recovers t, MoveOutcome ok v a b es s (false, recovers) t →
      Prog.Safe (handle empty) ok I (recoverItems fuel recovers) (fun _ => Q false) t) :
    Prog.Safe (handle empty) ok I (movePairedItems v fuel (movePairs a b es)) Q s := by
  refine Prog.Safe.bind (safe_moveLoop v fuel hab hnodup hI) ?_
  rintro ⟨_ | _, recovers⟩ t ht hout
  · exact Prog.Safe.bind (hfail recovers t hout) fun _ u hu hQ => ⟨hu, hQ⟩
  · have hmap : (movePairs a b es).map Prod.fst = filesIn a es := by simp [movePairs, filesIn]
    simp only [if_true, hmap]
    exact hdone recovers t hout

/-- An existing directory need not be created; only its status can fail. -/
theorem safe_createDirectory_existing {d : Dir} {s : Fs F} (hd : d ∈ s.dirs) (hs : I s) :
    Prog.Safe (handle empty) ok I (createDirectoryWithIntermediateDirectories d)
      (fun r t => t = s ∧ (r = true ∨ ∃ c o, ok c o s ∧ o.fault = true)) s := by
  have key : ∀ k : Bool → FileM Bool,
      Prog.Safe (handle empty) ok I
        (directoryExists d >>= fun r => match r with
          | none => pure false
          | some true => pure true
          | some false => k false)
        (fun r t => t = s ∧ (r = true ∨ ∃ c o, ok c o s ∧ o.fault = true)) s := by
    intro k
    refine Prog.Safe.call hs fun o ho => ?_
    cases hf : o.fault with
    | true =>
      rw [handle_stat_fault hf]
      exact ⟨hs, rfl, Or.inr ⟨_, o, ho, hf⟩⟩
    | false =>
      have hst : s.status (.dir d) = .directory := by simp [Fs.status, hd]
      rw [handle_stat hf, hst]
      exact ⟨hs, rfl, Or.inl rfl⟩
  cases d with
  | base => exact key fun _ => createDirectory .base
  | temporary => exact key fun _ => createDirectory .temporary
  | sub p n =>
    exact key fun _ => do
      if (← createDirectoryWithIntermediateDirectories p) then createDirectory (.sub p n)
      else pure false

/-- A sub-directory is among the entries of its parent. -/
theorem Fs.mem_entries_dir {s : Fs F} {d : Dir} {n : DirName} (h : Dir.sub d n ∈ s.dirs) :
    Entry.dir n ∈ s.entries d := by
  simp only [Fs.entries, List.mem_append, List.mem_map, List.mem_filterMap]
  exact Or.inr ⟨n, ⟨_, h, by simp [Fs.childName]⟩, rfl⟩

/-- **The factory directory is kept** while a workshop directory exists. -/
theorem safe_removeDirectoryIfEmpty_kept (fuel : ℕ) {s : Fs F} {stamp : ℕ} (hs : I s)
    (hn : workshopDirectory stamp ∈ s.dirs) :
    Prog.Safe (handle empty) ok I (removeDirectoryIfEmpty fuel) (fun _ t => t = s) s := by
  have hd : directory ∈ s.dirs := s.sub_dir _ _ hn
  refine Prog.Safe.call hs fun o _ => ?_
  cases hf : o.fault with
  | true =>
    simp only [handle, hf, if_true]
    exact ⟨hs, rfl⟩
  | false =>
    simp only [handle, hf, hd, Bool.false_eq_true, if_false, if_true]
    set l := if o.order.isPerm (s.entries directory) then o.order else s.entries directory
      with hl
    have hmem : Entry.dir (.workshop stamp) ∈ l := by
      rw [hl]
      split_ifs with hperm
      · exact (List.isPerm_iff.mp hperm).mem_iff.mpr (Fs.mem_entries_dir hn)
      · exact Fs.mem_entries_dir hn
    have hall : l.all removableEntry = false := by
      rw [List.all_eq_false]
      exact ⟨_, hmem, by simp [removableEntry]⟩
    change Prog.Safe (handle empty) ok I
      (if l.all removableEntry then removeItem fuel (.dir directory) else pure true) _ s
    rw [hall]
    exact ⟨hs, rfl⟩

/-- The name found is free: no file lies in its directory. -/
theorem safe_getUniqueWorkshopDiectory (tries : ℕ) {s : Fs F} (hs : I s) :
    Prog.Safe (handle empty) ok I (getUniqueWorkshopDiectory tries)
      (fun r t => t = s ∧ ∀ d, r = some d →
        ∃ stamp, d = workshopDirectory stamp ∧ ∀ e, s.files ⟨d, e⟩ = none) s := by
  induction tries with
  | zero => exact ⟨hs, rfl, by simp⟩
  | succ tries ih =>
    refine Prog.Safe.call hs fun o _ => ?_
    refine Prog.Safe.call hs fun o' _ => ?_
    cases hf : o'.fault with
    | true =>
      rw [handle_stat_fault hf]
      exact ⟨hs, rfl, by simp⟩
    | false =>
      rw [handle_stat hf]
      by_cases hd : workshopDirectory o.stamp ∈ s.dirs
      · have hst : s.status (.dir (workshopDirectory o.stamp)) = .directory := by
          simp [Fs.status, hd]
        simp only [handle, hst]
        exact ih
      · have hst : s.status (.dir (workshopDirectory o.stamp)) = .absent := by
          simp [Fs.status, hd]
        simp only [handle, hst]
        refine ⟨hs, rfl, fun d hdir => ⟨o.stamp, (Option.some.inj hdir).symm, fun e => ?_⟩⟩
        by_contra hne
        exact hd (Option.some.inj hdir ▸ s.file_dir _ hne)

end Specs

end Wcdb
