import Wcdb.Repair.FactoryRenewer

/-!
# Depositing and retrieving a database

`InnerDatabase::deposit` prepares a new database, moves the current one to a workshop
directory and puts the new one in place. `FactoryRetriever::work` ends in a similar way: the
current database is deposited, the restored one is moved to the original path, and then the
factory directory, with every deposited database, is moved away or removed.
`InnerDatabase::initialize` runs at every start.

**Main result** (`database_kept_of_depositStep`): wherever such a run and any number of
restarts stop, the database is complete at the original path or in one workshop directory, or
the restored one is complete at the original path — provided that `moveItems` can read the
status of the main file, and, when there is a log, of the journal and the log; and that in the
rename variant there is no log to begin with and no call of the move fails once the main file
has left. Without these conditions the database is lost in either variant
(`database_lost_in_both_variants`).
-/

namespace Wcdb

open Crash FileManager Factory

namespace InnerDatabase

/-- `InnerDatabase::initialize` at the start of a database, from
`createDirectoryWithIntermediateDirectories` on. -/
def initializeDatabase (v : MoveVariant) (fuel : ℕ) : FileM Bool := do
  if (← createDirectoryWithIntermediateDirectories .base) then
    if (← FactoryVacuum.work v fuel) then
      if (← FactoryRenewer.work v fuel) then
        match (← fileExists (.file ⟨.base, .main⟩)) with
        | none => pure false
        | some true => pure true
        | some false => createFile ⟨.base, .main⟩
      else pure false
    else pure false
  else pure false

def deposit (v : MoveVariant) (fuel tries : ℕ) : FileM Bool := do
  if (← FactoryRenewer.prepare v fuel) then
    if (← FactoryDepositor.work v fuel tries) then FactoryRenewer.work v fuel else pure false
  else pure false

end InnerDatabase

namespace FactoryRetriever

def exit (fuel : ℕ) (result : Bool) : FileM Bool := do
  let _ ← removeDirectoryIfEmpty fuel
  pure result

/-- Steps 5 and 6 of `FactoryRetriever::work`. `ignorable` says that the severity of the errors
met so far is at most normal, `hasTempDir` that the system has a temporary directory. -/
def archiveAndUse (v : MoveVariant) (fuel tries : ℕ) (ignorable hasTempDir : Bool) :
    FileM Bool := do
  -- 5. archive current db and use restore db
  if (← FactoryDepositor.work v fuel tries) then
    if (← moveItems v fuel (associatedPathsForDatabase getRestoreDirectory) .base) then
      -- 6. remove all deposited dbs if error is ignorable
      if ignorable then
        if hasTempDir then do
          let _ ← moveItems v fuel [.dir Factory.directory] .temporary
          exit fuel true
        else do
          let _ ← removeItem fuel (.dir Factory.directory)
          exit fuel true
      else exit fuel true
    else exit fuel false
  else exit fuel false

end FactoryRetriever

/-- The runs that deposit a database. -/
inductive DepositRun where
  | deposit
  | retrieve (ignorable hasTempDir : Bool)
  deriving DecidableEq, Repr

def DepositRun.program (v : MoveVariant) (fuel tries : ℕ) : DepositRun → FileM Bool
  | .deposit => InnerDatabase.deposit v fuel tries
  | .retrieve ignorable hasTempDir =>
      FactoryRetriever.archiveAndUse v fuel tries ignorable hasTempDir

/-! ### What must be kept, and when it is -/

/-- A database: the main file and the log. -/
structure MainAndLog (F : Type) where
  main : F
  log : Option F
  deriving DecidableEq, Repr

section Kept

variable {F : Type}

/-- The directory `d` holds the database completely. -/
def Holds (db : MainAndLog F) (d : Dir) (s : Fs F) : Prop :=
  s.files ⟨d, .main⟩ = some db.main ∧ s.files ⟨d, .wal⟩ = db.log

instance [DecidableEq F] (db : MainAndLog F) (d : Dir) (s : Fs F) : Decidable (Holds db d s) :=
  inferInstanceAs (Decidable (_ ∧ _))

/-- The directory is a workshop directory. -/
def Dir.isWorkshop : Dir → Bool
  | .sub d (.workshop _) => d == Factory.directory
  | _ => false

/-- The database is complete at the original path or in a workshop directory, or a retrieve has
completely put the restored one at the original path. -/
def DatabaseKept (run : DepositRun) (db restored : MainAndLog F) (s : Fs F) : Prop :=
  Holds db .base s ∨ (∃ d ∈ s.dirs, d.isWorkshop = true ∧ Holds db d s) ∨
    (run ≠ .deposit ∧ Holds restored .base s)

instance [DecidableEq F] (run : DepositRun) (db restored : MainAndLog F) (s : Fs F) :
    Decidable (DatabaseKept run db restored s) :=
  inferInstanceAs (Decidable (_ ∨ _))

/-- The file whose status `moveItems` asks for. -/
def Call.movedFile : Call → Option Path
  | .stat .moveItems (.file p) => some p
  | _ => none

/-- Leaving out this file loses a part of the database: it is the main file, or a file up to
the log while there is a log. -/
def LosesPart (p : Path) (s : Fs F) : Prop :=
  (p.dir = .base ∨ p.dir = getRestoreDirectory) ∧
    (p.ext = .main ∨ ((p.ext = .journal ∨ p.ext = .wal) ∧ s.files ⟨p.dir, .wal⟩ ≠ none))

instance [DecidableEq F] (p : Path) (s : Fs F) : Decidable (LosesPart p s) :=
  inferInstanceAs (Decidable (_ ∧ _))

/-- The call brings a file to a workshop directory, or clears its place there. -/
def Call.deposits : Call → Bool
  | .stat .removeItem (.file p) => p.dir.isWorkshop
  | .unlink p => p.dir.isWorkshop
  | .rename _ q => q.dir.isWorkshop
  | _ => false

/-- The condition on one call under which depositing keeps the database. -/
structure DepositStep (v : MoveVariant) (c : Call) (o : Oracle F) (s : Fs F) : Prop where
  move_stat : ∀ p ∈ c.movedFile, LosesPart p s → o.fault = false
  calm : v = .rename → MainMissing s → c.deposits = true → o.fault = false

instance [DecidableEq F] (v : MoveVariant) (c : Call) (o : Oracle F) (s : Fs F) :
    Decidable (DepositStep v c o s) :=
  decidable_of_iff ((∀ p ∈ c.movedFile, LosesPart p s → o.fault = false) ∧
      (v = .rename → s.files ⟨.base, .main⟩ = none → c.deposits = true → o.fault = false))
    ⟨fun h => ⟨h.1, h.2⟩, fun h => ⟨h.move_stat, h.calm⟩⟩

/-- The stop invariant, with the workshop directory named by its stamp. -/
def DepositInv (run : DepositRun) (db restored : MainAndLog F) (s : Fs F) : Prop :=
  Holds db .base s ∨ (∃ stamp, Holds db (workshopDirectory stamp) s) ∨
    (run ≠ .deposit ∧ Holds restored .base s)

theorem DepositInv.kept {run : DepositRun} {db restored : MainAndLog F} {s : Fs F}
    (h : DepositInv run db restored s) : DatabaseKept run db restored s := by
  rcases h with h | ⟨stamp, h⟩ | h
  · exact Or.inl h
  · refine Or.inr (Or.inl ⟨workshopDirectory stamp, ?_, by simp [Dir.isWorkshop, workshopDirectory],
      h⟩)
    exact s.file_dir ⟨workshopDirectory stamp, .main⟩ (by simp [h.1])
  · exact Or.inr (Or.inr h)

theorem Holds.congr {db : MainAndLog F} {d : Dir} {s t : Fs F} (h : Holds db d s)
    (hst : ∀ e, t.files ⟨d, e⟩ = s.files ⟨d, e⟩) : Holds db d t :=
  ⟨(hst _).trans h.1, (hst _).trans h.2⟩

theorem Holds.base_of_sameOff {db : MainAndLog F} {s t : Fs F} (h : Holds db .base s)
    (hst : SameOff (below Factory.directory) s t) : Holds db .base t :=
  h.congr fun e => hst _ (not_below_factory_base e)

theorem Holds.workshop_of_sameOff {db : MainAndLog F} {stamp : ℕ} {s t : Fs F}
    (h : Holds db (workshopDirectory stamp) s) (hst : SameOff restartRegion s t) :
    Holds db (workshopDirectory stamp) t :=
  h.congr fun e => hst _ (not_restartRegion_workshop stamp e)

/-! ### The start -/

section Start

variable {empty : F} {ok : Call → Oracle F → Fs F → Prop} {run : DepositRun}
  {db restored : MainAndLog F}

/-- With the main file in place a start leaves it, and its log, alone. -/
theorem safe_initializeDatabase_of_main {I : Fs F → Prop} (v : MoveVariant) (fuel : ℕ)
    {s : Fs F} {m : F}
    (hm : s.files ⟨.base, .main⟩ = some m)
    (hI : ∀ t, SameOff (below Factory.directory) s t → I t) :
    Prog.Safe (handle empty) ok I (InnerDatabase.initializeDatabase v fuel)
      (fun _ _ => True) s := by
  have hmain : ∀ t, SameOff (below Factory.directory) s t →
      t.files ⟨.base, .main⟩ = some m := fun t ht => (ht _ (not_below_factory_base _)).trans hm
  refine Prog.Safe.bind ((touches_createDirectoryWithIntermediateDirectories _).safe hI)
    fun r t₁ h₁ ht₁ => ?_
  cases r
  · exact ⟨h₁, trivial⟩
  refine Prog.Safe.bind (safe_vacuumWork_of_main v fuel (hmain t₁ ht₁)
    fun t ht => hI t (ht₁.trans ht)) fun r t₂ h₂ ht₂ => ?_
  cases r
  · exact ⟨h₂, trivial⟩
  have hst₂ := ht₁.trans ht₂
  refine Prog.Safe.bind (safe_renewerWork_of_main v fuel (hmain t₂ hst₂)
    fun t ht => hI t (hst₂.trans ht)) fun r t₃ h₃ ht₃ => ?_
  cases r
  · exact ⟨h₃, trivial⟩
  refine Prog.Safe.call h₃ fun o _ => ?_
  cases hf : o.fault with
  | true =>
    rw [handle_stat_fault hf]
    exact ⟨h₃, trivial⟩
  | false =>
    rw [handle_stat hf, Fs.status_file_some (hmain t₃ (hst₂.trans ht₃))]
    exact ⟨h₃, trivial⟩

/-- With the database in a workshop directory a start leaves that directory alone. -/
theorem safe_initializeDatabase_of_workshop {I : Fs F → Prop} (v : MoveVariant)
    (fuel : ℕ) {s : Fs F}
    {stamp : ℕ} {m : F} (hm : s.files ⟨workshopDirectory stamp, .main⟩ = some m)
    (hI : ∀ t, SameOff restartRegion s t → I t) :
    Prog.Safe (handle empty) ok I (InnerDatabase.initializeDatabase v fuel)
      (fun _ _ => True) s := by
  refine Prog.Safe.bind ((touches_createDirectoryWithIntermediateDirectories _).safe hI)
    fun r t₁ h₁ ht₁ => ?_
  cases r
  · exact ⟨h₁, trivial⟩
  refine Prog.Safe.bind (safe_vacuumWork_of_workshop v fuel hm hI ht₁) fun r t₂ h₂ ht₂ => ?_
  cases r
  · exact ⟨h₂, trivial⟩
  refine Prog.Safe.bind (safe_renewerWork_of_workshop v fuel hm hI ht₂) fun r t₃ h₃ ht₃ => ?_
  cases r
  · exact ⟨h₃, trivial⟩
  refine Prog.Safe.bind ((touches_fileExists _).safe_from hI ht₃) fun r t₄ h₄ ht₄ => ?_
  rcases r with _ | _ | _
  · exact ⟨h₄, trivial⟩
  · have hcreate : Touches restartRegion (createFile ⟨.base, .main⟩) := Touches.issue (Or.inl rfl)
    exact (hcreate.safe_from hI ht₄).mono fun _ _ _ _ => trivial
  · exact ⟨h₄, trivial⟩

/-- **One start** keeps the invariant, wherever it stops and whatever fails. -/
theorem safe_initializeDatabase (v : MoveVariant) (fuel : ℕ) {s : Fs F}
    (hs : DepositInv run db restored s) :
    Prog.Safe (handle empty) ok (DepositInv run db restored)
      (InnerDatabase.initializeDatabase v fuel)
      (fun _ _ => True) s := by
  rcases hs with h | ⟨stamp, h⟩ | ⟨hrun, h⟩
  · exact safe_initializeDatabase_of_main v fuel h.1 fun t ht => Or.inl (h.base_of_sameOff ht)
  · exact safe_initializeDatabase_of_workshop v fuel h.1 fun t ht =>
      Or.inr (Or.inl ⟨stamp, h.workshop_of_sameOff ht⟩)
  · exact safe_initializeDatabase_of_main v fuel h.1 fun t ht =>
      Or.inr (Or.inr ⟨hrun, h.base_of_sameOff ht⟩)

end Start

/-! ### Depositing -/

/-- The main file is the first to be moved. -/
theorem main_mem_before {pre post : List Ext} {e : Ext} (h : Ext.all = pre ++ e :: post)
    (he : e ≠ .main) : Ext.main ∈ pre := by
  rcases pre with _ | ⟨a, pre⟩
  · simp only [Ext.all, List.nil_append, List.cons.injEq] at h
    exact absurd h.1.symm he
  · simp only [Ext.all, List.cons_append, List.cons.injEq] at h
    exact h.1 ▸ List.mem_cons_self

/-- Only the journal comes between the main file and the log. -/
theorem wal_mem_before {pre post : List Ext} {e : Ext} (h : Ext.all = pre ++ e :: post)
    (he : e ≠ .main) (hj : e ≠ .journal) (hw : e ≠ .wal) : Ext.wal ∈ pre := by
  rcases pre with _ | ⟨a, _ | ⟨b, _ | ⟨c, pre⟩⟩⟩ <;>
    simp only [Ext.all, List.nil_append, List.cons_append, List.cons.injEq] at h
  · exact absurd h.1.symm he
  · exact absurd h.2.1.symm hj
  · exact absurd h.2.2.1.symm hw
  · simp [← h.2.2.1]

theorem wal_mem_of_journal {pre post : List Ext} (h : Ext.all = pre ++ .journal :: post) :
    Ext.wal ∈ post := by
  rcases pre with _ | ⟨a, _ | ⟨b, pre⟩⟩ <;>
    simp only [Ext.all, List.nil_append, List.cons_append, List.cons.injEq] at h
  · exact absurd h.1 (by decide)
  · simp [← h.2.2]
  · have hmem : Ext.journal ∈ pre ++ Ext.journal :: post := by simp
    rw [← h.2.2] at hmem
    exact absurd hmem (by decide)

section Deposit

variable {empty : F} {I : Fs F → Prop} {v : MoveVariant} {db : MainAndLog F}

/-- The move of a database between two directories, told from a source that holds it to a
destination without main file and log: the loop that ends with `true` has brought it over
completely. -/
theorem holds_of_moveOutcome {a b : Dir} {s t : Fs F} {recovers : List Item}
    (ha : a = .base ∨ a = getRestoreDirectory) (hdb : Holds db a s)
    (hwal : s.files ⟨b, .wal⟩ = none)
    (hout : MoveOutcome (DepositStep v) v a b Ext.all s (true, recovers) t) : Holds db b t := by
  cases hout with
  | finished hend =>
    refine ⟨?_, ?_⟩
    · rw [hend.placed .main (Ext.mem_all _), hdb.1, Option.some_or]
    · rw [hend.placed .wal (Ext.mem_all _), hwal, Option.or_none, hdb.2]
  | broke pre e post hsplit hat o ho hf =>
    have hstat : ¬LosesPart ⟨a, e⟩ t := fun hl => by simp [ho.move_stat ⟨a, e⟩ rfl hl] at hf
    simp only [LosesPart, ha, true_and, not_or, not_and, not_not] at hstat
    obtain ⟨hne, hlog⟩ := hstat
    have hmain := hat.placed .main (main_mem_before hsplit hne)
    rw [hdb.1, Option.some_or] at hmain
    refine ⟨hmain, ?_⟩
    by_cases hj : e = .journal ∨ e = .wal
    · -- The loop broke before the log, so there is none.
      have hleft : Ext.wal ∈ e :: post := by
        rcases hj with rfl | rfl
        · exact List.mem_cons_of_mem _ (wal_mem_of_journal hsplit)
        · exact List.mem_cons_self
      obtain ⟨hla, hlb⟩ := hat.left .wal hleft
      rw [hlb, hwal, ← hdb.2, ← hla, hlog hj]
    · simp only [not_or] at hj
      rw [hat.placed .wal (wal_mem_before hsplit hne hj.1 hj.2), hwal, Option.or_none, hdb.2]

theorem workshop_ne_base (stamp : ℕ) : Dir.base ≠ workshopDirectory stamp := by
  simp [workshopDirectory]

/-- In the course of depositing the database is complete on one side. -/
theorem holds_of_moving {stamp : ℕ} {s t : Fs F} (hdb : Holds db .base s)
    (hfresh : ∀ e, s.files ⟨workshopDirectory stamp, e⟩ = none) (hlog : v = .rename → db.log = none)
    (ht : Moving v .base (workshopDirectory stamp) s t) :
    Holds db .base t ∨ Holds db (workshopDirectory stamp) t := by
  have hm := ht.file .main
  have hw := ht.file .wal
  rw [hdb.1, hfresh] at hm
  rw [hdb.2, hfresh] at hw
  cases v with
  | hardLink =>
    simp only [MovingFile, reduceCtorEq, false_and, or_false] at hm hw
    exact Or.inl ⟨hm.1, hw.1⟩
  | rename =>
    rw [hlog rfl] at hw
    have hwal : t.files ⟨.base, .wal⟩ = none ∧
        t.files ⟨workshopDirectory stamp, .wal⟩ = none := by
      simp only [MovingFile] at hw
      tauto
    rcases hm with ⟨hm, -⟩ | ⟨-, -, hm⟩
    · exact Or.inl ⟨hm, hwal.1.trans (hlog rfl).symm⟩
    · exact Or.inr ⟨hm, hwal.2.trans (hlog rfl).symm⟩

/-- **The depositor** keeps the database on one side, and a depositor that succeeds has brought
it to a workshop directory and cleared the original path. -/
theorem safe_depositorWork (fuel tries : ℕ) {s : Fs F} (hdb : Holds db .base s)
    (hlog : v = .rename → db.log = none) (hI : ∀ t, Holds db .base t → I t)
    (hI' : ∀ t stamp, Holds db (workshopDirectory stamp) t → I t) :
    Prog.Safe (handle empty) (DepositStep v) I (FactoryDepositor.work v fuel tries)
      (fun r t => (Holds db .base t ∨ ∃ stamp, Holds db (workshopDirectory stamp) t) ∧
        (r = true → (∃ stamp, Holds db (workshopDirectory stamp) t) ∧
          (∀ e, t.files ⟨.base, e⟩ = none) ∧
          ∀ e, t.files ⟨getRestoreDirectory, e⟩ = s.files ⟨getRestoreDirectory, e⟩)) s := by
  refine Prog.Safe.bind (safe_getUniqueWorkshopDiectory tries (hI s hdb)) ?_
  rintro (_ | d) s₁ h₁ ⟨rfl, hd⟩
  · exact ⟨h₁, Or.inl hdb, by simp⟩
  obtain ⟨stamp, rfl, hfresh⟩ := hd d rfl
  -- Creating the directory, twice, changes no file.
  have hcreate : Touches (fun _ => False)
      (createDirectoryWithIntermediateDirectories (workshopDirectory stamp)) :=
    touches_createDirectoryWithIntermediateDirectories _
  have hsame : ∀ t, SameOff (fun _ => False) s₁ t → Holds db .base t := fun t ht =>
    hdb.congr fun e => ht _ id
  refine Prog.Safe.bind (hcreate.safe fun t ht => hI t (hsame t ht)) fun r s₂ h₂ hs₂ => ?_
  cases r
  · exact ⟨h₂, Or.inl (hsame s₂ hs₂), by simp⟩
  refine Prog.Safe.bind (hcreate.safe_from (fun t ht => hI t (hsame t ht)) hs₂)
    fun r s₃ h₃ hs₃ => ?_
  cases r
  · exact ⟨h₃, Or.inl (hsame s₃ hs₃), by simp⟩
  simp only [if_true, associatedPathsForDatabase, filesIn_newPath]
  have hfresh₃ : ∀ e, s₃.files ⟨workshopDirectory stamp, e⟩ = none := fun e =>
    (hs₃ _ id).trans (hfresh e)
  have hmoving : ∀ t, Moving v .base (workshopDirectory stamp) s₃ t → I t := fun t ht =>
    (holds_of_moving (hsame s₃ hs₃) hfresh₃ hlog ht).elim (hI t) (hI' t stamp)
  have hrestore : ∀ e, getRestoreDirectory ≠ workshopDirectory stamp ∧
      (⟨getRestoreDirectory, e⟩ : Path).dir ≠ .base := fun e => by
    simp [getRestoreDirectory, workshopDirectory]
  refine safe_movePairedItems v fuel (workshop_ne_base stamp) (by decide) hmoving ?_ ?_
  · intro recovers t hout
    have hw : Holds db (workshopDirectory stamp) t :=
      holds_of_moveOutcome (Or.inl rfl) (hsame s₃ hs₃) (hfresh₃ _) hout
    have hmov : Moving v .base (workshopDirectory stamp) s₃ t := by
      cases hout with
      | finished hend => exact hend.toMoving
      | broke pre e post hsplit hat o ho hf => exact hat.toMoving
    have her : ∀ u, Erasing .base Ext.all t u → Holds db (workshopDirectory stamp) u :=
      fun u hu => hw.congr fun e => hu.off _ fun h => absurd h (workshop_ne_base stamp).symm
    refine (safe_removeItems fuel fun u hu => hI' u stamp (her u hu)).mono ?_
    rintro r u _ ⟨hu, hr⟩
    refine ⟨Or.inr ⟨stamp, her u hu⟩, fun htrue => ⟨⟨stamp, her u hu⟩, fun e => ?_, fun e => ?_⟩⟩
    · rcases hr with ⟨-, hgone⟩ | ⟨hfalse, -⟩
      · exact hgone e (Ext.mem_all e)
      · simp [htrue] at hfalse
    · rw [hu.off _ fun h => absurd h (hrestore e).2, hmov.off _ (hrestore e).2 (hrestore e).1]
      exact hs₃ _ id
  · intro recovers t hout
    cases hout with
    | failed pre e post hsplit hmov hsrc hdst hrec hcause =>
      by_cases hbase : Holds db .base t
      · -- What is removed lies in the workshop directory.
        have hrecover : Touches (inDir (workshopDirectory stamp)) (recoverItems fuel recovers) := by
          refine touches_recoverItems fuel fun i hi p hp => ?_
          obtain ⟨e', -, rfl⟩ := hrec i hi
          exact congrArg Path.dir (hp : p = _)
        have hkeep : ∀ u, SameOff (inDir (workshopDirectory stamp)) t u → Holds db .base u :=
          fun u hu => hbase.congr fun e => hu _ (workshop_ne_base stamp)
        exact (hrecover.safe fun u hu => hI u (hkeep u hu)).mono fun _ u _ hu =>
          ⟨Or.inl (hkeep u hu), by simp⟩
      · -- The main file has left: this is the rename variant, and no call of the move fails.
        have hw : Holds db (workshopDirectory stamp) t :=
          (holds_of_moving (hsame s₃ hs₃) hfresh₃ hlog hmov).resolve_left hbase
        have hmain := hmov.file .main
        rw [(hsame s₃ hs₃).1, hfresh₃, hw.1] at hmain
        have hv : v = .rename := by
          cases v with
          | rename => rfl
          | hardLink =>
            have hwal := hmov.file .wal
            rw [(hsame s₃ hs₃).2, hfresh₃] at hwal
            simp only [MovingFile, reduceCtorEq, false_and, or_false] at hmain hwal
            exact absurd ⟨hmain.1, hwal.1⟩ hbase
        subst hv
        have hmiss : MainMissing t := by
          simpa [MovingFile, MainMissing] using hmain
        rcases hcause with hdir | ⟨c, o, ho, hf, hc⟩
        · refine absurd (hmov.dirs ▸ t.file_dir ⟨workshopDirectory stamp, .main⟩ ?_) hdir
          simp [hw.1]
        · have hdep : c.deposits = true := by
            rcases hc with rfl | rfl | hc
            · simp [Call.deposits, Dir.isWorkshop, workshopDirectory]
            · simp [Call.deposits, Dir.isWorkshop, workshopDirectory]
            · simp only at hc
              simp [hc, Call.deposits, Dir.isWorkshop, workshopDirectory]
          simp [ho.calm rfl hmiss hdep] at hf

end Deposit

/-! ### Whole runs -/

section Runs

variable {empty : F} {v : MoveVariant} {run : DepositRun} {db restored : MainAndLog F}

theorem safe_deposit (fuel tries : ℕ) {s : Fs F} (hdb : Holds db .base s)
    (hlog : v = .rename → db.log = none) :
    Prog.Safe (handle empty) (DepositStep v) (DepositInv run db restored)
      (InnerDatabase.deposit v fuel tries) (fun _ _ => True) s := by
  have hkeep : ∀ t, SameOff (below FactoryRenewer.directory) s t → Holds db .base t :=
    fun t ht => hdb.base_of_sameOff (ht.mono fun _ => below_renew)
  refine Prog.Safe.bind ((touches_renewerPrepare v fuel).safe fun t ht => Or.inl (hkeep t ht))
    fun r s₁ h₁ hs₁ => ?_
  cases r
  · exact ⟨h₁, trivial⟩
  refine Prog.Safe.bind (safe_depositorWork fuel tries (hkeep s₁ hs₁) hlog (fun _ => Or.inl)
    fun t stamp h => Or.inr (Or.inl ⟨stamp, h⟩)) ?_
  rintro r s₂ h₂ ⟨-, hdone⟩
  cases r
  · exact ⟨h₂, trivial⟩
  obtain ⟨⟨stamp, hw⟩, -, -⟩ := hdone rfl
  exact (safe_renewerWork_of_workshop v fuel hw.1
    (fun t ht => Or.inr (Or.inl ⟨stamp, hw.workshop_of_sameOff ht⟩)) (SameOff.refl _ s₂)).mono
      fun _ _ _ _ => trivial

/-- The exit of the retriever, with the database in a workshop directory or the restored one in
place. -/
theorem safe_retrieverExit (fuel : ℕ) (result : Bool) {s : Fs F}
    (hs : (∃ stamp, Holds db (workshopDirectory stamp) s) ∨ Holds restored .base s)
    (hrun : run ≠ .deposit) :
    Prog.Safe (handle empty) (DepositStep v) (DepositInv run db restored)
      (FactoryRetriever.exit fuel result) (fun _ _ => True) s := by
  rcases hs with ⟨stamp, hw⟩ | hb
  · have hI : DepositInv run db restored s := Or.inr (Or.inl ⟨stamp, hw⟩)
    have hdir : workshopDirectory stamp ∈ s.dirs :=
      s.file_dir ⟨workshopDirectory stamp, .main⟩ (by simp [hw.1])
    exact Prog.Safe.bind (safe_removeDirectoryIfEmpty_kept fuel hI hdir)
      fun _ t ht _ => ⟨ht, trivial⟩
  · have hexit : Touches (below Factory.directory) (FactoryRetriever.exit fuel result) :=
      Touches.bind (touches_removeDirectoryIfEmpty fuel) fun _ => Touches.done _
    exact (hexit.safe fun t ht => Or.inr (Or.inr ⟨hrun, hb.base_of_sameOff ht⟩)).mono
      fun _ _ _ _ => trivial

/-- Putting the restored database at the cleared original path, with the old one deposited. -/
theorem safe_useRestored (fuel : ℕ) {s : Fs F} {stamp : ℕ}
    (hw : Holds db (workshopDirectory stamp) s) (hbase : ∀ e, s.files ⟨.base, e⟩ = none)
    (hrestored : Holds restored getRestoreDirectory s) :
    Prog.Safe (handle empty) (DepositStep v) (DepositInv run db restored)
      (moveItems v fuel (associatedPathsForDatabase getRestoreDirectory) .base)
      (fun r t => Holds db (workshopDirectory stamp) t ∧
        (r = true → Holds restored .base t)) s := by
  have hcreate : Touches (fun _ => False) (createDirectoryWithIntermediateDirectories .base) :=
    touches_createDirectoryWithIntermediateDirectories _
  have hsame : ∀ t, SameOff (fun _ => False) s t → Holds db (workshopDirectory stamp) t :=
    fun t ht => hw.congr fun e => ht _ id
  have hI : ∀ t, Holds db (workshopDirectory stamp) t → DepositInv run db restored t :=
    fun t ht => Or.inr (Or.inl ⟨stamp, ht⟩)
  refine Prog.Safe.bind (hcreate.safe fun t ht => hI t (hsame t ht)) fun r s₁ h₁ hs₁ => ?_
  cases r
  · exact ⟨h₁, hsame s₁ hs₁, by simp⟩
  simp only [if_true, associatedPathsForDatabase, filesIn_newPath]
  have hne : workshopDirectory stamp ≠ getRestoreDirectory := by
    simp [getRestoreDirectory, workshopDirectory]
  have hmoving : ∀ t, Moving v getRestoreDirectory .base s₁ t →
      Holds db (workshopDirectory stamp) t := fun t ht =>
    (hsame s₁ hs₁).congr fun e => ht.off _ hne (workshop_ne_base stamp).symm
  refine safe_movePairedItems v fuel (by decide) (by decide) (fun t ht => hI t (hmoving t ht)) ?_ ?_
  · intro recovers t hout
    have hb : Holds restored .base t :=
      holds_of_moveOutcome (Or.inr rfl) (hrestored.congr fun e => hs₁ _ id)
        ((hs₁ _ id).trans (hbase _)) hout
    have hw' : Holds db (workshopDirectory stamp) t := by
      cases hout with
      | finished hend => exact hmoving t hend.toMoving
      | broke pre e post hsplit hat o ho hf => exact hmoving t hat.toMoving
    have hremove : Touches (inDir getRestoreDirectory)
        (removeItems fuel (filesIn getRestoreDirectory Ext.all)) :=
      touches_removeFiles fuel fun _ => id
    have hkeep : ∀ u, SameOff (inDir getRestoreDirectory) t u →
        Holds db (workshopDirectory stamp) u := fun u hu => hw'.congr fun e => hu _ hne
    exact (hremove.safe fun u hu => hI u (hkeep u hu)).mono fun _ u _ hu =>
      ⟨hkeep u hu, fun _ => hb.congr fun e => hu _ (by simp [inDir, getRestoreDirectory])⟩
  · intro recovers t hout
    cases hout with
    | failed pre e post hsplit hmov hsrc hdst hrec hcause =>
      have hrecover : Touches (inDir .base) (recoverItems fuel recovers) := by
        refine touches_recoverItems fuel fun i hi p hp => ?_
        obtain ⟨e', -, rfl⟩ := hrec i hi
        exact congrArg Path.dir (hp : p = _)
      have hkeep : ∀ u, SameOff (inDir .base) t u → Holds db (workshopDirectory stamp) u :=
        fun u hu => (hmoving t hmov).congr fun e => hu _ (workshop_ne_base stamp).symm
      exact (hrecover.safe fun u hu => hI u (hkeep u hu)).mono fun _ u _ hu =>
        ⟨hkeep u hu, by simp⟩

/-- The files that moving the factory directory to the temporary directory can change. -/
theorem touches_moveFactory (v : MoveVariant) (fuel : ℕ) :
    Touches (fun p => p.dir ≠ .base) (moveItems v fuel [.dir Factory.directory] .temporary) := by
  refine touches_moveItems v fuel fun i hi p hp => ?_
  obtain rfl := List.mem_singleton.mp hi
  rintro hbase
  obtain ⟨dir, e⟩ := p
  obtain rfl : dir = .base := hbase
  rcases hp with hp | hp <;>
    simp [Item.region, newPath, Factory.directory, below, Dir.Within] at hp

theorem safe_archiveAndUse (fuel tries : ℕ) (ignorable hasTempDir : Bool) {s : Fs F}
    (hdb : Holds db .base s) (hrestored : Holds restored getRestoreDirectory s)
    (hlog : v = .rename → db.log = none) (hrun : run ≠ .deposit) :
    Prog.Safe (handle empty) (DepositStep v) (DepositInv run db restored)
      (FactoryRetriever.archiveAndUse v fuel tries ignorable hasTempDir) (fun _ _ => True) s := by
  refine Prog.Safe.bind (safe_depositorWork fuel tries hdb hlog (fun _ => Or.inl)
    fun t stamp h => Or.inr (Or.inl ⟨stamp, h⟩)) ?_
  rintro r s₁ h₁ ⟨hside, hdone⟩
  cases r
  · rcases hside with hb | hw
    · -- The depositor failed before anything was moved.
      have hexit : Touches (below Factory.directory) (FactoryRetriever.exit fuel false) :=
        Touches.bind (touches_removeDirectoryIfEmpty fuel) fun _ => Touches.done _
      exact (hexit.safe fun t ht => Or.inl (hb.base_of_sameOff ht)).mono fun _ _ _ _ => trivial
    · exact safe_retrieverExit fuel false (Or.inl hw) hrun
  obtain ⟨⟨stamp, hw⟩, hbase, hsame⟩ := hdone rfl
  refine Prog.Safe.bind (safe_useRestored fuel hw hbase (hrestored.congr hsame)) ?_
  rintro r s₂ h₂ ⟨hw₂, hb₂⟩
  cases r
  · exact safe_retrieverExit fuel false (Or.inl ⟨stamp, hw₂⟩) hrun
  have hb : Holds restored .base s₂ := hb₂ rfl
  -- From here on the restored database is in place, and the factory directory may go.
  have hkeep : ∀ t, SameOff (fun p => p.dir ≠ .base) s₂ t → Holds restored .base t :=
    fun t ht => hb.congr fun e => ht _ (by simp)
  have hdrop : ∀ {p : FileM Bool}, Touches (fun p => p.dir ≠ .base) p →
      Prog.Safe (handle empty) (DepositStep v) (DepositInv run db restored)
        (p >>= fun _ => FactoryRetriever.exit fuel true) (fun _ _ => True) s₂ := fun hp =>
    Prog.Safe.bind (hp.safe fun t ht => Or.inr (Or.inr ⟨hrun, hkeep t ht⟩)) fun _ t _ ht =>
      safe_retrieverExit fuel true (Or.inr (hkeep t ht)) hrun
  cases ignorable
  · exact safe_retrieverExit fuel true (Or.inr hb) hrun
  cases hasTempDir
  · refine hdrop ((touches_removeItem fuel (.dir Factory.directory)).mono fun p hp hbase => ?_)
    obtain ⟨dir, e⟩ := p
    obtain rfl : dir = .base := hbase
    exact not_below_factory_base e hp
  · exact hdrop (touches_moveFactory v fuel)

end Runs

/-- **Depositing and retrieving keep the database** wherever the run and any number of restarts
stop, if every call meets `DepositStep` and, in the rename variant, there is no log to begin
with. -/
theorem database_kept_of_depositStep (empty : F) (v : MoveVariant) (fuel tries : ℕ)
    (run : DepositRun) (s : Fs F) (db restored : MainAndLog F) (hdb : Holds db .base s)
    (hrestored : run ≠ .deposit → Holds restored getRestoreDirectory s)
    (hlog : v = .rename → db.log = none) (first : List (Oracle F))
    (restarts : List (List (Oracle F)))
    (hfirst : Prog.Admits (handle empty) (DepositStep v) first (run.program v fuel tries) s)
    (hrestarts : AdmitsRestarts (handle empty) (DepositStep v)
      (InnerDatabase.initializeDatabase v fuel) restarts
      (Prog.trace (handle empty) first (run.program v fuel tries) s).2) :
    DatabaseKept run db restored (lifetime (handle empty) (run.program v fuel tries)
      (InnerDatabase.initializeDatabase v fuel) first restarts s) := by
  have hsafe : Prog.Safe (handle empty) (DepositStep v) (DepositInv run db restored)
      (run.program v fuel tries) (fun _ _ => True) s := by
    cases run with
    | deposit => exact safe_deposit fuel tries hdb hlog
    | retrieve ignorable hasTempDir =>
      exact safe_archiveAndUse fuel tries ignorable hasTempDir hdb (hrestored (by simp)) hlog
        (by simp)
  exact (inv_lifetime hsafe (fun _ => safe_initializeDatabase v fuel) first restarts hfirst
    hrestarts).kept

end Kept

/-! ### A run that keeps the database and two that lose it -/

/-- The link of the log fails, the move is undone, and a start follows. -/
theorem database_kept_after_failed_link :
    DatabaseKept .deposit ⟨7, some 3⟩ ⟨0, none⟩ (lifetime (handle 0)
      (DepositRun.program .hardLink 4 2 .deposit) (InnerDatabase.initializeDatabase .hardLink 4)
      (List.replicate 50 (calmCall 1) ++ failedCall 1 :: List.replicate 9 (calmCall 1))
      [List.replicate 12 (calmCall 1)] (Fs.oneDatabase 7 (some 3))) :=
  database_kept_of_depositStep 0 .hardLink 4 2 .deposit (Fs.oneDatabase 7 (some 3)) ⟨7, some 3⟩
    ⟨0, none⟩ (by decide) (by simp) (by simp) _ _ (by decide +kernel) (by decide +kernel)

/-- **The database is lost in both variants**: with hard links when the status of the main file
cannot be read by `moveItems`, with renames when the process stops right after the rename of
the main file. -/
theorem database_lost_in_both_variants :
    Holds ⟨7, some 3⟩ .base (Fs.oneDatabase 7 (some 3)) ∧
    ¬DatabaseKept .deposit ⟨7, some 3⟩ ⟨0, none⟩ (lifetime (handle 0)
      (DepositRun.program .hardLink 4 2 .deposit) (InnerDatabase.initializeDatabase .hardLink 4)
      (List.replicate 44 (calmCall 1) ++ failedCall 1 :: List.replicate 40 (calmCall 1)) []
      (Fs.oneDatabase 7 (some 3))) ∧
    ¬DatabaseKept .deposit ⟨7, some 3⟩ ⟨0, none⟩ (lifetime (handle 0)
      (DepositRun.program .rename 4 2 .deposit) (InnerDatabase.initializeDatabase .rename 4)
      (List.replicate 46 (calmCall 1)) [List.replicate 60 (calmCall 1)]
      (Fs.oneDatabase 7 (some 3))) := by
  decide +kernel

end Wcdb
