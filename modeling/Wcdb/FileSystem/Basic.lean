import Wcdb.Lib.Crash
import Mathlib.Data.List.Perm.Basic

/-!
# The file system under a database

A database owns seven files in one directory (`Ext`), and its factory keeps further copies
of them in sub-directories: `Dir` is the tree of directories the repair code names, rooted
at the directory of the database and at the temporary directory of the system.

`Fs` maps paths to contents. Its two invariant fields say what every POSIX file system
guarantees and what the freshness of a workshop directory rests on: a file lies in an
existing directory, and a directory in an existing parent.

The system calls of `FileManager` are the constructors of `Call`, and `handle` answers them.
The oracle value of a call carries everything the environment decides: whether the call
fails, the order in which a directory is enumerated, the time stamp, and what the database
engine leaves behind when it builds a file.
-/

namespace Wcdb

/-- The files associated with a database, by extension. -/
inductive Ext where
  | main
  | journal
  | wal
  | shm
  | incrementalMaterial
  | firstMaterial
  | lastMaterial
  deriving DecidableEq, Repr

/-- The names of the directories the factory creates. A workshop directory is named by a
time stamp. -/
inductive DirName where
  | factory
  | vacuum
  | renew
  | restore
  | temp
  | workshop (stamp : ℕ)
  deriving DecidableEq, Repr

/-- Directories, from the directory of the database or the temporary directory down. -/
inductive Dir where
  | base
  | temporary
  | sub (parent : Dir) (name : DirName)
  deriving DecidableEq, Repr

namespace Dir

/-- `d.Within r`: the directory `d` is `r` or lies below it. -/
def Within (r : Dir) : Dir → Prop
  | base => base = r
  | temporary => temporary = r
  | sub d n => sub d n = r ∨ Within r d

@[simp]
theorem within_self (r : Dir) : Within r r := by
  cases r <;> simp [Within]

theorem Within.sub {r d : Dir} (h : Within r d) (n : DirName) : Within r (sub d n) := Or.inr h

/-- The directory `d`, read relative to `r` and put below `r'` instead. -/
def rebase (r r' : Dir) (d : Dir) : Option Dir :=
  if d = r then some r' else
    match d with
    | base => none
    | temporary => none
    | .sub p n => (rebase r r' p).map (Dir.sub · n)

end Dir

/-- A file of a database: the directory and the extension. -/
structure Path where
  dir : Dir
  ext : Ext
  deriving DecidableEq, Repr

/-- What a path string can name. -/
inductive Item where
  | file (p : Path)
  | dir (d : Dir)
  deriving DecidableEq, Repr

/-- An entry of a directory, by name. -/
inductive Entry where
  | file (e : Ext)
  | dir (n : DirName)
  deriving DecidableEq, Repr

/-- **A file system**: contents by path and the existing directories. -/
structure Fs (F : Type) where
  files : Path → Option F
  dirs : List Dir
  file_dir : ∀ p, files p ≠ none → p.dir ∈ dirs
  sub_dir : ∀ d n, Dir.sub d n ∈ dirs → d ∈ dirs

/-- All extensions, in the order of `Factory::associatedPathsForDatabase`. -/
def Ext.all : List Ext :=
  [.main, .journal, .wal, .shm, .incrementalMaterial, .firstMaterial, .lastMaterial]

theorem Ext.mem_all (e : Ext) : e ∈ Ext.all := by cases e <;> simp [Ext.all]

namespace Fs

variable {F : Type}

/-- The last component of a directory that lies directly in `d`. -/
def childName (d : Dir) : Dir → Option DirName
  | .sub p n => if p = d then some n else none
  | _ => none

/-- What `readdir` delivers, in a fixed order. -/
def entries (s : Fs F) (d : Dir) : List Entry :=
  ((Ext.all.filter fun e => (s.files ⟨d, e⟩).isSome).map Entry.file) ++
    (s.dirs.filterMap (childName d)).map Entry.dir

/-- The file system with one database, a main file and possibly a log. -/
def oneDatabase (m : F) (w : Option F) : Fs F where
  files p := if p = ⟨.base, .main⟩ then some m else if p = ⟨.base, .wal⟩ then w else none
  dirs := [.base]
  file_dir p hp := by
    by_cases hm : p = ⟨.base, .main⟩
    · simp [hm]
    · by_cases hw : p = ⟨.base, .wal⟩
      · simp [hw]
      · simp [hm, hw] at hp
  sub_dir d n h := by simp at h

/-- Remove a file. -/
def erase (s : Fs F) (p : Path) : Fs F where
  files q := if q = p then none else s.files q
  dirs := s.dirs
  file_dir q hq := by
    by_cases h : q = p
    · simp [h] at hq
    · exact s.file_dir q (by simpa [h] using hq)
  sub_dir := s.sub_dir

/-- Write a file in an existing directory. -/
def put (s : Fs F) (p : Path) (f : F) (hp : p.dir ∈ s.dirs) : Fs F where
  files q := if q = p then some f else s.files q
  dirs := s.dirs
  file_dir q hq := by
    by_cases h : q = p
    · exact h ▸ hp
    · exact s.file_dir q (by simpa [h] using hq)
  sub_dir := s.sub_dir

/-- Replace all seven files of the database in an existing directory. -/
def fill (s : Fs F) (d : Dir) (content : Ext → Option F) (hd : d ∈ s.dirs) : Fs F where
  files q := if q.dir = d then content q.ext else s.files q
  dirs := s.dirs
  file_dir q hq := by
    by_cases h : q.dir = d
    · exact h ▸ hd
    · exact s.file_dir q (by simpa [h] using hq)
  sub_dir := s.sub_dir

/-- Rewrite the main file and the log of the database in an existing directory. -/
def rewrite (s : Fs F) (d : Dir) (m : F) (w : Option F) (hd : d ∈ s.dirs) : Fs F where
  files q := if q = ⟨d, .main⟩ then some m else if q = ⟨d, .wal⟩ then w else s.files q
  dirs := s.dirs
  file_dir q hq := by
    by_cases hm : q = ⟨d, .main⟩
    · exact hm ▸ hd
    · by_cases hw : q = ⟨d, .wal⟩
      · exact hw ▸ hd
      · exact s.file_dir q (by simpa [hm, hw] using hq)
  sub_dir := s.sub_dir

/-- Add a directory whose parent exists. -/
def addDir (s : Fs F) (d : Dir) (hd : ∀ p n, d = .sub p n → p ∈ s.dirs) : Fs F where
  files := s.files
  dirs := d :: s.dirs
  file_dir p hp := List.mem_cons_of_mem _ (s.file_dir p hp)
  sub_dir p n h := by
    rcases List.mem_cons.mp h with h | h
    · exact List.mem_cons_of_mem _ (hd p n h.symm)
    · exact List.mem_cons_of_mem _ (s.sub_dir p n h)

/-- Remove a directory without entries. -/
def dropDir (s : Fs F) (d : Dir) (hd : s.entries d = []) : Fs F where
  files := s.files
  dirs := s.dirs.filter (· ≠ d)
  file_dir p hp := by
    refine List.mem_filter.mpr ⟨s.file_dir p hp, ?_⟩
    simp only [ne_eq, decide_not, Bool.not_eq_eq_eq_not, Bool.not_true, decide_eq_false_iff_not]
    rintro rfl
    simp only [entries, List.append_eq_nil_iff, List.map_eq_nil_iff, List.filter_eq_nil_iff] at hd
    exact hd.1 p.ext (Ext.mem_all _) (Option.isSome_iff_ne_none.mpr hp)
  sub_dir p n h := by
    obtain ⟨hmem, -⟩ := List.mem_filter.mp h
    refine List.mem_filter.mpr ⟨s.sub_dir p n hmem, ?_⟩
    simp only [ne_eq, decide_not, Bool.not_eq_eq_eq_not, Bool.not_true, decide_eq_false_iff_not]
    rintro rfl
    simp only [entries, List.append_eq_nil_iff, List.map_eq_nil_iff,
      List.filterMap_eq_nil_iff] at hd
    simpa [childName] using hd.2 _ hmem

end Fs

/-! ### System calls -/

/-- Which function of `FileManager` asks for the status of an item. -/
inductive Site where
  | moveItems
  | fileExists
  | directoryExists
  | removeItem
  deriving DecidableEq, Repr

/-- The calls that leave the process. `executeVacuum d` and `assemble d` stand for the
database engine building a database in the directory `d`. -/
inductive Call where
  | stat (site : Site) (i : Item)
  | unlink (p : Path)
  | rmdir (d : Dir)
  | mkdir (d : Dir)
  | link (src dst : Path)
  | rename (src dst : Path)
  | renameDir (src dst : Dir)
  | opendir (d : Dir)
  | createFile (p : Path)
  | now
  | executeVacuum (d : Dir)
  | assemble (d : Dir)
  deriving DecidableEq, Repr

/-- The answer of `stat`. -/
inductive Stat where
  | error
  | absent
  | file
  | directory
  deriving DecidableEq, Repr

/-- The answer of `opendir` and the `readdir` loop. -/
inductive Listing where
  | error
  | absent
  | entries (l : List Entry)
  deriving DecidableEq, Repr

/-- Answers by call: system calls report success. -/
abbrev Answer : Call → Type
  | .stat _ _ => Stat
  | .opendir _ => Listing
  | .now => ℕ
  | _ => Bool

/-- What the environment decides for one call. -/
structure Oracle (F : Type) where
  /-- The call fails and has no effect. -/
  fault : Bool := false
  /-- The order of enumeration, used when it is one of the directory at hand. -/
  order : List Entry := []
  /-- The time, for the name of a workshop directory. -/
  stamp : ℕ := 0
  /-- What the database engine leaves in the directory it builds a database in. -/
  content : Ext → Option F := fun _ => none
  /-- The main file and the log of the original database after it was attached and closed,
  when the engine rewrote them. -/
  origin : Option (F × Option F) := none

/-- The status of an item. -/
def Fs.status {F : Type} (s : Fs F) : Item → Stat
  | .file p => if (s.files p).isSome then .file else .absent
  | .dir d => if d ∈ s.dirs then .directory else .absent

namespace Dir

/-- Nesting depth below a root. -/
def depth : Dir → ℕ
  | base => 0
  | temporary => 0
  | sub d _ => depth d + 1

theorem depth_le_of_rebase {r r' : Dir} : ∀ {d e : Dir}, rebase r r' d = some e → r'.depth ≤ e.depth
  | base, e, h => by
    unfold rebase at h
    split at h <;> simp_all
  | temporary, e, h => by
    unfold rebase at h
    split at h <;> simp_all
  | sub p n, e, h => by
    unfold rebase at h
    split at h
    · simp_all
    · obtain ⟨q, hq, rfl⟩ := Option.map_eq_some_iff.mp h
      exact Nat.le_succ_of_le (depth_le_of_rebase hq)

/-- Reading below `r` and putting below `r'` is undone by the opposite move. -/
theorem rebase_symm {r r' : Dir} : ∀ {d e : Dir}, rebase r r' d = some e → rebase r' r e = some d
  | base, e, h => by
    unfold rebase at h
    split at h
    · next hr => cases h; rw [← hr]; unfold rebase; simp
    · simp at h
  | temporary, e, h => by
    unfold rebase at h
    split at h
    · next hr => cases h; rw [← hr]; unfold rebase; simp
    · simp at h
  | sub p n, e, h => by
    unfold rebase at h
    split at h
    · next hr => cases h; rw [← hr]; unfold rebase; simp
    · obtain ⟨q, hq, rfl⟩ := Option.map_eq_some_iff.mp h
      have hne : sub q n ≠ r' := by
        intro hEq
        have hle := depth_le_of_rebase hq
        rw [← hEq] at hle
        simp only [depth] at hle
        omega
      simp [rebase, hne, rebase_symm hq]

end Dir

namespace Fs

variable {F : Type}

/-- The directories after `src` was renamed to `dst`. -/
def movedDirs (s : Fs F) (src dst : Dir) : List Dir :=
  s.dirs.map fun d => (Dir.rebase src dst d).getD d

/-- Rename a directory: what lay below `src` lies at the same place below `dst`. The parent
of `dst` exists and does not lie below `src`. -/
def moveDir (s : Fs F) (src dst : Dir)
    (hdst : ∀ p n, dst = .sub p n → p ∈ s.dirs ∧ Dir.rebase src dst p = none) : Fs F where
  files p :=
    match Dir.rebase dst src p.dir with
    | some d => s.files ⟨d, p.ext⟩
    | none => if (Dir.rebase src dst p.dir).isSome then none else s.files p
  dirs := s.movedDirs src dst
  file_dir p hp := by
    split at hp
    · next d hd =>
      exact List.mem_map.mpr ⟨d, s.file_dir _ hp, by simp [Dir.rebase_symm hd]⟩
    · split at hp
      · exact absurd rfl hp
      · next hnone =>
        refine List.mem_map.mpr ⟨p.dir, s.file_dir p hp, ?_⟩
        simp [Option.not_isSome_iff_eq_none.mp hnone]
  sub_dir d n h := by
    obtain ⟨x, hx, he⟩ := List.mem_map.mp h
    by_cases hxs : x = src
    · have hself : Dir.rebase src dst x = some dst := by unfold Dir.rebase; simp [hxs]
      rw [hself] at he
      obtain ⟨hd, hnone⟩ := hdst d n he
      exact List.mem_map.mpr ⟨d, hd, by simp [hnone]⟩
    · cases x with
      | base => simp [Dir.rebase, hxs] at he
      | temporary => simp [Dir.rebase, hxs] at he
      | sub p m =>
        have hp := s.sub_dir p m hx
        refine List.mem_map.mpr ⟨p, hp, ?_⟩
        cases hr : Dir.rebase src dst p with
        | none => simp_all [Dir.rebase]
        | some q => simp_all [Dir.rebase]

/-- Whether a directory can be added: it is a root, or its parent exists. -/
def parentExists (s : Fs F) : Dir → Bool
  | .sub p _ => decide (p ∈ s.dirs)
  | _ => true

theorem parentExists_sub {s : Fs F} {d : Dir} (h : s.parentExists d = true) (p : Dir)
    (n : DirName) (hd : d = .sub p n) : p ∈ s.dirs := by
  subst hd
  simpa [parentExists] using h

/-- Whether `src` can be renamed to `dst`. -/
def canMoveDir (s : Fs F) (src dst : Dir) : Bool :=
  decide (src ∈ s.dirs) && decide (dst ∉ s.dirs) && s.parentExists dst &&
    (match dst with | .sub p _ => (Dir.rebase src dst p).isNone | _ => true)

theorem canMoveDir_sub {s : Fs F} {src dst : Dir} (h : s.canMoveDir src dst = true) (p : Dir)
    (n : DirName) (hd : dst = .sub p n) : p ∈ s.dirs ∧ Dir.rebase src dst p = none := by
  subst hd
  simp only [canMoveDir, parentExists, Bool.and_eq_true, decide_eq_true_eq,
    Option.isNone_iff_eq_none] at h
  exact ⟨h.1.2, h.2⟩

end Fs

/-- **The environment.** A failing call has no effect. `link` and `rename` fail without the
source or without the directory of the destination, `link` also when the destination exists,
`mkdir` accepts an existing directory (`FileManager::createDirectory` ignores `EEXIST`) and
`unlink` an absent file (`FileManager::removeFile` ignores `ENOENT`). -/
def handle {F : Type} (empty : F) : Crash.Handler Call Answer (Oracle F) (Fs F)
  | .stat _ i, o, s => (if o.fault then .error else s.status i, s)
  | .unlink p, o, s => if o.fault then (false, s) else (true, s.erase p)
  | .rmdir d, o, s =>
      if o.fault then (false, s)
      else if h : s.entries d = [] then (true, s.dropDir d h) else (false, s)
  | .mkdir d, o, s =>
      if o.fault then (false, s)
      else if d ∈ s.dirs then (true, s)
      else if h : s.parentExists d = true then (true, s.addDir d (Fs.parentExists_sub h))
      else (false, s)
  | .link src dst, o, s =>
      if o.fault then (false, s)
      else match s.files src, s.files dst with
        | some f, none => if h : dst.dir ∈ s.dirs then (true, s.put dst f h) else (false, s)
        | _, _ => (false, s)
  | .rename src dst, o, s =>
      if o.fault then (false, s)
      else match s.files src with
        | some f => if h : dst.dir ∈ s.dirs then (true, (s.put dst f h).erase src) else (false, s)
        | none => (false, s)
  | .renameDir src dst, o, s =>
      if o.fault then (false, s)
      else if h : s.canMoveDir src dst = true then (true, s.moveDir src dst (Fs.canMoveDir_sub h))
      else (false, s)
  | .opendir d, o, s =>
      (if o.fault then .error
        else if d ∈ s.dirs then
          .entries (if o.order.isPerm (s.entries d) then o.order else s.entries d)
        else .absent, s)
  | .createFile p, o, s =>
      if o.fault then (false, s)
      else if h : p.dir ∈ s.dirs then
        (true, if (s.files p).isSome then s else s.put p empty h) else (false, s)
  | .now, o, s => (o.stamp, s)
  | .executeVacuum d, o, s =>
      if h : d ∈ s.dirs then
        let s₁ := s.fill d o.content h
        match o.origin with
        | none => (!o.fault, s₁)
        | some (m, w) =>
          if hb : Dir.base ∈ s₁.dirs then (!o.fault, s₁.rewrite .base m w hb) else (!o.fault, s₁)
      else (false, s)
  | .assemble d, o, s =>
      if h : d ∈ s.dirs then (!o.fault, s.fill d o.content h) else (false, s)

end Wcdb
