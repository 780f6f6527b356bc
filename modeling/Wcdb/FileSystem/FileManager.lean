import Wcdb.FileSystem.Basic

/-!
# `FileManager`

The functions of `FileManager` the factory uses, call by call. `moveItems` exists in two
variants: with **hard links** (link every item to its new place, then remove the old places)
and, on Android and OpenHarmony, with **renames**. Both share the two properties the factory
depends on and the source does not spell out:

* an item whose status cannot be read ends the loop with the result still `true`, so that
  the removal of the sources follows although later items were never moved;
* after a failure the items moved so far are removed from their *new* places.

`removeDirectory` and `createDirectoryHardLink` recurse into sub-directories found on the
disk; `fuel` bounds the nesting, and every result is proved for every `fuel`.
-/

namespace Wcdb

open Crash

/-- Programs of the file layer. -/
abbrev FileM := Prog Call Answer

/-- The two builds of `FileManager::moveItems`. -/
inductive MoveVariant where
  | hardLink
  | rename
  deriving DecidableEq, Repr

namespace FileManager

/-- `(exists, isDirectory)`, or `none` when the status cannot be read. -/
def itemExists (site : Site) (i : Item) : FileM (Option (Bool × Bool)) := do
  match (← (Prog.issue (Call.stat site i) : FileM Stat)) with
  | .error => pure none
  | .absent => pure (some (false, false))
  | .file => pure (some (true, false))
  | .directory => pure (some (true, true))

def fileExists (i : Item) : FileM (Option Bool) := do
  match (← itemExists .fileExists i) with
  | some (ex, isDirectory) => pure (some (ex && !isDirectory))
  | none => pure none

def directoryExists (d : Dir) : FileM (Option Bool) := do
  match (← itemExists .directoryExists (.dir d)) with
  | some (ex, isDirectory) => pure (some (ex && isDirectory))
  | none => pure none

def removeFile (p : Path) : FileM Bool := Prog.issue (Call.unlink p)

def createDirectory (d : Dir) : FileM Bool := Prog.issue (Call.mkdir d)

def createFile (p : Path) : FileM Bool := Prog.issue (Call.createFile p)

def createFileHardLink (src dst : Path) : FileM Bool := Prog.issue (Call.link src dst)

/-- The `readdir` loop of `removeDirectory`, with the removal of a sub-directory given. -/
def removeEntries (removeSub : Dir → FileM Bool) (d : Dir) : List Entry → FileM Bool
  | [] => pure true
  | .file e :: rest => do
      if (← removeFile ⟨d, e⟩) then removeEntries removeSub d rest else pure false
  | .dir n :: rest => do
      if (← removeSub (.sub d n)) then removeEntries removeSub d rest else pure false

def removeDirectory : ℕ → Dir → FileM Bool
  | 0, _ => pure false
  | fuel + 1, d => do
      match (← (Prog.issue (Call.opendir d) : FileM Listing)) with
      | .error => pure false
      | .absent => pure true
      | .entries l =>
        if (← removeEntries (removeDirectory fuel) d l) then
          (Prog.issue (Call.rmdir d) : FileM Bool)
        else pure false

/-- Remove what a path names: its status decides between file and directory. -/
def removeItem (fuel : ℕ) (i : Item) : FileM Bool := do
  match (← (Prog.issue (Call.stat .removeItem i) : FileM Stat)) with
  | .error => pure false
  | .absent => pure true
  | .directory => (match i with | .dir d => removeDirectory fuel d | .file _ => pure false)
  | .file => (match i with | .file p => removeFile p | .dir _ => pure false)

def removeItems (fuel : ℕ) : List Item → FileM Bool
  | [] => pure true
  | i :: rest => do
      if (← removeItem fuel i) then removeItems fuel rest else pure false

/-- The recursion goes up to an existing directory and creates on the way back. -/
def createDirectoryWithIntermediateDirectories : Dir → FileM Bool
  | .sub p n => do
      match (← directoryExists (.sub p n)) with
      | none => pure false
      | some true => pure true
      | some false =>
        if (← createDirectoryWithIntermediateDirectories p) then createDirectory (.sub p n)
        else pure false
  | d => do
      match (← directoryExists d) with
      | none => pure false
      | some true => pure true
      | some false => createDirectory d

/-- The enumeration of `createDirectoryHardLink`, with the linking of a sub-directory given. -/
def linkEntries (linkSub : Dir → Dir → FileM Bool) (src dst : Dir) : List Entry → FileM Bool
  | [] => pure true
  | .file e :: rest => do
      if (← createFileHardLink ⟨src, e⟩ ⟨dst, e⟩) then linkEntries linkSub src dst rest
      else pure false
  | .dir n :: rest => do
      if (← linkSub (.sub src n) (.sub dst n)) then linkEntries linkSub src dst rest
      else pure false

/-- `enumerateDirectory` treats an absent directory as an empty one. -/
def createDirectoryHardLink : ℕ → Dir → Dir → FileM Bool
  | 0, _, _ => pure false
  | fuel + 1, src, dst => do
      if (← createDirectory dst) then
        match (← (Prog.issue (Call.opendir src) : FileM Listing)) with
        | .error =>
          let _ ← removeItem fuel (.dir dst)
          pure false
        | .absent => pure true
        | .entries l =>
          if (← linkEntries (createDirectoryHardLink fuel) src dst l) then pure true
          else do
            let _ ← removeItem fuel (.dir dst)
            pure false
      else pure false

/-- Bring one existing item to its new place. -/
def moveOne (v : MoveVariant) (fuel : ℕ) : Item → Item → FileM Bool
  | .file p, .file q =>
      (match v with
        | .hardLink => createFileHardLink p q
        | .rename => Prog.issue (Call.rename p q))
  | .dir d, .dir e =>
      (match v with
        | .hardLink => createDirectoryHardLink fuel d e
        | .rename => Prog.issue (Call.renameDir d e))
  | _, _ => pure false

/-- The first loop of `moveItems`: `result` and the list `recovers`. A status that cannot be
read breaks the loop *without* clearing `result`. -/
def moveLoop (v : MoveVariant) (fuel : ℕ) :
    List (Item × Item) → List Item → FileM (Bool × List Item)
  | [], recovers => pure (true, recovers)
  | (src, dst) :: rest, recovers => do
      match (← itemExists .moveItems src) with
      | none => pure (true, recovers)
      | some (false, _) => moveLoop v fuel rest recovers
      | some (true, _) =>
        if (← removeItem fuel dst) then
          if (← moveOne v fuel src dst) then moveLoop v fuel rest (recovers ++ [dst])
          else pure (false, recovers)
        else pure (false, recovers)

/-- The recovering loop: results are ignored. -/
def recoverItems (fuel : ℕ) : List Item → FileM Unit
  | [] => pure ()
  | i :: rest => do
      let _ ← removeItem fuel i
      recoverItems fuel rest

def movePairedItems (v : MoveVariant) (fuel : ℕ) (pairedPaths : List (Item × Item)) :
    FileM Bool := do
  let (result, recovers) ← moveLoop v fuel pairedPaths []
  if result then removeItems fuel (pairedPaths.map Prod.fst)
  else do
    recoverItems fuel recovers
    pure false

/-- The place of an item below another directory. -/
def newPath (d : Dir) : Item → Item
  | .file p => .file ⟨d, p.ext⟩
  | .dir (.sub _ n) => .dir (.sub d n)
  | .dir d' => .dir d'

def moveItems (v : MoveVariant) (fuel : ℕ) (paths : List Item) (d : Dir) : FileM Bool := do
  if (← createDirectoryWithIntermediateDirectories d) then
    movePairedItems v fuel (paths.map fun i => (i, newPath d i))
  else pure false

end FileManager

end Wcdb
