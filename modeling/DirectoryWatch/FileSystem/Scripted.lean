import DirectoryWatch.FileSystem.Basic

/-!
# Scripted answers

A file system whose first answers about some paths are given in advance, whatever the file system
below would say. Each answer is given once; then the next one is due, and after the last one the
file system below is asked again.
-/
namespace DirectoryWatch

/-- An answer given in advance, or none: then the file system below is asked this time. -/
abbrev Cue (α : Type) := Option (Except String α)

structure Script where
  path : Path
  isDirectory : List (Cue Bool)
  entries : List (Cue (List Path))

structure Scripted (World : Type) where
  base : World
  scripts : List Script

namespace Script

def nextIsDirectory (p : Path) : List Script → Cue Bool × List Script
  | [] => (none, [])
  | script :: rest =>
    if script.path.Same p then
      (script.isDirectory.head?.join,
        { script with isDirectory := script.isDirectory.tail } :: rest)
    else
      let (cue, rest) := nextIsDirectory p rest
      (cue, script :: rest)

def nextEntries (p : Path) : List Script → Cue (List Path) × List Script
  | [] => (none, [])
  | script :: rest =>
    if script.path.Same p then
      (script.entries.head?.join, { script with entries := script.entries.tail } :: rest)
    else
      let (cue, rest) := nextEntries p rest
      (cue, script :: rest)

def listed (script : Script) : Nat :=
  script.entries.foldl (fun count cue =>
    match cue with
    | some (.ok paths) => count + paths.length
    | _ => count) 0

end Script

variable {World : Type}

def Scripted.fileSystem (fs : FileSystem World) : FileSystem (Scripted World) where
  isDirectory p w :=
    match Script.nextIsDirectory p w.scripts with
    | (some (.ok answer), scripts) => (.ok answer, { w with scripts := scripts })
    | (some (.error text), scripts) => (.error (.ofText text), { w with scripts := scripts })
    | (none, scripts) =>
      let (answer, base) := fs.isDirectory p w.base
      (answer, ⟨base, scripts⟩)
  entries p w :=
    match Script.nextEntries p w.scripts with
    | (some (.ok answer), scripts) => (.ok answer, { w with scripts := scripts })
    | (some (.error text), scripts) => (.error (.ofText text), { w with scripts := scripts })
    | (none, scripts) =>
      let (answer, base) := fs.entries p w.base
      (answer, ⟨base, scripts⟩)
  workingDirectory := fs.workingDirectory
  walkLimit w :=
    (fs.walkLimit w.base + 1) * (w.scripts.foldl (fun count script => count + script.listed) 1)

end DirectoryWatch
