import DirectoryWatch.FileSystem.Basic
import DirectoryWatch.Path.Set

/-!
# Walks

A walk hands directories to the watch facility. It takes the directory it starts from and, below
that, each directory that is wanted; below one that is not wanted it looks no further. Children
are taken in order, each with everything below it before the next.
-/
namespace DirectoryWatch

/-- A file system together with a facility that watches the direct children of a directory. -/
structure Host (World : Type) extends FileSystem World where
  watch : Path → World → Except Fault Unit × World

/-- What a walk leaves behind. -/
structure Trail (World : Type) where
  registered : PathSet
  /-- Those it accepted since the trail began, in order. -/
  added : List Path
  /-- Entries that could not be inspected and were passed over. -/
  skipped : List Path
  world : World

variable {World : Type}

namespace Trail

/-- The directories among the entries of a directory. What cannot be inspected is passed over. -/
def directoriesAmong (host : Host World) :
    List Path → Trail World → List Path × Trail World
  | [], t => ([], t)
  | entry :: rest, t =>
    match host.isDirectory entry t.world with
    | (.ok true, w) =>
      let (found, t) := directoriesAmong host rest { t with world := w }
      (entry :: found, t)
    | (.ok false, w) => directoriesAmong host rest { t with world := w }
    | (.error _, w) =>
      directoriesAmong host rest { t with world := w, skipped := t.skipped ++ [entry] }

/-- Hands a directory to the facility, unless it has it already. -/
def register (host : Host World) (directory : Path) (t : Trail World) :
    Except Failure Unit × Trail World :=
  if t.registered.contains directory then (.ok (), t)
  else
    match host.watch directory t.world with
    | (.error fault, w) => (.error (.refused directory fault.chain), { t with world := w })
    | (.ok (), w) =>
      (.ok (), { t with registered := t.registered.insert directory,
                        added := t.added ++ [directory], world := w })

/-- The directories in a directory, in order. A directory that is gone by the time it is listed
has none. -/
def children (host : Host World) (directory : Path) (t : Trail World) :
    Except Failure (List Path) × Trail World :=
  match host.entries directory t.world with
  | (.ok entries, w) =>
    let (found, t) := directoriesAmong host entries { t with world := w }
    (.ok (Path.sort found), t)
  | (.error fault, w) =>
    match host.isDirectory directory w with
    | (.ok false, w) => (.ok [], { t with world := w })
    | (_, w) => (.error (.faulty fault), { t with world := w })

/-- Takes up a directory, if it is still there, and answers with the directories in it. -/
def visit (host : Host World) (directory : Path) (t : Trail World) :
    Except Failure (List Path) × Trail World :=
  match host.isDirectory directory t.world with
  | (.error fault, w) => (.error (.faulty fault), { t with world := w })
  | (.ok false, w) => (.ok [], { t with world := w })
  | (.ok true, w) =>
    match register host directory { t with world := w } with
    | (.error e, t) => (.error e, t)
    | (.ok (), t) => children host directory t

def walkFrom (host : Host World) (start : Path) (wanted : Path → Bool) :
    Nat → List Path → Trail World → Except Failure Unit × Trail World
  | _, [], t => (.ok (), t)
  | 0, _ :: _, t => (.error (.endlessWalk start), t)
  | limit + 1, directory :: rest, t =>
    if directory.Same start ∨ wanted directory then
      match visit host directory t with
      | (.error e, t) => (.error e, t)
      | (.ok found, t) => walkFrom host start wanted limit (found ++ rest) t
    else walkFrom host start wanted limit rest t

def walk (host : Host World) (wanted : Path → Bool) (start : Path) (t : Trail World) :
    Except Failure Unit × Trail World :=
  walkFrom host start wanted (host.walkLimit t.world) [start] t

/-- Walks from one directory after the other. The first failure ends the walks. -/
def walkAll (host : Host World) (wanted : Path → Bool) :
    List Path → Trail World → Except Failure Unit × Trail World
  | [], t => (.ok (), t)
  | start :: rest, t =>
    match walk host wanted start t with
    | (.error e, t) => (.error e, t)
    | (.ok (), t) => walkAll host wanted rest t

end Trail

end DirectoryWatch
