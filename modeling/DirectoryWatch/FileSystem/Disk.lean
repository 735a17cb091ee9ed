import DirectoryWatch.FileSystem.Basic
import DirectoryWatch.Path.Parts

/-!
# Disks

A tree of directories, files and symbolic links. A path is followed name by name from the root or
from a working directory; a link on the way is replaced by its target, and after forty links the
path is given up.
-/
namespace DirectoryWatch

inductive Node
  | directory
  | file (contents : Bytes)
  | link (target : Bytes)
  deriving DecidableEq, Repr

/-- Where something is: the names from the root down to it. -/
abbrev Location := List Bytes

/-- Everything on the disk but the root, which is always there. -/
structure Disk where
  nodes : List (Location × Node)

namespace Disk

instance : Inhabited Disk := ⟨⟨[]⟩⟩

def mostLinks : Nat := 40

def longestName : Nat := 255

/-- A path with a NUL byte at its end must not be longer than this. -/
def longestPath : Nat := 4096

def node? (disk : Disk) : Location → Option Node
  | [] => some .directory
  | location => disk.nodes.lookup location

def put (disk : Disk) (location : Location) (node : Node) : Disk :=
  ⟨(location, node) :: disk.nodes.filter fun e => e.1 != location⟩

def namesIn (disk : Disk) (location : Location) : List Bytes :=
  disk.nodes.filterMap fun (place, _) =>
    if place.dropLast = location then place.getLast? else none

/-- What one segment leads to: the number of links that may still be met, where to go on, and the
segments that come before the rest there. -/
def enter (disk : Disk) (links : Nat) (location : Location) (segment : Bytes) :
    Except IoError (Nat × Location × List Bytes) :=
  if disk.node? location ≠ some .directory then .error .notADirectory
  else if segment = [] ∨ segment = [dot] then .ok (links, location, [])
  else if segment = [dot, dot] then .ok (links, location.dropLast, [])
  else if longestName < segment.length then .error .nameTooLong
  else match disk.node? (location ++ [segment]) with
    | none => .error .notFound
    | some .directory => .ok (links, location ++ [segment], [])
    | some (.file _) => .ok (links, location ++ [segment], [])
    | some (.link target) =>
      match links with
      | 0 => .error .linkLoop
      | links + 1 =>
        .ok (links, if target.head? = some slash then [] else location, Bytes.split slash target)

/-- The ways in which a segment leads on. -/
inductive Enters (disk : Disk) (links : Nat) (location : Location) (segment : Bytes) :
    Nat × Location × List Bytes → Prop
  | idle : Enters disk links location segment (links, location, [])
  | up : Enters disk links location segment (links, location.dropLast, [])
  | down {node : Node} (directory : disk.node? location = some .directory)
      (active : ¬(segment = [] ∨ segment = [dot])) (notUp : segment ≠ [dot, dot])
      (short : segment.length ≤ longestName)
      (there : disk.node? (location ++ [segment]) = some node)
      (noLink : ∀ target, node ≠ .link target) :
      Enters disk links location segment (links, location ++ [segment], [])
  | link {fewer : Nat} {target : Bytes} (h : links = fewer + 1) :
      Enters disk links location segment
        (fewer, if target.head? = some slash then [] else location, Bytes.split slash target)

theorem enters {disk : Disk} {links : Nat} {location : Location} {segment : Bytes}
    {next : Nat × Location × List Bytes} (h : disk.enter links location segment = .ok next) :
    disk.Enters links location segment next := by
  simp only [enter] at h
  split at h
  · cases h
  rename_i directory
  split at h
  · cases h
    exact .idle
  rename_i active
  split at h
  · cases h
    exact .up
  rename_i notUp
  split at h
  · cases h
  rename_i short
  have hdown {node : Node} (there : disk.node? (location ++ [segment]) = some node)
      (noLink : ∀ target, node ≠ .link target) :
      disk.Enters links location segment (links, location ++ [segment], []) :=
    .down (Decidable.not_not.1 directory) active notUp (Nat.not_lt.1 short) there noLink
  rcases there : disk.node? (location ++ [segment]) with _ | _ | _ | target <;> rw [there] at h
  · cases h
  · cases h
    exact hdown there (by simp)
  · cases h
    exact hdown there (by simp)
  · cases links <;> cases h
    exact .link rfl

/-- Follows segments from a location. `links` is the number of links that may still be met. -/
def follow (disk : Disk) (links : Nat) (location : Location) (segments : List Bytes) :
    Except IoError Location :=
  match segments with
  | [] => .ok location
  | segment :: rest =>
    match _h : disk.enter links location segment with
    | .ok (links', place, before) => disk.follow links' place (before ++ rest)
    | .error e => .error e
  termination_by (links, segments.length)
  decreasing_by
    cases enters _h with
    | link hlinks => exact Prod.Lex.left _ _ (hlinks ▸ Nat.lt_succ_self _)
    | _ => exact Prod.Lex.right _ (Nat.lt_succ_self _)

def locate (disk : Disk) (workingDirectory p : Path) : Except IoError Location :=
  if p.bytes.contains 0 then .error .nulInPath
  else if longestPath ≤ p.bytes.length then .error .nameTooLong
  else if p.isEmpty then .error .notFound
  else
    let full := workingDirectory.join p
    disk.follow mostLinks [] (Bytes.split slash full.bytes)

/-- The path without links of what a path names. -/
def resolve (disk : Disk) (workingDirectory p : Path) : Except IoError Path := do
  return .ofParts .root (← disk.locate workingDirectory p)

/-- Whether a path is a directory. Nothing is there where a name is missing or goes through a
file; any other failure is reported. -/
def isDirectory (disk : Disk) (workingDirectory p : Path) : Except Fault Bool :=
  match disk.locate workingDirectory p with
  | .ok location => .ok (decide (disk.node? location = some Node.directory))
  | .error .notFound => .ok false
  | .error .notADirectory => .ok false
  | .error e => .error ⟨"inspecting " ++ p.quoted, [e.message]⟩

def names (disk : Disk) (workingDirectory p : Path) : Except IoError (List Bytes) := do
  let location ← disk.locate workingDirectory p
  if disk.node? location = some .directory then return disk.namesIn location
  else .error .notADirectory

def entries (disk : Disk) (workingDirectory p : Path) : Except Fault (List Path) :=
  match disk.names workingDirectory p with
  | .ok names => .ok (names.map fun name => p.join ⟨name⟩)
  | .error e => .error ⟨"reading dir " ++ p.quoted, [e.message]⟩

def read (disk : Disk) (workingDirectory p : Path) : Except IoError Bytes := do
  let location ← disk.locate workingDirectory p
  match disk.node? location with
  | some (.file contents) => return contents
  | _ => .error .isADirectory

/-- A disk answers without changing. Links can lead a walk around in circles that only the limit on
links ends, so the limit on walks is generous. -/
def fileSystem (workingDirectory : Path) : FileSystem Disk where
  isDirectory p disk := (disk.isDirectory workingDirectory p, disk)
  entries p disk := (disk.entries workingDirectory p, disk)
  workingDirectory := workingDirectory
  walkLimit disk := 1000000 * (disk.nodes.length + 1)

/-- The place where something with this path can be made: its parent followed, and its name. -/
def placeFor? (disk : Disk) (p : Path) : Option Location := do
  let parent ← p.parent?
  let name ← p.fileName?
  match disk.locate ⟨[slash]⟩ parent with
  | .ok location =>
    if disk.node? location = some .directory ∧ name.length ≤ longestName then
      some (location ++ [name])
    else none
  | .error _ => none

def make (disk : Disk) (p : Path) (node : Node) : Disk :=
  match disk.placeFor? p with
  | some place => if (disk.node? place).isSome then disk else disk.put place node
  | none => disk

/-- Makes a directory and the directories above it, as far as they are missing. -/
def makeDirectory (disk : Disk) (p : Path) : Disk :=
  p.ancestors.reverse.foldl (fun disk p =>
    match disk.locate ⟨[slash]⟩ p with
    | .error .notFound => disk.make p .directory
    | _ => disk) disk

/-- The place that a file with this path takes: links that stand there are followed, at most so
many. Only a path that ends in a name names a file. -/
def filePlace? (disk : Disk) (links : Nat) (p : Path) : Option Location :=
  match disk.placeFor? p with
  | none => none
  | some place =>
    if (Bytes.split slash p.bytes).getLast? ≠ p.fileName? then none
    else match disk.node? place with
      | none => some place
      | some (.file _) => some place
      | some .directory => none
      | some (.link target) =>
        match links with
        | 0 => none
        | links + 1 => disk.filePlace? links ((Path.ofParts .root place.dropLast).join ⟨target⟩)

/-- Writes a file, and makes the directories above it. Links are written through. -/
def writeFile (disk : Disk) (p : Path) (contents : Bytes) : Disk :=
  let disk := match p.parent? with
    | some parent => disk.makeDirectory parent
    | none => disk
  match disk.filePlace? mostLinks p with
  | some place => disk.put place (.file contents)
  | none => disk

def makeLink (disk : Disk) (p target : Path) : Disk := disk.make p (.link target.bytes)

def remove (disk : Disk) (p : Path) : Disk :=
  match disk.placeFor? p with
  | some place => ⟨disk.nodes.filter fun e => !place.isPrefixOf e.1⟩
  | none => disk

end Disk

end DirectoryWatch
