import DirectoryWatch.FileSystem.Basic
import DirectoryWatch.Path.Parts

/-!
# File systems in memory

A listing holds an entry for each path, found by its components, and each directory names its
children. Adding a path adds the directories above it. A path can be denied: every question about
it fails.
-/
namespace DirectoryWatch

inductive Entry
  | file
  | directory (children : List Bytes)
  deriving DecidableEq, Repr

structure Listing where
  entries : List (List Component × Entry)
  denied : List (List Component)

namespace Listing

def initial : Listing := ⟨[([.root], .directory [])], []⟩

instance : Inhabited Listing := ⟨initial⟩

/-- The entry at a place, which is given by its components. -/
def at? (l : Listing) (place : List Component) : Option Entry := l.entries.lookup place

def find? (l : Listing) (p : Path) : Option Entry := l.at? p.components

def set (l : Listing) (p : Path) (entry : Entry) : Listing :=
  let place := p.components
  { l with entries := (place, entry) :: l.entries.filter fun e => e.1 != place }

theorem at?_set (l : Listing) (p : Path) (entry : Entry) (place : List Component) :
    (l.set p entry).at? place = if place = p.components then some entry else l.at? place := by
  simp only [at?, set, List.lookup_cons]
  by_cases h : place = p.components
  · simp [h]
  · simp only [h, if_false, beq_eq_false_iff_ne.2 h]
    induction l.entries with
    | nil => rfl
    | cons e rest ih =>
      obtain ⟨other, found⟩ := e
      by_cases he : other = p.components
      · simp [he, beq_eq_false_iff_ne.2 h, List.lookup_cons, ih]
      · simp [he, List.lookup_cons, ih]

/-- Names `child` among the children of `parent`, if that is a directory. A name that is no text
is left out. -/
def link (l : Listing) (parent child : Path) : Listing :=
  match l.find? parent, child.fileName? with
  | some (.directory children), some name =>
    if (Text.Utf8.decode? name).isNone ∨ name ∈ children then l
    else l.set parent (.directory (children ++ [name]))
  | _, _ => l

/-- Adds the first path of a chain of ancestors as a directory, and those after it as far as they
are missing. What is there already stays as it is. -/
def addChain (l : Listing) : List Path → Listing
  | [] => l
  | [p] => if (l.find? p).isSome then l else l.set p (.directory [])
  | p :: parent :: rest =>
    if (l.find? p).isSome then l
    else ((l.set p (.directory [])).addChain (parent :: rest)).link parent p

def addDirectory (l : Listing) (p : Path) : Listing := l.addChain p.ancestors

/-- A file replaces what was there. -/
def addFile (l : Listing) (p : Path) : Listing :=
  let l := l.set p .file
  match p.parent? with
  | none => l
  | some parent => (l.addDirectory parent).link parent p

def deny (l : Listing) (p : Path) : Listing := { l with denied := p.components :: l.denied }

inductive Edit
  | directory (p : Path)
  | file (p : Path)
  | denial (p : Path)

def Edit.path : Edit → Path
  | .directory p => p
  | .file p => p
  | .denial p => p

def edit (l : Listing) : Edit → Listing
  | .directory p => l.addDirectory p
  | .file p => l.addFile p
  | .denial p => l.deny p

def build (edits : List Edit) : Listing := edits.foldl edit initial

def isDenied (l : Listing) (p : Path) : Bool := l.denied.contains p.components

def deniedFault (p : Path) : Fault := .ofText ("Permission denied: " ++ p.quoted)

def missingFault (p : Path) : Fault := .ofText ("Not a directory or not found: " ++ p.quoted)

def isDirectory (l : Listing) (p : Path) : Except Fault Bool :=
  if l.isDenied p then .error (deniedFault p)
  else match l.find? p with
    | some (.directory _) => .ok true
    | _ => .ok false

/-- The children, in the order in which they were added. -/
def entriesOf (l : Listing) (p : Path) : Except Fault (List Path) :=
  if l.isDenied p then .error (deniedFault p)
  else match l.find? p with
    | some (.directory children) => .ok (children.map fun name => p.join ⟨name⟩)
    | _ => .error (missingFault p)

def fileSystem (workingDirectory : Path) : FileSystem Listing where
  isDirectory p l := (l.isDirectory p, l)
  entries p l := (l.entriesOf p, l)
  workingDirectory := workingDirectory
  walkLimit l := l.entries.length + 1

end Listing

end DirectoryWatch
