import DirectoryWatch.FileSystem.Basic

/-!
# What is known of a file system

Answers that were collected beforehand. A question without an answer fails, and the first such
question is noted, so that whoever can answer it may do so and start again.
-/
namespace DirectoryWatch

inductive Question
  | isDirectory (p : Path)
  | entries (p : Path)
  | contents (p : Path)

structure Known where
  directories : List (Bytes × Except Fault Bool)
  listings : List (Bytes × Except Fault (List Path))
  files : List (Bytes × Except IoError Bytes)
  /-- The first question that had no answer. -/
  unanswered : Option Question

namespace Known

def nothing : Known := ⟨[], [], [], none⟩

instance : Inhabited Known := ⟨nothing⟩

def note (k : Known) (question : Question) : Known :=
  { k with unanswered := k.unanswered <|> some question }

def answers (k : Known) : Known := { k with unanswered := none }

def unknownFault : Fault := .ofText "not known"

def deepestWalk : Nat := 10000000

def fileSystem (workingDirectory : Path) : FileSystem Known where
  isDirectory p k :=
    match k.directories.lookup p.bytes with
    | some answer => (answer, k)
    | none => (.error unknownFault, k.note (.isDirectory p))
  entries p k :=
    match k.listings.lookup p.bytes with
    | some answer => (answer, k)
    | none => (.error unknownFault, k.note (.entries p))
  workingDirectory := workingDirectory
  walkLimit _ := deepestWalk

def read (p : Path) (k : Known) : Except IoError Bytes × Known :=
  match k.files.lookup p.bytes with
  | some answer => (answer, k)
  | none => (.error .notFound, k.note (.contents p))

end Known

end DirectoryWatch
