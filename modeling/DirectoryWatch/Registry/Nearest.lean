import DirectoryWatch.FileSystem.Basic
import DirectoryWatch.Registry.Basic

/-!
# Registering requests

A root need not exist. What is watched for it is the nearest directory that does: the root itself
or its longest ancestor that is a directory. The last ancestor is taken without being asked about.
-/
namespace DirectoryWatch

variable {World : Type}

def FileSystem.firstDirectory (fs : FileSystem World) (root : Path) :
    List Path → World → Except Failure Path × World
  | [], w => (.ok root, w)
  | [last], w => (.ok last, w)
  | p :: rest, w =>
    match fs.isDirectory p w with
    | (.error fault, w) => (.error (.unresolvedRoot root fault.chain), w)
    | (.ok true, w) => (.ok p, w)
    | (.ok false, w) => fs.firstDirectory root rest w

def FileSystem.nearest (fs : FileSystem World) (root : Path) (w : World) :
    Except Failure Path × World :=
  fs.firstDirectory root root.ancestors w

/-- The nearest directories of all the roots. The first failure ends the search. -/
def FileSystem.nearestAll (fs : FileSystem World) :
    List Path → World → Except Failure (List Path) × World
  | [], w => (.ok [], w)
  | root :: rest, w =>
    match fs.nearest root w with
    | (.error e, w) => (.error e, w)
    | (.ok p, w) =>
      match fs.nearestAll rest w with
      | (.error e, w) => (.error e, w)
      | (.ok ps, w) => (.ok (p :: ps), w)

/-- Merges a request, with its roots made absolute. A failure leaves no trace in the registry. -/
def Registry.register (fs : FileSystem World) (policy : Policy) (registry : Registry)
    (request : Request) (w : World) : Except Failure (Registry × Update) × World :=
  match request.absolute fs.workingDirectory with
  | .error e => (.error e, w)
  | .ok request =>
    match fs.nearestAll request.roots w with
    | (.error e, w) => (.error e, w)
    | (.ok nearest, w) => (.ok (registry.merge policy request nearest), w)

end DirectoryWatch
