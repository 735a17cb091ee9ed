import DirectoryWatch.Failure
import DirectoryWatch.Path.Absolute
import DirectoryWatch.Path.Coverage
import DirectoryWatch.Request.Tree

/-!
# Requests

One request to watch: plain roots, each of which covers itself and everything below it, and
filtered trees. Requests are united by putting their parts one after the other.
-/
namespace DirectoryWatch

structure Request where
  plain : List Path
  trees : List Tree

namespace Request

def empty : Request := ⟨[], []⟩

instance : EmptyCollection Request := ⟨empty⟩

instance : Inhabited Request := ⟨∅⟩

def ofRoots (roots : List Path) : Request := ⟨roots, []⟩

def addRoot (r : Request) (root : Path) : Request := { r with plain := r.plain ++ [root] }

def addTree (r : Request) (tree : Tree) : Request := { r with trees := r.trees ++ [tree] }

def union (r s : Request) : Request := ⟨r.plain ++ s.plain, r.trees ++ s.trees⟩

instance : Union Request := ⟨union⟩

def isEmpty (r : Request) : Bool := r.plain.isEmpty && r.trees.isEmpty

/-- Every root of the request, those of its trees included, as they were given. -/
def allRoots (r : Request) : List Path := r.plain ++ r.trees.map Tree.root

def roots (r : Request) : List Path := Path.topmost r.allRoots

def unfiltered (r : Request) : Request := ofRoots r.roots

def contains (r : Request) (p : Path) : Bool :=
  p.coveredBy r.plain || r.trees.any fun tree => tree.contains p

/-- The absolute form of a root. An absolute root is left as it is spelled. -/
def absoluteRoot (workingDirectory root : Path) : Except Failure Path :=
  if root.isAbsolute then .ok root
  else match root.absolute? workingDirectory with
    | some p => .ok p
    | none => .error (.unresolvedRoot root IoError.emptyPath.message)

/-- The request with every root made absolute. The filters stay. -/
def absolute (workingDirectory : Path) (r : Request) : Except Failure Request := do
  let plain ← r.plain.mapM (absoluteRoot workingDirectory)
  let trees ← r.trees.mapM fun tree =>
    return tree.withRoot (← absoluteRoot workingDirectory tree.root)
  return ⟨plain, trees⟩

theorem contains_union (r s : Request) (p : Path) :
    (r ∪ s).contains p = (r.contains p || s.contains p) := by
  change contains ⟨r.plain ++ s.plain, r.trees ++ s.trees⟩ p = _
  simp only [contains, Path.coveredBy, List.any_append]
  ac_rfl

end Request

end DirectoryWatch
