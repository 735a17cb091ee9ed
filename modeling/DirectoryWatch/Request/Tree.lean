import DirectoryWatch.Glob.Filter
import DirectoryWatch.Path.Parts
import DirectoryWatch.Text.Utf8

/-!
# Filtered trees

A directory tree narrowed down by a filter. The filter sees a path relative to the root of the
tree, with forward slashes. The root itself always belongs to the tree.
-/
namespace DirectoryWatch

structure Tree where
  root : Path
  filter : Filter

namespace Tree

/-- A relative path as filters see it: as text, with every backslash turned into a slash. -/
def filterText (p : Path) : Bytes :=
  (Bytes.ofString (Text.Utf8.lossy p.bytes)).map fun b => if b = 0x5c then slash else b

def contains (tree : Tree) (p : Path) : Bool :=
  decide (p.Same tree.root) ||
    match p.relativeTo? tree.root with
    | none => false
    | some inner => tree.filter.admits (filterText inner)

def unfiltered (root : Path) : Tree := ⟨root, .admitAll⟩

def withRoot (tree : Tree) (root : Path) : Tree := { tree with root := root }

def ofPatterns (root : Path) (includes excludes : List String) : Except PatternError Tree := do
  return ⟨root, ← Filter.ofPatterns includes excludes⟩

end Tree

end DirectoryWatch
