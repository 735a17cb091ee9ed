import DirectoryWatch.Path.Coverage
import DirectoryWatch.Path.Set

/-!
# Updates

What one registration changed: the watch points that are new and those that a broader one made
needless. An update also decides, while the directories below its new watch points are walked,
which of them need a watch of their own; it decides by the registry as it stood right after the
registration.
-/
namespace DirectoryWatch

structure Update where
  /-- The topmost roots of the request. -/
  newRoots : List Path
  newPoints : List Path
  subsumed : List Path
  /-- Every root requested so far. -/
  requestedRoots : PathSet
  watchPoints : PathSet

namespace Update

def isEmpty (u : Update) : Bool := u.newPoints.isEmpty

/-- A directory needs a watch when it lies at or below a root of this request, leads to one, or
leads strictly to any requested root, unless it leads strictly to a watch point. -/
def needsWatch (u : Update) (directory : Path) : Bool :=
  (directory.coveredBy u.newRoots || directory.leadsTo u.newRoots ||
      directory.strictlyLeadsTo u.requestedRoots.toList) &&
    !directory.strictlyLeadsTo u.watchPoints.toList

end Update

end DirectoryWatch
