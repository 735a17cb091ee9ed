import DirectoryWatch.Policy
import DirectoryWatch.Registry.Update
import DirectoryWatch.Request.Basic

/-!
# The registry

The registry knows everything requested so far and the watch points that stand for it. A request
is merged with the nearest existing directory of each of its roots.
-/
namespace DirectoryWatch

structure Registry where
  /-- The union of all requests, filters included. -/
  requests : Request
  requestedRoots : PathSet
  watchPoints : PathSet

namespace Registry

def empty : Registry := ⟨∅, ∅, ∅⟩

instance : EmptyCollection Registry := ⟨empty⟩

instance : Inhabited Registry := ⟨∅⟩

/-- Whether a change at `p` is one that somebody asked for. -/
def reports (registry : Registry) (p : Path) : Bool := registry.requests.contains p

/-- A directory found outside of any update needs a watch when it lies at or below a requested root
or leads to one, unless it is a watch point or leads to one. -/
def needsWatch (registry : Registry) (directory : Path) : Bool :=
  let covered := registry.requests.unfiltered
  (covered.contains directory || directory.leadsTo covered.plain ||
      directory.leadsTo registry.requestedRoots.toList) &&
    !directory.leadsTo registry.watchPoints.toList

/-- The watch points that a request asks for: the topmost of the directories nearest to its roots,
as far as they have to do with one of the roots. -/
def candidates (newRoots nearest : List Path) : List Path :=
  (Path.topmost nearest).filter fun directory =>
    directory.coveredBy newRoots || directory.leadsTo newRoots

def fresh (paths : List Path) (existing : PathSet) : List Path :=
  paths.filter fun p => !existing.contains p

/-- Merges a request whose roots have the nearest existing directories `nearest`. A request without
roots changes nothing. Where nothing is watched yet, the request stands alone. -/
def merge (policy : Policy) (prior : Registry) (request : Request) (nearest : List Path) :
    Registry × Update :=
  let newRoots := request.roots
  if newRoots.isEmpty then
    (prior, ⟨[], [], [], prior.requestedRoots, prior.watchPoints⟩)
  else
    let requestedRoots := prior.requestedRoots.insertAll newRoots
    let candidates := candidates newRoots nearest
    if prior.watchPoints.isEmpty then
      let points := PathSet.ofList candidates
      (⟨request, requestedRoots, points⟩, ⟨newRoots, candidates, [], requestedRoots, points⟩)
    else
      let requests := prior.requests ∪ request
      match policy with
      | .append =>
        let newPoints := fresh candidates prior.watchPoints
        let points := prior.watchPoints.insertAll newPoints
        (⟨requests, requestedRoots, points⟩, ⟨newRoots, newPoints, [], requestedRoots, points⟩)
      | .collapse =>
        let merged := Path.topmost (prior.watchPoints.toList ++ candidates)
        let points := PathSet.ofList merged
        let subsumed := fresh prior.watchPoints.toList points
        let newPoints := fresh merged prior.watchPoints
        (⟨requests, requestedRoots, points⟩,
          ⟨newRoots, newPoints, subsumed, requestedRoots, points⟩)

end Registry

end DirectoryWatch
