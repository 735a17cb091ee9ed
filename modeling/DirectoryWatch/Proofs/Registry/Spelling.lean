import DirectoryWatch.Proofs.FileSystem.Spelling
import DirectoryWatch.Proofs.Registry.Needs
import DirectoryWatch.Proofs.Request.Filters

/-!
# Registering under other spellings

On a file system that ignores spelling, requests that cover the same region are registered alike:
both fail, or both lead to the same watch points, and to the same decisions.
-/
namespace DirectoryWatch

variable {World : Type} {alike : World → World → Prop}

/-- The same roots and watch points, and the same decision about every path. -/
structure Update.Resembles (u v : Update) : Prop where
  newRoots : Path.AllSame u.newRoots v.newRoots
  newPoints : Path.AllSame u.newPoints v.newPoints
  subsumed : Path.AllSame u.subsumed v.subsumed
  requestedRoots : ∀ p, u.requestedRoots.contains p = v.requestedRoots.contains p
  watchPoints : ∀ p, u.watchPoints.contains p = v.watchPoints.contains p
  needsWatch : ∀ p q : Path, p.Same q → u.needsWatch p = v.needsWatch q

theorem Update.resembles_of_points {u v : Update} (hroots : Path.AllSame u.newRoots v.newRoots)
    (hnew : Path.AllSame u.newPoints v.newPoints)
    (hsubsumed : Path.AllSame u.subsumed v.subsumed)
    (hrequested : ∀ p, u.requestedRoots.contains p = v.requestedRoots.contains p)
    (hpoints : ∀ p, u.watchPoints.contains p = v.watchPoints.contains p) : u.Resembles v := by
  refine ⟨hroots, hnew, hsubsumed, hrequested, hpoints, fun p q hpq => ?_⟩
  rw [Update.needsWatch, Update.needsWatch, hroots.coveredBy hpq, hroots.leadsTo hpq,
    (PathSet.allSame_toList hrequested).strictlyLeadsTo hpq,
    (PathSet.allSame_toList hpoints).strictlyLeadsTo hpq]

namespace Path.AllSame

variable {xs ys roots roots' : List Path}

theorem fresh (h : AllSame xs ys) {s t : PathSet} (hst : ∀ p, s.contains p = t.contains p) :
    AllSame (Registry.fresh xs s) (Registry.fresh ys t) :=
  h.filter fun p q hpq => by rw [s.contains_congr hpq, hst]

theorem candidates (h : AllSame roots roots') (hxy : AllSame xs ys) :
    AllSame (Registry.candidates roots xs) (Registry.candidates roots' ys) :=
  hxy.topmost.filter fun p q hpq => by rw [h.coveredBy hpq, h.leadsTo hpq]

end Path.AllSame

namespace Registry

/-- The same watch points and the same decisions, on requests that cover the same region, the
second ones without filters. -/
structure Resembles (registry flat : Registry) : Prop where
  requests : registry.requests.Flattens flat.requests
  requestedRoots : ∀ p, registry.requestedRoots.contains p = flat.requestedRoots.contains p
  watchPoints : ∀ p, registry.watchPoints.contains p = flat.watchPoints.contains p

namespace Resembles

variable {registry flat : Registry}

theorem needsWatch (h : registry.Resembles flat) {p q : Path} (hpq : p.Same q) :
    registry.needsWatch p = flat.needsWatch q := by
  have hroots := h.requests.allSame_roots
  have hrequested := PathSet.allSame_toList h.requestedRoots
  have hpoints := PathSet.allSame_toList h.watchPoints
  simp only [Registry.needsWatch, Request.unfiltered, Request.ofRoots, Request.contains,
    List.any_nil, Bool.or_false]
  rw [hroots.coveredBy hpq, hroots.leadsTo hpq, hrequested.leadsTo hpq, hpoints.leadsTo hpq]

theorem reports (h : registry.Resembles flat) {p : Path} (hp : registry.reports p = true) :
    flat.reports p = true :=
  h.requests.contains hp

theorem merge (h : registry.Resembles flat) (policy : Policy) {request request' : Request}
    (hrequest : request.Flattens request') {nearest nearest' : List Path}
    (hnearest : Path.AllSame nearest nearest') :
    (registry.merge policy request nearest).1.Resembles (flat.merge policy request' nearest').1 ∧
      (registry.merge policy request nearest).2.Resembles
        (flat.merge policy request' nearest').2 := by
  have hroots := hrequest.allSame_roots
  have hcandidates := hroots.candidates hnearest
  have hpoints := PathSet.allSame_toList h.watchPoints
  have hrequested := PathSet.contains_insertAll_congr h.requestedRoots hroots
  have hunwatched : registry.watchPoints.isEmpty = flat.watchPoints.isEmpty := hpoints.isEmpty
  cases hempty : request'.roots.isEmpty with
  | true =>
    simp only [Registry.merge, hroots.isEmpty, hempty, if_true]
    exact ⟨h, Update.resembles_of_points .nil .nil .nil h.requestedRoots h.watchPoints⟩
  | false =>
    cases hflat : flat.watchPoints.isEmpty with
    | true =>
      have hnew := PathSet.contains_ofList_congr hcandidates
      simp only [Registry.merge, hroots.isEmpty, hempty, hunwatched, hflat, if_true,
        Bool.false_eq_true, if_false]
      exact ⟨⟨hrequest, hrequested, hnew⟩,
        Update.resembles_of_points hroots hcandidates .nil hrequested hnew⟩
    | false =>
      have hunion := h.requests.union hrequest
      simp only [Registry.merge, hroots.isEmpty, hempty, hunwatched, hflat, Bool.false_eq_true,
        if_false]
      cases policy with
      | append =>
        have hfresh := hcandidates.fresh h.watchPoints
        have hnew := PathSet.contains_insertAll_congr h.watchPoints hfresh
        exact ⟨⟨hunion, hrequested, hnew⟩,
          Update.resembles_of_points hroots hfresh .nil hrequested hnew⟩
      | collapse =>
        have hmerged := (hpoints.append hcandidates).topmost
        have hnew := PathSet.contains_ofList_congr hmerged
        exact ⟨⟨hunion, hrequested, hnew⟩, Update.resembles_of_points hroots
          (hmerged.fresh h.watchPoints) (hpoints.fresh hnew) hrequested hnew⟩

theorem register {fs : FileSystem World} (hfs : fs.IgnoresSpelling alike)
    (h : registry.Resembles flat) (policy : Policy) (request : Request) {w w' : World}
    (hw : alike w w') :
    Alongside (fun merged merged' => merged.1.Resembles merged'.1 ∧ merged.2.Resembles merged'.2)
      alike (registry.register fs policy request w)
      (flat.register fs policy request.unfiltered w') := by
  have habsolute := Request.agree_absolute_unfiltered fs.workingDirectory request
  rw [Registry.register, Registry.register]
  generalize request.absolute _ = x at habsolute ⊢
  generalize request.unfiltered.absolute _ = y at habsolute ⊢
  cases habsolute with
  | error => exact .error hw
  | ok hrequest =>
    have hnearest := hfs.nearestAll hrequest.allSame_roots hw
    dsimp only
    generalize fs.nearestAll _ w = x at hnearest ⊢
    generalize fs.nearestAll _ w' = y at hnearest ⊢
    cases hnearest with
    | error hw => exact .error hw
    | ok hnearest hw => exact .ok (h.merge policy hrequest hnearest) hw

end Resembles

end Registry

end DirectoryWatch
