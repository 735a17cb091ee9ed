import DirectoryWatch.FileSystem.Listing
import DirectoryWatch.Proofs.Registry.Needs
import DirectoryWatch.Proofs.Registry.Points
import DirectoryWatch.Proofs.Request.Filters
import DirectoryWatch.Registry.Timeline

/-!
# What a registry keeps of its requests

A registry keeps the requests in three forms: their union, the roots requested so far and the watch
points. In every state the first two cover the same region and the watch points cover it too, so
what needs a watch can be told from the requested roots and the watch points alone.
-/
namespace DirectoryWatch

theorem Path.coveredBy_or_leadsTo_congr {xs ys : List Path}
    (h : ∀ p : Path, p.coveredBy xs = p.coveredBy ys) (p : Path) :
    (p.coveredBy xs || p.leadsTo xs) = (p.coveredBy ys || p.leadsTo ys) := by
  have htopmost := allSame_topmost h
  rw [← coveredBy_or_leadsTo_topmost p xs, ← coveredBy_or_leadsTo_topmost p ys,
    htopmost.coveredBy (.refl p), htopmost.leadsTo (.refl p)]

namespace Registry

structure Coherent (registry : Registry) : Prop where
  requested : ∀ p : Path, p.coveredBy registry.requestedRoots.toList =
    p.coveredBy registry.requests.allRoots
  watched : ∀ root ∈ registry.requests.allRoots,
    root.coveredBy registry.watchPoints.toList = true

theorem coherent_empty : Coherent ∅ := by
  refine ⟨fun p => rfl, fun root hroot => ?_⟩
  cases hroot

namespace Coherent

variable {registry : Registry} {policy : Policy} {request : Request} {nearest : List Path}
  {after : Registry} {update : Update}

theorem requests_eq_empty (h : registry.Coherent)
    (hpoints : registry.watchPoints.isEmpty = true) : registry.requests = ∅ := by
  refine Request.eq_empty_of_allRoots (List.eq_nil_iff_forall_not_mem.2 fun root hroot => ?_)
  have hcovered := h.watched root hroot
  rw [List.isEmpty_iff.1 hpoints] at hcovered
  cases hcovered

theorem merge (h : registry.Coherent) (hresolved : Resolved request.roots nearest)
    (hmerges : Merges policy registry request nearest after update) : after.Coherent := by
  have hrequests := hmerges.requests_eq h.requests_eq_empty
  refine ⟨fun p => ?_, fun root hroot => ?_⟩
  · rw [hrequests, Request.coveredBy_union, hmerges.requestedRoots_eq, PathSet.coveredBy_insertAll,
      h.requested, Request.roots, Path.coveredBy_topmost]
  · rw [hrequests] at hroot
    rcases (Request.mem_allRoots_union registry.requests request root).1 hroot with hroot | hroot
    · rw [hmerges.coveredBy_eq hresolved, h.watched root hroot, Bool.true_or]
    · exact hmerges.coveredBy_watchPoints hresolved hroot

theorem register {World : Type} {fs : FileSystem World} {w w' : World} (h : registry.Coherent)
    (hregister : registry.register fs policy request w = (.ok (after, update), w')) :
    after.Coherent := by
  obtain ⟨absolute, nearest, -, -, hresolved, hmerges⟩ := merges_of_register hregister
  exact h.merge hresolved hmerges

/-- The roots requested so far add nothing to those of the requests. -/
theorem needsWatch_eq_requests (h : registry.Coherent) (d : Path) :
    registry.needsWatch d =
      ((d.coveredBy registry.requests.allRoots || d.leadsTo registry.requests.allRoots) &&
        !d.leadsTo registry.watchPoints.toList) := by
  rw [needsWatch_eq_allRoots, ← Path.coveredBy_or_leadsTo_congr h.requested, Bool.or_assoc,
    Bool.or_self]

/-- The roots requested so far stand for the union of the requests. -/
theorem needsWatch_eq (h : registry.Coherent) (d : Path) :
    registry.needsWatch d =
      ((d.coveredBy registry.requestedRoots.toList || d.leadsTo registry.requestedRoots.toList) &&
        !d.leadsTo registry.watchPoints.toList) := by
  rw [h.needsWatch_eq_requests, Path.coveredBy_or_leadsTo_congr h.requested]

theorem needsWatch_iff (h : registry.Coherent) (d : Path) :
    registry.needsWatch d = true ↔
      (∃ root ∈ registry.requestedRoots.toList,
        d.atOrBelow root = true ∨ root.atOrBelow d = true) ∧
      ∀ p ∈ registry.watchPoints.toList, p.atOrBelow d = false := by
  have hclear : (!d.leadsTo registry.watchPoints.toList) = true ↔
      ∀ p ∈ registry.watchPoints.toList, p.atOrBelow d = false := by
    simp [Path.leadsTo]
  rw [h.needsWatch_eq, Bool.and_eq_true, hclear, Bool.or_eq_true, Path.coveredBy_iff,
    Path.leadsTo_iff, ← exists_or]
  simp only [and_or_left]

/-- A directory that leads to something reported has to do with a requested root. -/
theorem exists_requestedRoot (h : registry.Coherent) {p d : Path}
    (hp : registry.reports p = true) (hpd : p.atOrBelow d = true) :
    ∃ root ∈ registry.requestedRoots.toList,
      d.atOrBelow root = true ∨ root.atOrBelow d = true := by
  have hcovered := Request.coveredBy_of_contains hp
  rw [← h.requested] at hcovered
  obtain ⟨root, hroot, hpRoot⟩ := Path.coveredBy_iff.1 hcovered
  exact ⟨root, hroot, Path.atOrBelow_or_atOrBelow hpd hpRoot⟩

end Coherent

variable {World : Type}

theorem coherent_run (fs : FileSystem World) (policy : Policy) (moves : List (Move World))
    (w : World) : (run fs policy moves w).current.registry.Coherent :=
  forall_run (P := fun v => v.registry.Coherent) coherent_empty
    (fun _ _ _ _ _ _ h hregister => h.register hregister) moves w _ (List.mem_cons_self ..)

/-- A directory needs a watch exactly when it lies at or below a requested root or leads to one and
leads to no watch point. So nothing else keeps a directory on the way to what is reported from
being watched. -/
theorem needsWatch_run_iff (fs : FileSystem World) (policy : Policy) (moves : List (Move World))
    (w : World) :
    let registry := (run fs policy moves w).current.registry
    (∀ d, registry.needsWatch d = true ↔
      (∃ root ∈ registry.requestedRoots.toList,
        d.atOrBelow root = true ∨ root.atOrBelow d = true) ∧
      ∀ p ∈ registry.watchPoints.toList, p.atOrBelow d = false) ∧
    ∀ p d : Path, registry.reports p = true → p.atOrBelow d = true →
      registry.needsWatch d = true ∨
        ∃ q ∈ registry.watchPoints.toList, q.atOrBelow d = true := by
  intro registry
  have hcoherent : registry.Coherent := coherent_run fs policy moves w
  refine ⟨hcoherent.needsWatch_iff, fun p d hp hpd => ?_⟩
  by_cases hclear : ∀ q ∈ registry.watchPoints.toList, q.atOrBelow d = false
  · exact .inl ((hcoherent.needsWatch_iff d).2 ⟨hcoherent.exists_requestedRoot hp hpd, hclear⟩)
  · right
    simpa using hclear

/-- `/x` stands in for `/x/a/b`. When `/x/a` appears, it needs a watch of its own. -/
theorem needsWatch_run_iff_standIn :
    let registry := (run (Listing.fileSystem (Path.ofString "/")) .collapse
      [.register (.ofRoots [Path.ofString "/x/a/b"])]
      (.build [.directory (Path.ofString "/x")])).current.registry
    registry.watchPoints.toList = [Path.ofString "/x"] ∧
      registry.reports (Path.ofString "/x/a/b/c") = true ∧
      (Path.ofString "/x/a/b/c").atOrBelow (Path.ofString "/x/a") = true ∧
      (registry.needsWatch (Path.ofString "/x/a") = true ∨
        ∃ q ∈ registry.watchPoints.toList, q.atOrBelow (Path.ofString "/x/a") = true) ∧
      registry.needsWatch (Path.ofString "/x/a") = true ∧
      registry.needsWatch (Path.ofString "/x") = false := by
  refine ⟨by cbv, by cbv, by cbv, ?_, by cbv, by cbv⟩
  exact (needsWatch_run_iff _ _ _ _).2 (Path.ofString "/x/a/b/c") (Path.ofString "/x/a") (by cbv)
    (by cbv)

end Registry

end DirectoryWatch
