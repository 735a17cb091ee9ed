import DirectoryWatch.Proofs.Registry.Needs
import DirectoryWatch.Proofs.Registry.Points
import DirectoryWatch.Proofs.Request.Union

/-!
# Where the roots of a registry come from

Every root that a registry knows is an absolute root of a request that it was given. So whatever
needs a watch, in its eyes or in those of an update, has to do with one of these.
-/
namespace DirectoryWatch

namespace Request

variable {workingDirectory p : Path} {requests others : List Request}

/-- A root of one of the requests, made absolute. -/
def Named (workingDirectory : Path) (requests : List Request) (root : Path) : Prop :=
  ∃ request ∈ requests, ∃ absolute, request.absolute workingDirectory = .ok absolute ∧
    root ∈ absolute.allRoots

/-- The path lies at or below an absolute root of one of the requests, or leads to one. -/
def Touched (workingDirectory : Path) (requests : List Request) (p : Path) : Prop :=
  ∃ root, Named workingDirectory requests root ∧
    (p.atOrBelow root = true ∨ root.atOrBelow p = true)

theorem Named.mono (hsub : requests ⊆ others) {root : Path}
    (h : Named workingDirectory requests root) : Named workingDirectory others root := by
  obtain ⟨request, hrequest, h⟩ := h
  exact ⟨request, hsub hrequest, h⟩

theorem touched_of_coveredBy {roots : List Path}
    (hroots : ∀ root ∈ roots, Named workingDirectory requests root)
    (h : p.coveredBy roots = true) : Touched workingDirectory requests p := by
  obtain ⟨root, hroot, hp⟩ := Path.coveredBy_iff.1 h
  exact ⟨root, hroots root hroot, .inl hp⟩

theorem touched_of_leadsTo {roots : List Path}
    (hroots : ∀ root ∈ roots, Named workingDirectory requests root)
    (h : p.leadsTo roots = true) : Touched workingDirectory requests p := by
  obtain ⟨root, hroot, hp⟩ := Path.leadsTo_iff.1 h
  exact ⟨root, hroots root hroot, .inr hp⟩

theorem Touched.of_same {q : Path} (h : Touched workingDirectory requests p) (hqp : q.Same p) :
    Touched workingDirectory requests q := by
  obtain ⟨root, hroot, hp⟩ := h
  exact ⟨root, hroot, by rwa [hqp.atOrBelow_congr, hqp.atOrBelow_congr_right]⟩

end Request

namespace Registry

open Request (Named Touched)

/-- Every root that the registry knows is a root of one of the requests. -/
structure StemsFrom (workingDirectory : Path) (requests : List Request) (registry : Registry) :
    Prop where
  combined : ∀ root ∈ registry.requests.allRoots, Named workingDirectory requests root
  requested : ∀ root ∈ registry.requestedRoots.toList, Named workingDirectory requests root

theorem Merges.mem_allRoots {policy : Policy} {prior registry : Registry} {request : Request}
    {nearest : List Path} {update : Update}
    (h : Merges policy prior request nearest registry update) {root : Path}
    (hroot : root ∈ registry.requests.allRoots) :
    root ∈ prior.requests.allRoots ∨ root ∈ request.allRoots := by
  cases h with
  | unchanged => exact .inl hroot
  | first => exact .inr hroot
  | append => exact (Request.mem_allRoots_union prior.requests request root).1 hroot
  | collapse => exact (Request.mem_allRoots_union prior.requests request root).1 hroot

variable {workingDirectory d : Path} {requests others : List Request} {registry : Registry}

theorem stemsFrom_empty (workingDirectory : Path) : StemsFrom workingDirectory [] ∅ := by
  refine ⟨?_, ?_⟩ <;> intro root hroot <;> cases hroot

namespace StemsFrom

theorem mono (h : registry.StemsFrom workingDirectory requests) (hsub : requests ⊆ others) :
    registry.StemsFrom workingDirectory others :=
  ⟨fun root hroot => (h.combined root hroot).mono hsub,
    fun root hroot => (h.requested root hroot).mono hsub⟩

theorem touched (h : registry.StemsFrom workingDirectory requests)
    (hd : registry.needsWatch d = true) : Touched workingDirectory requests d := by
  rw [needsWatch_eq_allRoots, Bool.and_eq_true, Bool.or_eq_true, Bool.or_eq_true] at hd
  rcases hd.1 with (hd | hd) | hd
  · exact Request.touched_of_coveredBy h.combined hd
  · exact Request.touched_of_leadsTo h.combined hd
  · exact Request.touched_of_leadsTo h.requested hd

variable {World : Type} {fs : FileSystem World} {policy : Policy} {request : Request}
  {after : Registry} {update : Update} {w w' : World}

theorem named_of_mem_absolute {absolute : Request}
    (habsolute : request.absolute workingDirectory = .ok absolute) {root : Path}
    (hroot : root ∈ absolute.allRoots) : Named workingDirectory (requests ++ [request]) root :=
  ⟨request, by simp, absolute, habsolute, hroot⟩

theorem register (h : registry.StemsFrom fs.workingDirectory requests)
    (hregister : registry.register fs policy request w = (.ok (after, update), w')) :
    after.StemsFrom fs.workingDirectory (requests ++ [request]) := by
  obtain ⟨absolute, nearest, habsolute, -, -, hmerges⟩ := merges_of_register hregister
  have hsub : requests ⊆ requests ++ [request] := List.subset_append_left _ _
  refine ⟨fun root hroot => ?_, fun root hroot => ?_⟩
  · rcases hmerges.mem_allRoots hroot with hroot | hroot
    · exact (h.combined root hroot).mono hsub
    · exact named_of_mem_absolute habsolute hroot
  · rw [hmerges.requestedRoots_eq] at hroot
    rcases PathSet.mem_insertAll hroot with hroot | hroot
    · exact (h.requested root hroot).mono hsub
    · exact named_of_mem_absolute habsolute (Path.mem_of_mem_topmost hroot)

theorem touched_of_update (h : registry.StemsFrom fs.workingDirectory requests)
    (hregister : registry.register fs policy request w = (.ok (after, update), w'))
    (hd : d ∈ update.newPoints ∨ update.needsWatch d = true) :
    Touched fs.workingDirectory (requests ++ [request]) d := by
  obtain ⟨absolute, nearest, habsolute, -, hresolved, hmerges⟩ := merges_of_register hregister
  have hnew : ∀ root ∈ update.newRoots,
      Named fs.workingDirectory (requests ++ [request]) root := by
    intro root hroot
    rw [hmerges.newRoots] at hroot
    exact named_of_mem_absolute habsolute (Path.mem_of_mem_topmost hroot)
  rcases hd with hd | hd
  · have hleads := hresolved.leadsTo (hmerges.mem_nearest hd)
    rw [← hmerges.newRoots] at hleads
    exact Request.touched_of_leadsTo hnew hleads
  · rcases (Update.needsWatch_iff.1 hd).1 with hd | hd | hd
    · exact Request.touched_of_coveredBy hnew hd
    · exact Request.touched_of_leadsTo hnew hd
    · obtain ⟨root, hroot, hd⟩ := Path.strictlyLeadsTo_iff.1 hd
      rw [hmerges.requestedRoots] at hroot
      exact ⟨root, (h.register hregister).requested root hroot, .inr (Path.atOrBelow_of_below hd)⟩

end StemsFrom

end Registry

end DirectoryWatch
