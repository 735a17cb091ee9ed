import DirectoryWatch.FileSystem.Listing
import DirectoryWatch.Proofs.Registry.Points
import DirectoryWatch.Proofs.Request.Absolute
import DirectoryWatch.Registry.Timeline
import Mathlib

/-!
# What holds of every state of a registry

Whatever was registered, kept and put back, every requested root lies at or below a watch point,
and every watch point is an absolute path that leads to a requested root.
-/
namespace DirectoryWatch.Registry

variable {World : Type} {fs : FileSystem World} {policy : Policy}

structure Version.Sound (workingDirectory : Path) (policy : Policy) (v : Version) : Prop where
  merged : ∀ request ∈ v.merged, ∃ absolute, request.absolute workingDirectory = .ok absolute ∧
    ∀ root ∈ absolute.allRoots, root.coveredBy v.registry.watchPoints.toList = true
  requested : ∀ root ∈ v.registry.requestedRoots.toList,
    root.coveredBy v.registry.watchPoints.toList = true
  leads : ∀ p ∈ v.registry.watchPoints.toList,
    p.isAbsolute = true ∧ p.leadsTo v.registry.requestedRoots.toList = true
  apart : policy = .collapse → ∀ p ∈ v.registry.watchPoints.toList,
    ∀ q ∈ v.registry.watchPoints.toList, p.below q = false

theorem sound_start (workingDirectory : Path) (policy : Policy) :
    Version.Sound workingDirectory policy ⟨∅, [], []⟩ := by
  refine ⟨by simp, ?_, ?_, ?_⟩
  · intro root hroot
    cases hroot
  · intro p hp
    cases hp
  · intro _ p hp
    cases hp

namespace Version.Sound

variable {v : Version}

theorem register (hv : v.Sound fs.workingDirectory policy)
    (hwd : fs.workingDirectory.isAbsolute = true) {request : Request} {registry : Registry}
    {update : Update} {w w' : World}
    (h : v.registry.register fs policy request w = (.ok (registry, update), w')) :
    Version.Sound fs.workingDirectory policy
      ⟨registry, v.merged ++ [request], v.updates ++ [update]⟩ := by
  obtain ⟨absolute, nearest, habsolute, hnearest, hresolved, hmerges⟩ := merges_of_register h
  have hgrows {p : Path} (hp : p.coveredBy v.registry.watchPoints.toList = true) :
      p.coveredBy registry.watchPoints.toList = true := by
    rw [hmerges.coveredBy_eq hresolved, hp, Bool.true_or]
  have hrequest {root : Path} (hroot : root ∈ absolute.allRoots) :
      root.coveredBy registry.watchPoints.toList = true :=
    hmerges.coveredBy_watchPoints hresolved hroot
  have hroots := hmerges.requestedRoots_eq
  refine ⟨?_, ?_, ?_, ?_⟩
  · intro other hother
    rcases List.mem_append.1 hother with hother | hother
    · obtain ⟨form, hform, hcovered⟩ := hv.merged other hother
      exact ⟨form, hform, fun root hroot => hgrows (hcovered root hroot)⟩
    · rw [List.mem_singleton.1 hother]
      exact ⟨absolute, habsolute, fun root hroot => hrequest hroot⟩
  · exact fun root hroot => hmerges.coveredBy_of_mem_requestedRoots hresolved hv.requested hroot
  · intro p hp
    simp only [hroots, PathSet.leadsTo_insertAll, Bool.or_eq_true]
    rcases hmerges.mem_watchPoints hp with hp | hp
    · obtain ⟨habs, hleads⟩ := hv.leads p hp
      exact ⟨habs, .inl hleads⟩
    · have habs := FileSystem.isAbsolute_of_mem_nearestAll hnearest (fun root hroot =>
        Request.isAbsolute_of_mem_allRoots hwd habsolute (Path.mem_of_mem_topmost hroot)) hp
      exact ⟨habs, .inr (hresolved.leadsTo hp)⟩
  · rintro rfl
    exact Path.apart_iff_below.1 (hmerges.apart (Path.apart_iff_below.2 (hv.apart rfl)))

end Version.Sound

def Timeline.AllSound (workingDirectory : Path) (policy : Policy) (t : Timeline World) : Prop :=
  ∀ v ∈ t.current :: t.saved, v.Sound workingDirectory policy

variable (fs policy)

theorem allSound_run (hwd : fs.workingDirectory.isAbsolute = true) (moves : List (Move World))
    (w : World) : (run fs policy moves w).AllSound fs.workingDirectory policy :=
  forall_run (sound_start fs.workingDirectory policy)
    (fun _ _ _ _ _ _ h hregister => h.register hwd hregister) moves w

/-- Every state of a registry is sound, and a registration keeps its watch points as the policy
promises. -/
theorem sound_run (hwd : fs.workingDirectory.isAbsolute = true) (moves : List (Move World))
    (w : World) :
    let v := (run fs policy moves w).current
    v.Sound fs.workingDirectory policy ∧
      ∀ request w₁ registry update w₂,
        v.registry.register fs policy request w₁ = (.ok (registry, update), w₂) →
          policy.Retains v.registry.watchPoints registry.watchPoints := by
  refine ⟨allSound_run fs policy hwd moves w _ (by simp), ?_⟩
  intro request w₁ registry update w₂ h
  obtain ⟨absolute, nearest, -, -, hresolved, hmerges⟩ := merges_of_register h
  exact hmerges.retains hresolved

/-- `/x` stands in for `/x/a` until the state before is put back; by then `/x/a` exists. -/
def putBack : List (Move Listing) :=
  [.register (.ofRoots [Path.ofString "/x/b/c"]), .save,
    .register (.ofRoots [Path.ofString "/x/a"]), .restore 0,
    .meanwhile fun l => l.addDirectory (Path.ofString "/x/a"),
    .register (.ofRoots [Path.ofString "/x/a"])]

theorem sound_run_putBack :
    (Path.ofString "/").isAbsolute = true ∧
      let v := (run (Listing.fileSystem (Path.ofString "/")) .collapse putBack
        (.build [.directory (Path.ofString "/x/b")])).current
      v.merged.length = 2 ∧
        v.registry.watchPoints.toList = [Path.ofString "/x/a", Path.ofString "/x/b"] ∧
        v.Sound (Path.ofString "/") .collapse ∧
        ∀ request w₁ registry update w₂,
          v.registry.register (Listing.fileSystem (Path.ofString "/")) .collapse request w₁ =
              (.ok (registry, update), w₂) →
            Policy.Retains .collapse v.registry.watchPoints registry.watchPoints := by
  refine ⟨by decide, by cbv, by cbv, ?_⟩
  exact sound_run (Listing.fileSystem (Path.ofString "/")) .collapse (by decide) putBack
    (.build [.directory (Path.ofString "/x/b")])

end DirectoryWatch.Registry
