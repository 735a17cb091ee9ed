import DirectoryWatch.Proofs.Registry.Coherent

/-!
# Scopes

Whether a directory needs a watch is decided in two places. While the directories below new watch
points are walked, the update decides; of a directory that turns up later, the registry does. Right
after a registration the two agree but for the watch points themselves and for what lies at or below
earlier roots and has nothing to do with the request.
-/
namespace DirectoryWatch

theorem PathSet.leadsTo_eq (s : PathSet) (d : Path) :
    d.leadsTo s.toList = (s.contains d || d.strictlyLeadsTo s.toList) := by
  rw [Bool.eq_iff_iff, Bool.or_eq_true, contains_iff, Path.leadsTo_iff, Path.strictlyLeadsTo_iff]
  constructor
  · rintro ⟨q, hq, hqd⟩
    by_cases hsame : q.Same d
    · exact .inl ⟨q, hq, hsame⟩
    · exact .inr ⟨q, hq, Path.below_iff.2 ⟨hsame, hqd⟩⟩
  · rintro (⟨q, hq, hsame⟩ | ⟨q, hq, hbelow⟩)
    · exact ⟨q, hq, hsame.atOrBelow⟩
    · exact ⟨q, hq, Path.atOrBelow_of_below hbelow⟩

namespace Request

def Concerns (r : Request) (d : Path) : Prop :=
  ∃ root ∈ r.allRoots, d.atOrBelow root = true ∨ root.atOrBelow d = true

theorem concerns_iff {r : Request} {d : Path} :
    r.Concerns d ↔ d.coveredBy r.roots = true ∨ d.leadsTo r.roots = true := by
  rw [roots, ← Bool.or_eq_true, Path.coveredBy_or_leadsTo_topmost, Bool.or_eq_true,
    Path.coveredBy_iff, Path.leadsTo_iff, ← exists_or]
  simp only [Concerns, and_or_left]

end Request

namespace Registry

namespace Merges

variable {policy : Policy} {prior registry : Registry} {request : Request} {nearest : List Path}
  {update : Update} {d : Path}

theorem concerns_iff (h : Merges policy prior request nearest registry update) :
    update.Concerns d ↔
      request.Concerns d ∨ d.strictlyLeadsTo registry.requestedRoots.toList = true := by
  rw [Update.Concerns, h.newRoots, h.requestedRoots, Request.concerns_iff, or_assoc]

theorem needsWatch_iff (h : Merges policy prior request nearest registry update) :
    update.needsWatch d = true ↔
      (request.Concerns d ∨ d.strictlyLeadsTo registry.requestedRoots.toList = true) ∧
        d.strictlyLeadsTo registry.watchPoints.toList = false := by
  rw [Update.needsWatch_iff, h.concerns_iff, h.watchPoints]

theorem coveredBy_or_leadsTo_of_concerns
    (h : Merges policy prior request nearest registry update)
    (hd : request.Concerns d) :
    d.coveredBy registry.requestedRoots.toList = true ∨
      d.leadsTo registry.requestedRoots.toList = true := by
  rw [h.requestedRoots_eq, PathSet.coveredBy_insertAll, PathSet.leadsTo_insertAll,
    Bool.or_eq_true, Bool.or_eq_true]
  exact (Request.concerns_iff.1 hd).imp .inr .inr

theorem contains_or_needsWatch (h : Merges policy prior request nearest registry update)
    (hcoherent : registry.Coherent) (hd : update.needsWatch d = true) :
    registry.watchPoints.contains d = true ∨ registry.needsWatch d = true := by
  obtain ⟨hconcerns, hclear⟩ := h.needsWatch_iff.1 hd
  cases hpoint : registry.watchPoints.contains d with
  | true => exact .inl rfl
  | false =>
    right
    rw [hcoherent.needsWatch_eq, PathSet.leadsTo_eq registry.watchPoints, hpoint, hclear,
      Bool.or_self, Bool.not_false, Bool.and_true, Bool.or_eq_true]
    rcases hconcerns with hrequest | hstrict
    · exact h.coveredBy_or_leadsTo_of_concerns hrequest
    · right
      rw [PathSet.leadsTo_eq, hstrict, Bool.or_true]

theorem needsWatch_of_registry (h : Merges policy prior request nearest registry update)
    (hd : registry.needsWatch d = true)
    (hconcerns : request.Concerns d ∨ d.strictlyLeadsTo registry.requestedRoots.toList = true) :
    update.needsWatch d = true := by
  rw [needsWatch_eq_allRoots, PathSet.leadsTo_eq registry.watchPoints, Bool.and_eq_true,
    Bool.not_eq_true', Bool.or_eq_false_iff] at hd
  exact h.needsWatch_iff.2 ⟨hconcerns, hd.2.2⟩

theorem coveredBy_prior (h : Merges policy prior request nearest registry update)
    (hcoherent : registry.Coherent) (hd : registry.needsWatch d = true)
    (hupdate : update.needsWatch d = false) :
    d.coveredBy prior.requestedRoots.toList = true ∧ ¬request.Concerns d := by
  have hapart : ¬(request.Concerns d ∨
      d.strictlyLeadsTo registry.requestedRoots.toList = true) := by
    intro hconcerns
    rw [h.needsWatch_of_registry hd hconcerns] at hupdate
    cases hupdate
  obtain ⟨hrequest, hstrict⟩ := not_or.1 hapart
  have hcovered : d.coveredBy registry.requestedRoots.toList = true := by
    rw [hcoherent.needsWatch_eq, Bool.and_eq_true, Bool.or_eq_true] at hd
    rcases hd.1 with hcovered | hleads
    · exact hcovered
    · rw [PathSet.leadsTo_eq, Bool.eq_false_iff.2 hstrict, Bool.or_false] at hleads
      exact PathSet.coveredBy_of_contains hleads (Path.atOrBelow_refl d)
  refine ⟨?_, hrequest⟩
  rw [h.requestedRoots_eq, PathSet.coveredBy_insertAll, Bool.or_eq_true] at hcovered
  exact hcovered.resolve_right fun hnew => hrequest (Request.concerns_iff.2 (.inl hnew))

end Merges

variable {World : Type}

/-- After each registration that succeeds, the directories that the update wants watched are watch
points or wanted by the registry, and those that the registry wants are wanted by the update as far
as they have to do with the request or lead strictly to a requested root. So the two differ on watch
points and on directories at or below an earlier root that do not concern the request, and nowhere
else. -/
theorem scopes_run (fs : FileSystem World) (policy : Policy) (moves : List (Move World))
    (w : World) :
    let prior := (run fs policy moves w).current.registry
    ∀ request w₁ registry update w₂,
      prior.register fs policy request w₁ = (.ok (registry, update), w₂) →
        ∃ absolute, request.absolute fs.workingDirectory = .ok absolute ∧ ∀ d : Path,
          (update.needsWatch d = true →
            registry.watchPoints.contains d = true ∨ registry.needsWatch d = true) ∧
          (registry.needsWatch d = true →
            absolute.Concerns d ∨ d.strictlyLeadsTo registry.requestedRoots.toList = true →
              update.needsWatch d = true) ∧
          (update.needsWatch d ≠ registry.needsWatch d →
            registry.watchPoints.contains d = true ∨
              d.coveredBy prior.requestedRoots.toList = true ∧ ¬absolute.Concerns d) := by
  intro prior request w₁ registry update w₂ hregister
  obtain ⟨absolute, nearest, habsolute, -, -, hmerges⟩ := merges_of_register hregister
  have hcoherent : registry.Coherent := (coherent_run fs policy moves w).register hregister
  refine ⟨absolute, habsolute, fun d => ⟨?_, ?_, fun hdiffer => ?_⟩⟩
  · exact hmerges.contains_or_needsWatch hcoherent
  · exact hmerges.needsWatch_of_registry
  · cases hupdate : update.needsWatch d with
    | true =>
      have hpoint := hmerges.contains_or_needsWatch hcoherent hupdate
      exact .inl (hpoint.resolve_right fun hneeds => hdiffer (hupdate.trans hneeds.symm))
    | false =>
      rw [hupdate, ne_comm, ne_eq, Bool.not_eq_false] at hdiffer
      exact .inr (hmerges.coveredBy_prior hcoherent hdiffer hupdate)

def siblings : Listing := .build [.directory (Path.ofString "/a"), .directory (Path.ofString "/b")]

def knowingFirst : Registry :=
  (run (Listing.fileSystem (Path.ofString "/")) .collapse
    [.register (.ofRoots [Path.ofString "/a"])] siblings).current.registry

/-- Once `/b` is requested too, only its update wants `/b` itself watched, and only the registry
wants `/a/x`. -/
theorem scopes_run_siblings :
    ∃ registry update w,
      knowingFirst.register (Listing.fileSystem (Path.ofString "/")) .collapse
          (.ofRoots [Path.ofString "/b"]) siblings = (.ok (registry, update), w) ∧
      ["/b", "/b/x", "/a", "/a/x"].map (fun d => update.needsWatch (Path.ofString d)) =
          [true, true, false, false] ∧
      ["/b", "/b/x", "/a", "/a/x"].map (fun d => registry.needsWatch (Path.ofString d)) =
          [false, true, false, true] ∧
      ∃ absolute, (Request.ofRoots [Path.ofString "/b"]).absolute (Path.ofString "/") =
          .ok absolute ∧ ∀ d : Path,
        (update.needsWatch d = true →
          registry.watchPoints.contains d = true ∨ registry.needsWatch d = true) ∧
        (registry.needsWatch d = true →
          absolute.Concerns d ∨ d.strictlyLeadsTo registry.requestedRoots.toList = true →
            update.needsWatch d = true) ∧
        (update.needsWatch d ≠ registry.needsWatch d →
          registry.watchPoints.contains d = true ∨
            d.coveredBy knowingFirst.requestedRoots.toList = true ∧ ¬absolute.Concerns d) := by
  have hanswers : (knowingFirst.register (Listing.fileSystem (Path.ofString "/")) .collapse
      (.ofRoots [Path.ofString "/b"]) siblings).1.toOption.map
        (fun merged =>
          (["/b", "/b/x", "/a", "/a/x"].map fun d => merged.2.needsWatch (Path.ofString d),
            ["/b", "/b/x", "/a", "/a/x"].map fun d => merged.1.needsWatch (Path.ofString d))) =
      some ([true, true, false, false], [false, true, false, true]) := by cbv
  rcases hregister : knowingFirst.register (Listing.fileSystem (Path.ofString "/")) .collapse
    (.ofRoots [Path.ofString "/b"]) siblings with ⟨e | ⟨registry, update⟩, w⟩
  all_goals rw [hregister] at hanswers
  · cases hanswers
  · obtain ⟨hupdate, hregistry⟩ := Prod.mk.inj (Option.some.inj hanswers)
    exact ⟨registry, update, w, rfl, hupdate, hregistry,
      scopes_run (Listing.fileSystem (Path.ofString "/")) .collapse
        [.register (.ofRoots [Path.ofString "/a"])] siblings _ _ _ _ _ hregister⟩

end Registry

end DirectoryWatch
