import DirectoryWatch.FileSystem.Listing
import DirectoryWatch.FileSystem.Scripted
import DirectoryWatch.Proofs.Session.Operations
import DirectoryWatch.Session.Plan

/-!
# Watch points and what is registered

A registration that succeeds has walked from every new watch point, and a walk registers its
start, unless the start is gone when the walk comes to it: that is passed over in silence. It is
the only way in which a watch point can come to stand for nothing.
-/
namespace DirectoryWatch

variable {World : Type}

namespace Session

/-- Every watch point was accepted by the facility. -/
def Bookkept (s : Session) : Prop :=
  ∀ p, s.registry.watchPoints.contains p = true → s.registered.contains p = true

/-- The new watch points that are gone when the walks of a registration come to them. -/
def gone (host : Host World) (s : Session) (request : Request) (w : World) : List Path :=
  match s.registry.register host.toFileSystem s.policy request w with
  | (.error _, _) => []
  | (.ok (_, update), w) => Trail.gone host update.needsWatch update.newPoints (s.trail w)

/-- A registration does not succeed without what is gone, unless that is registered anyway. -/
def MissesNothing (host : Host World) (s : Session) (request : Request) (w : World) : Prop :=
  ∀ done, (s.register host request w).result = .ok done →
    ∀ p ∈ s.gone host request w, (s.register host request w).session.registered.contains p = true

variable {host : Host World}

theorem bookkept_start (policy : Policy) : (start policy).Bookkept := by
  intro p hp
  cases hp

theorem Keeps.bookkept {s s' : Session} (h : s.Keeps s') (hs : s.Bookkept) : s'.Bookkept := by
  intro p hp
  rw [h.registry] at hp
  exact h.grows p (hs p hp)

theorem Registers.gone_eq {s : Session} {request absolute : Request} {w w₁ : World}
    {done : Registration} {nearest : List Path} {t : Trail World}
    (h : Registers host s request w done absolute nearest w₁ t) :
    s.gone host request w =
      Trail.gone host done.update.needsWatch done.update.newPoints (s.trail w₁) := by
  rw [gone, h.register_eq]

theorem bookkept_register_iff {s : Session} {request : Request} {w : World} {done : Registration}
    (h : (s.register host request w).result = .ok done) (hs : s.Bookkept) :
    (s.register host request w).session.Bookkept ↔
      ∀ p ∈ s.gone host request w,
        (s.register host request w).session.registered.contains p = true := by
  obtain ⟨absolute, nearest, w₁, t, hregisters⟩ := registers_of_ok h
  have hmerges := hregisters.merges
  rw [hregisters.gone_eq]
  constructor
  · intro hafter p hp
    exact hafter p (hmerges.contains_of_mem_newPoints (Trail.mem_of_mem_gone host hp))
  · intro hgone p hp
    rcases hmerges.contains_or_mem_newPoints hp with hp | ⟨q, hq, hqp⟩
    · exact hregisters.grows (hs p hp)
    · rw [← PathSet.contains_congr _ hqp]
      rcases Trail.mem_gone_or_contains hregisters.walk_eq hq with hq | hq
      · exact hgone q hq
      · rw [hregisters.registered_eq]
        exact hq

variable (host)

/-- After every operation of a run all watch points are registered, exactly when no registration
of the run succeeded without a watch point that was gone. -/
theorem bookkept_run_iff (policy : Policy) (operations : List (Operation World)) (w : World) :
    (∀ before, before <+: operations → ((start policy).run host before w).session.Bookkept) ↔
      ∀ before request, before ++ [.register request] <+: operations →
        ((start policy).run host before w).session.MissesNothing host request
          ((start policy).run host before w).world := by
  constructor
  · intro hall before request hbefore done hok
    have hprior := hall before ((List.prefix_append before _).trans hbefore)
    have hafter := hall _ hbefore
    rw [run_concat] at hafter
    exact (bookkept_register_iff hok hprior).1 hafter
  · intro hmisses before hbefore
    induction before using List.reverseRecOn with
    | nil => exact bookkept_start policy
    | append_singleton before operation ih =>
      have hprior := ih ((List.prefix_append before _).trans hbefore)
      rcases run_concat_cases host (start policy) before operation w with
        ⟨request, done, rfl, hok, hsession, -⟩ | ⟨hkeeps, -⟩
      · rw [hsession]
        exact (bookkept_register_iff hok hprior).2 (hmisses before request hbefore done hok)
      · exact hkeeps.bookkept hprior

/-- A directory that is there when a request is resolved and gone when the walk comes to it. -/
def vanishing : Scripted Listing :=
  ⟨Listing.initial.addDirectory (Path.ofString "/x"),
    [⟨Path.ofString "/x", [some (.ok true), some (.ok false)], []⟩]⟩

theorem not_bookkept_vanishing :
    ¬((start .collapse).run (Scripted.fileSystem (Listing.fileSystem (Path.ofString "/"))).dry
      [.register (.ofRoots [Path.ofString "/x"])] vanishing).session.Bookkept := by
  intro hbookkept
  have hregistered := hbookkept (Path.ofString "/x") (by decide +kernel)
  revert hregistered
  decide +kernel

end Session

end DirectoryWatch
