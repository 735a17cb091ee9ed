import DirectoryWatch.Proofs.Registry.Delta
import DirectoryWatch.Proofs.Registry.Order

/-!
# Requests that were merged before

A registry goes on knowing the requests that were merged with it, whatever is merged after them:
their roots, what they contain, and what is watched for them. Merging one of them again with the
same nearest directories changes nothing.
-/
namespace DirectoryWatch

/-- Something is watched for the directory `p`: under collapse that may stand above it. -/
def Policy.Holds (policy : Policy) (points : PathSet) (p : Path) : Prop :=
  match policy with
  | .append => points.contains p = true
  | .collapse => p.coveredBy points.toList = true

theorem Policy.Retains.holds {policy : Policy} {before after : PathSet} {p : Path}
    (h : policy.Retains before after) (hp : policy.Holds before p) : policy.Holds after p := by
  cases policy with
  | append =>
    obtain ⟨q, hq, hqp⟩ := PathSet.contains_iff.1 hp
    exact PathSet.contains_iff.2 ⟨q, h q hq, hqp⟩
  | collapse =>
    obtain ⟨q, hq, hpq⟩ := Path.coveredBy_iff.1 hp
    obtain ⟨r, hr, hqr⟩ := Path.coveredBy_iff.1 (h q hq)
    exact Path.coveredBy_iff.2 ⟨r, hr, Path.atOrBelow_trans hpq hqr⟩

namespace Registry

variable {policy : Policy} {prior registry after : Registry} {request other : Request}
  {nearest directories : List Path} {update : Update}

/-- The request is part of what the registry keeps. -/
structure Knows (policy : Policy) (registry : Registry) (request : Request)
    (nearest : List Path) : Prop where
  roots : ∀ root ∈ request.roots, registry.requestedRoots.contains root = true
  reports : ∀ p, request.contains p = true → registry.reports p = true
  watches : ∀ p ∈ Path.topmost nearest, policy.Holds registry.watchPoints p

theorem Coherent.reports_merge (h : prior.Coherent)
    (hmerges : Merges policy prior request nearest after update) (p : Path) :
    after.reports p = (prior.reports p || request.contains p) := by
  refine hmerges.reports (fun hpoints => ?_) p
  rw [h.requests_eq_empty hpoints]
  rfl

theorem Merges.knows (h : Merges policy prior request nearest registry update)
    (hprior : prior.Coherent) (hresolved : Resolved request.roots nearest) :
    registry.Knows policy request nearest := by
  refine ⟨fun root hroot => ?_, fun p hp => ?_, fun p hp => ?_⟩
  · rw [h.requestedRoots_eq, PathSet.contains_insertAll_iff]
    exact .inr ⟨root, hroot, .refl root⟩
  · rw [hprior.reports_merge h, hp, Bool.or_true]
  · cases policy with
    | append => exact (h.contains_append hresolved p).2 (.inr ⟨p, hp, .refl p⟩)
    | collapse =>
      change p.coveredBy registry.watchPoints.toList = true
      rw [h.coveredBy_eq hresolved, Path.coveredBy_of_mem (Path.mem_of_mem_topmost hp),
        Bool.or_true]

namespace Knows

theorem merge (h : registry.Knows policy request nearest) (hregistry : registry.Coherent)
    (hresolved : Resolved other.roots directories)
    (hmerges : Merges policy registry other directories after update) :
    after.Knows policy request nearest := by
  refine ⟨fun root hroot => ?_, fun p hp => ?_, fun p hp => ?_⟩
  · rw [hmerges.requestedRoots_eq, PathSet.contains_insertAll_iff]
    exact .inl (h.roots root hroot)
  · rw [hregistry.reports_merge hmerges, h.reports p hp, Bool.true_or]
  · exact (hmerges.retains hresolved).holds (h.watches p hp)

section

variable (h : registry.Knows policy request nearest)
  (hmerges : Merges policy registry request nearest after update)
include h hmerges

theorem newPoints_eq_nil : update.newPoints = [] := by
  refine List.eq_nil_iff_forall_not_mem.2 fun p hp => ?_
  have hheld := h.watches p ((candidates_sublist _ _).mem (hmerges.mem_candidates hp))
  cases policy with
  | append =>
    have hfresh := hmerges.fresh_newPoints hp
    exact Bool.false_ne_true (hfresh.symm.trans hheld)
  | collapse =>
    have houtside := hmerges.newPoints_outside hp
    exact Bool.false_ne_true (houtside.symm.trans hheld)

theorem subsumed_eq_nil (hapart : policy = .collapse → Path.Apart registry.watchPoints.toList) :
    update.subsumed = [] := by
  refine List.eq_nil_iff_forall_not_mem.2 fun p hp => ?_
  obtain ⟨q, hq, -⟩ := hmerges.exists_below_newPoint hapart hp
  rw [h.newPoints_eq_nil hmerges] at hq
  cases hq

theorem contains_requestedRoots (p : Path) :
    after.requestedRoots.contains p = registry.requestedRoots.contains p := by
  rw [Bool.eq_iff_iff, hmerges.requestedRoots_eq, PathSet.contains_insertAll_iff]
  refine ⟨?_, .inl⟩
  rintro (hp | ⟨root, hroot, hsame⟩)
  · exact hp
  · rw [← PathSet.contains_congr _ hsame]
    exact h.roots root hroot

theorem agrees (hregistry : registry.Coherent) (hresolved : Resolved request.roots nearest)
    (hapart : policy = .collapse → Path.Apart registry.watchPoints.toList) :
    after.Agrees registry := by
  have hpoints (p : Path) : after.watchPoints.contains p = registry.watchPoints.contains p := by
    rw [hmerges.contains_watchPoints_eq, Bool.eq_iff_iff, Update.contains_replay_iff,
      h.newPoints_eq_nil hmerges, h.subsumed_eq_nil hmerges hapart]
    simp
  have hroots := h.contains_requestedRoots hmerges
  refine ⟨hpoints, fun p => ?_, fun d => ?_⟩
  · rw [hregistry.reports_merge hmerges, Bool.eq_iff_iff, Bool.or_eq_true]
    exact ⟨fun hp => hp.elim id (h.reports p), .inl⟩
  · rw [(hregistry.merge hresolved hmerges).needsWatch_eq, hregistry.needsWatch_eq,
      PathSet.coveredBy_congr hroots, PathSet.leadsTo_congr hroots,
      PathSet.leadsTo_congr hpoints]

end

end Knows

end Registry

end DirectoryWatch
