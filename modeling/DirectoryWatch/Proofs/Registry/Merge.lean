import DirectoryWatch.Proofs.Path.Topmost
import DirectoryWatch.Registry.Basic
import Mathlib.Data.List.Forall2

/-!
# Merging requests

What holds after a merge, whichever of its branches was taken: the watch points are those there
were before and the new ones, every root of the request lies at or below one of them, and the
registry reports what it reported before and what the request contains.
-/
namespace DirectoryWatch

namespace Request

theorem roots_eq_nil_iff {request : Request} : request.roots = [] ↔ request.isEmpty = true := by
  simp [roots, Path.topmost_eq_nil_iff, allRoots, isEmpty]

theorem contains_of_isEmpty {request : Request} (h : request.isEmpty = true) (p : Path) :
    request.contains p = false := by
  simp only [isEmpty, Bool.and_eq_true, List.isEmpty_iff] at h
  simp [contains, h.1, h.2, Path.coveredBy]

end Request

theorem PathSet.coveredBy_of_contains {s : PathSet} {p w : Path} (h : s.contains w = true)
    (hp : p.atOrBelow w = true) : p.coveredBy s.toList = true := by
  obtain ⟨q, hq, hqw⟩ := PathSet.contains_iff.1 h
  exact Path.coveredBy_iff.2 ⟨q, hq, Path.atOrBelow_trans hp hqw.symm.atOrBelow⟩

namespace Registry

/-- Each root has a directory at or above it, and there are no other directories. -/
def Resolved (roots nearest : List Path) : Prop :=
  List.Forall₂ (fun root p => root.atOrBelow p = true) roots nearest

theorem Resolved.leadsTo {roots nearest : List Path} (h : Resolved roots nearest) {p : Path}
    (hp : p ∈ nearest) : p.leadsTo roots = true := by
  rw [Path.leadsTo_iff]
  induction h with
  | nil => simp at hp
  | @cons root q roots nearest hroot _ ih =>
    rcases List.mem_cons.1 hp with rfl | hp
    · exact ⟨root, by simp, hroot⟩
    · obtain ⟨r, hr, hrp⟩ := ih hp
      exact ⟨r, List.mem_cons_of_mem root hr, hrp⟩

theorem Resolved.coveredBy {roots nearest : List Path} (h : Resolved roots nearest) {root : Path}
    (hroot : root ∈ roots) : root.coveredBy nearest = true := by
  rw [Path.coveredBy_iff]
  induction h with
  | nil => simp at hroot
  | @cons r q roots nearest hr _ ih =>
    rcases List.mem_cons.1 hroot with rfl | hroot
    · exact ⟨q, by simp, hr⟩
    · obtain ⟨p, hp, hrp⟩ := ih hroot
      exact ⟨p, List.mem_cons_of_mem q hp, hrp⟩

theorem candidates_eq_topmost {roots nearest : List Path} (h : Resolved roots nearest) :
    candidates roots nearest = Path.topmost nearest := by
  refine List.filter_eq_self.2 fun p hp => ?_
  rw [h.leadsTo (Path.mem_of_mem_topmost hp), Bool.or_true]

theorem mem_of_mem_candidates {roots nearest : List Path} {p : Path}
    (h : p ∈ candidates roots nearest) : p ∈ nearest :=
  Path.mem_of_mem_topmost (List.mem_of_mem_filter h)

theorem mem_fresh {paths : List Path} {existing : PathSet} {p : Path} :
    p ∈ fresh paths existing ↔ p ∈ paths ∧ existing.contains p = false := by
  simp [fresh]

/-- What a merge can lead to, by the cases that matter: a request without roots, a registry that
watches nothing yet, and the two policies. -/
inductive Merges (policy : Policy) (prior : Registry) (request : Request) (nearest : List Path) :
    Registry → Update → Prop
  | unchanged (empty : request.isEmpty = true) :
      Merges policy prior request nearest prior
        ⟨[], [], [], prior.requestedRoots, prior.watchPoints⟩
  | first {roots : PathSet} {newPoints : List Path}
      (nonempty : request.isEmpty = false) (unwatched : prior.watchPoints.isEmpty = true)
      (hroots : roots = prior.requestedRoots.insertAll request.roots)
      (hnew : newPoints = candidates request.roots nearest) :
      Merges policy prior request nearest ⟨request, roots, .ofList newPoints⟩
        ⟨request.roots, newPoints, [], roots, .ofList newPoints⟩
  | append {roots : PathSet} {newPoints : List Path}
      (nonempty : request.isEmpty = false) (hpolicy : policy = .append)
      (hroots : roots = prior.requestedRoots.insertAll request.roots)
      (hnew : newPoints = fresh (candidates request.roots nearest) prior.watchPoints) :
      Merges policy prior request nearest
        ⟨prior.requests ∪ request, roots, prior.watchPoints.insertAll newPoints⟩
        ⟨request.roots, newPoints, [], roots, prior.watchPoints.insertAll newPoints⟩
  | collapse {roots : PathSet} {merged : List Path}
      (nonempty : request.isEmpty = false) (hpolicy : policy = .collapse)
      (hroots : roots = prior.requestedRoots.insertAll request.roots)
      (hmerged : merged =
        Path.topmost (prior.watchPoints.toList ++ candidates request.roots nearest)) :
      Merges policy prior request nearest
        ⟨prior.requests ∪ request, roots, .ofList merged⟩
        ⟨request.roots, fresh merged prior.watchPoints,
          fresh prior.watchPoints.toList (.ofList merged), roots, .ofList merged⟩

theorem merges_merge (policy : Policy) (prior : Registry) (request : Request)
    (nearest : List Path) :
    Merges policy prior request nearest (prior.merge policy request nearest).1
      (prior.merge policy request nearest).2 := by
  cases hempty : request.isEmpty with
  | true =>
    simp only [merge, Request.roots_eq_nil_iff.2 hempty, List.isEmpty_nil, if_true]
    exact .unchanged hempty
  | false =>
    have hroots : request.roots.isEmpty = false := by
      rw [Bool.eq_false_iff, ne_eq, List.isEmpty_iff, Request.roots_eq_nil_iff, hempty]
      exact Bool.false_ne_true
    cases hpoints : prior.watchPoints.isEmpty with
    | true =>
      simp only [merge, hroots, hpoints, if_true, Bool.false_eq_true, if_false]
      exact .first hempty hpoints rfl rfl
    | false =>
      cases policy with
      | append =>
        simp only [merge, hroots, hpoints, Bool.false_eq_true, if_false]
        exact .append hempty rfl rfl rfl
      | collapse =>
        simp only [merge, hroots, hpoints, Bool.false_eq_true, if_false]
        exact .collapse hempty rfl rfl rfl

namespace Merges

variable {policy : Policy} {prior registry : Registry} {request : Request} {nearest : List Path}
  {update : Update}

theorem newRoots (h : Merges policy prior request nearest registry update) :
    update.newRoots = request.roots := by
  cases h with
  | unchanged empty => exact (Request.roots_eq_nil_iff.2 empty).symm
  | _ => rfl

theorem watchPoints (h : Merges policy prior request nearest registry update) :
    update.watchPoints = registry.watchPoints := by
  cases h <;> rfl

theorem requestedRoots (h : Merges policy prior request nearest registry update) :
    update.requestedRoots = registry.requestedRoots := by
  cases h <;> rfl

theorem contains_of_mem_newPoints (h : Merges policy prior request nearest registry update)
    {p : Path} (hp : p ∈ update.newPoints) : registry.watchPoints.contains p = true := by
  cases h with
  | unchanged => simp at hp
  | first => exact PathSet.contains_ofList.2 ⟨p, hp, Path.Same.refl p⟩
  | append =>
    rw [PathSet.contains_insertAll, Bool.or_eq_true]
    exact .inr (List.any_eq_true.2 ⟨p, hp, decide_eq_true (Path.Same.refl p)⟩)
  | collapse => exact PathSet.contains_ofList.2 ⟨p, (mem_fresh.1 hp).1, Path.Same.refl p⟩

theorem contains_or_mem_newPoints (h : Merges policy prior request nearest registry update)
    {p : Path} (hp : registry.watchPoints.contains p = true) :
    prior.watchPoints.contains p = true ∨ ∃ q ∈ update.newPoints, q.Same p := by
  cases h with
  | unchanged => exact .inl hp
  | first => exact .inr (PathSet.contains_ofList.1 hp)
  | append =>
    rw [PathSet.contains_insertAll, Bool.or_eq_true] at hp
    exact hp.imp_right fun hp => by simpa using hp
  | collapse =>
    obtain ⟨q, hq, hqp⟩ := PathSet.contains_ofList.1 hp
    cases hprior : prior.watchPoints.contains q with
    | true => exact .inl (prior.watchPoints.contains_congr hqp ▸ hprior)
    | false => exact .inr ⟨q, mem_fresh.2 ⟨hq, hprior⟩, hqp⟩

theorem coveredBy_watchPoints (h : Merges policy prior request nearest registry update)
    (hresolved : Resolved request.roots nearest) {root : Path} (hroot : root ∈ request.allRoots) :
    root.coveredBy registry.watchPoints.toList = true := by
  obtain ⟨top, htop, hrootTop⟩ := Path.exists_atOrBelow_topmost hroot
  obtain ⟨near, hnear, htopNear⟩ := Path.coveredBy_iff.1 (hresolved.coveredBy htop)
  obtain ⟨c, hc, hnearC⟩ := Path.exists_atOrBelow_topmost hnear
  rw [← candidates_eq_topmost hresolved] at hc
  have hrootC : root.atOrBelow c = true :=
    Path.atOrBelow_trans hrootTop (Path.atOrBelow_trans htopNear hnearC)
  cases h with
  | unchanged empty =>
    rw [← Request.roots, Request.roots_eq_nil_iff.2 empty] at htop
    cases htop
  | first _ _ _ hnew =>
    have hmem : c ∈ _ := hnew ▸ hc
    exact PathSet.coveredBy_of_contains (PathSet.contains_ofList.2 ⟨c, hmem, .refl c⟩) hrootC
  | append _ _ _ hnew =>
    refine PathSet.coveredBy_of_contains ?_ hrootC
    rw [PathSet.contains_insertAll, Bool.or_eq_true]
    cases hprior : prior.watchPoints.contains c with
    | true => exact .inl rfl
    | false =>
      have hmem : c ∈ _ := hnew ▸ mem_fresh.2 ⟨hc, hprior⟩
      exact .inr (List.any_eq_true.2 ⟨c, hmem, decide_eq_true (.refl c)⟩)
  | collapse _ _ _ hmerged =>
    obtain ⟨m, hm, hcm⟩ := Path.exists_atOrBelow_topmost (List.mem_append_right _ hc)
    have hmem : m ∈ _ := hmerged ▸ hm
    exact PathSet.coveredBy_of_contains (PathSet.contains_ofList.2 ⟨m, hmem, .refl m⟩)
      (Path.atOrBelow_trans hrootC hcm)

theorem same_of_atOrBelow (h : Merges .collapse prior request nearest registry update)
    (hnonempty : request.isEmpty = false) {p q : Path} (hp : p ∈ registry.watchPoints.toList)
    (hq : q ∈ registry.watchPoints.toList) (hpq : p.atOrBelow q = true) : p.Same q := by
  cases h with
  | unchanged empty => simp [hnonempty] at empty
  | first _ _ _ hnew =>
    subst hnew
    have hmem {r : Path} (hr : r ∈ (PathSet.ofList (candidates request.roots nearest)).toList) :
        r ∈ Path.topmost nearest :=
      List.mem_of_mem_filter (PathSet.mem_ofList hr)
    exact Path.eq_of_atOrBelow_topmost (hmem hp) (hmem hq) hpq ▸ .refl p
  | append _ hpolicy => cases hpolicy
  | collapse _ _ _ hmerged =>
    subst hmerged
    have hmem {r : Path} (hr : r ∈ (PathSet.ofList (Path.topmost _)).toList) :
        r ∈ Path.topmost (prior.watchPoints.toList ++ candidates request.roots nearest) :=
      PathSet.mem_ofList hr
    exact Path.eq_of_atOrBelow_topmost (hmem hp) (hmem hq) hpq ▸ .refl p

theorem requests_isEmpty (h : Merges policy prior request nearest registry update)
    (hresolved : Resolved request.roots nearest)
    (hprior : prior.watchPoints.isEmpty = true → prior.requests.isEmpty = true)
    (hpoints : registry.watchPoints.isEmpty = true) : registry.requests.isEmpty = true := by
  have hempty : request.isEmpty = true := by
    by_contra hne
    have hroots : request.roots ≠ [] := fun hnil => hne (Request.roots_eq_nil_iff.1 hnil)
    obtain ⟨root, hroot⟩ := List.exists_mem_of_ne_nil _ hroots
    have hcovered := h.coveredBy_watchPoints hresolved (Path.mem_of_mem_topmost hroot)
    rw [List.isEmpty_iff.1 hpoints] at hcovered
    cases hcovered
  cases h with
  | unchanged => exact hprior hpoints
  | first hne => simp [hempty] at hne
  | append hne => simp [hempty] at hne
  | collapse hne => simp [hempty] at hne

theorem reports (h : Merges policy prior request nearest registry update)
    (hprior : prior.watchPoints.isEmpty = true → prior.requests.isEmpty = true) (p : Path) :
    registry.reports p = (prior.reports p || request.contains p) := by
  cases h with
  | unchanged empty => rw [Request.contains_of_isEmpty empty, Bool.or_false]
  | first _ unwatched =>
    have hnone := Request.contains_of_isEmpty (hprior unwatched) p
    rw [Registry.reports, Registry.reports, hnone, Bool.false_or]
  | append => exact Request.contains_union prior.requests request p
  | collapse => exact Request.contains_union prior.requests request p

end Merges

end Registry

end DirectoryWatch
