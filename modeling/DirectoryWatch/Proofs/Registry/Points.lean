import DirectoryWatch.Proofs.Path.Region
import DirectoryWatch.Proofs.Registry.Merge
import DirectoryWatch.Proofs.Registry.Nearest
import DirectoryWatch.Proofs.Request.Union

/-!
# Watch points and requested roots after a merge

A merge adds what lies at or below a nearest directory to the region of the watch points, and the
roots of the request to those requested so far. The policies differ in what becomes of the earlier
watch points: they stay, or something at or above them does.
-/
namespace DirectoryWatch

/-- What a policy promises about the watch points that were there before. -/
def Policy.Retains (policy : Policy) (before after : PathSet) : Prop :=
  match policy with
  | .append => ∀ p ∈ before.toList, p ∈ after.toList
  | .collapse => ∀ p ∈ before.toList, p.coveredBy after.toList = true

namespace Registry.Merges

variable {policy : Policy} {prior registry : Registry} {request : Request} {nearest : List Path}
  {update : Update}

theorem coveredBy_eq (h : Merges policy prior request nearest registry update)
    (hresolved : Resolved request.roots nearest) (p : Path) :
    p.coveredBy registry.watchPoints.toList =
      (p.coveredBy prior.watchPoints.toList || p.coveredBy nearest) := by
  have hcandidates := candidates_eq_topmost hresolved
  cases h with
  | unchanged empty =>
    rw [Request.roots_eq_nil_iff.2 empty] at hresolved
    cases hresolved
    simp [Path.coveredBy]
  | first _ unwatched _ hnew =>
    have hnone : p.coveredBy prior.watchPoints.toList = false := by
      rw [List.isEmpty_iff.1 unwatched]
      rfl
    rw [hnone, PathSet.coveredBy_ofList, hnew, hcandidates, Path.coveredBy_topmost,
      Bool.false_or]
  | append _ _ _ hnew =>
    rw [PathSet.coveredBy_insertAll, hnew, hcandidates, ← Path.coveredBy_topmost p nearest,
      Bool.eq_iff_iff, Bool.or_eq_true, Bool.or_eq_true]
    constructor
    · rintro (hp | hp)
      · exact .inl hp
      · obtain ⟨q, hq, hpq⟩ := Path.coveredBy_iff.1 hp
        exact .inr (Path.coveredBy_iff.2 ⟨q, (mem_fresh.1 hq).1, hpq⟩)
    · rintro (hp | hp)
      · exact .inl hp
      · obtain ⟨q, hq, hpq⟩ := Path.coveredBy_iff.1 hp
        cases hknown : prior.watchPoints.contains q with
        | true => exact .inl (PathSet.coveredBy_iff.2 ⟨q, hknown, hpq⟩)
        | false => exact .inr (Path.coveredBy_iff.2 ⟨q, mem_fresh.2 ⟨hq, hknown⟩, hpq⟩)
  | collapse _ _ _ hmerged =>
    rw [PathSet.coveredBy_ofList, hmerged, hcandidates, Path.coveredBy_topmost,
      Path.coveredBy_append, Path.coveredBy_topmost]

/-- The union of the requests, whichever branch was taken: a request that stands alone takes the
place of none. -/
theorem requests_eq (h : Merges policy prior request nearest registry update)
    (hprior : prior.watchPoints.isEmpty = true → prior.requests = ∅) :
    registry.requests = prior.requests ∪ request := by
  cases h with
  | unchanged empty =>
    have hroots := Path.topmost_eq_nil_iff.1 (Request.roots_eq_nil_iff.2 empty)
    rw [Request.eq_empty_of_allRoots hroots, Request.union_empty]
  | first _ unwatched => rw [hprior unwatched, Request.empty_union]
  | append => rfl
  | collapse => rfl

theorem requestedRoots_eq (h : Merges policy prior request nearest registry update) :
    registry.requestedRoots = prior.requestedRoots.insertAll request.roots := by
  cases h with
  | unchanged empty =>
    rw [Request.roots_eq_nil_iff.2 empty]
    rfl
  | first _ _ hroots => exact hroots
  | append _ _ hroots => exact hroots
  | collapse _ _ hroots => exact hroots

theorem coveredBy_of_mem_requestedRoots (h : Merges policy prior request nearest registry update)
    (hresolved : Resolved request.roots nearest)
    (hprior : ∀ root ∈ prior.requestedRoots.toList,
      root.coveredBy prior.watchPoints.toList = true)
    {root : Path} (hroot : root ∈ registry.requestedRoots.toList) :
    root.coveredBy registry.watchPoints.toList = true := by
  rw [h.requestedRoots_eq] at hroot
  rcases PathSet.mem_insertAll hroot with hroot | hroot
  · rw [h.coveredBy_eq hresolved, hprior root hroot, Bool.true_or]
  · exact h.coveredBy_watchPoints hresolved (Path.mem_of_mem_topmost hroot)

theorem mem_watchPoints (h : Merges policy prior request nearest registry update) {p : Path}
    (hp : p ∈ registry.watchPoints.toList) : p ∈ prior.watchPoints.toList ∨ p ∈ nearest := by
  cases h with
  | unchanged => exact .inl hp
  | first _ _ _ hnew =>
    have hmem := PathSet.mem_ofList hp
    rw [hnew] at hmem
    exact .inr (mem_of_mem_candidates hmem)
  | append _ _ _ hnew =>
    rcases PathSet.mem_insertAll hp with hp | hp
    · exact .inl hp
    · rw [hnew] at hp
      exact .inr (mem_of_mem_candidates (mem_fresh.1 hp).1)
  | collapse _ _ _ hmerged =>
    have hmem := PathSet.mem_ofList hp
    rw [hmerged] at hmem
    exact (List.mem_append.1 (Path.mem_of_mem_topmost hmem)).imp_right mem_of_mem_candidates

theorem contains_append (h : Merges .append prior request nearest registry update)
    (hresolved : Resolved request.roots nearest) (p : Path) :
    registry.watchPoints.contains p = true ↔
      prior.watchPoints.contains p = true ∨ ∃ q ∈ Path.topmost nearest, q.Same p := by
  have hcandidates := candidates_eq_topmost hresolved
  cases h with
  | unchanged empty =>
    rw [Request.roots_eq_nil_iff.2 empty] at hresolved
    cases hresolved
    simp [Path.topmost_eq_nil_iff.2]
  | first _ unwatched _ hnew =>
    rw [hnew, hcandidates, PathSet.contains_ofList, PathSet.contains,
      List.isEmpty_iff.1 unwatched]
    simp
  | append _ _ _ hnew =>
    rw [PathSet.contains_insertAll_iff, hnew, hcandidates]
    constructor
    · rintro (hp | ⟨q, hq, hqp⟩)
      · exact .inl hp
      · exact .inr ⟨q, (mem_fresh.1 hq).1, hqp⟩
    · rintro (hp | ⟨q, hq, hqp⟩)
      · exact .inl hp
      · cases hknown : prior.watchPoints.contains q with
        | true => exact .inl (prior.watchPoints.contains_congr hqp ▸ hknown)
        | false => exact .inr ⟨q, mem_fresh.2 ⟨hq, hknown⟩, hqp⟩
  | collapse _ hpolicy => cases hpolicy

theorem apart (h : Merges .collapse prior request nearest registry update)
    (hprior : Path.Apart prior.watchPoints.toList) : Path.Apart registry.watchPoints.toList := by
  cases hempty : request.isEmpty with
  | false =>
    intro p hp q hq hpq
    exact h.same_of_atOrBelow hempty hp hq hpq
  | true =>
    cases h with
    | unchanged => exact hprior
    | first nonempty => simp [hempty] at nonempty
    | append nonempty => simp [hempty] at nonempty
    | collapse nonempty => simp [hempty] at nonempty

theorem retains (h : Merges policy prior request nearest registry update)
    (hresolved : Resolved request.roots nearest) :
    policy.Retains prior.watchPoints registry.watchPoints := by
  cases policy with
  | collapse =>
    intro p hp
    rw [h.coveredBy_eq hresolved, Path.coveredBy_of_mem hp, Bool.true_or]
  | append =>
    intro p hp
    cases h with
    | unchanged => exact hp
    | first _ unwatched =>
      rw [List.isEmpty_iff.1 unwatched] at hp
      cases hp
    | append => exact PathSet.mem_insertAll_of_mem hp _
    | collapse _ hpolicy => cases hpolicy

end Registry.Merges

namespace Registry

/-- A registration that succeeds is a merge with the directories nearest to absolute roots. -/
theorem merges_of_register {World : Type} {fs : FileSystem World} {policy : Policy}
    {registry after : Registry} {request : Request} {update : Update}
    {w w' : World} (h : registry.register fs policy request w = (.ok (after, update), w')) :
    ∃ absolute nearest, request.absolute fs.workingDirectory = .ok absolute ∧
      fs.nearestAll absolute.roots w = (.ok nearest, w') ∧
      Resolved absolute.roots nearest ∧
      Merges policy registry absolute nearest after update := by
  obtain ⟨absolute, nearest, habsolute, hnearest, hmerged⟩ := register_ok h
  have hmerges := merges_merge policy registry absolute nearest
  rw [← hmerged] at hmerges
  exact ⟨absolute, nearest, habsolute, hnearest, FileSystem.atOrBelow_nearestAll hnearest,
    hmerges⟩

end Registry

end DirectoryWatch
