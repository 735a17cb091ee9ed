import DirectoryWatch.FileSystem.Listing
import DirectoryWatch.Proofs.Path.Spelling
import DirectoryWatch.Proofs.Registry.Points
import DirectoryWatch.Registry.Timeline

/-!
# Updates as differences

An update tells exactly how the watch points changed: which of them were given up, each for a new
one above it, and which are new. So the watch points of a registry can be had from its updates
alone, by replaying them in order.
-/
namespace DirectoryWatch

def PathSet.without (s : PathSet) (paths : List Path) : PathSet :=
  ⟨s.toList.filter fun p => !paths.any fun q => decide (q.Same p), s.ascending.filter _⟩

theorem PathSet.contains_without_iff (s : PathSet) (paths : List Path) (p : Path) :
    (s.without paths).contains p = true ↔
      s.contains p = true ∧ ¬∃ q ∈ paths, q.Same p := by
  simp only [contains_iff, without, List.mem_filter, Bool.not_eq_true', List.any_eq_false,
    decide_eq_true_eq, not_exists, not_and]
  constructor
  · rintro ⟨r, ⟨hr, hclear⟩, hrp⟩
    exact ⟨⟨r, hr, hrp⟩, fun q hq hqp => hclear q hq (hqp.trans hrp.symm)⟩
  · rintro ⟨⟨r, hr, hrp⟩, hclear⟩
    exact ⟨r, ⟨hr, fun q hq hqr => hclear q hq (hqr.trans hrp)⟩, hrp⟩

namespace Update

def replay (u : Update) (points : PathSet) : PathSet :=
  (points.without u.subsumed).insertAll u.newPoints

def replayAll (updates : List Update) : PathSet :=
  updates.foldl (fun points u => u.replay points) ∅

theorem replayAll_concat (updates : List Update) (u : Update) :
    replayAll (updates ++ [u]) = u.replay (replayAll updates) := by
  rw [replayAll, List.foldl_concat, replayAll]

theorem contains_replay_iff (u : Update) (points : PathSet) (p : Path) :
    (u.replay points).contains p = true ↔
      (points.contains p = true ∧ ¬∃ q ∈ u.subsumed, q.Same p) ∨
        ∃ q ∈ u.newPoints, q.Same p := by
  rw [replay, PathSet.contains_insertAll_iff, PathSet.contains_without_iff]

/-- The update is the difference between the watch points before it and those after it. -/
structure Exact (policy : Policy) (before after : PathSet) (u : Update) : Prop where
  fresh : ∀ p ∈ u.newPoints, before.contains p = false
  dropped : ∀ p ∈ u.subsumed, before.contains p = true
  replays : ∀ p, after.contains p = (u.replay before).contains p
  ascending : u.newPoints.Pairwise (· < ·)
  apart : ∀ p ∈ u.newPoints, ∀ q ∈ u.newPoints, p.below q = false
  broader : ∀ p ∈ u.subsumed, ∃ q ∈ u.newPoints, p.below q = true
  outside : policy = .collapse → ∀ p ∈ u.newPoints, p.coveredBy before.toList = false

end Update

namespace Registry

theorem fresh_sublist (paths : List Path) (existing : PathSet) :
    (fresh paths existing).Sublist paths :=
  List.filter_sublist

theorem candidates_sublist (newRoots nearest : List Path) :
    (candidates newRoots nearest).Sublist (Path.topmost nearest) :=
  List.filter_sublist

namespace Merges

variable {policy : Policy} {prior registry : Registry} {request : Request} {nearest : List Path}
  {update : Update}

theorem newPoints_sublist (h : Merges policy prior request nearest registry update) :
    ∃ paths, update.newPoints.Sublist (Path.topmost paths) := by
  cases h with
  | unchanged => exact ⟨[], List.nil_sublist _⟩
  | first _ _ _ hnew => exact ⟨nearest, hnew ▸ candidates_sublist request.roots nearest⟩
  | append _ _ _ hnew =>
    exact ⟨nearest, hnew ▸ (fresh_sublist _ _).trans (candidates_sublist request.roots nearest)⟩
  | collapse _ _ _ hmerged =>
    subst hmerged
    exact ⟨_, fresh_sublist _ _⟩

theorem fresh_newPoints (h : Merges policy prior request nearest registry update) {p : Path}
    (hp : p ∈ update.newPoints) : prior.watchPoints.contains p = false := by
  cases h with
  | unchanged => cases hp
  | first _ unwatched => rw [PathSet.contains, List.isEmpty_iff.1 unwatched, List.any_nil]
  | append _ _ _ hnew =>
    subst hnew
    exact (mem_fresh.1 hp).2
  | collapse => exact (mem_fresh.1 hp).2

theorem mem_of_mem_subsumed (h : Merges policy prior request nearest registry update) {p : Path}
    (hp : p ∈ update.subsumed) : p ∈ prior.watchPoints.toList := by
  cases h with
  | collapse => exact (mem_fresh.1 hp).1
  | _ => cases hp

theorem contains_watchPoints_eq (h : Merges policy prior request nearest registry update)
    (p : Path) :
    registry.watchPoints.contains p = (update.replay prior.watchPoints).contains p := by
  rw [Bool.eq_iff_iff, Update.contains_replay_iff]
  cases h with
  | unchanged => simp
  | first _ unwatched =>
    rw [PathSet.contains_ofList, PathSet.contains, List.isEmpty_iff.1 unwatched]
    simp
  | append =>
    rw [PathSet.contains_insertAll_iff]
    simp
  | @collapse _ merged =>
    rw [PathSet.contains_ofList]
    constructor
    · rintro ⟨m, hm, hmp⟩
      cases hknown : prior.watchPoints.contains m with
      | false => exact .inr ⟨m, mem_fresh.2 ⟨hm, hknown⟩, hmp⟩
      | true =>
        refine .inl ⟨prior.watchPoints.contains_congr hmp ▸ hknown, ?_⟩
        rintro ⟨q, hq, hqp⟩
        have hkept := PathSet.contains_ofList.2 ⟨m, hm, hmp.trans hqp.symm⟩
        simp [(mem_fresh.1 hq).2] at hkept
    · rintro (⟨hp, hkept⟩ | ⟨q, hq, hqp⟩)
      · obtain ⟨q, hq, hqp⟩ := PathSet.contains_iff.1 hp
        cases hmerged : (PathSet.ofList merged).contains q with
        | false => exact absurd ⟨q, mem_fresh.2 ⟨hq, hmerged⟩, hqp⟩ hkept
        | true =>
          obtain ⟨m, hm, hmq⟩ := PathSet.contains_ofList.1 hmerged
          exact ⟨m, hm, hmq.trans hqp⟩
      · exact ⟨q, (mem_fresh.1 hq).1, hqp⟩

/-- What is given up lies strictly below a new watch point, where no watch point lay below
another. -/
theorem exists_below_newPoint (h : Merges policy prior request nearest registry update)
    (hprior : policy = .collapse → Path.Apart prior.watchPoints.toList) {p : Path}
    (hp : p ∈ update.subsumed) : ∃ q ∈ update.newPoints, p.below q = true := by
  cases h with
  | @collapse _ merged _ hpolicy _ hmerged =>
    obtain ⟨hp, hgone⟩ := mem_fresh.1 hp
    obtain ⟨m, hm, hpm⟩ := Path.exists_atOrBelow_topmost
      (List.mem_append_left (candidates request.roots nearest) hp)
    rw [← hmerged] at hm
    have hne : ¬p.Same m := by
      intro hsame
      have hkept := PathSet.contains_ofList.2 ⟨m, hm, hsame.symm⟩
      simp [hgone] at hkept
    refine ⟨m, mem_fresh.2 ⟨hm, ?_⟩, Path.below_iff.2 ⟨hne, hpm⟩⟩
    rw [Bool.eq_false_iff, ne_eq, PathSet.contains_iff]
    rintro ⟨r, hr, hrm⟩
    have hpr : p.atOrBelow r = true := Path.atOrBelow_trans hpm hrm.symm.atOrBelow
    exact hne ((hprior hpolicy p hp r hr hpr).trans hrm)
  | _ => cases hp

theorem newPoints_outside (h : Merges .collapse prior request nearest registry update) {p : Path}
    (hp : p ∈ update.newPoints) : p.coveredBy prior.watchPoints.toList = false := by
  cases h with
  | unchanged => cases hp
  | first _ unwatched =>
    rw [List.isEmpty_iff.1 unwatched]
    rfl
  | append _ hpolicy => cases hpolicy
  | collapse _ _ _ hmerged =>
    obtain ⟨hp, hfresh⟩ := mem_fresh.1 hp
    subst hmerged
    rw [Bool.eq_false_iff, ne_eq, Path.coveredBy_iff]
    rintro ⟨r, hr, hpr⟩
    obtain ⟨m, hm, hrm⟩ := Path.exists_atOrBelow_topmost
      (List.mem_append_left (candidates request.roots nearest) hr)
    have hpm : p = m := Path.eq_of_atOrBelow_topmost hp hm (Path.atOrBelow_trans hpr hrm)
    have hsame : r.Same p := Path.same_of_atOrBelow (hpm ▸ hrm) hpr
    simp [PathSet.contains_iff.2 ⟨r, hr, hsame⟩] at hfresh

theorem exact (h : Merges policy prior request nearest registry update)
    (hprior : policy = .collapse → Path.Apart prior.watchPoints.toList) :
    update.Exact policy prior.watchPoints registry.watchPoints := by
  obtain ⟨paths, hsub⟩ := h.newPoints_sublist
  refine ⟨fun p hp => h.fresh_newPoints hp,
    fun p hp => PathSet.contains_of_mem (h.mem_of_mem_subsumed hp), h.contains_watchPoints_eq,
    (Path.ascending_topmost paths).sublist hsub,
    Path.apart_iff_below.1 ((Path.apart_topmost paths).of_subset hsub.subset),
    fun p hp => h.exists_below_newPoint hprior hp, ?_⟩
  rintro rfl p hp
  exact h.newPoints_outside hp

end Merges

variable {World : Type} {fs : FileSystem World} {policy : Policy} {requests : List Request}
  {updates : List Update} {registry : Registry}

/-- The registry comes from nothing by registering the requests one after the other, in whatever
worlds, and these are the updates that the registrations answered with. -/
inductive Arises (fs : FileSystem World) (policy : Policy) :
    List Request → List Update → Registry → Prop
  | empty : Arises fs policy [] [] ∅
  | register {requests : List Request} {updates : List Update} {registry after : Registry}
      {request : Request} {update : Update} {w w' : World}
      (prior : Arises fs policy requests updates registry)
      (h : registry.register fs policy request w = (.ok (after, update), w')) :
      Arises fs policy (requests ++ [request]) (updates ++ [update]) after

theorem arises_run (fs : FileSystem World) (policy : Policy) (moves : List (Move World))
    (w : World) :
    let v := (run fs policy moves w).current
    Arises fs policy v.merged v.updates v.registry :=
  forall_run (P := fun v => Arises fs policy v.merged v.updates v.registry) .empty
    (fun _ _ _ _ _ _ h hregister => h.register hregister) moves w _ (List.mem_cons_self ..)

namespace Arises

theorem apart (h : Arises fs policy requests updates registry) (hpolicy : policy = .collapse) :
    Path.Apart registry.watchPoints.toList := by
  subst hpolicy
  induction h with
  | empty =>
    intro p hp
    cases hp
  | register _ hregister ih =>
    obtain ⟨_, _, -, -, -, hmerges⟩ := merges_of_register hregister
    exact hmerges.apart ih

theorem exact (h : Arises fs policy requests updates registry) {request : Request}
    {after : Registry} {update : Update} {w w' : World}
    (hregister : registry.register fs policy request w = (.ok (after, update), w')) :
    update.Exact policy registry.watchPoints after.watchPoints := by
  obtain ⟨_, _, -, -, -, hmerges⟩ := merges_of_register hregister
  exact hmerges.exact h.apart

theorem contains_replayAll (h : Arises fs policy requests updates registry) (p : Path) :
    (Update.replayAll updates).contains p = registry.watchPoints.contains p := by
  induction h with
  | empty => rfl
  | register prior hregister ih =>
    rw [Update.replayAll_concat, (prior.exact hregister).replays, Bool.eq_iff_iff,
      Update.contains_replay_iff, Update.contains_replay_iff, ih]

end Arises

/-- Every registration answers with the exact difference that it made to the watch points, and
the updates of the registrations that led to a state, replayed in order, give its watch points
again. -/
theorem exact_run (fs : FileSystem World) (policy : Policy) (moves : List (Move World))
    (w : World) :
    let v := (run fs policy moves w).current
    (∀ request w₁ after update w₂,
      v.registry.register fs policy request w₁ = (.ok (after, update), w₂) →
        update.Exact policy v.registry.watchPoints after.watchPoints) ∧
    Arises fs policy v.merged v.updates v.registry ∧
    ∀ p, (Update.replayAll v.updates).contains p = v.registry.watchPoints.contains p := by
  intro v
  have harises : Arises fs policy v.merged v.updates v.registry := arises_run fs policy moves w
  exact ⟨fun request w₁ after update w₂ hregister => harises.exact hregister, harises,
    harises.contains_replayAll⟩

def narrowListing : Listing := .build [.directory (Path.ofString "/x/y")]

def narrow : Version :=
  (run (Listing.fileSystem (Path.ofString "/")) .collapse
    [.register (.ofRoots [Path.ofString "/x/y"])] narrowListing).current

/-- When `/x` is requested after `/x/y`, the narrower watch point is given up. -/
theorem exact_run_broader :
    ∃ after update w,
      narrow.registry.register (Listing.fileSystem (Path.ofString "/")) .collapse
        (.ofRoots [Path.ofString "/x"]) narrowListing = (.ok (after, update), w) ∧
      update.newPoints = [Path.ofString "/x"] ∧ update.subsumed = [Path.ofString "/x/y"] ∧
      update.Exact .collapse narrow.registry.watchPoints after.watchPoints ∧
      narrow.updates.map Update.newPoints = [[Path.ofString "/x/y"]] ∧
      ∀ p, (Update.replayAll narrow.updates).contains p =
        narrow.registry.watchPoints.contains p := by
  have hchange : (narrow.registry.register (Listing.fileSystem (Path.ofString "/")) .collapse
      (.ofRoots [Path.ofString "/x"]) narrowListing).1.toOption.map
        (fun merged => (merged.2.newPoints, merged.2.subsumed)) =
      some ([Path.ofString "/x"], [Path.ofString "/x/y"]) := by cbv
  obtain ⟨hexact, -, hreplays⟩ :=
    exact_run (Listing.fileSystem (Path.ofString "/")) .collapse
      [.register (.ofRoots [Path.ofString "/x/y"])] narrowListing
  rcases hregister : narrow.registry.register (Listing.fileSystem (Path.ofString "/")) .collapse
    (.ofRoots [Path.ofString "/x"]) narrowListing with ⟨e | ⟨after, update⟩, w⟩
  all_goals rw [hregister] at hchange
  · cases hchange
  · obtain ⟨hnew, hsubsumed⟩ := Prod.mk.inj (Option.some.inj hchange)
    exact ⟨after, update, w, rfl, hnew, hsubsumed, hexact _ _ _ _ _ hregister, by cbv, hreplays⟩

end Registry

end DirectoryWatch
