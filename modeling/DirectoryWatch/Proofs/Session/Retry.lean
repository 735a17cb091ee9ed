import DirectoryWatch.Proofs.Session.Errand
import DirectoryWatch.Proofs.Session.Itinerary
import DirectoryWatch.Proofs.Session.View
import Mathlib

/-!
# Failing and trying again

A call that fails leaves the registry as it was and a first part of its way registered. When the
facility refuses nothing any more, the same call takes the rest, and all is as if it had never
failed.
-/
namespace DirectoryWatch

variable {wd : Path}

theorem FileSystem.Mirrors.errand {World Other : Type} {fs : FileSystem World}
    {other : FileSystem Other} {view : World → Other} (h : fs.Mirrors other view) (s : Session)
    (w : World) (c : Call) : s.errand other (view w) c = (s.errand fs w c).map id view := by
  have hrequest (tell : Update → Option Update) (request : Request) :
      s.requestErrand other tell request (view w) =
        (s.requestErrand fs tell request w).map id view := by
    rw [Session.requestErrand, Session.requestErrand, h.registryRegister]
    rfl
  cases c with
  | register request => exact hrequest some request
  | watch request => exact hrequest (fun _ => none) request
  | created directory => rfl

/-- What a call tries to do. To watch a request is to register it. -/
def Call.task : Call → Call
  | .watch request => .register request
  | call => call

namespace Session

theorem errand_recorder (s : Session) (r : Recorder Listing) (c : Call) :
    s.errand (Listing.recorded wd).toFileSystem r c =
      ((s.errand (Listing.fileSystem wd) r.world c).1, r) := by
  have hmirrors : (Listing.recorded wd).toFileSystem.Mirrors (Listing.fileSystem wd)
      Recorder.world := ⟨fun _ _ => rfl, fun _ _ => rfl, rfl, fun _ => rfl⟩
  have hmaintains : (Listing.recorded wd).toFileSystem.Maintains (· = r) :=
    ⟨fun _ _ h => h, fun _ _ h => h⟩
  rw [hmirrors.errand]
  exact Prod.ext rfl (hmaintains.errand s c rfl)

/-- What the registry answers does not depend on what is registered. -/
theorem errand_registered (fs : FileSystem Listing) (s : Session) (registered : PathSet)
    (l : Listing) (c : Call) :
    { s with registered := registered }.errand fs l c = s.errand fs l c := by
  cases c <;> rfl

variable {s : Session} {r : Recorder Listing} {c : Call}

theorem bare_call_of_error {e : Failure}
    (h : (s.errand (Listing.fileSystem wd) r.world c).1 = .error e) :
    (s.call (Listing.recorded wd) r c).bare = (.error e, s, r) := by
  rw [bare_call, errand_recorder, h]

theorem bare_call_of_ok {errand : Errand}
    (h : (s.errand (Listing.fileSystem wd) r.world c).1 = .ok errand) :
    ∃ taken result t, Trail.Follows (r.world.itineraryAll errand.wanted errand.starts) (s.trail r)
        (result, t) taken ∧
      (s.call (Listing.recorded wd) r c).bare = s.conclude errand (result, t) := by
  obtain ⟨taken, hfollows⟩ := Trail.walkAll_follows wd errand.wanted errand.starts (s.trail r)
  refine ⟨taken, _, _, hfollows, ?_⟩
  rw [bare_call, errand_recorder, h]

/-- The call, or another for the same task, fails in the first of two states and leaves the
second. -/
def FailsTo {World : Type} (host : Host World) (c : Call) (before after : Session × World) : Prop :=
  ∃ (tried : Call) (e : Failure), tried.task = c.task ∧
    (before.1.call host before.2 tried).bare = (.error e, after)

theorem FailsTo.bare_call {World : Type} {host : Host World} {c : Call}
    {before after : Session × World} (h : FailsTo host c before after) :
    ∃ e, (before.1.call host before.2 c).bare = (.error e, after) := by
  obtain ⟨tried, e, htask, hfails⟩ := h
  have hwatch (request : Request) :
      (before.1.call host before.2 (.watch request)).bare = (.error e, after) ↔
        (before.1.call host before.2 (.register request)).bare = (.error e, after) := by
    simp only [call, watch, Step.map, Step.bare]
    rcases (before.1.register host request before.2).result with _ | _ <;> simp [Except.map]
  refine ⟨e, ?_⟩
  cases tried <;> cases c <;> cases htask
  · exact hfails
  · exact (hwatch _).2 hfails
  · exact (hwatch _).1 hfails
  · exact hfails
  · exact hfails

/-- What comes of the call once nothing is refused, but for the directories it answers with. -/
def settled (wd : Path) (c : Call) (state : Session × Recorder Listing) :
    Except Failure (Option Update) × Session × Recorder Listing :=
  let step := state.1.call (Listing.recorded wd) state.2.stopRefusing c
  (step.result.map Outcome.update?, step.session, step.world)

theorem settled_of_ok {errand : Errand}
    (h : (s.errand (Listing.fileSystem wd) r.world c).1 = .ok errand) :
    let way := r.world.itineraryAll errand.wanted errand.starts
    let new := s.registered.missing way.1
    settled wd c (s, r) =
      (way.2.map fun _ => errand.update?,
        ⟨s.policy, if way.2 matches .ok _ then errand.registry else s.registry,
          s.registered.insertAll new⟩,
        { r.stopRefusing with accepted := r.accepted ++ new }) := by
  intro way new
  obtain ⟨taken, result, t, hfollows, hbare⟩ := bare_call_of_ok (r := r.stopRefusing) h
  obtain ⟨htaken, hending⟩ := hfollows.whole (.inr rfl)
  have hregistered : t.registered = s.registered.insertAll new := by
    rw [hfollows.accepts.registered_eq, htaken]
    rfl
  have hworld : t.world = { r.stopRefusing with accepted := r.accepted ++ new } := by
    rw [hfollows.accepts.world_eq, htaken]
    rfl
  have hway : way.2 = result := hending.symm
  rcases result with e | _
  all_goals
    rw [conclude, hregistered, hworld] at hbare
    obtain ⟨hresult, hsession, hworld⟩ := Step.bare_eq_iff.1 hbare
    simp only [settled, hresult, hsession, hworld, hway]
    rfl

theorem settled_of_failsTo {after : Session × Recorder Listing}
    (h : FailsTo (Listing.recorded wd) c (s, r) after) :
    (∃ taken, after = ({ s with registered := s.registered.insertAll taken },
      { r with accepted := r.accepted ++ taken })) ∧
    settled wd c after = settled wd c (s, r) := by
  obtain ⟨e, hfails⟩ := h.bare_call
  rcases herrand : (s.errand (Listing.fileSystem wd) r.world c).1 with e' | errand
  · have hbare := bare_call_of_error herrand
    have hafter : after = (s, r) := (Prod.mk.inj (hfails.symm.trans hbare)).2
    rw [hafter]
    refine ⟨⟨[], ?_⟩, rfl⟩
    rw [List.append_nil]
    rfl
  · obtain ⟨taken, result, t, hfollows, hbare⟩ := bare_call_of_ok herrand
    have hstate := hfails.symm.trans hbare
    rcases result with _ | _
    · have hafter := (Prod.mk.inj hstate).2
      rw [hfollows.accepts.registered_eq, hfollows.accepts.world_eq] at hafter
      refine ⟨⟨_, hafter⟩, ?_⟩
      subst hafter
      have hmissing := s.registered.missing_of_prefix hfollows.first
      rw [settled_of_ok (errand_registered _ s _ _ c ▸ herrand), settled_of_ok herrand, hmissing,
        PathSet.insertAll_append, ← List.append_assoc]
      rfl
    · cases hstate

/-- Failing leaves the registry as it was and only adds what the facility accepted, and however
often a call has failed, once nothing is refused it comes to what it would have come to at first. -/
theorem settled_of_attempts (wd : Path) (c : Call) (s : Session) (r : Recorder Listing) :
    let host := Listing.recorded wd
    (∀ after, FailsTo host c (s, r) after → ∃ taken,
      after.1 = { s with registered := s.registered.insertAll taken } ∧
        after.2 = { r with accepted := r.accepted ++ taken }) ∧
    ∀ after, Relation.ReflTransGen (FailsTo host c) (s, r) after →
      settled wd c after = settled wd c (s, r) := by
  intro host
  refine ⟨?_, ?_⟩
  · intro after hfails
    obtain ⟨⟨taken, hafter⟩, -⟩ := settled_of_failsTo hfails
    exact ⟨taken, by rw [hafter], by rw [hafter]⟩
  · intro after hattempts
    induction hattempts with
    | refl => rfl
    | tail _ hfails ih => rw [(settled_of_failsTo hfails).2, ih]

example :
    let host := Listing.recorded (Path.ofString "/")
    let l := Listing.build [.directory (Path.ofString "/x/a"), .directory (Path.ofString "/x/b")]
    let step := (start .collapse).call host ⟨l, [], some (Path.ofString "/x/b")⟩
      (.register (.ofRoots [Path.ofString "/x"]))
    (step.result matches .error (.refused _ _)) ∧
      step.session.registry.watchPoints.toList = [] ∧
      step.world.accepted = [Path.ofString "/x", Path.ofString "/x/a"] := by
  cbv

end Session

end DirectoryWatch
