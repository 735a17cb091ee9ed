import DirectoryWatch.FileSystem.Listing
import DirectoryWatch.Proofs.FileSystem.Steady
import DirectoryWatch.Proofs.Registry.Repeated
import DirectoryWatch.Proofs.Session.Errand
import DirectoryWatch.Proofs.Session.Operations
import DirectoryWatch.Proofs.Session.View
import DirectoryWatch.Session.Plan

/-!
# Requests that were registered before

On a file system that does not change, a request finds the directories that it found before. When
it is registered again, whatever was asked of the session in between, nothing is left to do.
-/
namespace DirectoryWatch

variable {World : Type} {host : Host World} {now : World → Prop}

def Traced.HandsNothing (t : Traced World) : Prop :=
  ∀ directory accepted, .handed directory accepted ∉ t.deeds

theorem Traced.HandsNothing.note {t : Traced World} (h : t.HandsNothing) {deed : Deed}
    (hdeed : ∀ directory accepted, deed ≠ .handed directory accepted) (w : World) :
    (t.note deed w).HandsNothing := by
  intro directory accepted hmem
  rw [Traced.deeds_note] at hmem
  rcases List.mem_append.1 hmem with hmem | hmem
  · exact h directory accepted hmem
  · exact hdeed directory accepted (List.mem_singleton.1 hmem).symm

theorem FileSystem.traced_maintains_handsNothing (host : Host World) :
    host.traced.toFileSystem.Maintains Traced.HandsNothing where
  isDirectory _ _ ht := ht.note (fun _ _ => Deed.noConfusion) _
  entries _ _ ht := ht.note (fun _ _ => Deed.noConfusion) _

namespace Session

variable {s : Session} {accepted : List Request}

/-- The session knows the requests that it accepted, each with the directories that it finds in
every world in which `now` holds. -/
structure Remembers (host : Host World) (now : World → Prop) (accepted : List Request)
    (s : Session) : Prop where
  coherent : s.registry.Coherent
  apart : s.policy = .collapse → Path.Apart s.registry.watchPoints.toList
  knows : ∀ request ∈ accepted, ∃ absolute nearest,
    request.absolute host.workingDirectory = .ok absolute ∧
      Registry.Resolved absolute.roots nearest ∧
      (∀ w, now w → (host.nearestAll absolute.roots w).1 = .ok nearest) ∧
      s.registry.Knows s.policy absolute nearest

theorem remembers_start (host : Host World) (now : World → Prop) (policy : Policy) :
    (start policy).Remembers host now [] where
  coherent := Registry.coherent_empty
  apart := by
    rintro - p hp
    cases hp
  knows := by
    intro request hrequest
    cases hrequest

theorem Keeps.remembers {s' : Session} (h : s.Keeps s') (hs : s.Remembers host now accepted) :
    s'.Remembers host now accepted := by
  refine ⟨?_, ?_, ?_⟩
  all_goals rw [h.registry]
  · exact hs.coherent
  · rw [h.policy]
    exact hs.apart
  · rw [h.policy]
    exact hs.knows

theorem Remembers.register {answer : Path → Except Fault Bool}
    (h : s.Remembers host now accepted) (hsteady : host.toFileSystem.Steady answer now)
    (hmaintains : host.Maintains now) {request : Request} {w : World} (hw : now w)
    {done : Registration} (hok : (s.register host request w).result = .ok done) :
    (s.register host request w).session.Remembers host now (accepted ++ [request]) := by
  obtain ⟨absolute, nearest, w₁, t, hregisters⟩ := registers_of_ok hok
  have hmerges := hregisters.merges
  refine ⟨h.coherent.merge hregisters.resolved hmerges, ?_, ?_⟩
  · intro hpolicy
    rw [hregisters.policy_eq] at hpolicy
    rw [hpolicy] at hmerges
    exact hmerges.apart (h.apart hpolicy)
  · rw [hregisters.policy_eq]
    intro other hother
    rcases List.mem_append.1 hother with hother | hother
    · obtain ⟨form, directories, hform, hresolved, hsame, hknows⟩ := h.knows other hother
      exact ⟨form, directories, hform, hresolved, hsame,
        hknows.merge h.coherent hregisters.resolved hmerges⟩
    · obtain rfl := List.mem_singleton.1 hother
      refine ⟨absolute, nearest, hregisters.absolute_eq, hregisters.resolved, fun w' hw' => ?_,
        hmerges.knows h.coherent hregisters.resolved⟩
      rw [hsteady.nearestAll hmaintains.fileSystem absolute.roots hw' hw, hregisters.nearest_eq]

theorem remembers_run {answer : Path → Except Fault Bool}
    (hsteady : host.toFileSystem.Steady answer now) (hmaintains : host.Maintains now)
    (policy : Policy) {operations : List (Operation World)}
    (hoperations : ∀ operation ∈ operations, operation.Maintains now) {w : World} (hw : now w) :
    let history := (start policy).run host operations w
    history.session.Remembers host now history.accepted := by
  induction operations using List.reverseRecOn with
  | nil => exact remembers_start host now policy
  | append_singleton operations operation ih =>
    have hprior : ∀ operation ∈ operations, operation.Maintains now := fun other hother =>
      hoperations other (List.mem_append_left [operation] hother)
    have hbefore := ih hprior
    have hnow := hmaintains.run (start policy) hprior hw
    rcases run_concat_cases host (start policy) operations operation w with
      ⟨request, done, -, hok, hsession, hregistrations⟩ | ⟨hkeeps, hregistrations⟩
    all_goals
      dsimp only [History.accepted]
      rw [hregistrations]
    · rw [hsession, List.map_append]
      exact hbefore.register hsteady hmaintains hnow hok
    · exact hkeeps.remembers hbefore

theorem register_of_newPoints_eq_nil {request : Request} {after : Registry} {update : Update}
    {w w₁ : World}
    (h : s.registry.register host.toFileSystem s.policy request w = (.ok (after, update), w₁))
    (hnew : update.newPoints = []) :
    let step := s.register host request w
    step.result = .ok ⟨update, []⟩ ∧ step.session = { s with registry := after } ∧
      step.world = w₁ := by
  have hwalk : Trail.walkAll host update.needsWatch update.newPoints (s.trail w₁) =
      (.ok (), s.trail w₁) := by
    rw [hnew]
    rfl
  simp only [register, h, hwalk]
  exact ⟨rfl, rfl, rfl⟩

theorem Remembers.register_again (h : s.Remembers host now accepted) {request : Request}
    (hrequest : request ∈ accepted) {w : World} (hw : now w) :
    ∃ after update w₁,
      s.registry.register host.toFileSystem s.policy request w = (.ok (after, update), w₁) ∧
      update.newPoints = [] ∧ update.subsumed = [] ∧ after.Agrees s.registry ∧
      ∀ p, after.requestedRoots.contains p = s.registry.requestedRoots.contains p := by
  obtain ⟨absolute, nearest, habsolute, hresolved, hsame, hknows⟩ := h.knows request hrequest
  have hmerges := Registry.merges_merge s.policy s.registry absolute nearest
  refine ⟨_, _, (host.nearestAll absolute.roots w).2, ?_, hknows.newPoints_eq_nil hmerges,
    hknows.subsumed_eq_nil hmerges h.apart, hknows.agrees hmerges h.coherent hresolved h.apart,
    hknows.contains_requestedRoots hmerges⟩
  have hnearest : host.nearestAll absolute.roots w =
      (.ok nearest, (host.nearestAll absolute.roots w).2) := Prod.ext (hsame w hw) rfl
  rw [Registry.register, habsolute]
  dsimp only
  rw [hnearest]

/-- A request that was accepted before is accepted again. Nothing is new and nothing is given up,
the facility is not called, and the session answers and lists what it did before. -/
theorem register_accepted_again {answer : Path → Except Fault Bool}
    (hsteady : host.toFileSystem.Steady answer now) (hmaintains : host.Maintains now)
    (policy : Policy) {operations : List (Operation World)}
    (hoperations : ∀ operation ∈ operations, operation.Maintains now) {w : World} (hw : now w) :
    let history := (start policy).run host operations w
    let s := history.session
    ∀ request ∈ history.accepted,
      let again := s.register host.traced request (.start history.world)
      s.register host request history.world = again.seen Traced.world ∧
        (∃ update, again.result = .ok ⟨update, []⟩ ∧ update.newPoints = [] ∧
          update.subsumed = []) ∧
        again.world.HandsNothing ∧
        again.session.registered = s.registered ∧
        again.session.registry.Agrees s.registry ∧
        ∀ p, again.session.registry.requestedRoots.contains p =
          s.registry.requestedRoots.contains p := by
  intro history s request hrequest again
  have hremembers : s.Remembers host now history.accepted :=
    remembers_run hsteady hmaintains policy hoperations hw
  have hnow : now history.world := hmaintains.run (start policy) hoperations hw
  obtain ⟨after, update, w₁, hregister, hnew, hsubsumed, hagrees, hroots⟩ :=
    hremembers.register_again hrequest hnow
  have hmirrors := host.traced_mirrors
  have htraced := hmirrors.registryRegister s.policy s.registry request (.start history.world)
  have huntouched := (FileSystem.traced_maintains_handsNothing host).registryRegister s.policy
    s.registry request (w := .start history.world) fun _ _ hmem => List.not_mem_nil hmem
  rw [show Traced.world (.start history.world) = history.world from rfl, hregister] at htraced
  rcases hbeside : s.registry.register host.traced.toFileSystem s.policy request
    (.start history.world) with ⟨result, t₁⟩
  rw [hbeside] at htraced huntouched
  obtain ⟨rfl, -⟩ := Prod.mk.inj htraced
  obtain ⟨hresult, hsession, hworld⟩ := register_of_newPoints_eq_nil hbeside hnew
  refine ⟨hmirrors.sessionRegister s request (.start history.world),
    ⟨update, hresult, hnew, hsubsumed⟩, ?_, ?_, ?_, ?_⟩
  · rw [hworld]
    exact huntouched
  all_goals rw [hsession]
  · exact hagrees
  · exact hroots

def widenedListing : Listing := .build [.directory (Path.ofString "/x/y")]

def widened : History Listing :=
  runRequests (Listing.fileSystem (Path.ofString "/")).dry .collapse
    [.ofRoots [Path.ofString "/x/y"], .ofRoots [Path.ofString "/x"]] widenedListing

theorem register_accepted_again_subsumed :
    let host := (Listing.fileSystem (Path.ofString "/")).dry
    let request := Request.ofRoots [Path.ofString "/x/y"]
    let again := widened.session.register host.traced request (.start widened.world)
    widened.session.registry.watchPoints.toList = [Path.ofString "/x"] ∧
      request ∈ widened.accepted ∧
      (∃ update, again.result = .ok ⟨update, []⟩ ∧ update.newPoints = [] ∧
        update.subsumed = []) ∧
      again.world.HandsNothing ∧ again.session.registry.Agrees widened.session.registry := by
  have hsteady : (Listing.fileSystem (Path.ofString "/")).Steady widenedListing.isDirectory
      (· = widenedListing) := by
    rintro p _ rfl
    rfl
  have hmaintains : (Listing.fileSystem (Path.ofString "/")).dry.Maintains
      (· = widenedListing) := ⟨fun _ _ => id, fun _ _ => id, fun _ _ => id⟩
  have haccepted : Request.ofRoots [Path.ofString "/x/y"] ∈ widened.accepted := by
    have hall : widened.accepted =
        [.ofRoots [Path.ofString "/x/y"], .ofRoots [Path.ofString "/x"]] := by cbv
    rw [hall]
    exact List.mem_cons_self ..
  have hoperations : ∀ operation ∈ [Operation.register (.ofRoots [Path.ofString "/x/y"]),
      .register (.ofRoots [Path.ofString "/x"])], operation.Maintains (· = widenedListing) := by
    simp [Operation.Maintains]
  obtain ⟨-, hresult, hnothing, -, hagrees, -⟩ :=
    register_accepted_again hsteady hmaintains .collapse hoperations rfl _ haccepted
  exact ⟨by cbv, haccepted, hresult, hnothing, hagrees⟩

end Session

end DirectoryWatch
