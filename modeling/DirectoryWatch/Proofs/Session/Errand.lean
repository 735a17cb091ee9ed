import DirectoryWatch.Proofs.Session.World
import DirectoryWatch.Session.Call
import DirectoryWatch.Session.History

/-!
# Errands

Every call asks the registry first and then walks. What the registry answered, where the walks
begin and what they look for is the errand; only a call whose walks succeed changes the registry.
-/
namespace DirectoryWatch

variable {World : Type}

structure Errand where
  /-- The registry once the walks have succeeded. -/
  registry : Registry
  update? : Option Update
  wanted : Path → Bool
  starts : List Path

def Call.request? : Call → Option Request
  | .register request => some request
  | .watch request => some request
  | .created _ => none

/-- What comes of a step, without what there is to say about it. -/
def Step.bare {α : Type} (step : Step World α) : Except Failure α × Session × World :=
  (step.result, step.session, step.world)

theorem Step.bare_eq_iff {α : Type} {step : Step World α} {result : Except Failure α}
    {session : Session} {w : World} : step.bare = (result, session, w) ↔
      step.result = result ∧ step.session = session ∧ step.world = w := by
  simp [bare]

namespace Session

def requestErrand (fs : FileSystem World) (s : Session) (tell : Update → Option Update)
    (request : Request) (w : World) : Except Failure Errand × World :=
  (s.registry.register fs s.policy request w).map
    (Except.map fun (registry, update) =>
      ⟨registry, tell update, update.needsWatch, update.newPoints⟩) id

def errand (fs : FileSystem World) (s : Session) (w : World) :
    Call → Except Failure Errand × World
  | .register request => s.requestErrand fs some request w
  | .watch request => s.requestErrand fs (fun _ => none) request w
  | .created directory =>
    let starts := if s.registry.needsWatch directory then [directory] else []
    (.ok ⟨s.registry, none, s.registry.needsWatch, starts⟩, w)

def conclude (s : Session) (errand : Errand) :
    Except Failure Unit × Trail World → Except Failure Outcome × Session × World
  | (.error e, t) => (.error e, { s with registered := t.registered }, t.world)
  | (.ok (), t) =>
    (.ok ⟨errand.update?, t.added⟩,
      { s with registry := errand.registry, registered := t.registered }, t.world)

theorem bare_register (host : Host World) (s : Session) (tell : Update → Option Update)
    (request : Request) (w : World) :
    ((s.register host request w).map fun done => ⟨tell done.update, done.directories⟩).bare =
      match s.requestErrand host.toFileSystem tell request w with
      | (.error e, w) => (.error e, s, w)
      | (.ok errand, w) =>
        s.conclude errand (Trail.walkAll host errand.wanted errand.starts (s.trail w)) := by
  rw [register, requestErrand]
  rcases s.registry.register host.toFileSystem s.policy request w with ⟨e | ⟨registry, update⟩, w₁⟩
  · rfl
  · simp only [Prod.map, Except.map, id_eq]
    rcases Trail.walkAll host update.needsWatch update.newPoints (s.trail w₁) with ⟨e | _, t⟩
    all_goals rfl

theorem map_watch (host : Host World) (s : Session) (request : Request) (w : World) :
    (s.watch host request w).map (Outcome.mk none) =
      (s.register host request w).map fun done => ⟨none, done.directories⟩ := by
  rw [watch, Step.map, Step.map]
  rcases (s.register host request w).result with e | done <;> rfl

theorem bare_call (host : Host World) (s : Session) (w : World) (c : Call) :
    (s.call host w c).bare =
      match s.errand host.toFileSystem w c with
      | (.error e, w) => (.error e, s, w)
      | (.ok errand, w) =>
        s.conclude errand (Trail.walkAll host errand.wanted errand.starts (s.trail w)) := by
  cases c with
  | register request => exact bare_register host s some request w
  | watch request =>
    rw [call, map_watch]
    exact bare_register host s (fun _ => none) request w
  | created directory =>
    rw [call, directoryCreated, errand]
    split
    · simp only [Trail.walkAll]
      rcases Trail.walk host s.registry.needsWatch directory (s.trail w) with ⟨e | _, t⟩ <;> rfl
    · rfl

theorem requestErrand_ok {fs : FileSystem World} {s : Session} {tell : Update → Option Update}
    {request : Request} {w w₁ : World} {errand : Errand}
    (h : s.requestErrand fs tell request w = (.ok errand, w₁)) :
    ∃ registry update, s.registry.register fs s.policy request w = (.ok (registry, update), w₁) ∧
      errand = ⟨registry, tell update, update.needsWatch, update.newPoints⟩ := by
  rw [requestErrand] at h
  rcases hregister : s.registry.register fs s.policy request w with ⟨e | ⟨registry, update⟩, w'⟩
  all_goals
    rw [hregister] at h
    cases h
  exact ⟨registry, update, rfl, rfl⟩

/-- A call that succeeds had an errand, and its walks succeeded. -/
theorem walks_of_call_ok {host : Host World} {s : Session} {w : World} {c : Call}
    {outcome : Outcome} (hok : (s.call host w c).result = .ok outcome) :
    ∃ errand w₁ t, s.errand host.toFileSystem w c = (.ok errand, w₁) ∧
      Trail.walkAll host errand.wanted errand.starts (s.trail w₁) = (.ok (), t) ∧
        outcome = ⟨errand.update?, t.added⟩ := by
  have hbare := bare_call host s w c
  rcases herrand : s.errand host.toFileSystem w c with ⟨e | errand, w₁⟩
  all_goals
    rw [herrand] at hbare
    dsimp only at hbare
  · rw [(Step.bare_eq_iff.1 hbare).1] at hok
    cases hok
  · rcases hwalk : Trail.walkAll host errand.wanted errand.starts (s.trail w₁) with ⟨e | _, t⟩
    all_goals
      rw [hwalk] at hbare
      rw [(Step.bare_eq_iff.1 hbare).1] at hok
      cases hok
    exact ⟨errand, w₁, t, rfl, hwalk, rfl⟩

theorem registry_call (host : Host World) (s : Session) (w : World) (c : Call) :
    (s.call host w c).session.registry = s.registry ∨
      ∃ request update w', s.registry.register host.toFileSystem s.policy request w =
        (.ok ((s.call host w c).session.registry, update), w') := by
  have hbare := bare_call host s w c
  have hrequest (tell : Update → Option Update) {request : Request} {errand : Errand} {w₁ : World}
      (h : s.requestErrand host.toFileSystem tell request w = (.ok errand, w₁)) :
      ∃ update w', s.registry.register host.toFileSystem s.policy request w =
        (.ok (errand.registry, update), w') := by
    obtain ⟨registry, update, hregister, rfl⟩ := requestErrand_ok h
    exact ⟨update, w₁, hregister⟩
  rcases herrand : s.errand host.toFileSystem w c with ⟨e | errand, w₁⟩
  all_goals
    rw [herrand] at hbare
    dsimp only at hbare
  · exact .inl (by rw [(Step.bare_eq_iff.1 hbare).2.1])
  · rcases hwalked : Trail.walkAll host errand.wanted errand.starts (s.trail w₁) with ⟨e | _, t⟩
    all_goals
      rw [hwalked] at hbare
      rw [(Step.bare_eq_iff.1 hbare).2.1]
    · exact .inl rfl
    · cases c with
      | register request => exact .inr ⟨request, hrequest some herrand⟩
      | watch request => exact .inr ⟨request, hrequest (fun _ => none) herrand⟩
      | created directory =>
        cases herrand
        exact .inl rfl

end Session

theorem FileSystem.Maintains.errand {fs : FileSystem World} {now : World → Prop}
    (h : fs.Maintains now) (s : Session) (c : Call) {w : World} (hw : now w) :
    now (s.errand fs w c).2 := by
  cases c with
  | register request => exact h.registryRegister s.policy s.registry request hw
  | watch request => exact h.registryRegister s.policy s.registry request hw
  | created directory => exact hw

/-- Where the operation changes the world, it keeps `now` true. -/
def Operation.Maintains (now : World → Prop) : Operation World → Prop
  | .meanwhile change => ∀ w, now w → now (change w)
  | _ => True

namespace Host

variable {host : Host World} {now : World → Prop}

theorem Guards.call {allowed : Path → Prop} (h : host.Guards allowed now) (s : Session) (c : Call)
    {w : World} (hw : now w)
    (hallowed : ∀ errand w₁, s.errand host.toFileSystem w c = (.ok errand, w₁) →
      ∀ start ∈ errand.starts, ∀ p, p.Same start ∨ errand.wanted p = true → allowed p) :
    now (s.call host w c).world := by
  have hbare := Session.bare_call host s w c
  have hasked := h.fileSystem.errand s c hw
  rcases herrand : s.errand host.toFileSystem w c with ⟨e | errand, w₁⟩
  all_goals
    rw [herrand] at hbare hasked
    dsimp only at hbare
  · rw [(Step.bare_eq_iff.1 hbare).2.2]
    exact hasked
  · have hwalk := h.walkAll (t := s.trail w₁) (hallowed errand w₁ herrand) hasked
    rcases hwalked : Trail.walkAll host errand.wanted errand.starts (s.trail w₁) with ⟨e | _, t⟩
    all_goals
      rw [hwalked] at hbare hwalk
      rw [(Step.bare_eq_iff.1 hbare).2.2]
      exact hwalk

theorem Maintains.call (h : host.Maintains now) (s : Session) (c : Call) {w : World} (hw : now w) :
    now (s.call host w c).world :=
  h.guards.call s c hw fun _ _ _ _ _ _ _ => trivial

theorem Maintains.handlePaths (h : host.Maintains now) (created : Bool) (s : Session)
    (paths : List Path) {w : World} (hw : now w) :
    now (s.handlePaths host created paths w).2.2 := by
  induction paths generalizing s w with
  | nil => exact hw
  | cons p rest ih =>
    cases created with
    | true => exact ih _ (h.call s (.created p) hw)
    | false => exact ih s hw

theorem Maintains.perform (h : host.Maintains now) (s : Session)
    {operation : Operation World} (hoperation : operation.Maintains now) {w : World} (hw : now w) :
    now (s.perform host w operation).2.2 := by
  cases operation with
  | register request => exact h.call s (.register request) hw
  | created directory => exact h.call s (.created directory) hw
  | handle event => exact h.handlePaths event.created s event.paths hw
  | meanwhile change => exact hoperation w hw

theorem Maintains.run (h : host.Maintains now) (s : Session)
    {operations : List (Operation World)}
    (hoperations : ∀ operation ∈ operations, operation.Maintains now) {w : World} (hw : now w) :
    now (s.run host operations w).world := by
  induction operations generalizing s w with
  | nil => exact hw
  | cons operation rest ih =>
    have hfirst := h.perform s (hoperations operation (by simp)) hw
    exact ih _ (fun other hother => hoperations other (List.mem_cons_of_mem operation hother)) hfirst

end Host

end DirectoryWatch
