import DirectoryWatch.Proofs.Registry.Needs
import DirectoryWatch.Proofs.Request.Filters
import DirectoryWatch.Session.Logged

/-!
# Sessions without filters

A session whose requests lose their filters goes through the same course as before: the same
directories are asked about and handed to the facility, and the registry makes the same of every
request. All that changes is what is reported.
-/
namespace DirectoryWatch

variable {World : Type} {host : Host World}

namespace Registry

def bare (registry : Registry) : Registry := { registry with requests := registry.requests.bare }

theorem needsWatch_bare (registry : Registry) : registry.bare.needsWatch = registry.needsWatch := by
  funext d
  rw [needsWatch_eq_allRoots, needsWatch_eq_allRoots, bare, Request.allRoots_bare]

theorem reports_bare_of_reports {registry : Registry} {p : Path} (h : registry.reports p = true) :
    registry.bare.reports p = true := by
  rw [reports, bare, Request.contains_bare]
  exact Request.coveredBy_of_contains h

theorem merge_bare (policy : Policy) (prior : Registry) (request : Request)
    (nearest : List Path) :
    prior.bare.merge policy request.bare nearest =
      (prior.merge policy request nearest).map bare id := by
  simp only [merge, Request.roots_bare, bare]
  rw [← Request.union_bare]
  split
  · rfl
  · split
    · rfl
    · cases policy <;> rfl

theorem register_bare (fs : FileSystem World) (policy : Policy) (registry : Registry)
    (request : Request) (w : World) :
    registry.bare.register fs policy request.bare w =
      (registry.register fs policy request w).map (·.map (·.map bare id)) id := by
  rw [register, register, Request.absolute_bare]
  cases request.absolute fs.workingDirectory with
  | error e => rfl
  | ok absolute =>
    simp only [Except.map, Request.roots_bare]
    rcases fs.nearestAll absolute.roots w with ⟨_ | nearest, w⟩
    · rfl
    · simp only [merge_bare]
      rfl

end Registry

namespace Session

def bare (s : Session) : Session := { s with registry := s.registry.bare }

theorem bare_bare (s : Session) : s.bare.bare = s.bare := by
  simp only [bare, Registry.bare, Request.bare_bare]

theorem trail_bare (s : Session) (w : World) : s.bare.trail w = s.trail w := rfl

theorem register_bare (s : Session) (request : Request) (w : World) :
    s.bare.register host request.bare w =
      let step := s.register host request w
      { step with session := step.session.bare } := by
  have hregister : s.bare.registry.register host.toFileSystem s.bare.policy request.bare w = _ :=
    s.registry.register_bare host.toFileSystem s.policy request w
  rw [register, register, hregister]
  rcases s.registry.register host.toFileSystem s.policy request w with ⟨_ | ⟨registry, update⟩, w⟩
  · rfl
  · simp only [Prod.map, Except.map, id, trail_bare]
    rcases Trail.walkAll host update.needsWatch update.newPoints (s.trail w) with ⟨_ | _, t⟩ <;> rfl

theorem directoryCreated_bare (s : Session) (directory : Path) (w : World) :
    s.bare.directoryCreated host directory w =
      let step := s.directoryCreated host directory w
      { step with session := step.session.bare } := by
  have hneeds : s.bare.registry.needsWatch = s.registry.needsWatch := s.registry.needsWatch_bare
  rw [directoryCreated, directoryCreated, hneeds, trail_bare]
  cases s.registry.needsWatch directory with
  | true =>
    rcases Trail.walk host s.registry.needsWatch directory (s.trail w) with ⟨_ | _, t⟩ <;> rfl
  | false => rfl

theorem handlePaths_bare (created : Bool) (s : Session) (paths : List Path) (w : World) :
    (s.bare.handlePaths host created paths w).2 =
      (s.handlePaths host created paths w).2.map bare id := by
  induction paths generalizing s w with
  | nil => rfl
  | cons p rest ih =>
    cases created with
    | true =>
      simp only [handlePaths, if_true, directoryCreated_bare]
      exact ih _ _
    | false => exact ih s w

end Session

def Operation.mapRequest (f : Request → Request) : Operation World → Operation World
  | .register request => .register (f request)
  | operation => operation

theorem Operation.map_mapRequest_logged (f : Request → Request)
    (operations : List (Operation World)) :
    (operations.map (mapRequest f)).map logged = (operations.map logged).map (mapRequest f) := by
  simp only [List.map_map, List.map_inj_left, Function.comp_apply]
  intro operation _
  cases operation <;> rfl

abbrev Operation.bare : Operation World → Operation World := mapRequest Request.bare

/-- The answer as far as filters have no say in it. -/
def Answer.bare : Answer → Answer
  | .registered request result => .registered request.bare result
  | .reported _ => .reported []
  | answer => answer

def History.bare (history : History World) : History World :=
  ⟨history.session.bare, history.world, history.answers.map Answer.bare⟩

namespace Session

theorem perform_bare (host : Host World) (s : Session) (w : World)
    (operation : Operation World) :
    (s.bare.perform host w operation.bare).1.bare = (s.perform host w operation).1.bare ∧
      (s.bare.perform host w operation.bare).2 = (s.perform host w operation).2.map bare id := by
  cases operation with
  | register request =>
    simp only [Operation.mapRequest, perform, register_bare, Answer.bare, Request.bare_bare]
    exact ⟨trivial, rfl⟩
  | created directory =>
    simp only [Operation.mapRequest, perform, directoryCreated_bare]
    exact ⟨trivial, rfl⟩
  | handle event => exact ⟨rfl, handlePaths_bare event.created s event.paths w⟩
  | meanwhile change => exact ⟨rfl, rfl⟩

theorem run_bare (s : Session) (operations : List (Operation World)) (w : World) :
    (s.bare.run host (operations.map Operation.bare) w).session =
        (s.run host operations w).session.bare ∧
      (s.bare.run host (operations.map Operation.bare) w).bare =
        (s.run host operations w).bare := by
  induction operations generalizing s w with
  | nil => exact ⟨rfl, congrArg (History.mk · w []) s.bare_bare⟩
  | cons operation rest ih =>
    obtain ⟨hanswer, hafter⟩ := perform_bare host s w operation
    rw [List.map_cons, run, run]
    rcases hbare : s.bare.perform host w operation.bare with ⟨answer', s', w'⟩
    rcases hperform : s.perform host w operation with ⟨answer, s₁, w₁⟩
    rw [hbare, hperform] at hanswer hafter
    cases hafter
    obtain ⟨hsession, hrun⟩ := ih s₁ w₁
    refine ⟨hsession, ?_⟩
    simp only [History.bare, History.mk.injEq, List.map_cons] at hrun ⊢
    exact ⟨hrun.1, hrun.2.1, congrArg₂ List.cons hanswer hrun.2.2⟩

def logRun (host : Host World) (policy : Policy) (operations : List (Operation World)) (w : World) :
    History (Logged World) :=
  (start policy).run host.logged (operations.map .logged) ⟨w, []⟩

theorem logRun_bare (host : Host World) (policy : Policy) (operations : List (Operation World))
    (w : World) :
    (logRun host policy (operations.map .bare) w).session =
        (logRun host policy operations w).session.bare ∧
      (logRun host policy (operations.map .bare) w).bare =
        (logRun host policy operations w).bare := by
  rw [logRun, logRun, Operation.map_mapRequest_logged]
  exact run_bare (start policy) (operations.map Operation.logged) ⟨w, []⟩

end Session

end DirectoryWatch
