import DirectoryWatch.Proofs.Registry.Merge
import DirectoryWatch.Proofs.Registry.Nearest
import DirectoryWatch.Proofs.Session.Walk
import DirectoryWatch.Session.History

/-!
# What operations do to a session

Only a registration that succeeds changes the registry. Every other operation, failed registrations
among them, keeps it and at most adds to what is registered.
-/
namespace DirectoryWatch

variable {World : Type} {host : Host World}

/-- Between `s` and `s'` nothing changed but that more may be registered. -/
structure Session.Keeps (s s' : Session) : Prop where
  policy : s'.policy = s.policy
  registry : s'.registry = s.registry
  grows : ∀ p, s.registered.contains p = true → s'.registered.contains p = true

namespace Session

theorem Keeps.refl (s : Session) : s.Keeps s := ⟨rfl, rfl, fun _ => id⟩

theorem Keeps.trans {s₁ s₂ s₃ : Session} (h : s₁.Keeps s₂) (k : s₂.Keeps s₃) : s₁.Keeps s₃ :=
  ⟨k.policy.trans h.policy, k.registry.trans h.registry, fun p hp => k.grows p (h.grows p hp)⟩

theorem keeps_of_grows {s : Session} {w : World} {t : Trail World} (h : (s.trail w).Grows t) :
    s.Keeps { s with registered := t.registered } :=
  ⟨rfl, rfl, h⟩

theorem keeps_directoryCreated (s : Session) (directory : Path) (w : World) :
    s.Keeps (s.directoryCreated host directory w).session := by
  have hgrows := Trail.grows_walk host s.registry.needsWatch directory (s.trail w)
  rw [directoryCreated]
  split
  · split
    · rename_i h
      rw [h] at hgrows
      exact keeps_of_grows hgrows
    · rename_i h
      rw [h] at hgrows
      exact keeps_of_grows hgrows
  · exact Keeps.refl s

theorem keeps_handlePaths (created : Bool) (s : Session) (paths : List Path) (w : World) :
    s.Keeps (s.handlePaths host created paths w).2.1 := by
  induction paths generalizing s w with
  | nil => exact Keeps.refl s
  | cons p rest ih =>
    cases created with
    | true => exact (keeps_directoryCreated s p w).trans (ih _ _)
    | false => exact ih s w

/-- The course of a registration that succeeded: the request with absolute roots, the directories
nearest to them, the world in which the walks began, and the trail that they left. -/
structure Registers (host : Host World) (s : Session) (request : Request) (w : World)
    (done : Registration) (absolute : Request) (nearest : List Path) (w₁ : World)
    (t : Trail World) : Prop where
  absolute_eq : request.absolute host.workingDirectory = .ok absolute
  nearest_eq : host.nearestAll absolute.roots w = (.ok nearest, w₁)
  register_eq : s.registry.register host.toFileSystem s.policy request w =
    (.ok ((s.register host request w).session.registry, done.update), w₁)
  walk_eq : Trail.walkAll host done.update.needsWatch done.update.newPoints (s.trail w₁) =
    (.ok (), t)
  directories_eq : done.directories = t.added
  registered_eq : (s.register host request w).session.registered = t.registered
  policy_eq : (s.register host request w).session.policy = s.policy

theorem registers_of_ok {s : Session} {request : Request} {w : World} {done : Registration}
    (h : (s.register host request w).result = .ok done) :
    ∃ absolute nearest w₁ t, Registers host s request w done absolute nearest w₁ t := by
  cases hregister : s.registry.register host.toFileSystem s.policy request w with
  | mk result w₁ =>
    cases result with
    | error e =>
      simp only [register, hregister] at h
      cases h
    | ok merged =>
      obtain ⟨registry, update⟩ := merged
      obtain ⟨absolute, nearest, habsolute, hnearest, -⟩ := Registry.register_ok hregister
      cases hwalk : Trail.walkAll host update.needsWatch update.newPoints (s.trail w₁) with
      | mk result t =>
        cases result with
        | error e =>
          simp only [register, hregister, hwalk] at h
          cases h
        | ok =>
          simp only [register, hregister, hwalk] at h
          cases h
          refine ⟨absolute, nearest, w₁, t, habsolute, hnearest, ?_, hwalk, rfl, ?_, ?_⟩
          all_goals simp only [register, hregister, hwalk]

namespace Registers

variable {s : Session} {request absolute : Request} {w w₁ : World} {done : Registration}
  {nearest : List Path} {t : Trail World}

theorem merges (h : Registers host s request w done absolute nearest w₁ t) :
    Registry.Merges s.policy s.registry absolute nearest
      (s.register host request w).session.registry done.update := by
  obtain ⟨absolute', nearest', habsolute, hnearest, hmerged⟩ := Registry.register_ok h.register_eq
  rw [h.absolute_eq] at habsolute
  cases habsolute
  rw [h.nearest_eq] at hnearest
  cases hnearest
  have hmerges := Registry.merges_merge s.policy s.registry absolute nearest
  rwa [← hmerged] at hmerges

theorem resolved (h : Registers host s request w done absolute nearest w₁ t) :
    Registry.Resolved absolute.roots nearest :=
  FileSystem.atOrBelow_nearestAll h.nearest_eq

theorem world_eq (h : Registers host s request w done absolute nearest w₁ t) :
    (s.register host request w).world = t.world := by
  have hregister := h.register_eq
  generalize (s.register host request w).session.registry = registry at hregister
  rw [register, hregister]
  simp only [h.walk_eq]

theorem grows (h : Registers host s request w done absolute nearest w₁ t) {p : Path}
    (hp : s.registered.contains p = true) :
    (s.register host request w).session.registered.contains p = true := by
  have hgrows := Trail.grows_walkAll host done.update.needsWatch done.update.newPoints (s.trail w₁)
  rw [h.walk_eq] at hgrows
  rw [h.registered_eq]
  exact hgrows p hp

end Registers

theorem keeps_of_register_error {s : Session} {request : Request} {w : World} {e : Failure}
    (h : (s.register host request w).result = .error e) :
    s.Keeps (s.register host request w).session := by
  rw [register] at h ⊢
  split
  · exact Keeps.refl s
  · rename_i registry update w₁ hregister
    have hgrows := Trail.grows_walkAll host update.needsWatch update.newPoints (s.trail w₁)
    dsimp only
    split
    · rename_i hwalk
      rw [hwalk] at hgrows
      exact keeps_of_grows hgrows
    · rename_i hwalk
      simp only [hregister, hwalk] at h
      cases h

/-- An operation is a registration that succeeds, or it is none and keeps the session. -/
theorem perform_cases (host : Host World) (s : Session) (w : World)
    (operation : Operation World) :
    (∃ request done, operation = .register request ∧
        (s.register host request w).result = .ok done) ∨
      (s.perform host w operation).1.registration? = none ∧
        s.Keeps (s.perform host w operation).2.1 := by
  cases operation with
  | register request =>
    cases h : (s.register host request w).result with
    | error e =>
      refine .inr ⟨?_, keeps_of_register_error h⟩
      simp only [perform, h, Answer.registration?]
    | ok done => exact .inl ⟨request, done, rfl, h⟩
  | created directory => exact .inr ⟨rfl, keeps_directoryCreated s directory w⟩
  | handle event => exact .inr ⟨rfl, keeps_handlePaths event.created s event.paths w⟩
  | meanwhile change => exact .inr ⟨rfl, Keeps.refl s⟩

theorem run_concat_cases (host : Host World) (s : Session) (first : List (Operation World))
    (last : Operation World) (w : World) :
    let before := s.run host first w
    let after := s.run host (first ++ [last]) w
    (∃ request done, last = .register request ∧
        (before.session.register host request before.world).result = .ok done ∧
        after.session = (before.session.register host request before.world).session ∧
        after.registrations = before.registrations ++ [(request, done)]) ∨
      before.session.Keeps after.session ∧ after.registrations = before.registrations := by
  rw [run_concat]
  generalize s.run host first w = history
  rcases perform_cases host history.session history.world last with
    ⟨request, done, rfl, hok⟩ | ⟨hnone, hkeeps⟩
  · refine .inl ⟨request, done, rfl, hok, rfl, ?_⟩
    simp only [History.registrations, List.filterMap_append, perform, hok, Answer.registration?,
      List.filterMap_cons, List.filterMap_nil]
  · refine .inr ⟨hkeeps, ?_⟩
    simp only [History.registrations, List.filterMap_append, List.filterMap_cons_none hnone,
      List.filterMap_nil, List.append_nil]

theorem policy_run (host : Host World) (s : Session) (operations : List (Operation World))
    (w : World) : (s.run host operations w).session.policy = s.policy := by
  induction operations using List.reverseRecOn with
  | nil => rfl
  | append_singleton operations operation ih =>
    rcases run_concat_cases host s operations operation w with
      ⟨request, done, -, hok, hsession, -⟩ | ⟨hkeeps, -⟩
    · obtain ⟨absolute, nearest, w₁, t, hregisters⟩ := registers_of_ok hok
      rw [hsession, hregisters.policy_eq, ih]
    · rw [hkeeps.policy, ih]

theorem registers_run (host : Host World) (s : Session) (operations : List (Operation World))
    (w : World) {request : Request} {done : Registration}
    (h : (request, done) ∈ (s.run host operations w).registrations) :
    ∃ s' w' absolute nearest w₁ t, s'.policy = s.policy ∧
      Registers host s' request w' done absolute nearest w₁ t := by
  induction operations using List.reverseRecOn with
  | nil => simp [run, History.registrations] at h
  | append_singleton operations operation ih =>
    rcases run_concat_cases host s operations operation w with
      ⟨other, new, -, hok, -, hregistrations⟩ | ⟨-, hregistrations⟩
    · rw [hregistrations] at h
      rcases List.mem_append.1 h with h | h
      · exact ih h
      · obtain ⟨rfl, rfl⟩ := Prod.mk.inj (List.mem_singleton.1 h)
        obtain ⟨absolute, nearest, w₁, t, hregisters⟩ := registers_of_ok hok
        exact ⟨_, _, absolute, nearest, w₁, t, policy_run host s operations w, hregisters⟩
    · exact ih (hregistrations ▸ h)

end Session

end DirectoryWatch
