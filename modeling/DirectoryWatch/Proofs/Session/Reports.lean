import DirectoryWatch.Proofs.Session.Operations

/-!
# What a session reports

A session reports a path exactly when a request that was registered successfully contains it. The
first request of a registry that watches nothing takes the place of all the requests before it;
that loses none of them, for a registry with requests also has watch points.
-/
namespace DirectoryWatch

variable {World : Type} (host : Host World)

/-- Where nothing is watched nothing was requested. -/
def Registry.Backed (registry : Registry) : Prop :=
  registry.watchPoints.isEmpty = true → registry.requests.isEmpty = true

namespace Session

/-- One of the requests, with its roots made absolute, contains the path. -/
def Asked (requests : List Request) (p : Path) : Prop :=
  ∃ request ∈ requests, ∃ absolute,
    request.absolute host.workingDirectory = .ok absolute ∧ absolute.contains p = true

variable {host}

theorem asked_concat {requests : List Request} {request absolute : Request} {p : Path}
    (h : request.absolute host.workingDirectory = .ok absolute) :
    Asked host (requests ++ [request]) p ↔
      Asked host requests p ∨ absolute.contains p = true := by
  constructor
  · rintro ⟨other, hother, form, hform, hp⟩
    rcases List.mem_append.1 hother with hother | hother
    · exact .inl ⟨other, hother, form, hform, hp⟩
    · have heq : form = absolute := by
        rw [List.mem_singleton.1 hother, h] at hform
        exact (Except.ok.inj hform).symm
      exact .inr (heq ▸ hp)
  · rintro (⟨other, hother, form, hform, hp⟩ | hp)
    · exact ⟨other, List.mem_append_left _ hother, form, hform, hp⟩
    · exact ⟨request, by simp, absolute, h, hp⟩

theorem backed_register {s : Session} {request : Request} {w : World} {done : Registration}
    (h : (s.register host request w).result = .ok done) (hs : s.registry.Backed) :
    (s.register host request w).session.registry.Backed := by
  obtain ⟨absolute, nearest, w₁, t, hregisters⟩ := registers_of_ok h
  exact hregisters.merges.requests_isEmpty hregisters.resolved hs

theorem reports_register {s : Session} {request : Request} {w : World} {done : Registration}
    (h : (s.register host request w).result = .ok done) (hs : s.registry.Backed) :
    ∃ absolute, request.absolute host.workingDirectory = .ok absolute ∧
      ∀ p, (s.register host request w).session.reports p =
        (s.reports p || absolute.contains p) := by
  obtain ⟨absolute, nearest, w₁, t, hregisters⟩ := registers_of_ok h
  exact ⟨absolute, hregisters.absolute_eq, hregisters.merges.reports hs⟩

theorem backed_run (host : Host World) (policy : Policy) (operations : List (Operation World))
    (w : World) : ((start policy).run host operations w).session.registry.Backed := by
  induction operations using List.reverseRecOn with
  | nil => exact fun _ => rfl
  | append_singleton operations operation ih =>
    rcases run_concat_cases host (start policy) operations operation w with
      ⟨request, done, -, hok, hsession, -⟩ | ⟨hkeeps, -⟩
    · rw [hsession]
      exact backed_register hok ih
    · intro hpoints
      rw [hkeeps.registry] at hpoints ⊢
      exact ih hpoints

variable (host)

/-- A path is reported exactly when a request that was accepted contains it. -/
theorem reports_run_iff (policy : Policy) (operations : List (Operation World)) (w : World)
    (p : Path) :
    ((start policy).run host operations w).session.reports p = true ↔
      Asked host ((start policy).run host operations w).accepted p := by
  induction operations using List.reverseRecOn with
  | nil =>
    have hnone : (start policy).reports p = false :=
      Request.contains_of_isEmpty (show (∅ : Request).isEmpty = true from rfl) p
    simp [run, hnone, Asked, History.accepted, History.registrations]
  | append_singleton operations operation ih =>
    have hbacked := backed_run host policy operations w
    rcases run_concat_cases host (start policy) operations operation w with
      ⟨request, done, -, hok, hsession, hregistrations⟩ | ⟨hkeeps, hregistrations⟩
    · obtain ⟨absolute, habsolute, hreports⟩ := reports_register hok hbacked
      rw [hsession, hreports, Bool.or_eq_true, ih, History.accepted, History.accepted,
        hregistrations, List.map_append, List.map_cons, List.map_nil, asked_concat habsolute]
    · rw [reports, hkeeps.registry, History.accepted, hregistrations]
      exact ih

end Session

end DirectoryWatch
