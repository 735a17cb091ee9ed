import DirectoryWatch.Proofs.Path.Region
import DirectoryWatch.Proofs.Session.Errand
import DirectoryWatch.Proofs.Session.View
import DirectoryWatch.Proofs.Session.Walk

/-!
# The record of what was accepted

What the facility accepts is registered at that moment and never again, so the record of a session
lists what is registered, each directory once, and each call that succeeds answers with the part
of the record that it wrote.
-/
namespace DirectoryWatch

variable {World : Type} {host : Host World} {record : World → List Path}

/-- The record grows by each directory that is accepted, and changes in no other way. -/
structure Host.Records (host : Host World) (record : World → List Path) : Prop where
  isDirectory : ∀ p w, record (host.isDirectory p w).2 = record w
  entries : ∀ p w, record (host.entries p w).2 = record w
  accepts : ∀ {p w w'}, host.watch p w = (.ok (), w') → record w' = record w ++ [p]
  refuses : ∀ {p w w' fault}, host.watch p w = (.error fault, w') → record w' = record w

/-- The paths are those of the set, each once. -/
structure PathSet.ListedBy (s : PathSet) (paths : List Path) : Prop where
  distinct : paths.Pairwise fun p q => ¬p.Same q
  contains_iff : ∀ p, s.contains p = true ↔ ∃ q ∈ paths, q.Same p

/-- The facility accepted `new`, of which nothing was registered before and everything is now. -/
structure Takes (record : World → List Path) (new : List Path) (before : PathSet) (w : World)
    (after : PathSet) (w' : World) : Prop where
  record_eq : record w' = record w ++ new
  registered_eq : after = before.insertAll new
  distinct : new.Pairwise fun p q => ¬p.Same q
  fresh : ∀ p ∈ new, before.contains p = false

namespace Takes

variable {new more : List Path} {s₁ s₂ s₃ : PathSet} {w₁ w₂ w₃ : World}

theorem none (h : record w₂ = record w₁) : Takes record [] s₁ w₁ s₁ w₂ :=
  ⟨by rw [h, List.append_nil], rfl, .nil, by simp⟩

theorem trans (h : Takes record new s₁ w₁ s₂ w₂) (k : Takes record more s₂ w₂ s₃ w₃) :
    Takes record (new ++ more) s₁ w₁ s₃ w₃ := by
  have hmore : ∀ q ∈ more, s₁.contains q = false ∧ ∀ p ∈ new, ¬p.Same q := by
    intro q hq
    have hfresh := k.fresh q hq
    rw [h.registered_eq, Bool.eq_false_iff, ne_eq, PathSet.contains_insertAll_iff, not_or] at hfresh
    exact ⟨Bool.eq_false_iff.2 hfresh.1, fun p hp hpq => hfresh.2 ⟨p, hp, hpq⟩⟩
  refine ⟨?_, ?_, ?_, ?_⟩
  · rw [k.record_eq, h.record_eq, List.append_assoc]
  · rw [k.registered_eq, h.registered_eq, PathSet.insertAll_append]
  · exact List.pairwise_append.2 ⟨h.distinct, k.distinct, fun p hp q hq => (hmore q hq).2 p hp⟩
  · intro p hp
    rcases List.mem_append.1 hp with hp | hp
    · exact h.fresh p hp
    · exact (hmore p hp).1

theorem listedBy (h : Takes record new s₁ w₁ s₂ w₂) (hs : s₁.ListedBy (record w₁)) :
    s₂.ListedBy (record w₂) := by
  refine ⟨?_, ?_⟩
  · rw [h.record_eq]
    refine List.pairwise_append.2 ⟨hs.distinct, h.distinct, fun p hp q hq hpq => ?_⟩
    have hknown : s₁.contains q = true := (hs.contains_iff q).2 ⟨p, hp, hpq⟩
    rw [h.fresh q hq] at hknown
    cases hknown
  · intro p
    rw [h.registered_eq, PathSet.contains_insertAll_iff, hs.contains_iff, h.record_eq]
    simp [or_and_right, exists_or]

end Takes

def Trail.Adds (record : World → List Path) (new : List Path) (t t' : Trail World) : Prop :=
  Takes record new t.registered t.world t'.registered t'.world ∧ t'.added = t.added ++ new

namespace Trail

variable {t t₁ t₂ t₃ : Trail World}

theorem Adds.none (hrecord : record t₂.world = record t₁.world)
    (hregistered : t₂.registered = t₁.registered) (hadded : t₂.added = t₁.added) :
    Adds record [] t₁ t₂ := by
  refine ⟨?_, by rw [hadded, List.append_nil]⟩
  rw [hregistered]
  exact .none hrecord

theorem Adds.trans {new more : List Path} (h : Adds record new t₁ t₂) (k : Adds record more t₂ t₃) :
    Adds record (new ++ more) t₁ t₃ :=
  ⟨h.1.trans k.1, by rw [k.2, h.2, List.append_assoc]⟩

end Trail

namespace Host.Records

theorem maintains (h : host.Records record) (log : List Path) :
    host.toFileSystem.Maintains fun w => record w = log :=
  ⟨fun p w hw => (h.isDirectory p w).trans hw, fun p w hw => (h.entries p w).trans hw⟩

theorem register (h : host.Records record) (directory : Path) (t : Trail World) :
    ∃ new, Trail.Adds record new t (Trail.register host directory t).2 := by
  rw [Trail.register]
  split
  · exact ⟨[], .none rfl rfl rfl⟩
  · rename_i hunknown
    split
    · rename_i hrefused
      exact ⟨[], .none (h.refuses hrefused) rfl rfl⟩
    · rename_i haccepted
      have hfresh : t.registered.contains directory = false := by simpa using hunknown
      refine ⟨[directory], ⟨h.accepts haccepted, rfl, List.pairwise_singleton _ _, ?_⟩, rfl⟩
      intro p hp
      rwa [List.mem_singleton.1 hp]

theorem visit (h : host.Records record) (directory : Path) (t : Trail World) :
    ∃ new, Trail.Adds record new t (Trail.visit host directory t).2 := by
  have hanswer := h.isDirectory directory t.world
  rw [Trail.visit]
  rcases hasked : host.isDirectory directory t.world with ⟨fault | _ | _, w⟩
  all_goals rw [hasked] at hanswer
  · exact ⟨[], .none hanswer rfl rfl⟩
  · exact ⟨[], .none hanswer rfl rfl⟩
  · obtain ⟨new, hnew⟩ := h.register directory { t with world := w }
    have hfirst : Trail.Adds record [] t { t with world := w } := .none hanswer rfl rfl
    have hregistered := hfirst.trans hnew
    dsimp only
    split
    · rename_i hregister
      rw [hregister] at hregistered
      exact ⟨_, hregistered⟩
    · rename_i t₁ hregister
      rw [hregister] at hregistered
      have hlooked : Trail.Adds record [] t₁ (Trail.children host directory t₁).2 :=
        .none ((h.maintains _).children directory rfl) (Trail.registered_children host directory t₁)
          (Trail.added_children host directory t₁)
      exact ⟨_, hregistered.trans hlooked⟩

theorem walkFrom (h : host.Records record) (start : Path) (wanted : Path → Bool) (limit : Nat)
    (stack : List Path) (t : Trail World) :
    ∃ new, Trail.Adds record new t (Trail.walkFrom host start wanted limit stack t).2 := by
  fun_induction Trail.walkFrom host start wanted limit stack t with
  | case1 => exact ⟨[], .none rfl rfl rfl⟩
  | case2 => exact ⟨[], .none rfl rfl rfl⟩
  | case3 limit directory rest t htaken e t' hvisit =>
    simpa [hvisit] using h.visit directory t
  | case4 limit directory rest t htaken found t' hvisit ih =>
    obtain ⟨new, hnew⟩ := h.visit directory t
    rw [hvisit] at hnew
    obtain ⟨more, hmore⟩ := ih
    exact ⟨_, hnew.trans hmore⟩
  | case5 limit directory rest t htaken ih => exact ih

theorem walkAll (h : host.Records record) (wanted : Path → Bool) (starts : List Path)
    (t : Trail World) : ∃ new, Trail.Adds record new t (Trail.walkAll host wanted starts t).2 := by
  fun_induction Trail.walkAll host wanted starts t with
  | case1 => exact ⟨[], .none rfl rfl rfl⟩
  | case2 start rest t e t' hwalk =>
    have hfirst := h.walkFrom start wanted (host.walkLimit t.world) [start] t
    rw [Trail.walk] at hwalk
    rwa [hwalk] at hfirst
  | case3 start rest t t' hwalk ih =>
    obtain ⟨new, hnew⟩ := h.walkFrom start wanted (host.walkLimit t.world) [start] t
    rw [Trail.walk] at hwalk
    rw [hwalk] at hnew
    obtain ⟨more, hmore⟩ := ih
    exact ⟨_, hnew.trans hmore⟩

theorem call (h : host.Records record) (s : Session) (w : World) (c : Call) :
    let step := s.call host w c
    ∃ new, Takes record new s.registered w step.session.registered step.world ∧
      ∀ outcome, step.result = .ok outcome → outcome.directories = new := by
  have hbare := Session.bare_call host s w c
  have hasked := (h.maintains (record w)).errand s c rfl
  rcases herrand : s.errand host.toFileSystem w c with ⟨e | errand, w₁⟩
  all_goals
    rw [herrand] at hbare hasked
    dsimp only at hbare hasked ⊢
  · obtain ⟨hresult, hsession, hworld⟩ := Step.bare_eq_iff.1 hbare
    rw [hresult, hsession, hworld]
    exact ⟨[], .none hasked, by simp⟩
  · obtain ⟨new, htakes, hadded⟩ := h.walkAll errand.wanted errand.starts (s.trail w₁)
    have hstart : Takes record [] s.registered w s.registered w₁ := .none hasked
    have hwhole := hstart.trans htakes
    rcases hwalk : Trail.walkAll host errand.wanted errand.starts (s.trail w₁) with ⟨e | _, t⟩
    all_goals
      rw [hwalk] at hbare hwhole hadded
      obtain ⟨hresult, hsession, hworld⟩ := Step.bare_eq_iff.1 hbare
      rw [hresult, hsession, hworld]
    · exact ⟨_, hwhole, by simp⟩
    · refine ⟨_, hwhole, fun outcome houtcome => ?_⟩
      rw [← Except.ok.inj houtcome]
      exact hadded

theorem handlePaths (h : host.Records record) (created : Bool) (s : Session) (paths : List Path)
    (w : World) :
    let after := s.handlePaths host created paths w
    ∃ new, Takes record new s.registered w after.2.1.registered after.2.2 := by
  induction paths generalizing s w with
  | nil => exact ⟨[], .none rfl⟩
  | cons p rest ih =>
    cases created with
    | false => exact ih s w
    | true =>
      obtain ⟨new, hnew, -⟩ := h.call s w (.created p)
      obtain ⟨more, hmore⟩ := ih (s.directoryCreated host p w).session
        (s.directoryCreated host p w).world
      exact ⟨_, hnew.trans hmore⟩

end Host.Records

theorem Host.logged_records (host : Host World) : host.logged.Records Logged.accepted := by
  refine ⟨fun p w => rfl, fun p w => rfl, ?_, ?_⟩
  · intro p log after h
    simp only [logged] at h
    split at h <;> cases h
    rfl
  · intro p log after fault h
    simp only [logged] at h
    split at h <;> cases h
    rfl

namespace Session

theorem perform_takes (host : Host World) (s : Session) (log : Logged World)
    (operation : Operation World) :
    let after := s.perform host.logged log operation.logged
    ∃ new, Takes Logged.accepted new s.registered log after.2.1.registered after.2.2 := by
  have hrecords := host.logged_records
  cases operation with
  | register request =>
    obtain ⟨new, hnew, -⟩ := hrecords.call s log (.register request)
    exact ⟨new, hnew⟩
  | created directory =>
    obtain ⟨new, hnew, -⟩ := hrecords.call s log (.created directory)
    exact ⟨new, hnew⟩
  | handle event => exact hrecords.handlePaths event.created s event.paths log
  | meanwhile change => exact ⟨[], .none rfl⟩

theorem listedBy_run (host : Host World) (policy : Policy) (operations : List (Operation World))
    (w : World) :
    let history := (start policy).run host.logged (operations.map .logged) ⟨w, []⟩
    history.session.registered.ListedBy history.world.accepted := by
  induction operations using List.reverseRecOn with
  | nil => exact ⟨.nil, fun p => by simp [run, start, PathSet.contains_empty]⟩
  | append_singleton operations operation ih =>
    rw [List.map_append, List.map_singleton, run_concat]
    obtain ⟨new, hnew⟩ := perform_takes host _ _ operation
    exact hnew.listedBy ih

theorem registerAll_takes {host : Host World} (h : host.Records record) (s : Session)
    (requests : List (String × Request)) (w : World) {planned : List PlannedRequest}
    (hplan : (s.registerAll host requests w).result = .ok planned) :
    let plan := s.registerAll host requests w
    Takes record (planned.flatMap PlannedRequest.directories) s.registered w
      plan.session.registered plan.world := by
  induction requests generalizing s w planned with
  | nil =>
    cases hplan
    exact .none rfl
  | cons named rest ih =>
    obtain ⟨new, hnew, hdirectories⟩ := h.call s w (.register named.2)
    rcases hregister : s.register host named.2 w with ⟨e | done, s₁, notices, w₁⟩
    all_goals simp only [registerAll, hregister] at hplan ⊢
    · cases hplan
    · rw [call, hregister] at hnew hdirectories
      rcases hrest : (registerAll host s₁ rest w₁).result with e | later
      all_goals rw [hrest] at hplan
      · cases hplan
      · cases hplan
        have hsame : done.directories = new := hdirectories _ rfl
        rw [List.flatMap_cons, hsame]
        exact hnew.trans (ih s₁ w₁ hrest)

/-- The directories that a facility accepted are those that are registered, each of them once, and
no operation takes one back. A call that succeeds answers with those it added; so the plan of some
requests lists them all. -/
theorem record_run (host : Host World) (policy : Policy) (operations : List (Operation World))
    (w : World) :
    let history := (start policy).run host.logged (operations.map .logged) ⟨w, []⟩
    let s := history.session
    let log := history.world
    (start policy).run host operations w = ⟨s, log.world, history.answers⟩ ∧
      s.registered.ListedBy log.accepted ∧
      (∀ operation : Operation World,
        log.accepted <+: (s.perform host.logged log operation.logged).2.2.accepted) ∧
      (∀ call outcome, (s.call host log.world call).result = .ok outcome →
        (s.call host.logged log call).world.accepted = log.accepted ++ outcome.directories) ∧
      ∀ requests planned, ((start policy).registerAll host requests w).result = .ok planned →
        ((start policy).registerAll host.logged requests ⟨w, []⟩).world.accepted =
            planned.flatMap PlannedRequest.directories ∧
          planned.Pairwise fun a b => ∀ p ∈ a.directories, ∀ q ∈ b.directories, ¬p.Same q := by
  intro history s log
  have hrecords := host.logged_records
  have hmirrors := host.logged_mirrors
  refine ⟨run_logged host _ operations ⟨w, []⟩, listedBy_run host policy operations w, ?_, ?_, ?_⟩
  · intro operation
    obtain ⟨new, hnew⟩ := perform_takes host s log operation
    exact ⟨new, hnew.record_eq.symm⟩
  · intro call outcome hok
    obtain ⟨new, hnew, hdirectories⟩ := hrecords.call s log call
    rw [hmirrors.call] at hok
    rw [hnew.record_eq, hdirectories outcome hok]
  · intro requests planned hplan
    have hseen := hmirrors.registerAll (start policy) requests ⟨w, []⟩
    dsimp only at hseen
    rw [hseen] at hplan
    have htakes := registerAll_takes hrecords (start policy) requests ⟨w, []⟩ hplan
    exact ⟨htakes.record_eq, (List.pairwise_flatMap.1 htakes.distinct).2⟩

end Session

end DirectoryWatch
