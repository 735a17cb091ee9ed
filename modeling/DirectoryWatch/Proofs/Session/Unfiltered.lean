import DirectoryWatch.Proofs.Session.Filters
import DirectoryWatch.Proofs.Session.Spelling

/-!
# Sessions on topmost roots

Requests can be replaced by their topmost roots. A session on a host that ignores spelling then
watches the same directories and fails at the same operations, and it reports no less.
-/
namespace DirectoryWatch

variable {World : Type} {host : Host World} {alike : World → World → Prop}

/-- The same decisions from here on, on requests of which the second ones have no filters. -/
structure Session.Resembles (s s' : Session) : Prop where
  policy : s.policy = s'.policy
  registry : s.registry.Resembles s'.registry
  registered : ∀ p, s.registered.contains p = s'.registered.contains p

structure Registration.Resembles (done done' : Registration) : Prop where
  update : done.update.Resembles done'.update
  directories : Path.AllSame done.directories done'.directories

structure Step.Resembles {α : Type} (rel : α → α → Prop) (alike : World → World → Prop)
    (step step' : Step World α) : Prop where
  result : Agree rel step.result step'.result
  session : step.session.Resembles step'.session
  world : alike step.world step'.world

namespace Session.Resembles

variable {s s' : Session}

theorem trail (h : s.Resembles s') {w w' : World} (hw : alike w w') :
    (s.trail w).Resembles alike (s'.trail w') :=
  ⟨h.registered, .nil, hw⟩

theorem register (hhost : host.IgnoresSpelling alike) (h : s.Resembles s') (request : Request)
    {w w' : World} (hw : alike w w') :
    (s.register host request w).Resembles Registration.Resembles alike
      (s'.register host request.unfiltered w') := by
  have hmerged := h.registry.register hhost.toIgnoresSpelling s'.policy request hw
  rw [Session.register, Session.register, h.policy]
  generalize s.registry.register _ _ request w = x at hmerged ⊢
  generalize s'.registry.register _ _ request.unfiltered w' = y at hmerged ⊢
  cases hmerged with
  | error hw => exact ⟨.error, h, hw⟩
  | ok hmerged hw =>
    obtain ⟨hregistry, hupdate⟩ := hmerged
    have hwalks := hhost.walkAll hupdate.needsWatch hupdate.newPoints (h.trail hw)
    dsimp only
    generalize Trail.walkAll host _ _ (s.trail _) = x at hwalks ⊢
    generalize Trail.walkAll host _ _ (s'.trail _) = y at hwalks ⊢
    cases hwalks with
    | error ht => exact ⟨.error, ⟨rfl, h.registry, ht.registered⟩, ht.world⟩
    | ok _ ht => exact ⟨.ok ⟨hupdate, ht.added⟩, ⟨rfl, hregistry, ht.registered⟩, ht.world⟩

theorem directoryCreated (hhost : host.IgnoresSpelling alike) (h : s.Resembles s')
    (directory : Path) {w w' : World} (hw : alike w w') :
    (s.directoryCreated host directory w).Resembles Path.AllSame alike
      (s'.directoryCreated host directory w') := by
  rw [Session.directoryCreated, Session.directoryCreated,
    h.registry.needsWatch (.refl directory)]
  split
  · have hwalk := hhost.walk (.refl directory) (fun p q => h.registry.needsWatch) (h.trail hw)
    generalize Trail.walk host _ _ (s.trail _) = x at hwalk ⊢
    generalize Trail.walk host _ _ (s'.trail _) = y at hwalk ⊢
    cases hwalk with
    | error ht => exact ⟨.error, ⟨h.policy, h.registry, ht.registered⟩, ht.world⟩
    | ok _ ht => exact ⟨.ok ht.added, ⟨h.policy, h.registry, ht.registered⟩, ht.world⟩
  · exact ⟨.ok .nil, h, hw⟩

theorem handlePaths (hhost : host.IgnoresSpelling alike) (h : s.Resembles s') (created : Bool)
    (paths : List Path) {w w' : World} (hw : alike w w') :
    (s.handlePaths host created paths w).1.Sublist (s'.handlePaths host created paths w').1 ∧
      (s.handlePaths host created paths w).2.1.Resembles
        (s'.handlePaths host created paths w').2.1 ∧
      alike (s.handlePaths host created paths w).2.2
        (s'.handlePaths host created paths w').2.2 := by
  induction paths generalizing s s' w w' with
  | nil => exact ⟨.slnil, h, hw⟩
  | cons p rest ih =>
    have hstep {s s' : Session} {w w' : World} (h : s.Resembles s') (hw : alike w w') :
        (if s.reports p then p :: (s.handlePaths host created rest w).1
          else (s.handlePaths host created rest w).1).Sublist
        (if s'.reports p then p :: (s'.handlePaths host created rest w').1
          else (s'.handlePaths host created rest w').1) := by
      have hrest := (ih h hw).1
      cases hp : s.reports p with
      | true =>
        have hp' : s'.reports p = true := h.registry.reports hp
        rw [if_pos rfl, if_pos hp']
        exact hrest.cons_cons p
      | false =>
        rw [if_neg Bool.false_ne_true]
        split
        · exact hrest.cons p
        · exact hrest
    cases created with
    | true =>
      have htaken := h.directoryCreated hhost p hw
      exact ⟨hstep htaken.session htaken.world, (ih htaken.session htaken.world).2⟩
    | false => exact ⟨hstep h hw, (ih h hw).2⟩

end Session.Resembles

abbrev Operation.unfiltered : Operation World → Operation World := mapRequest Request.unfiltered

/-- Worlds that are alike stay alike when they change by themselves. -/
def Operation.Respects (alike : World → World → Prop) : Operation World → Prop
  | .meanwhile change => ∀ w w', alike w w' → alike (change w) (change w')
  | _ => True

/-- Both fail, or both did the same; no less is reported. -/
inductive Answer.Resembles : Answer → Answer → Prop
  | registered {request : Request} {result result' : Except Failure Registration}
      (h : Agree Registration.Resembles result result') :
      Resembles (.registered request result) (.registered request.unfiltered result')
  | created {result result' : Except Failure (List Path)} (h : Agree Path.AllSame result result') :
      Resembles (.created result) (.created result')
  | reported {paths paths' : List Path} (h : paths.Sublist paths') :
      Resembles (.reported paths) (.reported paths')
  | nothing : Resembles .nothing .nothing

namespace Session.Resembles

variable {s s' : Session}

theorem perform (hhost : host.IgnoresSpelling alike) (h : s.Resembles s')
    {operation : Operation World} (hoperation : operation.Respects alike) {w w' : World}
    (hw : alike w w') :
    (s.perform host w operation).1.Resembles (s'.perform host w' operation.unfiltered).1 ∧
      (s.perform host w operation).2.1.Resembles (s'.perform host w' operation.unfiltered).2.1 ∧
      alike (s.perform host w operation).2.2 (s'.perform host w' operation.unfiltered).2.2 := by
  cases operation with
  | register request =>
    have hstep := h.register hhost request hw
    exact ⟨.registered hstep.result, hstep.session, hstep.world⟩
  | created directory =>
    have hstep := h.directoryCreated hhost directory hw
    exact ⟨.created hstep.result, hstep.session, hstep.world⟩
  | handle event =>
    obtain ⟨hpaths, hafter⟩ := h.handlePaths hhost event.created event.paths hw
    exact ⟨.reported hpaths, hafter⟩
  | meanwhile change => exact ⟨.nothing, h, hoperation w w' hw⟩

theorem run (hhost : host.IgnoresSpelling alike) (h : s.Resembles s')
    {operations : List (Operation World)}
    (hoperations : ∀ operation ∈ operations, operation.Respects alike) {w w' : World}
    (hw : alike w w') :
    let history := s.run host operations w
    let flat := s'.run host (operations.map Operation.unfiltered) w'
    List.Forall₂ Answer.Resembles history.answers flat.answers ∧
      history.session.Resembles flat.session ∧ alike history.world flat.world := by
  induction operations generalizing s s' w w' with
  | nil => exact ⟨.nil, h, hw⟩
  | cons operation rest ih =>
    obtain ⟨hfirst, hrest⟩ := List.forall_mem_cons.1 hoperations
    obtain ⟨hanswer, hsession, hworld⟩ := h.perform hhost hfirst hw
    obtain ⟨hanswers, hafter⟩ := ih hsession hrest hworld
    exact ⟨.cons hanswer hanswers, hafter⟩

end Session.Resembles

structure Logged.Resembles (alike : World → World → Prop) (log log' : Logged World) : Prop where
  world : alike log.world log'.world
  accepted : Path.AllSame log.accepted log'.accepted

theorem Alongside.logged {ε α β : Type} {rel : α → β → Prop} {x : Except ε α × World}
    {y : Except ε β × World} (h : Alongside rel alike x y) {log log' : Logged World}
    (hlog : log.Resembles alike log') :
    Alongside rel (Logged.Resembles alike) (x.1, { log with world := x.2 })
      (y.1, { log' with world := y.2 }) := by
  cases h with
  | ok hresult hw => exact .ok hresult ⟨hw, hlog.accepted⟩
  | error hw => exact .error ⟨hw, hlog.accepted⟩

theorem Host.IgnoresSpelling.logged (h : host.IgnoresSpelling alike) :
    host.logged.IgnoresSpelling (Logged.Resembles alike) where
  isDirectory hpq hlog := (h.isDirectory hpq hlog.world).logged hlog
  entries hpq hlog := (h.entries hpq hlog.world).logged hlog
  walkLimit hlog := h.walkLimit hlog.world
  watch {p q log log'} hpq hlog := by
    have hanswer := h.watch hpq hlog.world
    simp only [Host.logged]
    generalize host.watch p log.world = x at hanswer ⊢
    generalize host.watch q log'.world = y at hanswer ⊢
    cases hanswer with
    | ok ha hw => exact .ok ha ⟨hw, hlog.accepted.append (.cons hpq .nil)⟩
    | error hw => exact .error ⟨hw, hlog.accepted⟩

/-- What two runs beside a log have in common, the second one on topmost roots. -/
structure History.Resembles (alike : World → World → Prop) (history flat : History (Logged World)) :
    Prop where
  answers : List.Forall₂ Answer.Resembles history.answers flat.answers
  session : history.session.Resembles flat.session
  needsWatch : ∀ d, history.session.registry.needsWatch d = flat.session.registry.needsWatch d
  reports : ∀ p, history.session.reports p = true → flat.session.reports p = true
  log : history.world.Resembles alike flat.world

namespace Session

theorem logRun_resembles (hhost : host.IgnoresSpelling alike) (policy : Policy)
    {operations : List (Operation World)}
    (hoperations : ∀ operation ∈ operations, operation.Respects alike) {w w' : World}
    (hw : alike w w') :
    (logRun host policy operations w).Resembles alike
      (logRun host policy (operations.map .unfiltered) w') := by
  have hrespects : ∀ operation ∈ operations.map Operation.logged,
      operation.Respects (Logged.Resembles alike) := by
    refine List.forall_mem_map.2 fun operation hmem => ?_
    cases operation with
    | meanwhile change =>
      exact fun log log' hlog => ⟨hoperations _ hmem _ _ hlog.world, hlog.accepted⟩
    | _ => trivial
  have hstart : (start policy).Resembles (start policy) :=
    ⟨rfl, ⟨⟨fun _ => rfl, rfl⟩, fun _ => rfl, fun _ => rfl⟩, fun _ => rfl⟩
  have hlogs : Logged.Resembles alike ⟨w, []⟩ ⟨w', []⟩ := ⟨hw, .nil⟩
  obtain ⟨hanswers, hsession, hlog⟩ := hstart.run hhost.logged hrespects hlogs
  rw [← Operation.map_mapRequest_logged] at hanswers hsession hlog
  exact ⟨hanswers, hsession, fun d => hsession.registry.needsWatch (.refl d),
    fun p => hsession.registry.reports, hlog⟩

/-- Filters decide what is reported and nothing else. Operations that differ in the filters of their
requests alone come to the same results, the same session, the same log and the same world, but for
the filters; dropping the filters takes no report away. Nor does it when each request is replaced by
its topmost roots: where the host ignores spelling the same calls fail then, and everything else is
the same up to the spelling of paths. -/
theorem filters_decide_reports_alone (host : Host World) (policy : Policy)
    {operations others : List (Operation World)}
    (h : operations.map Operation.bare = others.map Operation.bare) (w : World) :
    let history := logRun host policy operations w
    let other := logRun host policy others w
    history.bare = other.bare ∧
      (∀ d, history.session.registry.needsWatch d = other.session.registry.needsWatch d) ∧
      (∀ p, history.session.reports p = true →
        (logRun host policy (operations.map .bare) w).session.reports p = true) ∧
      ∀ alike : World → World → Prop, host.IgnoresSpelling alike →
        (∀ operation ∈ operations, operation.Respects alike) → ∀ w', alike w w' →
          history.Resembles alike (logRun host policy (operations.map .unfiltered) w') := by
  intro history other
  obtain ⟨hsession, hbare⟩ := logRun_bare host policy operations w
  obtain ⟨hsession', hbare'⟩ := logRun_bare host policy others w
  rw [h] at hsession hbare
  have hsame : history.session.bare = other.session.bare := hsession.symm.trans hsession'
  refine ⟨hbare.symm.trans hbare', fun d => ?_, fun p hp => ?_, ?_⟩
  · have hregistry := congrArg Session.registry hsame
    have hneeds := congrFun (congrArg Registry.needsWatch hregistry) d
    rwa [bare, bare, Registry.needsWatch_bare, Registry.needsWatch_bare] at hneeds
  · rw [h, hsession]
    exact Registry.reports_bare_of_reports hp
  · exact fun alike hhost hoperations w' hw => logRun_resembles hhost policy hoperations hw

/-- A directory `src` of which only what ends in `.rs` is of interest. -/
def rustSources : Request :=
  ⟨[], [⟨Path.ofString "src", (Filter.ofPatterns ["**/*.rs"] []).toOption.getD .admitAll⟩]⟩

def sourceListing : Listing := .build [.directory (Path.ofString "/p/src/nested")]

def sourceHost : Host Listing := (Listing.fileSystem (Path.ofString "/p")).dry

def sourceOperations (request : Request) : List (Operation Listing) :=
  [.register request, .handle ⟨true, [Path.ofString "/p/src/nested/notes.txt"]⟩]

theorem filters_decide_reports_alone_rustSources :
    let history := logRun sourceHost .collapse (sourceOperations rustSources) sourceListing
    let flat := logRun sourceHost .collapse
      ((sourceOperations rustSources).map .unfiltered) sourceListing
    (sourceOperations rustSources).map Operation.bare =
        (sourceOperations rustSources.bare).map Operation.bare ∧
      sourceHost.IgnoresSpelling Eq ∧
      history.session.reports (Path.ofString "/p/src/nested/notes.txt") = false ∧
      flat.session.reports (Path.ofString "/p/src/nested/notes.txt") = true ∧
      history.session.registered.contains (Path.ofString "/p/src/nested") = true ∧
      history.bare =
        (logRun sourceHost .collapse (sourceOperations rustSources.bare) sourceListing).bare ∧
      history.Resembles Eq flat := by
  have hhost : sourceHost.IgnoresSpelling Eq := (Listing.ignoresSpelling_fileSystem _).dry
  have hbare : (sourceOperations rustSources).map Operation.bare =
      (sourceOperations rustSources.bare).map Operation.bare := by
    simp only [sourceOperations, List.map_cons, Operation.mapRequest, Request.bare_bare]
  obtain ⟨hsame, -, -, hflat⟩ :=
    filters_decide_reports_alone sourceHost .collapse hbare sourceListing
  refine ⟨hbare, hhost, by decide +kernel, by decide +kernel, by decide +kernel, hsame, ?_⟩
  exact hflat Eq hhost (by simp [sourceOperations, Operation.Respects]) sourceListing rfl

end Session

end DirectoryWatch
