import DirectoryWatch.Proofs.Session.World
import DirectoryWatch.Session.Call
import DirectoryWatch.Session.Logged
import DirectoryWatch.Session.Plan
import DirectoryWatch.Session.Traced

/-!
# Worlds seen through a view

Where one host answers like another that sees only a part of its world, everything that a session
does with the first is what it does with the second, seen through the same view. Logging and
tracing are such cases.
-/
namespace DirectoryWatch

variable {World Other : Type}

structure FileSystem.Mirrors (fs : FileSystem World) (other : FileSystem Other)
    (view : World → Other) : Prop where
  isDirectory : ∀ p w, other.isDirectory p (view w) = (fs.isDirectory p w).map id view
  entries : ∀ p w, other.entries p (view w) = (fs.entries p w).map id view
  workingDirectory : other.workingDirectory = fs.workingDirectory
  walkLimit : ∀ w, other.walkLimit (view w) = fs.walkLimit w

structure Host.Mirrors (host : Host World) (other : Host Other) (view : World → Other) : Prop
    extends host.toFileSystem.Mirrors other.toFileSystem view where
  watch : ∀ p w, other.watch p (view w) = (host.watch p w).map id view

namespace FileSystem.Mirrors

variable {fs : FileSystem World} {other : FileSystem Other} {view : World → Other}

theorem nearest (h : fs.Mirrors other view) (root : Path) (w : World) :
    other.nearest root (view w) = (fs.nearest root w).map id view := by
  rw [FileSystem.nearest, FileSystem.nearest]
  fun_induction FileSystem.firstDirectory fs root root.ancestors w with
  | case1 => rfl
  | case2 => rfl
  | case3 p rest w hrest fault w' heq => simp [firstDirectory, h.isDirectory, heq]
  | case4 p rest w hrest w' heq => simp [firstDirectory, h.isDirectory, heq]
  | case5 p rest w hrest w' heq ih => simp [firstDirectory, h.isDirectory, heq, ih]

theorem nearestAll (h : fs.Mirrors other view) (roots : List Path) (w : World) :
    other.nearestAll roots (view w) = (fs.nearestAll roots w).map id view := by
  fun_induction FileSystem.nearestAll fs roots w with
  | case1 => rfl
  | case2 root rest w e w₁ heq => simp [FileSystem.nearestAll, h.nearest, heq]
  | case3 root rest w p w₁ heq e w₂ hrest ih =>
    simp [FileSystem.nearestAll, h.nearest, heq, ih, hrest]
  | case4 root rest w p w₁ heq ps w₂ hrest ih =>
    simp [FileSystem.nearestAll, h.nearest, heq, ih, hrest]

theorem registryRegister (h : fs.Mirrors other view) (policy : Policy) (registry : Registry)
    (request : Request) (w : World) :
    registry.register other policy request (view w) =
      (registry.register fs policy request w).map id view := by
  rw [Registry.register, Registry.register, h.workingDirectory]
  cases request.absolute fs.workingDirectory with
  | error e => rfl
  | ok absolute =>
    simp only [h.nearestAll]
    rcases fs.nearestAll absolute.roots w with ⟨nearest | nearest, w₁⟩ <;> rfl

end FileSystem.Mirrors

def Trail.seen (view : World → Other) (t : Trail World) : Trail Other :=
  ⟨t.registered, t.added, t.skipped, view t.world⟩

def Step.seen {α : Type} (view : World → Other) (step : Step World α) : Step Other α :=
  ⟨step.result, step.session, step.notices, view step.world⟩

namespace Host.Mirrors

variable {host : Host World} {other : Host Other} {view : World → Other}

theorem directoriesAmong (h : host.Mirrors other view) (entries : List Path) (t : Trail World) :
    Trail.directoriesAmong other entries (t.seen view) =
      (Trail.directoriesAmong host entries t).map id (Trail.seen view) := by
  fun_induction Trail.directoriesAmong host entries t with
  | case1 => rfl
  | case2 entry rest t w heq found t' hrest ih =>
    simp only [Trail.seen, Trail.directoriesAmong, h.isDirectory, heq, hrest, Prod.map,
      id_eq] at ih ⊢
    rw [ih]
  | case3 entry rest t w heq ih =>
    simp only [Trail.seen, Trail.directoriesAmong, h.isDirectory, heq, Prod.map, id_eq] at ih ⊢
    rw [ih]
  | case4 entry rest t fault w heq ih =>
    simp only [Trail.seen, Trail.directoriesAmong, h.isDirectory, heq, Prod.map, id_eq] at ih ⊢
    rw [ih]

theorem register (h : host.Mirrors other view) (directory : Path) (t : Trail World) :
    Trail.register other directory (t.seen view) =
      (Trail.register host directory t).map id (Trail.seen view) := by
  simp only [Trail.register, Trail.seen, h.watch]
  split
  · rfl
  · rcases host.watch directory t.world with ⟨fault | _, w⟩ <;> rfl

theorem children (h : host.Mirrors other view) (directory : Path) (t : Trail World) :
    Trail.children other directory (t.seen view) =
      (Trail.children host directory t).map id (Trail.seen view) := by
  have hentries : other.entries directory (t.seen view).world = _ := h.entries directory t.world
  rw [Trail.children, Trail.children, hentries]
  rcases host.entries directory t.world with ⟨fault | entries, w⟩
  · have hanswer := h.isDirectory directory w
    rcases hasked : host.isDirectory directory w with ⟨_ | _ | _, w'⟩
    all_goals
      rw [hasked] at hanswer
      simp only [Prod.map, id_eq, hanswer, hasked]
      rfl
  · have hamong := h.directoriesAmong entries { t with world := w }
    simp only [Trail.seen, Prod.map, id_eq] at hamong ⊢
    rw [hamong]

theorem visit (h : host.Mirrors other view) (directory : Path) (t : Trail World) :
    Trail.visit other directory (t.seen view) =
      (Trail.visit host directory t).map id (Trail.seen view) := by
  have hanswer : other.isDirectory directory (t.seen view).world = _ :=
    h.isDirectory directory t.world
  rw [Trail.visit, Trail.visit, hanswer]
  rcases host.isDirectory directory t.world with ⟨fault | _ | _, w⟩
  · rfl
  · rfl
  · have hregister := h.register directory { t with world := w }
    simp only [Trail.seen, Prod.map, id_eq] at hregister ⊢
    rw [hregister]
    rcases Trail.register host directory { t with world := w } with ⟨e | _, t₁⟩
    · rfl
    · exact h.children directory t₁

theorem walkFrom (h : host.Mirrors other view) (start : Path) (wanted : Path → Bool) (limit : Nat)
    (stack : List Path) (t : Trail World) :
    Trail.walkFrom other start wanted limit stack (t.seen view) =
      (Trail.walkFrom host start wanted limit stack t).map id (Trail.seen view) := by
  fun_induction Trail.walkFrom host start wanted limit stack t with
  | case1 => rw [Trail.walkFrom]; rfl
  | case2 => rfl
  | case3 limit directory rest t hwanted e t' hvisit =>
    rw [Trail.walkFrom, if_pos hwanted, h.visit, hvisit]
    rfl
  | case4 limit directory rest t hwanted found t' hvisit ih =>
    rw [Trail.walkFrom, if_pos hwanted, h.visit, hvisit]
    exact ih
  | case5 limit directory rest t hwanted ih =>
    rw [Trail.walkFrom, if_neg hwanted]
    exact ih

theorem walk (h : host.Mirrors other view) (wanted : Path → Bool) (start : Path)
    (t : Trail World) :
    Trail.walk other wanted start (t.seen view) =
      (Trail.walk host wanted start t).map id (Trail.seen view) := by
  have hlimit : other.walkLimit (t.seen view).world = host.walkLimit t.world :=
    h.walkLimit t.world
  rw [Trail.walk, Trail.walk, hlimit, h.walkFrom]

theorem walkAll (h : host.Mirrors other view) (wanted : Path → Bool) (starts : List Path)
    (t : Trail World) :
    Trail.walkAll other wanted starts (t.seen view) =
      (Trail.walkAll host wanted starts t).map id (Trail.seen view) := by
  fun_induction Trail.walkAll host wanted starts t with
  | case1 => rfl
  | case2 start rest t e t' heq =>
    rw [Trail.walkAll, h.walk, heq]
    rfl
  | case3 start rest t t' heq ih =>
    rw [Trail.walkAll, h.walk, heq]
    exact ih

theorem sessionRegister (h : host.Mirrors other view) (s : Session) (request : Request)
    (w : World) :
    s.register other request (view w) = (s.register host request w).seen view := by
  rw [Session.register, Session.register, h.registryRegister]
  rcases s.registry.register host.toFileSystem s.policy request w with ⟨e | ⟨registry, update⟩, w₁⟩
  · rfl
  · have hwalk : Trail.walkAll other update.needsWatch update.newPoints (s.trail (view w₁)) = _ :=
      h.walkAll update.needsWatch update.newPoints (s.trail w₁)
    simp only [Prod.map, id_eq, hwalk]
    rcases Trail.walkAll host update.needsWatch update.newPoints (s.trail w₁) with ⟨_ | _, t⟩
    all_goals rfl

theorem directoryCreated (h : host.Mirrors other view) (s : Session) (directory : Path)
    (w : World) :
    s.directoryCreated other directory (view w) =
      (s.directoryCreated host directory w).seen view := by
  have hwalk : Trail.walk other s.registry.needsWatch directory (s.trail (view w)) = _ :=
    h.walk s.registry.needsWatch directory (s.trail w)
  rw [Session.directoryCreated, Session.directoryCreated, hwalk]
  split
  · rcases Trail.walk host s.registry.needsWatch directory (s.trail w) with ⟨_ | _, t⟩ <;> rfl
  · rfl

theorem handlePaths (h : host.Mirrors other view) (created : Bool) (s : Session)
    (paths : List Path) (w : World) :
    s.handlePaths other created paths (view w) =
      (s.handlePaths host created paths w).map id (Prod.map id view) := by
  induction paths generalizing s w with
  | nil => rfl
  | cons p rest ih =>
    have hcreated := h.directoryCreated s p w
    cases created with
    | false =>
      simp only [Session.handlePaths, Bool.false_eq_true, if_false, ih]
      rfl
    | true =>
      simp only [Session.handlePaths, if_true, hcreated, Step.seen, ih]
      rfl

theorem call (h : host.Mirrors other view) (s : Session) (w : World) (c : Call) :
    s.call other (view w) c = (s.call host w c).seen view := by
  cases c with
  | register request =>
    rw [Session.call, Session.call, h.sessionRegister]
    rfl
  | watch request =>
    rw [Session.call, Session.call, Session.watch, Session.watch, h.sessionRegister]
    rfl
  | created directory =>
    rw [Session.call, Session.call, h.directoryCreated]
    rfl

theorem registerAll (h : host.Mirrors other view) (s : Session) (requests : List (String × Request))
    (w : World) :
    let plan := s.registerAll host requests w
    s.registerAll other requests (view w) =
      ⟨plan.result, plan.session, plan.notices, view plan.world⟩ := by
  induction requests generalizing s w with
  | nil => rfl
  | cons named rest ih =>
    have hfirst := h.sessionRegister s named.2 w
    rcases hregister : s.register host named.2 w with ⟨result, s₁, notices, w₁⟩
    rw [hregister] at hfirst
    simp only [Session.registerAll, hfirst, hregister, Step.seen]
    rcases result with e | done
    · rfl
    · simp only [ih]

end Host.Mirrors

inductive Operation.Mirrors (view : World → Other) : Operation World → Operation Other → Prop
  | register (request : Request) : Mirrors view (.register request) (.register request)
  | created (directory : Path) : Mirrors view (.created directory) (.created directory)
  | handle (event : Event) : Mirrors view (.handle event) (.handle event)
  | meanwhile {change : World → World} {seen : Other → Other}
      (h : ∀ w, seen (view w) = view (change w)) : Mirrors view (.meanwhile change) (.meanwhile seen)

namespace Host.Mirrors

variable {host : Host World} {other : Host Other} {view : World → Other}

theorem perform (h : host.Mirrors other view) (s : Session) (w : World)
    {operation : Operation World} {seen : Operation Other} (hseen : operation.Mirrors view seen) :
    s.perform other (view w) seen =
      (s.perform host w operation).map id (Prod.map id view) := by
  cases hseen with
  | register request =>
    simp only [Session.perform, h.sessionRegister]
    rfl
  | created directory =>
    simp only [Session.perform, h.directoryCreated]
    rfl
  | handle event =>
    simp only [Session.perform, Session.handle, h.handlePaths]
    rfl
  | meanwhile hchange =>
    simp only [Session.perform, hchange]
    rfl

/-- A run in the other world is the run in this one, seen through the view. -/
theorem run (h : host.Mirrors other view) (s : Session) (w : World)
    {operations : List (Operation World)} {seen : List (Operation Other)}
    (hseen : List.Forall₂ (Operation.Mirrors view) operations seen) :
    let history := s.run host operations w
    s.run other seen (view w) = ⟨history.session, view history.world, history.answers⟩ := by
  induction hseen generalizing s w with
  | nil => rfl
  | cons hfirst _ ih =>
    simp only [Session.run, h.perform s w hfirst, Prod.map, id_eq, ih]

end Host.Mirrors

theorem Host.logged_mirrors (host : Host World) : host.logged.Mirrors host Logged.world := by
  refine ⟨⟨fun p w => rfl, fun p w => rfl, rfl, fun w => rfl⟩, fun p w => ?_⟩
  simp only [Host.logged]
  rcases host.watch p w.world with ⟨fault | _, w'⟩ <;> rfl

theorem Host.traced_mirrors (host : Host World) : host.traced.Mirrors host Traced.world :=
  ⟨⟨fun _ _ => rfl, fun _ _ => rfl, rfl, fun _ => rfl⟩, fun _ _ => rfl⟩

theorem Operation.logged_mirrors (operation : Operation World) :
    operation.logged.Mirrors Logged.world operation := by
  cases operation with
  | register request => exact .register request
  | created directory => exact .created directory
  | handle event => exact .handle event
  | meanwhile change => exact .meanwhile fun _ => rfl

theorem Operation.traced_mirrors (operation : Operation World) :
    operation.traced.Mirrors Traced.world operation := by
  cases operation with
  | register request => exact .register request
  | created directory => exact .created directory
  | handle event => exact .handle event
  | meanwhile change => exact .meanwhile fun _ => rfl

theorem Session.run_logged (host : Host World) (s : Session) (operations : List (Operation World))
    (log : Logged World) :
    let beside := s.run host.logged (operations.map .logged) log
    s.run host operations log.world = ⟨beside.session, beside.world.world, beside.answers⟩ := by
  refine host.logged_mirrors.run s log (List.forall₂_map_left_iff.2 ?_)
  exact List.forall₂_same.2 fun operation _ => operation.logged_mirrors

theorem Session.run_traced (host : Host World) (s : Session) (operations : List (Operation World))
    (t : Traced World) :
    let beside := s.run host.traced (operations.map .traced) t
    s.run host operations t.world = ⟨beside.session, beside.world.world, beside.answers⟩ := by
  refine host.traced_mirrors.run s t (List.forall₂_map_left_iff.2 ?_)
  exact List.forall₂_same.2 fun operation _ => operation.traced_mirrors

end DirectoryWatch
