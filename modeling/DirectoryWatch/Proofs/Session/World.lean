import DirectoryWatch.Proofs.Registry.Nearest
import DirectoryWatch.Session.Basic

/-!
# Invariants of the world

What no answer of the file system and no call of the facility can make untrue holds after walks
and registrations as it did before.
-/
namespace DirectoryWatch

variable {World : Type} {host : Host World} {now : World → Prop}

/-- No answer of the file system makes `now` untrue. -/
structure FileSystem.Maintains (fs : FileSystem World) (now : World → Prop) : Prop where
  isDirectory : ∀ p w, now w → now (fs.isDirectory p w).2
  entries : ∀ p w, now w → now (fs.entries p w).2

structure Host.Maintains (host : Host World) (now : World → Prop) : Prop where
  isDirectory : ∀ p w, now w → now (host.isDirectory p w).2
  entries : ∀ p w, now w → now (host.entries p w).2
  watch : ∀ p w, now w → now (host.watch p w).2

namespace FileSystem.Maintains

variable {fs : FileSystem World}

theorem nearest (h : fs.Maintains now) (root : Path) {w : World} (hw : now w) :
    now (fs.nearest root w).2 := by
  rw [FileSystem.nearest]
  fun_induction FileSystem.firstDirectory fs root root.ancestors w with
  | case1 => exact hw
  | case2 => exact hw
  | case3 p rest w hrest fault w' heq => simpa [heq] using h.isDirectory p w hw
  | case4 p rest w hrest w' heq => simpa [heq] using h.isDirectory p w hw
  | case5 p rest w hrest w' heq ih =>
    refine ih ?_
    simpa [heq] using h.isDirectory p w hw

theorem nearestAll (h : fs.Maintains now) (roots : List Path) {w : World} (hw : now w) :
    now (fs.nearestAll roots w).2 := by
  fun_induction FileSystem.nearestAll fs roots w with
  | case1 => exact hw
  | case2 root rest w e w₁ heq => simpa [heq] using h.nearest root hw
  | case3 root rest w p w₁ heq e w₂ hrest ih =>
    have hfirst := h.nearest root hw
    rw [heq] at hfirst
    simpa [hrest] using ih hfirst
  | case4 root rest w p w₁ heq ps w₂ hrest ih =>
    have hfirst := h.nearest root hw
    rw [heq] at hfirst
    simpa [hrest] using ih hfirst

theorem registryRegister (h : fs.Maintains now) (policy : Policy) (registry : Registry)
    (request : Request) {w : World} (hw : now w) :
    now (registry.register fs policy request w).2 := by
  rw [Registry.register]
  split
  · exact hw
  · rename_i absolute _
    have hnearest := h.nearestAll absolute.roots hw
    split
    all_goals
      rename_i heq
      rw [heq] at hnearest
      exact hnearest

theorem directoriesAmong (h : host.toFileSystem.Maintains now) (entries : List Path)
    {t : Trail World} (ht : now t.world) :
    now (Trail.directoriesAmong host entries t).2.world := by
  fun_induction Trail.directoriesAmong host entries t with
  | case1 => exact ht
  | case2 entry rest t w heq found t' hrest ih =>
    have hfirst := h.isDirectory entry t.world ht
    rw [heq] at hfirst
    simpa [hrest] using ih hfirst
  | case3 entry rest t w heq ih =>
    have hfirst := h.isDirectory entry t.world ht
    rw [heq] at hfirst
    exact ih hfirst
  | case4 entry rest t fault w heq ih =>
    have hfirst := h.isDirectory entry t.world ht
    rw [heq] at hfirst
    exact ih hfirst

theorem children (h : host.toFileSystem.Maintains now) (directory : Path) {t : Trail World}
    (ht : now t.world) : now (Trail.children host directory t).2.world := by
  have hentries := h.entries directory t.world ht
  rw [Trail.children]
  split
  · rename_i entries w heq
    rw [heq] at hentries
    exact h.directoriesAmong entries (t := { t with world := w }) hentries
  · rename_i fault w heq
    rw [heq] at hentries
    have hanswer := h.isDirectory directory w hentries
    split
    all_goals
      rename_i heq
      rw [heq] at hanswer
      exact hanswer

end FileSystem.Maintains

/-- Nothing that a host does makes `now` untrue, as long as only allowed directories are handed over,
each right after it was found to be a directory. -/
structure Host.Guards (host : Host World) (allowed : Path → Prop) (now : World → Prop) : Prop where
  fileSystem : host.toFileSystem.Maintains now
  hands : ∀ {p w w'}, allowed p → now w → host.isDirectory p w = (.ok true, w') →
    now (host.watch p w').2

theorem Trail.now_register {directory : Path} {t : Trail World} (ht : now t.world)
    (hwatch : now (host.watch directory t.world).2) :
    now (Trail.register host directory t).2.world := by
  rw [Trail.register]
  split
  · exact ht
  · split
    all_goals
      rename_i heq
      rw [heq] at hwatch
      exact hwatch

namespace Host.Guards

variable {allowed : Path → Prop} {wanted : Path → Bool}

theorem visit (h : host.Guards allowed now) {directory : Path} (hallowed : allowed directory)
    {t : Trail World} (ht : now t.world) : now (Trail.visit host directory t).2.world := by
  have hanswer := h.fileSystem.isDirectory directory t.world ht
  rw [Trail.visit]
  rcases hasked : host.isDirectory directory t.world with ⟨fault | _ | _, w⟩
  all_goals rw [hasked] at hanswer
  · exact hanswer
  · exact hanswer
  · have hregister := Trail.now_register (t := { t with world := w }) hanswer
      (h.hands hallowed ht hasked)
    dsimp only
    split
    all_goals
      rename_i heq
      rw [heq] at hregister
    · exact hregister
    · exact h.fileSystem.children directory hregister

theorem walkFrom (h : host.Guards allowed now) {start : Path}
    (hallowed : ∀ p, p.Same start ∨ wanted p = true → allowed p) (limit : Nat)
    (stack : List Path) {t : Trail World} (ht : now t.world) :
    now (Trail.walkFrom host start wanted limit stack t).2.world := by
  fun_induction Trail.walkFrom host start wanted limit stack t with
  | case1 => exact ht
  | case2 => exact ht
  | case3 limit directory rest t htaken e t' hvisit =>
    simpa [hvisit] using h.visit (hallowed directory htaken) ht
  | case4 limit directory rest t htaken found t' hvisit ih =>
    have hfirst := h.visit (hallowed directory htaken) ht
    rw [hvisit] at hfirst
    exact ih hfirst
  | case5 limit directory rest t htaken ih => exact ih ht

theorem walkAll (h : host.Guards allowed now) {starts : List Path}
    (hallowed : ∀ start ∈ starts, ∀ p, p.Same start ∨ wanted p = true → allowed p)
    {t : Trail World} (ht : now t.world) :
    now (Trail.walkAll host wanted starts t).2.world := by
  fun_induction Trail.walkAll host wanted starts t with
  | case1 => exact ht
  | case2 start rest t e t' hwalk =>
    have hfirst := h.walkFrom (hallowed start (by simp)) (host.walkLimit t.world) [start] ht
    rw [Trail.walk] at hwalk
    rwa [hwalk] at hfirst
  | case3 start rest t t' hwalk ih =>
    have hfirst := h.walkFrom (hallowed start (by simp)) (host.walkLimit t.world) [start] ht
    rw [Trail.walk] at hwalk
    rw [hwalk] at hfirst
    exact ih (fun other hother => hallowed other (List.mem_cons_of_mem start hother)) hfirst

end Host.Guards

namespace Host.Maintains

theorem fileSystem (h : host.Maintains now) : host.toFileSystem.Maintains now :=
  ⟨h.isDirectory, h.entries⟩

theorem guards (h : host.Maintains now) : host.Guards (fun _ => True) now := by
  refine ⟨h.fileSystem, fun {p w w'} _ hw hasked => h.watch p w' ?_⟩
  have hanswer := h.isDirectory p w hw
  rwa [hasked] at hanswer

theorem register (h : host.Maintains now) (directory : Path) {t : Trail World}
    (ht : now t.world) : now (Trail.register host directory t).2.world :=
  Trail.now_register ht (h.watch directory t.world ht)

theorem visit (h : host.Maintains now) (directory : Path) {t : Trail World}
    (ht : now t.world) : now (Trail.visit host directory t).2.world :=
  h.guards.visit trivial ht

theorem walkFrom (h : host.Maintains now) (start : Path) (wanted : Path → Bool) (limit : Nat)
    (stack : List Path) {t : Trail World} (ht : now t.world) :
    now (Trail.walkFrom host start wanted limit stack t).2.world :=
  h.guards.walkFrom (fun _ _ => trivial) limit stack ht

end Host.Maintains

end DirectoryWatch
