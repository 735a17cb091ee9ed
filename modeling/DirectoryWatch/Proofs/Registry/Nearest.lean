import DirectoryWatch.Proofs.Path.Components
import DirectoryWatch.Registry.Nearest
import Mathlib.Data.List.Forall2

/-!
# Nearest directories

Whatever the file system answers, the directory nearest to a root is the root or an ancestor of it.
-/
namespace DirectoryWatch

variable {World : Type}

theorem FileSystem.mem_of_firstDirectory {fs : FileSystem World} {root p : Path}
    {chain : List Path} {w w' : World} (hne : chain ≠ [])
    (h : fs.firstDirectory root chain w = (.ok p, w')) : p ∈ chain := by
  fun_induction fs.firstDirectory root chain w with
  | case1 => contradiction
  | case2 w last => simp_all
  | case3 => simp at h
  | case4 => simp_all
  | case5 q rest w hrest w₁ hq ih => exact List.mem_cons_of_mem q (ih hrest h)

theorem FileSystem.mem_ancestors_of_nearest {fs : FileSystem World} {root p : Path} {w w' : World}
    (h : fs.nearest root w = (.ok p, w')) : p ∈ root.ancestors := by
  refine mem_of_firstDirectory ?_ h
  cases hparent : root.parent? with
  | none => simp [Path.ancestors_of_parent?_eq_none hparent]
  | some parent => simp [Path.ancestors_of_parent? hparent]

theorem FileSystem.forall₂_nearestAll {fs : FileSystem World} {roots nearest : List Path}
    {w w' : World} (h : fs.nearestAll roots w = (.ok nearest, w')) :
    List.Forall₂ (fun root p => ∃ w w', fs.nearest root w = (.ok p, w')) roots nearest := by
  induction roots generalizing nearest w with
  | nil =>
    simp only [nearestAll, Prod.mk.injEq, Except.ok.injEq] at h
    obtain ⟨rfl, -⟩ := h
    exact List.Forall₂.nil
  | cons root rest ih =>
    rw [nearestAll] at h
    split at h
    · cases h
    · rename_i p w₁ hp
      split at h
      · cases h
      · rename_i ps w₂ hps
        cases h
        exact List.Forall₂.cons ⟨w, w₁, hp⟩ (ih hps)

theorem FileSystem.atOrBelow_nearestAll {fs : FileSystem World} {roots nearest : List Path}
    {w w' : World} (h : fs.nearestAll roots w = (.ok nearest, w')) :
    List.Forall₂ (fun root p => root.atOrBelow p = true) roots nearest :=
  (forall₂_nearestAll h).imp fun _ _ ⟨_, _, hp⟩ =>
    Path.atOrBelow_of_mem_ancestors (mem_ancestors_of_nearest hp)

theorem FileSystem.isAbsolute_of_mem_nearestAll {fs : FileSystem World} {roots nearest : List Path}
    {w w' : World} (h : fs.nearestAll roots w = (.ok nearest, w'))
    (hroots : ∀ root ∈ roots, root.isAbsolute = true) {p : Path} (hp : p ∈ nearest) :
    p.isAbsolute = true := by
  have hresolved := forall₂_nearestAll h
  clear h
  induction hresolved with
  | nil => cases hp
  | @cons root q roots nearest hq _ ih =>
    rcases List.mem_cons.1 hp with rfl | hp
    · obtain ⟨_, _, hq⟩ := hq
      exact Path.isAbsolute_of_mem_ancestors (hroots root (by simp)) (mem_ancestors_of_nearest hq)
    · exact ih (fun r hr => hroots r (List.mem_cons_of_mem root hr)) hp

/-- A registration that succeeds merges the absolute form of the request with the directories
nearest to its roots. -/
theorem Registry.register_ok {fs : FileSystem World} {policy : Policy}
    {registry : Registry} {request : Request} {merged : Registry × Update} {w w' : World}
    (h : registry.register fs policy request w = (.ok merged, w')) :
    ∃ absolute nearest, request.absolute fs.workingDirectory = .ok absolute ∧
      fs.nearestAll absolute.roots w = (.ok nearest, w') ∧
      merged = registry.merge policy absolute nearest := by
  rw [register] at h
  split at h
  · cases h
  · rename_i absolute habsolute
    split at h
    · cases h
    · rename_i nearest w₁ hnearest
      cases h
      exact ⟨absolute, nearest, habsolute, hnearest, rfl⟩

end DirectoryWatch
