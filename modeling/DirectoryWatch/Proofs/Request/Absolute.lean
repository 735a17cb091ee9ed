import DirectoryWatch.Proofs.Path.Absolute
import DirectoryWatch.Request.Basic

/-!
# Absolute requests

A request has an absolute form unless one of its roots is empty. Read from an absolute working
directory, every root of it becomes absolute.
-/
namespace DirectoryWatch

theorem exists_of_bind_eq_ok {ε α β : Type} {x : Except ε α} {f : α → Except ε β} {b : β}
    (h : (x >>= f) = .ok b) : ∃ a, x = .ok a ∧ f a = .ok b := by
  cases x with
  | error e => cases h
  | ok a => exact ⟨a, rfl, h⟩

/-- Where each step succeeds on some inputs alone, so does the whole. -/
theorem mapM_eq_ok_iff {ε α β : Type} {f : α → Except ε β} {g : α → β} {P : α → Prop}
    (h : ∀ x y, f x = .ok y ↔ P x ∧ y = g x) {xs : List α} {ys : List β} :
    xs.mapM f = .ok ys ↔ (∀ x ∈ xs, P x) ∧ ys = xs.map g := by
  induction xs generalizing ys with
  | nil =>
    rw [List.mapM_nil]
    constructor
    · intro hnil
      cases hnil
      exact ⟨fun x hx => absurd hx List.not_mem_nil, rfl⟩
    · rintro ⟨-, rfl⟩
      rfl
  | cons x xs ih =>
    rw [List.mapM_cons, List.forall_mem_cons, List.map_cons]
    constructor
    · intro hcons
      obtain ⟨y, hy, hcons⟩ := exists_of_bind_eq_ok hcons
      obtain ⟨rest, hrest, hcons⟩ := exists_of_bind_eq_ok hcons
      cases hcons
      obtain ⟨hx, rfl⟩ := (h x y).1 hy
      obtain ⟨hxs, rfl⟩ := ih.1 hrest
      exact ⟨⟨hx, hxs⟩, rfl⟩
    · rintro ⟨⟨hx, hxs⟩, rfl⟩
      rw [(h x _).2 ⟨hx, rfl⟩, ih.2 ⟨hxs, rfl⟩]
      rfl

namespace Request

theorem absoluteRoot_eq_ok_iff {workingDirectory root p : Path} :
    absoluteRoot workingDirectory root = .ok p ↔
      root.isEmpty = false ∧ p = root.formFrom workingDirectory := by
  rw [absoluteRoot, Path.formFrom, Path.absolute?]
  cases hempty : root.isEmpty with
  | true => simp [Path.not_isAbsolute_of_isEmpty hempty]
  | false => cases root.isAbsolute <;> simp [eq_comm]

def absoluteTree (workingDirectory : Path) (tree : Tree) : Except Failure Tree :=
  return tree.withRoot (← absoluteRoot workingDirectory tree.root)

theorem absolute_eq_absoluteTree (workingDirectory : Path) (r : Request) :
    r.absolute workingDirectory = do
      let plain ← r.plain.mapM (absoluteRoot workingDirectory)
      let trees ← r.trees.mapM (absoluteTree workingDirectory)
      return ⟨plain, trees⟩ := rfl

theorem absoluteTree_eq_ok_iff {workingDirectory : Path} {tree tree' : Tree} :
    absoluteTree workingDirectory tree = .ok tree' ↔
      tree.root.isEmpty = false ∧ tree' = tree.withRoot (tree.root.formFrom workingDirectory) := by
  constructor
  · intro h
    obtain ⟨p, hp, h⟩ := exists_of_bind_eq_ok h
    cases h
    obtain ⟨hne, rfl⟩ := absoluteRoot_eq_ok_iff.1 hp
    exact ⟨hne, rfl⟩
  · rintro ⟨hne, rfl⟩
    rw [absoluteTree, absoluteRoot_eq_ok_iff.2 ⟨hne, rfl⟩]
    rfl

def formFrom (r : Request) (workingDirectory : Path) : Request :=
  ⟨r.plain.map (·.formFrom workingDirectory),
    r.trees.map fun tree => tree.withRoot (tree.root.formFrom workingDirectory)⟩

theorem allRoots_formFrom (r : Request) (workingDirectory : Path) :
    (r.formFrom workingDirectory).allRoots = r.allRoots.map (·.formFrom workingDirectory) := by
  simp only [allRoots, formFrom, List.map_append, List.map_map]
  rfl

theorem absolute_eq_ok_iff {workingDirectory : Path} {r absolute : Request} :
    r.absolute workingDirectory = .ok absolute ↔
      (∀ root ∈ r.allRoots, root.isEmpty = false) ∧ absolute = r.formFrom workingDirectory := by
  have hplain {plain : List Path} : r.plain.mapM (absoluteRoot workingDirectory) = .ok plain ↔ _ :=
    mapM_eq_ok_iff fun root p => absoluteRoot_eq_ok_iff
  have htrees {trees : List Tree} : r.trees.mapM (absoluteTree workingDirectory) = .ok trees ↔ _ :=
    mapM_eq_ok_iff fun tree tree' => absoluteTree_eq_ok_iff
  rw [allRoots, List.forall_mem_append, List.forall_mem_map]
  constructor
  · intro h
    obtain ⟨plain, hp, h⟩ := exists_of_bind_eq_ok h
    obtain ⟨trees, ht, h⟩ := exists_of_bind_eq_ok h
    cases h
    obtain ⟨hplainNe, rfl⟩ := hplain.1 hp
    obtain ⟨htreesNe, rfl⟩ := htrees.1 ht
    exact ⟨⟨hplainNe, htreesNe⟩, rfl⟩
  · rintro ⟨⟨hplainNe, htreesNe⟩, rfl⟩
    rw [absolute_eq_absoluteTree, hplain.2 ⟨hplainNe, rfl⟩, htrees.2 ⟨htreesNe, rfl⟩]
    rfl

theorem isAbsolute_of_mem_allRoots {workingDirectory root : Path} {request absolute : Request}
    (hwd : workingDirectory.isAbsolute = true)
    (h : request.absolute workingDirectory = .ok absolute) (hroot : root ∈ absolute.allRoots) :
    root.isAbsolute = true := by
  obtain ⟨-, rfl⟩ := absolute_eq_ok_iff.1 h
  rw [allRoots_formFrom] at hroot
  obtain ⟨p, -, rfl⟩ := List.mem_map.1 hroot
  exact p.isAbsolute_formFrom hwd

theorem absolute_eq_self {r : Request} (h : ∀ root ∈ r.allRoots, root.isAbsolute = true)
    (workingDirectory : Path) : r.absolute workingDirectory = .ok r := by
  have hform {root : Path} (hroot : root ∈ r.allRoots) : root.formFrom workingDirectory = root :=
    if_pos (h root hroot)
  refine absolute_eq_ok_iff.2 ⟨fun root hroot => ?_, ?_⟩
  · rw [Bool.eq_false_iff]
    intro hempty
    have hrelative := Path.not_isAbsolute_of_isEmpty hempty
    simp [h root hroot] at hrelative
  · have hplain : r.plain.map (·.formFrom workingDirectory) = r.plain :=
      (List.map_congr_left fun root hroot => hform (List.mem_append_left _ hroot)).trans
        (List.map_id _)
    have htrees : (r.trees.map fun tree => tree.withRoot (tree.root.formFrom workingDirectory)) =
        r.trees := by
      refine (List.map_congr_left fun tree htree => ?_).trans (List.map_id _)
      rw [hform (List.mem_append_right _ (List.mem_map_of_mem htree))]
      rfl
    rw [formFrom, hplain, htrees]

end Request

end DirectoryWatch
