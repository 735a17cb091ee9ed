import DirectoryWatch.Proofs.Path.Absolute
import DirectoryWatch.Proofs.Path.Spelling
import DirectoryWatch.Proofs.Request.Union

/-!
# Requests without their filters

Filters narrow down what a request contains and nothing else. Its roots stay, and so do those of its
absolute form. The topmost roots alone, read as absolute paths, cover what all of them cover.
-/
namespace DirectoryWatch

/-- Both fail, or both succeed and their results belong together. -/
inductive Agree {ε δ α β : Type} (rel : α → β → Prop) : Except ε α → Except δ β → Prop
  | ok {a : α} {b : β} (h : rel a b) : Agree rel (.ok a) (.ok b)
  | error {e : ε} {e' : δ} : Agree rel (.error e) (.error e')

theorem mapM_map_comm {ε α : Type} {f : α → Except ε α} {g : α → α}
    (h : ∀ x, f (g x) = (f x).map g) (xs : List α) :
    (xs.map g).mapM f = (xs.mapM f).map (List.map g) := by
  induction xs with
  | nil => rfl
  | cons x xs ih =>
    rw [List.map_cons, List.mapM_cons, List.mapM_cons, h, ih]
    cases f x with
    | error e => rfl
    | ok y => cases xs.mapM f <;> rfl

namespace Tree

theorem atOrBelow_of_contains {tree : Tree} {p : Path} (h : tree.contains p = true) :
    p.atOrBelow tree.root = true := by
  rw [contains, Bool.or_eq_true, decide_eq_true_eq] at h
  rcases h with h | h
  · exact h.atOrBelow
  · split at h
    · cases h
    · rename_i hinner
      rw [Path.relativeTo?] at hinner
      split at hinner
      · assumption
      · cases hinner

theorem contains_unfiltered (root p : Path) : (unfiltered root).contains p = p.atOrBelow root := by
  rw [Bool.eq_iff_iff]
  refine ⟨fun h => atOrBelow_of_contains h, fun h => ?_⟩
  have hprefix : root.components.isPrefixOf p.components = true := h
  rw [contains, Bool.or_eq_true]
  right
  simp only [unfiltered, Path.relativeTo?, hprefix, if_true]
  split
  · rename_i hnone
    split at hnone <;> cases hnone
  · rfl

end Tree

theorem Path.isEmpty_topmost_iff {xs : List Path} :
    (∀ p ∈ topmost xs, p.isEmpty = false) ↔ ∀ p ∈ xs, p.isEmpty = false := by
  refine ⟨fun h p hp => ?_, fun h p hp => h p (mem_of_mem_topmost hp)⟩
  obtain ⟨top, htop, hle⟩ := exists_atOrBelow_topmost hp
  rw [Bool.eq_false_iff, ne_eq, isEmpty_iff_components]
  intro hnil
  have htopNil : top.components = [] := List.prefix_nil.1 (hnil ▸ atOrBelow_iff.1 hle)
  simpa [isEmpty_iff_components.2 htopNil] using h top htop

namespace Request

/-- The request with every tree in its place, but without its filter. -/
def bare (r : Request) : Request := ⟨r.plain, r.trees.map fun tree => .unfiltered tree.root⟩

theorem allRoots_bare (r : Request) : r.bare.allRoots = r.allRoots := by
  simp only [allRoots, bare, List.map_map]
  rfl

theorem roots_bare (r : Request) : r.bare.roots = r.roots := by
  rw [roots, roots, allRoots_bare]

theorem bare_bare (r : Request) : r.bare.bare = r.bare := by
  simp only [bare, List.map_map]
  rfl

theorem union_bare (r s : Request) : (r ∪ s).bare = r.bare ∪ s.bare := by
  change Request.mk (r.plain ++ s.plain) ((r.trees ++ s.trees).map _) = _
  rw [List.map_append]
  rfl

theorem coveredBy_of_contains {r : Request} {p : Path} (h : r.contains p = true) :
    p.coveredBy r.allRoots = true := by
  rw [contains, Bool.or_eq_true] at h
  rw [allRoots, Path.coveredBy_append, Bool.or_eq_true]
  refine h.imp_right fun htree => ?_
  obtain ⟨tree, hmem, hp⟩ := List.any_eq_true.1 htree
  exact Path.coveredBy_iff.2 ⟨tree.root, List.mem_map_of_mem hmem, Tree.atOrBelow_of_contains hp⟩

theorem contains_bare (r : Request) (p : Path) : r.bare.contains p = p.coveredBy r.allRoots := by
  have htrees : (r.trees.map fun tree => Tree.unfiltered tree.root).any (·.contains p) =
      p.coveredBy (r.trees.map Tree.root) := by
    simp only [Path.coveredBy, List.any_map, Function.comp_def, Tree.contains_unfiltered]
  rw [contains, bare, htrees, allRoots, Path.coveredBy_append]

theorem coveredBy_union (r s : Request) (p : Path) :
    p.coveredBy (r ∪ s).allRoots = (p.coveredBy r.allRoots || p.coveredBy s.allRoots) := by
  rw [Bool.eq_iff_iff, Bool.or_eq_true]
  simp only [Path.coveredBy_iff, mem_allRoots_union, or_and_right, exists_or]

theorem absolute_bare (workingDirectory : Path) (r : Request) :
    r.bare.absolute workingDirectory = (r.absolute workingDirectory).map bare := by
  have hform (tree : Tree) : absoluteTree workingDirectory (.unfiltered tree.root) =
      (absoluteTree workingDirectory tree).map fun tree => .unfiltered tree.root := by
    simp only [absoluteTree, Tree.unfiltered]
    cases absoluteRoot workingDirectory tree.root <;> rfl
  have htrees := mapM_map_comm hform r.trees
  simp only [absolute_eq_absoluteTree, bare]
  rw [htrees]
  cases r.plain.mapM (absoluteRoot workingDirectory) with
  | error e => rfl
  | ok plain => cases r.trees.mapM (absoluteTree workingDirectory) <;> rfl

/-- The second request covers what the first one covers, with plain roots alone. -/
structure Flattens (r flat : Request) : Prop where
  coveredBy : ∀ p : Path, p.coveredBy r.allRoots = p.coveredBy flat.allRoots
  trees : flat.trees = []

namespace Flattens

variable {r s flat flat' : Request} {p : Path}

theorem allSame_roots (h : r.Flattens flat) : Path.AllSame r.roots flat.roots :=
  Path.allSame_topmost h.coveredBy

theorem union (h : r.Flattens flat) (k : s.Flattens flat') :
    (r ∪ s).Flattens (flat ∪ flat') where
  coveredBy p := by rw [coveredBy_union, coveredBy_union, h.coveredBy, k.coveredBy]
  trees := by
    change flat.trees ++ flat'.trees = []
    rw [h.trees, k.trees, List.append_nil]

theorem contains (h : r.Flattens flat) (hp : r.contains p = true) : flat.contains p = true := by
  have hflat : p.coveredBy flat.allRoots = true := h.coveredBy p ▸ coveredBy_of_contains hp
  rw [allRoots, h.trees, List.map_nil, List.append_nil] at hflat
  rw [Request.contains, hflat, Bool.true_or]

end Flattens

theorem agree_absolute_unfiltered (workingDirectory : Path) (r : Request) :
    Agree Flattens (r.absolute workingDirectory) (r.unfiltered.absolute workingDirectory) := by
  have hroots : r.unfiltered.allRoots = Path.topmost r.allRoots := List.append_nil _
  have hnonempty : (∀ root ∈ r.unfiltered.allRoots, root.isEmpty = false) ↔
      ∀ root ∈ r.allRoots, root.isEmpty = false := by
    rw [hroots]
    exact Path.isEmpty_topmost_iff
  cases hr : r.absolute workingDirectory with
  | ok absolute =>
    obtain ⟨hne, rfl⟩ := absolute_eq_ok_iff.1 hr
    rw [absolute_eq_ok_iff.2 ⟨hnonempty.2 hne, rfl⟩]
    refine .ok ⟨fun p => ?_, rfl⟩
    rw [allRoots_formFrom, allRoots_formFrom, hroots]
    exact (Path.coveredBy_map_topmost (fun _ _ top htop hle =>
      Path.atOrBelow_formFrom workingDirectory hle (hne top htop)) p).symm
  | error e =>
    cases hflat : r.unfiltered.absolute workingDirectory with
    | error e' => exact .error
    | ok flat =>
      have hne := hnonempty.1 (absolute_eq_ok_iff.1 hflat).1
      rw [absolute_eq_ok_iff.2 ⟨hne, rfl⟩] at hr
      cases hr

end Request

end DirectoryWatch
