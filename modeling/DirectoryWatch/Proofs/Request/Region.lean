import DirectoryWatch.Proofs.Path.Canonical
import DirectoryWatch.Proofs.Request.Filters

/-!
# Regions of requests

The roots of a request stand for the region that they cover. They may be reduced to the topmost
before requests are united or after it, and dropping the filters leaves just this region.
-/
namespace DirectoryWatch.Request

open DirectoryWatch.Path (AllSame topmost)

theorem coveredBy_roots_append (r s : Request) (p : Path) :
    p.coveredBy (r.roots ++ s.roots) = (p.coveredBy r.allRoots || p.coveredBy s.allRoots) := by
  rw [Path.coveredBy_append, roots, roots, Path.coveredBy_topmost, Path.coveredBy_topmost]

/-- Paths that cover just what the two requests cover have the roots of the union for topmost. -/
theorem allSame_roots_union (r s : Request) {paths : List Path}
    (h : ∀ p : Path, p.coveredBy paths = (p.coveredBy r.allRoots || p.coveredBy s.allRoots)) :
    AllSame (r ∪ s).roots (topmost paths) := by
  refine Path.allSame_topmost fun p => ?_
  rw [coveredBy_union, h]

theorem allRoots_ofRoots (roots : List Path) : (ofRoots roots).allRoots = roots :=
  List.append_nil roots

theorem contains_ofRoots (roots : List Path) (p : Path) :
    (ofRoots roots).contains p = p.coveredBy roots :=
  Bool.or_false _

theorem contains_unfiltered (r : Request) (p : Path) :
    r.unfiltered.contains p = p.coveredBy r.allRoots := by
  rw [unfiltered, contains_ofRoots, roots, Path.coveredBy_topmost]

theorem roots_unfiltered (r : Request) : r.unfiltered.roots = r.roots := by
  rw [unfiltered, roots, allRoots_ofRoots, roots, Path.topmost_topmost]

theorem unfiltered_unfiltered (r : Request) : r.unfiltered.unfiltered = r.unfiltered := by
  rw [unfiltered, roots_unfiltered, unfiltered]

/-- A union contains what one of its requests contains, and its roots are the topmost of theirs,
whichever of the two comes first. Without its filters a request contains exactly what lies at or
below its roots, plain ones and those of trees; these stay its roots, it contains all that it
contained before, and there is nothing more to drop. -/
theorem laws_union_unfiltered (r s : Request) (p : Path) :
    ((r ∪ s).contains p = true ↔ r.contains p = true ∨ s.contains p = true) ∧
      AllSame (r ∪ s).roots (topmost (r.roots ++ s.roots)) ∧
      AllSame (r ∪ s).roots (topmost (s.roots ++ r.roots)) ∧
      (r.unfiltered.contains p = true ↔
        (∃ root ∈ r.plain, p.atOrBelow root = true) ∨
          ∃ tree ∈ r.trees, p.atOrBelow tree.root = true) ∧
      r.unfiltered.roots = r.roots ∧
      (r.contains p = true → r.unfiltered.contains p = true) ∧
      r.unfiltered.unfiltered = r.unfiltered := by
  refine ⟨?_, allSame_roots_union r s (coveredBy_roots_append r s), ?_, ?_, roots_unfiltered r,
    fun hp => ?_, unfiltered_unfiltered r⟩
  · rw [contains_union, Bool.or_eq_true]
  · refine allSame_roots_union r s fun p => ?_
    rw [coveredBy_roots_append, Bool.or_comm]
  · rw [contains_unfiltered, allRoots, Path.coveredBy_append, Bool.or_eq_true, Path.coveredBy_iff,
      Path.coveredBy_map_iff]
  · rw [contains_unfiltered, coveredBy_of_contains hp]

end DirectoryWatch.Request
