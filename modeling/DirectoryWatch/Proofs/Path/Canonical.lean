import DirectoryWatch.Proofs.Path.Spelling

/-!
# Reduced roots

Roots that ascend strictly and of which none lies inside another are determined by the region that
they cover. Reducing roots to the topmost makes such a list of them, whatever they were, and leaves
one that is reduced already as it is.
-/
namespace DirectoryWatch.Path

variable {p q : Path} {xs ys : List Path}

/-- The roots come in strictly ascending order, and none of them lies inside another. -/
structure Reduced (roots : List Path) : Prop where
  ascending : roots.Pairwise (· < ·)
  apart : Apart roots

theorem reduced_topmost (xs : List Path) : Reduced (topmost xs) :=
  ⟨ascending_topmost xs, apart_topmost xs⟩

namespace Reduced

theorem not_atOrBelow (h : Reduced xs) : xs.Pairwise fun p q => ¬q.atOrBelow p = true := by
  refine h.ascending.imp_of_mem fun {p q} hp hq hlt hqp => ?_
  have hsame : q.Same p := h.apart q hq p hp hqp
  exact not_lt.2 (le_of_atOrBelow hsame.symm.atOrBelow) hlt

theorem sort_eq (h : Reduced xs) : sort xs = xs := by
  refine List.mergeSort_of_pairwise (h.ascending.imp fun {p q} hlt => decide_eq_true ?_)
  exact List.le_of_lt (show p.key < q.key from hlt)

theorem allSame_iff (hx : Reduced xs) (hy : Reduced ys) :
    AllSame xs ys ↔ ∀ p : Path, p.coveredBy xs = p.coveredBy ys := by
  constructor
  · exact fun h p => h.coveredBy (.refl p)
  · intro h
    exact allSame_of_ascending hx.ascending hy.ascending (hx.apart.exists_same_iff hy.apart h)

end Reduced

theorem keepUncovered_eq_self (kept : Option Path)
    (h : (kept.toList ++ xs).Pairwise fun p q => ¬q.atOrBelow p = true) :
    keepUncovered kept xs = xs := by
  fun_induction keepUncovered kept xs with
  | case1 => rfl
  | case2 p rest ih => rw [ih h]
  | case3 kept p rest hp ih =>
    exact absurd hp ((List.pairwise_cons.1 h).1 p (by simp))
  | case4 kept p rest hp ih => rw [ih (List.pairwise_cons.1 h).2]

theorem topmost_eq_self_iff : topmost xs = xs ↔ Reduced xs := by
  constructor
  · exact fun h => h ▸ reduced_topmost xs
  · exact fun h => by rw [topmost, h.sort_eq, keepUncovered_eq_self none h.not_atOrBelow]

theorem topmost_topmost (xs : List Path) : topmost (topmost xs) = topmost xs :=
  topmost_eq_self_iff.2 (reduced_topmost xs)

/-- The topmost of some paths are reduced, are among them and cover them all; and they are the same
for two lists, one by one, exactly when these cover the same region. -/
theorem topmost_canonical (xs ys : List Path) :
    (Reduced (topmost xs) ∧ topmost xs ⊆ xs ∧ ∀ p ∈ xs, p.coveredBy (topmost xs) = true) ∧
      (AllSame (topmost xs) (topmost ys) ↔ ∀ p : Path, p.coveredBy xs = p.coveredBy ys) := by
  refine ⟨⟨reduced_topmost xs, fun p => mem_of_mem_topmost, fun p hp => ?_⟩, ?_⟩
  · rw [coveredBy_topmost, coveredBy_of_mem hp]
  · rw [(reduced_topmost xs).allSame_iff (reduced_topmost ys)]
    simp only [coveredBy_topmost]

/-- A sibling stays whose name begins alike, though in the order of texts it comes in between. -/
example : topmost (["/a/b", "/a.txt", "/a", "./a", "../a"].map ofString) =
    ["/a", "/a.txt", "./a", "../a"].map ofString := by
  cbv

end DirectoryWatch.Path
