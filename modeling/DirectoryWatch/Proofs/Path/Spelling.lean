import DirectoryWatch.Proofs.Path.Absolute
import DirectoryWatch.Proofs.Path.Region
import Mathlib

/-!
# Other spellings

Everything that is done with paths goes by their components. So lists of paths in other spellings
lead to the same paths again, in the same order.
-/
namespace DirectoryWatch

namespace Path

variable {p q : Path} {xs ys : List Path}

/-- The same paths in the same order, possibly in other spellings. -/
abbrev AllSame (xs ys : List Path) : Prop := List.Forall₂ Same xs ys

theorem allSame_iff_keys : AllSame xs ys ↔ xs.map key = ys.map key := by
  rw [← List.forall₂_eq_eq_eq, List.forall₂_map_left_iff, List.forall₂_map_right_iff]
  simp only [AllSame, key_eq_key_iff]

/-- Ascending lists hold their paths in the only possible order. -/
theorem allSame_of_ascending (hx : xs.Pairwise (· < ·)) (hy : ys.Pairwise (· < ·))
    (h : ∀ p : Path, (∃ q ∈ xs, q.Same p) ↔ ∃ q ∈ ys, q.Same p) : AllSame xs ys := by
  have hkeys {zs : List Path} (hz : zs.Pairwise (· < ·)) : (zs.map key).Pairwise (· < ·) :=
    List.pairwise_map.2 hz
  have hmem {us vs : List Path} (h : ∀ p : Path, (∃ q ∈ us, q.Same p) → ∃ q ∈ vs, q.Same p)
      (k : List Bytes) (hk : k ∈ us.map key) : k ∈ vs.map key := by
    obtain ⟨p, hp, rfl⟩ := List.mem_map.1 hk
    obtain ⟨q, hq, hqp⟩ := h p ⟨p, hp, .refl p⟩
    exact List.mem_map.2 ⟨q, hq, key_eq_key_iff.2 hqp⟩
  refine allSame_iff_keys.2 ((hkeys hx).eq_of_mem_iff (hkeys hy) fun k => ?_)
  exact ⟨hmem (fun p => (h p).1) k, hmem (fun p => (h p).2) k⟩

theorem ascending_topmost (xs : List Path) : (topmost xs).Pairwise (· < ·) := by
  have hsorted := (pairwise_sort xs).sublist (keepUncovered_sublist none (sort xs))
  refine (hsorted.and (pairwise_topmost xs)).imp fun {p q} ⟨hle, hpq, _⟩ => ?_
  by_contra hlt
  exact hpq (same_of_le_of_le hle (not_lt.1 hlt)).atOrBelow

theorem allSame_topmost (h : ∀ p : Path, p.coveredBy xs = p.coveredBy ys) :
    AllSame (topmost xs) (topmost ys) := by
  refine allSame_of_ascending (ascending_topmost xs) (ascending_topmost ys) ?_
  refine (apart_topmost xs).exists_same_iff (apart_topmost ys) fun p => ?_
  rw [coveredBy_topmost, coveredBy_topmost, h]

theorem AllSame.sort (h : AllSame xs ys) : AllSame (sort xs) (sort ys) := by
  have hkeys (zs : List Path) : (Path.sort zs).map key = (zs.map key).mergeSort := by
    exact List.map_mergeSort fun _ _ _ _ => rfl
  rw [allSame_iff_keys] at h ⊢
  rw [hkeys, hkeys, h]

theorem AllSame.any_eq (h : AllSame xs ys) {f g : Path → Bool}
    (hfg : ∀ p q : Path, p.Same q → f p = g q) : xs.any f = ys.any g := by
  induction h with
  | nil => rfl
  | cons hpq _ ih => rw [List.any_cons, List.any_cons, hfg _ _ hpq, ih]

theorem AllSame.coveredBy (h : AllSame xs ys) (hpq : p.Same q) : p.coveredBy xs = q.coveredBy ys :=
  h.any_eq fun r _ hrs => (hpq.atOrBelow_congr r).trans (hrs.atOrBelow_congr_right q)

theorem AllSame.topmost (h : AllSame xs ys) : AllSame (topmost xs) (topmost ys) :=
  allSame_topmost fun p => h.coveredBy (.refl p)

theorem AllSame.leadsTo (h : AllSame xs ys) (hpq : p.Same q) : p.leadsTo xs = q.leadsTo ys :=
  h.any_eq fun _ s hrs => (hrs.atOrBelow_congr p).trans (hpq.atOrBelow_congr_right s)

theorem AllSame.strictlyLeadsTo (h : AllSame xs ys) (hpq : p.Same q) :
    p.strictlyLeadsTo xs = q.strictlyLeadsTo ys :=
  h.any_eq fun _ _ hrs => hrs.below_congr hpq

theorem AllSame.filter (h : AllSame xs ys) {f g : Path → Bool}
    (hfg : ∀ p q : Path, p.Same q → f p = g q) : AllSame (xs.filter f) (ys.filter g) :=
  List.rel_filter (fun p q hpq => Bool.eq_iff_iff.1 (hfg p q hpq)) h

theorem AllSame.append {us vs : List Path} (h : AllSame xs ys) (k : AllSame us vs) :
    AllSame (xs ++ us) (ys ++ vs) :=
  List.rel_append h k

theorem AllSame.isEmpty (h : AllSame xs ys) : xs.isEmpty = ys.isEmpty := by
  cases h <;> rfl

theorem Same.isEmpty (h : p.Same q) : p.isEmpty = q.isEmpty := by
  rw [Bool.eq_iff_iff, isEmpty_iff_components, isEmpty_iff_components,
    show p.components = q.components from h]

theorem Same.join (h : p.Same q) (r : Path) : (p.join r).Same (q.join r) := by
  cases hr : r.isAbsolute with
  | true =>
    rw [Path.join, Path.join, hr, if_pos rfl, if_pos rfl]
    exact .refl r
  | false =>
    have hempty : p.bytes = [] ↔ q.bytes = [] := by
      rw [← List.isEmpty_iff, ← List.isEmpty_iff]
      exact Bool.eq_iff_iff.1 h.isEmpty
    by_cases hp : p.bytes = []
    · rw [Path.join, Path.join, hp, hempty.1 hp]
      exact .refl _
    · rw [Same, components_join hp hr, components_join (fun hq => hp (hempty.2 hq)) hr,
        show p.components = q.components from h]

theorem Same.parent? (h : p.Same q) : Option.Rel Same p.parent? q.parent? := by
  have hnone : p.parent? = none ↔ q.parent? = none := by
    rw [parent?_eq_none_iff, parent?_eq_none_iff, show p.components = q.components from h]
  cases hp : p.parent? with
  | none =>
    rw [hnone.1 hp]
    exact .none
  | some a =>
    cases hq : q.parent? with
    | none => simp [hnone.2 hq] at hp
    | some b =>
      obtain ⟨c, hc⟩ := components_of_parent? hp
      obtain ⟨d, hd⟩ := components_of_parent? hq
      have happend : a.components ++ [c] = b.components ++ [d] := hc.symm.trans (Eq.trans h hd)
      exact .some (List.append_inj' happend rfl).1

theorem Same.ancestors (h : p.Same q) : AllSame p.ancestors q.ancestors := by
  induction p using parentInduction generalizing q with
  | top p htop =>
    have hparent := h.parent?
    rw [htop] at hparent
    cases hq : q.parent? with
    | none =>
      rw [ancestors_of_parent?_eq_none htop, ancestors_of_parent?_eq_none hq]
      exact .cons h .nil
    | some b =>
      rw [hq] at hparent
      cases hparent
  | child p a ha ih =>
    have hparent := h.parent?
    rw [ha] at hparent
    cases hq : q.parent? with
    | none =>
      rw [hq] at hparent
      cases hparent
    | some b =>
      rw [hq] at hparent
      cases hparent with
      | some hab =>
        rw [ancestors_of_parent? ha, ancestors_of_parent? hq]
        exact .cons h (ih hab)

end Path

namespace PathSet

theorem allSame_toList {s t : PathSet} (h : ∀ p, s.contains p = t.contains p) :
    Path.AllSame s.toList t.toList := by
  refine Path.allSame_of_ascending s.ascending t.ascending fun p => ?_
  rw [← contains_iff, ← contains_iff, h]

theorem contains_insertAll_congr {s t : PathSet} (h : ∀ p, s.contains p = t.contains p)
    {xs ys : List Path} (hxy : Path.AllSame xs ys) (p : Path) :
    (s.insertAll xs).contains p = (t.insertAll ys).contains p := by
  rw [contains_insertAll, contains_insertAll, h]
  congr 1
  exact hxy.any_eq fun q r hqr => decide_eq_decide.2 (hqr.same_iff (.refl p))

theorem contains_ofList_congr {xs ys : List Path} (hxy : Path.AllSame xs ys) (p : Path) :
    (ofList xs).contains p = (ofList ys).contains p :=
  contains_insertAll_congr (fun _ => rfl) hxy p

end PathSet

end DirectoryWatch
