import DirectoryWatch.Path.Coverage
import Mathlib.Data.List.Pairwise

/-!
# Topmost paths

The topmost of some paths cover all of them, and none of them lies below another.
-/
namespace DirectoryWatch.Path

theorem same_of_atOrBelow {p q : Path} (h : p.atOrBelow q = true) (k : q.atOrBelow p = true) :
    p.Same q :=
  same_of_le_of_le (le_of_atOrBelow k) (le_of_atOrBelow h)

theorem Same.atOrBelow {p q : Path} (h : p.Same q) : p.atOrBelow q = true :=
  atOrBelow_iff.2 (h ▸ List.prefix_refl _)

theorem atOrBelow_or_atOrBelow {p q r : Path} (h : r.atOrBelow p = true)
    (k : r.atOrBelow q = true) : p.atOrBelow q = true ∨ q.atOrBelow p = true := by
  simp only [atOrBelow_iff] at *
  exact (List.prefix_or_prefix_of_prefix h k).symm

theorem same_or_same_of_between {p q child : Path} {c : Component}
    (hchild : child.components = p.components ++ [c]) (hq : child.atOrBelow q = true)
    (hp : q.atOrBelow p = true) : p.Same q ∨ child.Same q := by
  have hqc := atOrBelow_iff.1 hq
  have hpq := atOrBelow_iff.1 hp
  have hlength := congrArg List.length hchild
  have hle := hqc.length_le
  have hge := hpq.length_le
  rw [List.length_append, List.length_singleton] at hlength
  by_cases heq : p.components.length = q.components.length
  · exact .inl (hpq.eq_of_length heq)
  · exact .inr (hqc.eq_of_length (by omega)).symm

theorem below_iff {p root : Path} :
    p.below root = true ↔ ¬p.Same root ∧ p.atOrBelow root = true := by
  simp [below]

theorem coveredBy_iff {p : Path} {roots : List Path} :
    p.coveredBy roots = true ↔ ∃ root ∈ roots, p.atOrBelow root = true := by
  simp [coveredBy]

theorem leadsTo_iff {p : Path} {roots : List Path} :
    p.leadsTo roots = true ↔ ∃ root ∈ roots, root.atOrBelow p = true := by
  simp [leadsTo]

theorem strictlyLeadsTo_iff {p : Path} {roots : List Path} :
    p.strictlyLeadsTo roots = true ↔ ∃ root ∈ roots, root.below p = true := by
  simp [strictlyLeadsTo]

theorem exists_atOrBelow_keepUncovered {kept : Option Path} {p : Path} {paths : List Path}
    (h : p ∈ paths) :
    ∃ q, (q ∈ keepUncovered kept paths ∨ kept = some q) ∧ p.atOrBelow q = true := by
  fun_induction keepUncovered kept paths with
  | case1 => simp at h
  | case2 q rest ih =>
    rcases List.mem_cons.1 h with rfl | h
    · exact ⟨p, by simp, atOrBelow_refl p⟩
    · obtain ⟨r, hr, hp⟩ := ih h
      exact ⟨r, by simpa [or_comm, eq_comm] using hr, hp⟩
  | case3 kept q rest hq ih =>
    rcases List.mem_cons.1 h with rfl | h
    · exact ⟨kept, by simp, hq⟩
    · exact ih h
  | case4 kept q rest hq ih =>
    rcases List.mem_cons.1 h with rfl | h
    · exact ⟨p, by simp, atOrBelow_refl p⟩
    · obtain ⟨r, hr, hp⟩ := ih h
      refine ⟨r, .inl (List.mem_cons.2 ?_), hp⟩
      simpa [or_comm, eq_comm] using hr

theorem exists_atOrBelow_topmost {p : Path} {paths : List Path} (h : p ∈ paths) :
    ∃ q ∈ topmost paths, p.atOrBelow q = true := by
  have hsort : p ∈ sort paths := mem_sort.2 h
  obtain ⟨q, hq | hq, hp⟩ := exists_atOrBelow_keepUncovered hsort
  · exact ⟨q, hq, hp⟩
  · cases hq

theorem topmost_eq_nil_iff {paths : List Path} : topmost paths = [] ↔ paths = [] := by
  constructor
  · intro h
    refine List.eq_nil_iff_forall_not_mem.2 fun p hp => ?_
    obtain ⟨q, hq, -⟩ := exists_atOrBelow_topmost hp
    simp [h] at hq
  · rintro rfl
    simp [topmost, sort, keepUncovered]

/-- In the lexicographic order nothing that is no continuation stands between a list and its
continuations. -/
theorem prefix_of_le_of_le {α : Type} [LT α] [Std.Asymm (α := α) (· < ·)]
    [Std.Trichotomous (α := α) (· < ·)] {a b c : List α} (h : a ≤ b) (k : b ≤ c)
    (hcont : a <+: c) : a <+: b := by
  induction a generalizing b c with
  | nil => exact List.nil_prefix
  | cons x a ih =>
    obtain ⟨s, rfl⟩ := hcont
    cases b with
    | nil => simp at h
    | cons y b =>
      rw [List.cons_append] at k
      rcases List.cons_le_cons_iff.1 h with hxy | ⟨rfl, hab⟩
      · rcases List.cons_le_cons_iff.1 k with hyx | ⟨rfl, -⟩
        · exact absurd hyx (Std.Asymm.asymm _ _ hxy)
        · exact absurd hxy (Std.Asymm.asymm _ _ hxy)
      · rcases List.cons_le_cons_iff.1 k with hxx | ⟨-, hbc⟩
        · exact absurd hxx (Std.Asymm.asymm _ _ hxx)
        · exact (List.prefix_cons_inj x).2 (ih hab hbc (List.prefix_append a s))

/-- In order, everything between a path and something below it lies below it too. -/
theorem atOrBelow_of_le_of_le {root p q : Path} (h : root ≤ p) (k : p ≤ q)
    (hq : q.atOrBelow root = true) : p.atOrBelow root = true := by
  rw [atOrBelow_iff] at hq ⊢
  have hkey : root.key <+: p.key := prefix_of_le_of_le h k (hq.map Component.key)
  exact (List.prefix_map_iff_of_injective fun _ _ => Component.key_injective).1 hkey

theorem not_atOrBelow_of_mem_keepUncovered {kept q : Path} {paths : List Path}
    (hsorted : (kept :: paths).Pairwise (· ≤ ·)) (h : q ∈ keepUncovered (some kept) paths) :
    ¬q.atOrBelow kept = true := by
  induction paths with
  | nil => simp [keepUncovered] at h
  | cons p rest ih =>
    obtain ⟨hkept, hrest⟩ := List.pairwise_cons.1 hsorted
    have hp := List.pairwise_cons.1 hrest
    rw [keepUncovered] at h
    split at h
    · exact ih (List.pairwise_cons.2 ⟨fun r hr => hkept r (List.mem_cons_of_mem p hr), hp.2⟩) h
    · rename_i hcovered
      rcases List.mem_cons.1 h with rfl | h
      · exact hcovered
      · have hpq : p ≤ q := hp.1 q (mem_of_mem_keepUncovered h)
        exact fun hq => hcovered (atOrBelow_of_le_of_le (hkept p (by simp)) hpq hq)

theorem pairwise_keepUncovered {kept : Option Path} {paths : List Path}
    (hsorted : paths.Pairwise (· ≤ ·)) :
    (keepUncovered kept paths).Pairwise fun p q => ¬q.atOrBelow p = true := by
  fun_induction keepUncovered kept paths with
  | case1 => exact List.Pairwise.nil
  | case2 p rest ih =>
    exact List.pairwise_cons.2 ⟨fun q hq => not_atOrBelow_of_mem_keepUncovered hsorted hq,
      ih (List.pairwise_cons.1 hsorted).2⟩
  | case3 kept p rest hp ih => exact ih (List.pairwise_cons.1 hsorted).2
  | case4 kept p rest hp ih =>
    exact List.pairwise_cons.2 ⟨fun q hq => not_atOrBelow_of_mem_keepUncovered hsorted hq,
      ih (List.pairwise_cons.1 hsorted).2⟩

theorem keepUncovered_sublist (kept : Option Path) (paths : List Path) :
    (keepUncovered kept paths).Sublist paths := by
  fun_induction keepUncovered kept paths with
  | case1 => exact List.Sublist.refl []
  | case2 p rest ih => exact ih.cons_cons p
  | case3 kept p rest hp ih => exact ih.cons p
  | case4 kept p rest hp ih => exact ih.cons_cons p

theorem pairwise_topmost (paths : List Path) :
    (topmost paths).Pairwise fun p q => ¬p.atOrBelow q = true ∧ ¬q.atOrBelow p = true := by
  have hsorted := (pairwise_sort paths).sublist (keepUncovered_sublist none (sort paths))
  have hbelow : (topmost paths).Pairwise fun p q => ¬q.atOrBelow p = true :=
    pairwise_keepUncovered (pairwise_sort paths)
  refine (hsorted.and hbelow).imp fun {p q} ⟨hle, hq⟩ => ⟨fun hp => hq ?_, hq⟩
  have hsame : p.Same q := same_of_le_of_le hle (le_of_atOrBelow hp)
  exact hsame.symm.atOrBelow

theorem eq_of_atOrBelow_topmost {p q : Path} {paths : List Path} (hp : p ∈ topmost paths)
    (hq : q ∈ topmost paths) (h : p.atOrBelow q = true) : p = q := by
  by_contra hne
  have hsymm : Std.Symm fun p q : Path => ¬p.atOrBelow q = true ∧ ¬q.atOrBelow p = true :=
    ⟨fun _ _ => And.symm⟩
  exact ((pairwise_topmost paths).forall hp hq hne).1 h

end DirectoryWatch.Path
