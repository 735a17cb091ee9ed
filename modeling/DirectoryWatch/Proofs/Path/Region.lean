import DirectoryWatch.Path.Set
import DirectoryWatch.Proofs.Path.Topmost

/-!
# Regions

What a list of roots covers, and what leads to one of them, when roots are put together, reduced to
the topmost or collected in a set. Roots of which none lies at or below another are determined by
the region that they cover.
-/
namespace DirectoryWatch

namespace Path

variable {p q : Path} {xs ys : List Path}

theorem Same.atOrBelow_congr (h : p.Same q) (root : Path) :
    p.atOrBelow root = q.atOrBelow root := by
  rw [Path.atOrBelow, Path.atOrBelow, h]

theorem Same.atOrBelow_congr_right (h : p.Same q) (r : Path) :
    r.atOrBelow p = r.atOrBelow q := by
  rw [Path.atOrBelow, Path.atOrBelow, h]

theorem Same.same_iff {p' q' : Path} (h : p.Same p') (k : q.Same q') : p.Same q ↔ p'.Same q' :=
  ⟨fun hpq => h.symm.trans (hpq.trans k), fun hpq => h.trans (hpq.trans k.symm)⟩

theorem Same.below_congr {p' q' : Path} (h : p.Same p') (k : q.Same q') :
    p.below q = p'.below q' := by
  rw [below, below, decide_eq_decide.2 (h.same_iff k), h.atOrBelow_congr, k.atOrBelow_congr_right]

theorem coveredBy_append (p : Path) (xs ys : List Path) :
    p.coveredBy (xs ++ ys) = (p.coveredBy xs || p.coveredBy ys) := by
  simp [coveredBy]

theorem coveredBy_map_iff {α : Type} {f : α → Path} {items : List α} :
    p.coveredBy (items.map f) = true ↔ ∃ x ∈ items, p.atOrBelow (f x) = true := by
  simp [coveredBy]

theorem coveredBy_of_mem (h : p ∈ xs) : p.coveredBy xs = true :=
  coveredBy_iff.2 ⟨p, h, atOrBelow_refl p⟩

theorem coveredBy_topmost (p : Path) (xs : List Path) :
    p.coveredBy (topmost xs) = p.coveredBy xs := by
  rw [Bool.eq_iff_iff, coveredBy_iff, coveredBy_iff]
  constructor
  · rintro ⟨root, hroot, hp⟩
    exact ⟨root, mem_of_mem_topmost hroot, hp⟩
  · rintro ⟨root, hroot, hp⟩
    obtain ⟨top, htop, hle⟩ := exists_atOrBelow_topmost hroot
    exact ⟨top, htop, atOrBelow_trans hp hle⟩

/-- Where what lies below a root stays below it, the topmost roots stand for all of them. -/
theorem coveredBy_map_topmost {f : Path → Path}
    (hf : ∀ x ∈ xs, ∀ y ∈ xs, x.atOrBelow y = true → (f x).atOrBelow (f y) = true) (p : Path) :
    p.coveredBy ((topmost xs).map f) = p.coveredBy (xs.map f) := by
  rw [Bool.eq_iff_iff, coveredBy_map_iff, coveredBy_map_iff]
  constructor
  · rintro ⟨root, hroot, hp⟩
    exact ⟨root, mem_of_mem_topmost hroot, hp⟩
  · rintro ⟨root, hroot, hp⟩
    obtain ⟨top, htop, hle⟩ := exists_atOrBelow_topmost hroot
    exact ⟨top, htop, atOrBelow_trans hp (hf root hroot top (mem_of_mem_topmost htop) hle)⟩

theorem coveredBy_or_leadsTo_topmost (p : Path) (xs : List Path) :
    (p.coveredBy (topmost xs) || p.leadsTo (topmost xs)) = (p.coveredBy xs || p.leadsTo xs) := by
  rw [coveredBy_topmost, Bool.eq_iff_iff, Bool.or_eq_true, Bool.or_eq_true]
  constructor
  · rintro (hp | hp)
    · exact .inl hp
    · obtain ⟨root, hroot, hle⟩ := leadsTo_iff.1 hp
      exact .inr (leadsTo_iff.2 ⟨root, mem_of_mem_topmost hroot, hle⟩)
  · rintro (hp | hp)
    · exact .inl hp
    · obtain ⟨root, hroot, hle⟩ := leadsTo_iff.1 hp
      obtain ⟨top, htop, hrootTop⟩ := exists_atOrBelow_topmost hroot
      rcases atOrBelow_or_atOrBelow hle hrootTop with hpTop | hTopP
      · exact .inl (coveredBy_iff.2 ⟨top, mem_of_mem_topmost htop, hpTop⟩)
      · exact .inr (leadsTo_iff.2 ⟨top, htop, hTopP⟩)

/-- No root lies at or below another. -/
def Apart (roots : List Path) : Prop :=
  ∀ p ∈ roots, ∀ q ∈ roots, p.atOrBelow q = true → p.Same q

theorem apart_iff_below : Apart xs ↔ ∀ p ∈ xs, ∀ q ∈ xs, p.below q = false := by
  simp only [Apart, Bool.eq_false_iff, ne_eq, below_iff, not_and]
  constructor
  · intro h p hp q hq hne hpq
    exact hne (h p hp q hq hpq)
  · intro h p hp q hq hpq
    by_contra hne
    exact h p hp q hq hne hpq

theorem Apart.of_subset (h : Apart ys) (hsub : xs ⊆ ys) : Apart xs :=
  fun p hp q hq => h p (hsub hp) q (hsub hq)

theorem apart_topmost (xs : List Path) : Apart (topmost xs) := by
  intro p hp q hq hpq
  rw [eq_of_atOrBelow_topmost hp hq hpq]
  exact Same.refl q

/-- Roots that lie apart are among any roots that cover the same region. -/
theorem Apart.exists_same (hx : Apart xs) (h : ∀ p : Path, p.coveredBy xs = p.coveredBy ys)
    (hp : p ∈ xs) : ∃ q ∈ ys, q.Same p := by
  have hcovered : p.coveredBy ys = true := by rw [← h, coveredBy_of_mem hp]
  obtain ⟨q, hq, hpq⟩ := coveredBy_iff.1 hcovered
  have hback : q.coveredBy xs = true := by rw [h, coveredBy_of_mem hq]
  obtain ⟨r, hr, hqr⟩ := coveredBy_iff.1 hback
  have hpr : p.Same r := hx p hp r hr (atOrBelow_trans hpq hqr)
  have hqp : q.atOrBelow p = true := atOrBelow_trans hqr hpr.symm.atOrBelow
  exact ⟨q, hq, same_of_atOrBelow hqp hpq⟩

theorem Apart.exists_same_iff (hx : Apart xs) (hy : Apart ys)
    (h : ∀ p : Path, p.coveredBy xs = p.coveredBy ys) (p : Path) :
    (∃ q ∈ xs, q.Same p) ↔ ∃ q ∈ ys, q.Same p := by
  constructor
  · rintro ⟨q, hq, hqp⟩
    obtain ⟨r, hr, hrq⟩ := hx.exists_same h hq
    exact ⟨r, hr, hrq.trans hqp⟩
  · rintro ⟨q, hq, hqp⟩
    obtain ⟨r, hr, hrq⟩ := hy.exists_same (fun p => (h p).symm) hq
    exact ⟨r, hr, hrq.trans hqp⟩

end Path

namespace PathSet

variable {s : PathSet} {p q : Path}

theorem coveredBy_iff : p.coveredBy s.toList = true ↔
    ∃ q, s.contains q = true ∧ p.atOrBelow q = true := by
  rw [Path.coveredBy_iff]
  constructor
  · rintro ⟨q, hq, hp⟩
    exact ⟨q, contains_of_mem hq, hp⟩
  · rintro ⟨q, hq, hp⟩
    obtain ⟨r, hr, hrq⟩ := contains_iff.1 hq
    exact ⟨r, hr, hrq.atOrBelow_congr_right p ▸ hp⟩

theorem leadsTo_iff : p.leadsTo s.toList = true ↔
    ∃ q, s.contains q = true ∧ q.atOrBelow p = true := by
  rw [Path.leadsTo_iff]
  constructor
  · rintro ⟨q, hq, hp⟩
    exact ⟨q, contains_of_mem hq, hp⟩
  · rintro ⟨q, hq, hp⟩
    obtain ⟨r, hr, hrq⟩ := contains_iff.1 hq
    exact ⟨r, hr, hrq.atOrBelow_congr p ▸ hp⟩

theorem coveredBy_congr {t : PathSet} (h : ∀ q, s.contains q = t.contains q) (p : Path) :
    p.coveredBy s.toList = p.coveredBy t.toList := by
  rw [Bool.eq_iff_iff, coveredBy_iff, coveredBy_iff]
  simp only [h]

theorem leadsTo_congr {t : PathSet} (h : ∀ q, s.contains q = t.contains q) (p : Path) :
    p.leadsTo s.toList = p.leadsTo t.toList := by
  rw [Bool.eq_iff_iff, leadsTo_iff, leadsTo_iff]
  simp only [h]

theorem insertAll_append (s : PathSet) (xs ys : List Path) :
    s.insertAll (xs ++ ys) = (s.insertAll xs).insertAll ys := by
  rw [insertAll, insertAll, insertAll, List.foldl_append]

theorem contains_insertAll_iff (s : PathSet) (paths : List Path) (q : Path) :
    (s.insertAll paths).contains q = true ↔ s.contains q = true ∨ ∃ p ∈ paths, p.Same q := by
  simp [contains_insertAll]

theorem coveredBy_insertAll (s : PathSet) (paths : List Path) (p : Path) :
    p.coveredBy (s.insertAll paths).toList = (p.coveredBy s.toList || p.coveredBy paths) := by
  rw [Bool.eq_iff_iff, Bool.or_eq_true, coveredBy_iff, coveredBy_iff, Path.coveredBy_iff]
  simp only [contains_insertAll_iff]
  constructor
  · rintro ⟨q, hq | ⟨r, hr, hrq⟩, hp⟩
    · exact .inl ⟨q, hq, hp⟩
    · exact .inr ⟨r, hr, hrq.atOrBelow_congr_right p ▸ hp⟩
  · rintro (⟨q, hq, hp⟩ | ⟨q, hq, hp⟩)
    · exact ⟨q, .inl hq, hp⟩
    · exact ⟨q, .inr ⟨q, hq, .refl q⟩, hp⟩

theorem leadsTo_insertAll (s : PathSet) (paths : List Path) (p : Path) :
    p.leadsTo (s.insertAll paths).toList = (p.leadsTo s.toList || p.leadsTo paths) := by
  rw [Bool.eq_iff_iff, Bool.or_eq_true, leadsTo_iff, leadsTo_iff, Path.leadsTo_iff]
  simp only [contains_insertAll_iff]
  constructor
  · rintro ⟨q, hq | ⟨r, hr, hrq⟩, hp⟩
    · exact .inl ⟨q, hq, hp⟩
    · exact .inr ⟨r, hr, hrq.atOrBelow_congr p ▸ hp⟩
  · rintro (⟨q, hq, hp⟩ | ⟨q, hq, hp⟩)
    · exact ⟨q, .inl hq, hp⟩
    · exact ⟨q, .inr ⟨q, hq, .refl q⟩, hp⟩

theorem coveredBy_ofList (paths : List Path) (p : Path) :
    p.coveredBy (ofList paths).toList = p.coveredBy paths := by
  rw [ofList, coveredBy_insertAll]
  rfl

theorem mem_insertAll_of_mem (h : q ∈ s.toList) (paths : List Path) :
    q ∈ (s.insertAll paths).toList := by
  have hinsert {xs : List Path} (p : Path) (hq : q ∈ xs) : q ∈ Path.insertInto p xs := by
    induction xs with
    | nil => cases hq
    | cons x rest ih =>
      rw [Path.insertInto_cons]
      split
      · exact List.mem_cons_of_mem p hq
      · split
        · rcases List.mem_cons.1 hq with rfl | hq
          · simp
          · exact List.mem_cons_of_mem x (ih hq)
        · exact hq
  induction paths generalizing s with
  | nil => exact h
  | cons p rest ih => exact ih (hinsert p h)

end PathSet

end DirectoryWatch
