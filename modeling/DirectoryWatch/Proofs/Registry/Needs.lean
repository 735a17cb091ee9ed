import DirectoryWatch.Proofs.Path.Region
import DirectoryWatch.Proofs.Registry.Merge

/-!
# What the walks for an update come to

A walk from a new watch point comes to a directory when everything between the two needs a watch.
A directory that has to do with a root shares that with everything above it; what stands in the
way are watch points that lie strictly below something on the way.
-/
namespace DirectoryWatch

namespace Path

theorem below_of_below_of_atOrBelow {p q r : Path} (h : p.below q = true)
    (k : q.atOrBelow r = true) : p.below r = true := by
  obtain ⟨hne, hpq⟩ := below_iff.1 h
  refine below_iff.2 ⟨fun hsame => hne ?_, atOrBelow_trans hpq k⟩
  have hqp : q.atOrBelow p = true := atOrBelow_trans k hsame.symm.atOrBelow
  exact same_of_atOrBelow hpq hqp

theorem atOrBelow_of_below {p q : Path} (h : p.below q = true) : p.atOrBelow q = true :=
  (below_iff.1 h).2

theorem not_atOrBelow_of_below {p q : Path} (h : p.below q = true) : ¬q.atOrBelow p = true :=
  fun k => (below_iff.1 h).1 (same_of_atOrBelow (atOrBelow_of_below h) k)

end Path

namespace Update

/-- The directory has to do with a root that was asked for. -/
def Concerns (u : Update) (d : Path) : Prop :=
  d.coveredBy u.newRoots = true ∨ d.leadsTo u.newRoots = true ∨
    d.strictlyLeadsTo u.requestedRoots.toList = true

/-- From a new watch point down to the directory everything needs a watch. -/
def Reaches (u : Update) (d : Path) : Prop :=
  ∃ p ∈ u.newPoints, d.atOrBelow p = true ∧
    ∀ e : Path, d.atOrBelow e = true → e.below p = true → u.needsWatch e = true

/-- The directory is a new watch point, or it lies below one and has to do with a root. -/
def Selects (u : Update) (d : Path) : Prop :=
  ∃ p ∈ u.newPoints, d.atOrBelow p = true ∧ (d.Same p ∨ u.Concerns d)

/-- On each way from a new watch point down to the directory, something leads strictly to a watch
point. -/
def CutsOff (u : Update) (d : Path) : Prop :=
  ∀ p ∈ u.newPoints, d.atOrBelow p = true → ∃ e : Path, d.atOrBelow e = true ∧
    e.below p = true ∧ e.strictlyLeadsTo u.watchPoints.toList = true

variable {u : Update} {d e : Path}

theorem needsWatch_iff : u.needsWatch d = true ↔
    u.Concerns d ∧ d.strictlyLeadsTo u.watchPoints.toList = false := by
  simp only [needsWatch, Concerns, Bool.and_eq_true, Bool.or_eq_true, Bool.not_eq_true', or_assoc]

theorem needsWatch_congr (u : Update) {p q : Path} (h : p.Same q) :
    u.needsWatch p = u.needsWatch q := by
  have hbelow (root : Path) : root.below p = root.below q := Path.Same.below_congr (.refl root) h
  simp only [needsWatch, Path.coveredBy, Path.leadsTo, Path.strictlyLeadsTo, h.atOrBelow_congr,
    h.atOrBelow_congr_right, hbelow]

theorem Concerns.above (h : u.Concerns d) (hde : d.atOrBelow e = true) : u.Concerns e := by
  rcases h with h | h | h
  · obtain ⟨root, hroot, hd⟩ := Path.coveredBy_iff.1 h
    rcases Path.atOrBelow_or_atOrBelow hde hd with he | he
    · exact .inl (Path.coveredBy_iff.2 ⟨root, hroot, he⟩)
    · exact .inr (.inl (Path.leadsTo_iff.2 ⟨root, hroot, he⟩))
  · obtain ⟨root, hroot, hd⟩ := Path.leadsTo_iff.1 h
    exact .inr (.inl (Path.leadsTo_iff.2 ⟨root, hroot, Path.atOrBelow_trans hd hde⟩))
  · obtain ⟨root, hroot, hd⟩ := Path.strictlyLeadsTo_iff.1 h
    exact .inr (.inr (Path.strictlyLeadsTo_iff.2
      ⟨root, hroot, Path.below_of_below_of_atOrBelow hd hde⟩))

theorem reaches_of_not_cutsOff (hd : d.coveredBy u.newRoots = true) (h : ¬u.CutsOff d) :
    u.Reaches d := by
  simp only [CutsOff, not_forall, not_exists, not_and] at h
  obtain ⟨p, hp, hdp, hclear⟩ := h
  refine ⟨p, hp, hdp, fun e hde hep => needsWatch_iff.2 ⟨Concerns.above (.inl hd) hde, ?_⟩⟩
  exact Bool.eq_false_iff.2 (hclear e hde hep)

/-- Below a point that no watch point lies below, nothing stands in the way. -/
theorem needsWatch_iff_concerns {p : Path}
    (h : ∀ q ∈ u.watchPoints.toList, q.atOrBelow p = true → q.Same p) (he : e.below p = true) :
    u.needsWatch e = true ↔ u.Concerns e := by
  rw [needsWatch_iff, and_iff_left]
  rw [Bool.eq_false_iff, ne_eq, Path.strictlyLeadsTo_iff]
  rintro ⟨q, hq, hqe⟩
  have hqp := Path.below_of_below_of_atOrBelow hqe (Path.atOrBelow_of_below he)
  exact (Path.below_iff.1 hqp).1 (h q hq (Path.atOrBelow_of_below hqp))

/-- From such a point down to a directory everything needs a watch exactly when the directory is the
point or has to do with a root. -/
theorem needsWatch_between_iff {p : Path}
    (h : ∀ q ∈ u.watchPoints.toList, q.atOrBelow p = true → q.Same p)
    (hdp : d.atOrBelow p = true) :
    (∀ e : Path, d.atOrBelow e = true → e.below p = true → u.needsWatch e = true) ↔
      d.Same p ∨ u.Concerns d := by
  constructor
  · intro hneeds
    by_cases hsame : d.Same p
    · exact .inl hsame
    · have hbelow : d.below p = true := Path.below_iff.2 ⟨hsame, hdp⟩
      exact .inr ((needsWatch_iff_concerns h hbelow).1
        (hneeds d (Path.atOrBelow_refl d) hbelow))
  · intro hd e hde hep
    rcases hd with hsame | hconcerns
    · have hpe : p.atOrBelow e = true := Path.atOrBelow_trans hsame.symm.atOrBelow hde
      exact absurd hpe (Path.not_atOrBelow_of_below hep)
    · exact (needsWatch_iff_concerns h hep).2 (hconcerns.above hde)

theorem reaches_iff_selects
    (h : ∀ p ∈ u.newPoints, ∀ q ∈ u.watchPoints.toList, q.atOrBelow p = true → q.Same p) :
    u.Reaches d ↔ u.Selects d := by
  constructor
  · rintro ⟨p, hp, hdp, hneeds⟩
    exact ⟨p, hp, hdp, (needsWatch_between_iff (h p hp) hdp).1 hneeds⟩
  · rintro ⟨p, hp, hdp, hd⟩
    exact ⟨p, hp, hdp, (needsWatch_between_iff (h p hp) hdp).2 hd⟩

end Update

namespace Registry

theorem needsWatch_eq_allRoots (registry : Registry) (d : Path) :
    registry.needsWatch d =
      ((d.coveredBy registry.requests.allRoots || d.leadsTo registry.requests.allRoots ||
          d.leadsTo registry.requestedRoots.toList) &&
        !d.leadsTo registry.watchPoints.toList) := by
  have hcovered : (Request.ofRoots registry.requests.roots).contains d =
      d.coveredBy registry.requests.roots := by
    simp [Request.contains, Request.ofRoots]
  rw [needsWatch, Request.unfiltered, hcovered]
  change ((d.coveredBy registry.requests.roots || d.leadsTo registry.requests.roots ||
    d.leadsTo registry.requestedRoots.toList) && _) = _
  rw [Request.roots, Path.coveredBy_or_leadsTo_topmost]

theorem needsWatch_congr (registry : Registry) {p q : Path} (h : p.Same q) :
    registry.needsWatch p = registry.needsWatch q := by
  simp only [needsWatch_eq_allRoots, Path.coveredBy, Path.leadsTo, h.atOrBelow_congr,
    h.atOrBelow_congr_right]

end Registry

namespace Registry.Merges

variable {policy : Policy} {prior registry : Registry} {request : Request} {nearest : List Path}
  {update : Update}

theorem mem_candidates (h : Merges policy prior request nearest registry update) {p : Path}
    (hp : p ∈ update.newPoints) : p ∈ candidates request.roots nearest := by
  cases h with
  | unchanged => cases hp
  | first _ _ _ hnew => exact hnew ▸ hp
  | append _ _ _ hnew =>
    subst hnew
    exact (mem_fresh.1 hp).1
  | collapse _ _ _ hmerged =>
    obtain ⟨hp, hfresh⟩ := mem_fresh.1 hp
    subst hmerged
    rcases List.mem_append.1 (Path.mem_of_mem_topmost hp) with hp | hp
    · simp [PathSet.contains_of_mem hp] at hfresh
    · exact hp

theorem mem_nearest (h : Merges policy prior request nearest registry update) {p : Path}
    (hp : p ∈ update.newPoints) : p ∈ nearest :=
  mem_of_mem_candidates (h.mem_candidates hp)

theorem same_of_atOrBelow_newPoint (h : Merges .collapse prior request nearest registry update)
    {p q : Path} (hp : p ∈ update.newPoints) (hq : q ∈ update.watchPoints.toList)
    (hqp : q.atOrBelow p = true) : q.Same p := by
  have hnonempty : request.isEmpty = false := by
    cases h with
    | unchanged => cases hp
    | first hne => exact hne
    | collapse hne => exact hne
    | append hne => exact hne
  rw [h.watchPoints] at hq
  obtain ⟨r, hr, hrp⟩ := PathSet.contains_iff.1 (h.contains_of_mem_newPoints hp)
  have hqr : q.atOrBelow r = true := Path.atOrBelow_trans hqp hrp.symm.atOrBelow
  exact (h.same_of_atOrBelow hnonempty hq hr hqr).trans hrp

end Registry.Merges

end DirectoryWatch
