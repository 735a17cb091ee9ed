import DirectoryWatch.FileSystem.Listing
import DirectoryWatch.Proofs.Glob.Literal
import DirectoryWatch.Proofs.Registry.Order
import DirectoryWatch.Proofs.Registry.Roots
import DirectoryWatch.Proofs.Request.FilterText

/-!
# Answers about other spellings

What needs a watch and what lies below a plain root goes by components. Filters see the spelling of
what is left below the root of their tree, and all of it but its ends can make a difference.
-/
namespace DirectoryWatch

open DirectoryWatch.Path (trimStart trimEnd)

namespace Tree

variable {p q a b : Path}

theorem contains_eq_of_relativeTo? {tree : Tree} (h : p.Same q)
    (hinner : p.relativeTo? tree.root = q.relativeTo? tree.root) :
    tree.contains p = tree.contains q := by
  rw [contains, contains, hinner, decide_eq_decide.2 (h.same_iff (.refl tree.root))]

theorem root_of_ofPatterns {root : Path} {includes excludes : List String} {tree : Tree}
    (h : ofPatterns root includes excludes = .ok tree) : tree.root = root := by
  obtain ⟨filter, -, hfilter⟩ := exists_of_bind_eq_ok h
  cases hfilter
  rfl

/-- Below a root, what reads differently is told apart by a filter. -/
theorem filterText_eq_of_contains {root : Path} (h : p.Same q) (hroot : ¬p.Same root)
    (ha : p.relativeTo? root = some a) (hb : q.relativeTo? root = some b)
    (hall : ∀ includes excludes tree, ofPatterns root includes excludes = .ok tree →
      tree.contains p = tree.contains q) : filterText a = filterText b := by
  obtain ⟨filter, hfilter, hadmits⟩ := Filter.exists_admits_iff (filterChars b)
  have htree : ofPatterns root [Glob.escape (filterChars b)] [] = .ok ⟨root, filter⟩ := by
    rw [ofPatterns, hfilter]
    rfl
  have hcontains := hall _ _ _ htree
  have hq : ¬q.Same root := fun hq => hroot (h.trans hq)
  simp only [contains, ha, hb, hroot, hq, decide_false, Bool.false_or] at hcontains
  rw [(hadmits _).2 (filterText_eq b), hadmits] at hcontains
  rw [hcontains, filterText_eq b]

end Tree

namespace Path

variable {p q : Path}

/-- Every tree whose filter is read from patterns holds both or neither. -/
def FilteredAlike (p q : Path) : Prop :=
  ∀ root includes excludes tree, Tree.ofPatterns root includes excludes = .ok tree →
    tree.contains p = tree.contains q

/-- Every registry reports both or neither, whatever was registered. -/
def ReportedAlike (p q : Path) : Prop :=
  ∀ {World : Type} (fs : FileSystem World) policy moves w,
    fs.workingDirectory.isAbsolute = true →
      let registry := (Registry.run fs policy moves w).current.registry
      registry.reports p = registry.reports q

/-- Between their first name and their last, paths are spelled in one way if they read alike below
everything that lies above them. -/
theorem Same.inner_eq (h : p.Same q)
    (hall : ∀ root a b, (p.isAbsolute = true → root.isAbsolute = true) → ¬p.Same root →
      p.relativeTo? root = some a → q.relativeTo? root = some b →
        Tree.filterText a = Tree.filterText b) :
    trimEnd (trimStart p.segments) = trimEnd (trimStart q.segments) := by
  refine Tree.inner_eq_of_segmentText rfl h.filterMap_segments.symm fun n hn => ?_
  obtain ⟨root, hroot⟩ := p.exists_above n
  have hq := hroot
  rw [h.anchor, h.filterMap_segments] at hq
  refine hall root _ _ (fun hp => ?_) (fun hsame => ?_) (relativeTo?_eq_some hn.le hroot)
    (relativeTo?_eq_some (h.filterMap_segments ▸ hn.le) hq)
  · rw [isAbsolute_iff_components, hroot, isAbsolute_iff_anchor.1 hp]
    rfl
  · have hlength := congrArg List.length (show p.components = root.components from hsame)
    rw [hroot, components, List.length_append, List.length_append, List.length_take] at hlength
    omega

/-- Paths that read alike below everything above them, the empty path among it, differ at most at
their ends. -/
theorem Same.trimEnd_eq (h : p.Same q)
    (hall : ∀ root a b, ¬p.Same root → p.relativeTo? root = some a →
      q.relativeTo? root = some b → Tree.filterText a = Tree.filterText b) :
    trimEnd p.segments = trimEnd q.segments := by
  have hinner := h.inner_eq fun root a b _ => hall root a b
  by_cases hnil : trimEnd (trimStart p.segments) = []
  · rw [Path.trimEnd_eq, Path.trimEnd_eq q.segments, ← hinner, if_pos hnil, if_pos hnil]
  · have hempty : ¬p.Same ⟨[]⟩ := by
      intro hsame
      have hcomponents := (List.append_eq_nil_iff.1 hsame).2
      rw [trimEnd_trimStart, trimEnd_eq_nil_iff.2 hcomponents] at hnil
      exact hnil rfl
    have htext := hall ⟨[]⟩ _ _ hempty rfl rfl
    rw [Tree.filterText_ofParts, Tree.filterText_ofParts, h.anchor] at htext
    have hsegments := List.append_cancel_left htext
    rw [Path.trimEnd_eq, Path.trimEnd_eq q.segments, ← hinner, if_neg hnil, if_neg hnil]
      at hsegments ⊢
    rw [Tree.eq_of_segmentText_eq (fun _ => List.mem_takeWhile_imp)
      (fun _ => List.mem_takeWhile_imp) hnil hsegments]

theorem Same.filteredAlike_iff (h : p.Same q) :
    p.FilteredAlike q ↔ trimEnd p.segments = trimEnd q.segments := by
  constructor
  · intro hall
    exact h.trimEnd_eq fun root a b hroot ha hb =>
      Tree.filterText_eq_of_contains h hroot ha hb (hall root)
  · intro htrim root includes excludes tree _
    exact Tree.contains_eq_of_relativeTo? h (h.relativeTo?_eq htrim tree.root)

end Path

namespace Registry

variable {World : Type} {p q : Path}

theorem reports_registerAll_tree {tree : Tree} (hroot : tree.root.isAbsolute = true) (p : Path) :
    (registerAll (Listing.fileSystem (Path.ofString "/")) .collapse [⟨[], [tree]⟩]
      (.build [])).registry.reports p = tree.contains p := by
  have habsolute : Request.absolute (Path.ofString "/") ⟨[], [tree]⟩ = .ok ⟨[], [tree]⟩ := by
    simp [Request.absolute, Request.absoluteRoot, hroot, Tree.withRoot, pure, Except.pure, bind,
      Except.bind]
  have hdecides := Listing.decides (l := .build []) rfl (Path.ofString "/")
  have hform : ∀ request ∈ [(⟨[], [tree]⟩ : Request)],
      request.absolute (Path.ofString "/") = .ok (id request) :=
    List.forall_mem_singleton.2 habsolute
  have hreflects := (reflects_registerAll hdecides .collapse rfl hform).2
  rw [Registry.reports, hreflects.requests, List.map_id, Request.contains_unionAll]
  simp [Request.contains, Path.coveredBy]

theorem isAbsolute_of_mem_run {fs : FileSystem World} (hwd : fs.workingDirectory.isAbsolute = true)
    (policy : Policy) (moves : List (Move World)) (w : World) :
    ∀ root ∈ (run fs policy moves w).current.registry.requests.allRoots,
      root.isAbsolute = true := by
  refine forall_run
    (P := fun v => ∀ root ∈ v.registry.requests.allRoots, root.isAbsolute = true)
    (fun root hroot => by cases hroot) ?_ moves w _ (List.mem_cons_self ..)
  intro v request after update w₁ w₂ hprior hregister root hroot
  obtain ⟨absolute, nearest, habsolute, -, -, hmerges⟩ := merges_of_register hregister
  rcases hmerges.mem_allRoots hroot with hroot | hroot
  · exact hprior root hroot
  · exact Request.isAbsolute_of_mem_allRoots hwd habsolute hroot

end Registry

namespace Path

variable {p q : Path}

theorem Same.contains_eq (h : p.Same q) {request : Request}
    (htrees : ∀ tree ∈ request.trees, tree.contains p = tree.contains q) :
    request.contains p = request.contains q := by
  have hplain : p.coveredBy request.plain = q.coveredBy request.plain := by
    simp only [coveredBy, h.atOrBelow_congr]
  rw [Request.contains, Request.contains, hplain]
  congr 1
  rw [Bool.eq_iff_iff, List.any_eq_true, List.any_eq_true]
  exact exists_congr fun tree => and_congr_right fun htree => by rw [htrees tree htree]

theorem ReportedAlike.contains_eq (h : p.ReportedAlike q) {tree : Tree}
    (hroot : tree.root.isAbsolute = true) : tree.contains p = tree.contains q := by
  rw [← Registry.reports_registerAll_tree hroot, ← Registry.reports_registerAll_tree hroot]
  exact h _ _ _ _ (by decide)

theorem Same.reportedAlike_iff (h : p.Same q) : p.ReportedAlike q ↔
    (p.isAbsolute = true → trimEnd (trimStart p.segments) = trimEnd (trimStart q.segments)) := by
  constructor
  · intro hall hp
    refine h.inner_eq fun root a b habsolute hroot ha hb => ?_
    refine Tree.filterText_eq_of_contains h hroot ha hb fun includes excludes tree htree => ?_
    have htreeAbsolute : tree.root.isAbsolute = true :=
      Tree.root_of_ofPatterns htree ▸ habsolute hp
    exact hall.contains_eq htreeAbsolute
  · intro htrim World fs policy moves w hwd registry
    have habsolute : ∀ root ∈ registry.requests.allRoots, root.isAbsolute = true :=
      Registry.isAbsolute_of_mem_run hwd policy moves w
    refine h.contains_eq fun tree htree => ?_
    have hroot := habsolute tree.root
      (List.mem_append_right _ (List.mem_map_of_mem htree))
    exact Tree.contains_eq_of_relativeTo? h (h.relativeTo?_eq_of_isAbsolute hroot htrim)

/-- Paths that are the same need a watch alike and lie below plain roots alike. Some filter tells them
apart exactly where their spellings differ before the end, and some registry reports the one and
not the other exactly where absolute paths are spelled differently between their first name and
their last. -/
theorem Same.answers_alike_iff (h : p.Same q) :
    (∀ registry : Registry, registry.needsWatch p = registry.needsWatch q) ∧
      (∀ update : Update, update.needsWatch p = update.needsWatch q) ∧
      (∀ request : Request, request.trees = [] → request.contains p = request.contains q) ∧
      (p.FilteredAlike q ↔ trimEnd p.segments = trimEnd q.segments) ∧
      ((∀ request : Request, request.contains p = request.contains q) ↔
        trimEnd p.segments = trimEnd q.segments) ∧
      (p.ReportedAlike q ↔ (p.isAbsolute = true →
        trimEnd (trimStart p.segments) = trimEnd (trimStart q.segments))) := by
  refine ⟨fun registry => registry.needsWatch_congr h, fun update => update.needsWatch_congr h,
    fun request hnone => h.contains_eq (by simp [hnone]), h.filteredAlike_iff, ?_,
    h.reportedAlike_iff⟩
  constructor
  · intro hall
    refine h.filteredAlike_iff.1 fun root includes excludes tree _ => ?_
    simpa [Request.contains, coveredBy] using hall ⟨[], [tree]⟩
  · intro htrim request
    exact h.contains_eq fun tree _ =>
      Tree.contains_eq_of_relativeTo? h (h.relativeTo?_eq htrim tree.root)

theorem answers_alike_trailing :
    let p := Path.ofString "/a/b//c"
    let q := Path.ofString "/a/b//c/./"
    p ≠ q ∧ p.Same q ∧ p.FilteredAlike q ∧ p.ReportedAlike q ∧
      ∀ request : Request, request.contains p = request.contains q := by
  intro p q
  have hsame : p.Same q := by decide +kernel
  obtain ⟨-, -, -, hfiltered, hcontains, hreported⟩ := hsame.answers_alike_iff
  have htrim : trimEnd p.segments = trimEnd q.segments := by decide +kernel
  refine ⟨?_, hsame, hfiltered.2 htrim, hreported.2 fun _ => ?_, hcontains.2 htrim⟩
  · intro hbytes
    exact absurd (congrArg Path.bytes hbytes) (by decide +kernel)
  · rw [trimEnd_trimStart, trimEnd_trimStart, htrim]

/-- A doubled slash is no part of the path, and the pattern `b/c` takes it for one. -/
theorem not_answers_alike_doubledSlash :
    let p := Path.ofString "/a/b/c"
    let q := Path.ofString "/a/b//c"
    p.Same q ∧
      (∃ tree, Tree.ofPatterns (Path.ofString "/a") ["b/c"] [] = .ok tree ∧
        tree.contains p = true ∧ tree.contains q = false) ∧
      ¬p.FilteredAlike q ∧ ¬p.ReportedAlike q := by
  intro p q
  have hanswers : (Tree.ofPatterns (Path.ofString "/a") ["b/c"] []).toOption.map
      (fun tree => (tree.contains p, tree.contains q)) = some (true, false) := by decide +kernel
  have habsolute : (Path.ofString "/a").isAbsolute = true := by decide
  rcases htree : Tree.ofPatterns (Path.ofString "/a") ["b/c"] [] with e | tree
  all_goals rw [htree] at hanswers
  · cases hanswers
  · obtain ⟨hp, hq⟩ := Prod.mk.inj (Option.some.inj hanswers)
    have hroot : tree.root.isAbsolute = true := Tree.root_of_ofPatterns htree ▸ habsolute
    refine ⟨by decide +kernel, ⟨tree, rfl, hp, hq⟩, fun hall => ?_, fun hall => ?_⟩
    · have halike := hall _ _ _ _ htree
      simp [hp, hq] at halike
    · have halike := hall.contains_eq hroot
      simp [hp, hq] at halike

end Path

end DirectoryWatch
