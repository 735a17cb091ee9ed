import DirectoryWatch.Proofs.FileSystem.Decided
import DirectoryWatch.Proofs.FileSystem.Steady
import DirectoryWatch.Proofs.Path.Spelling
import DirectoryWatch.Proofs.Registry.Merge
import DirectoryWatch.Proofs.Request.Absolute
import DirectoryWatch.Proofs.Session.View
import DirectoryWatch.Registry.Timeline
import DirectoryWatch.Session.Plan

/-!
# The search for nearest directories

From each root the search goes up through everything that is no directory. It settles at the first
directory or at the top, or a failure blocks it before. Where the answers do not change, the answers
alone decide which of the two happens, and the first root that is blocked ends the registration.
-/
namespace DirectoryWatch

namespace Path

variable {answer : Path → Except Fault Bool} {root parent p q : Path} {fault : Fault}

/-- `q` is `root` or an ancestor of it, and everything longer is answered to be no directory. -/
structure Reaches (answer : Path → Except Fault Bool) (root q : Path) : Prop where
  mem : q ∈ root.ancestors
  missing : ∀ p ∈ root.ancestors, p.below q = true → answer p = .ok false

/-- `q` is the longest of `root` and its ancestors that is a directory, or `/` if no other is. -/
structure Settles (answer : Path → Except Fault Bool) (root q : Path) : Prop
    extends Reaches answer root q where
  stops : q.components = [.root] ∨ answer q = .ok true

/-- Asking about `q`, which is not `/`, fails before any directory at or above `root` is found. -/
structure Blocks (answer : Path → Except Fault Bool) (root q : Path) (fault : Fault) : Prop
    extends Reaches answer root q where
  inner : q.components ≠ [.root]
  fails : answer q = .error fault

def Blocked (answer : Path → Except Fault Bool) (root : Path) : Prop :=
  ∃ q fault, Blocks answer root q fault

theorem below_of_mem_ancestors_parent (h : root.parent? = some parent)
    (hq : q ∈ parent.ancestors) : root.below q = true := by
  have hup := atOrBelow_of_mem_ancestors hq
  refine below_iff.2 ⟨fun hsame => ?_, atOrBelow_trans (atOrBelow_parent h) hup⟩
  have hlength := (atOrBelow_iff.1 hup).length_le
  rw [← show root.components = q.components from hsame] at hlength
  exact absurd (length_components_of_parent? h) (Nat.not_lt.2 hlength)

namespace Reaches

theorem self (answer : Path → Except Fault Bool) (root : Path) : Reaches answer root root := by
  refine ⟨mem_ancestors_self root, fun p hp hbelow => ?_⟩
  obtain ⟨hdiffers, hdown⟩ := below_iff.1 hbelow
  exact absurd (same_of_atOrBelow hdown (atOrBelow_of_mem_ancestors hp)) hdiffers

theorem child (h : Reaches answer parent q) (hparent : root.parent? = some parent)
    (hroot : answer root = .ok false) : Reaches answer root q := by
  constructor
  · rw [ancestors_of_parent? hparent]
    exact List.mem_cons_of_mem root h.mem
  · rw [ancestors_of_parent? hparent]
    rintro p (_ | ⟨_, hp⟩) hbelow
    · exact hroot
    · exact h.missing p hp hbelow

theorem eq_or_parent (h : Reaches answer root q) (hparent : root.parent? = some parent) :
    q = root ∨ answer root = .ok false ∧ Reaches answer parent q := by
  have hmem := h.mem
  rw [ancestors_of_parent? hparent] at hmem
  refine (List.mem_cons.1 hmem).imp_right fun hq => ⟨?_, hq, fun p hp hbelow => ?_⟩
  · exact h.missing root (mem_ancestors_self root) (below_of_mem_ancestors_parent hparent hq)
  · refine h.missing p ?_ hbelow
    rw [ancestors_of_parent? hparent]
    exact List.mem_cons_of_mem root hp

end Reaches

theorem settles_or_blocked (answer : Path → Except Fault Bool) (h : root.isAbsolute = true) :
    (∃ q, Settles answer root q) ∨ Blocked answer root := by
  induction root using parentInduction with
  | top root htop =>
    exact .inl ⟨root, .self answer root, .inl ((parent?_eq_none_iff_of_isAbsolute h).1 htop)⟩
  | child root parent hparent ih =>
    have hinner : root.components ≠ [.root] := by
      intro htop
      rw [(parent?_eq_none_iff_of_isAbsolute h).2 htop] at hparent
      cases hparent
    rcases hanswer : answer root with fault | _ | _
    · exact .inr ⟨root, fault, .self answer root, hinner, hanswer⟩
    · refine (ih (isAbsolute_parent h hparent)).imp ?_ ?_
      · rintro ⟨q, hq⟩
        exact ⟨q, hq.toReaches.child hparent hanswer, hq.stops⟩
      · rintro ⟨q, fault, hq⟩
        exact ⟨q, fault, hq.toReaches.child hparent hanswer, hq.inner, hq.fails⟩
    · exact .inl ⟨root, .self answer root, .inr hanswer⟩

end Path

namespace FileSystem

open DirectoryWatch.Path (Reaches Settles Blocks Blocked)

variable {World : Type} {fs : FileSystem World} {answer : Path → Except Fault Bool}
  {now : World → Prop} {start root q : Path} {roots : List Path} {fault : Fault} {w : World}

theorem firstDirectory_ancestors (fs : FileSystem World) (root : Path) {p parent : Path}
    (h : p.parent? = some parent) (w : World) :
    fs.firstDirectory root p.ancestors w =
      match fs.isDirectory p w with
      | (.error fault, w) => (.error (.unresolvedRoot root fault.chain), w)
      | (.ok true, w) => (.ok p, w)
      | (.ok false, w) => fs.firstDirectory root parent.ancestors w := by
  rw [Path.ancestors_of_parent? h, Path.ancestors_eq_cons parent]
  rfl

namespace Steady

variable (hsteady : fs.Steady answer now) (hmaintains : fs.Maintains now)
include hsteady hmaintains

theorem exists_firstDirectory_eq (root : Path) (h : Reaches answer start q) (hw : now w) :
    ∃ w', now w' ∧
      fs.firstDirectory root start.ancestors w = fs.firstDirectory root q.ancestors w' := by
  induction start using Path.parentInduction generalizing w with
  | top start htop =>
    have hq := h.mem
    rw [Path.ancestors_of_parent?_eq_none htop, List.mem_singleton] at hq
    exact ⟨w, hw, by rw [hq]⟩
  | child start parent hparent ih =>
    rcases h.eq_or_parent hparent with rfl | ⟨hmissing, hup⟩
    · exact ⟨w, hw, rfl⟩
    · have hanswer := hsteady start w hw
      have hnext := hmaintains.isDirectory start w hw
      rw [firstDirectory_ancestors fs root hparent]
      generalize fs.isDirectory start w = asked at hanswer hnext ⊢
      obtain ⟨found, w'⟩ := asked
      obtain rfl : found = .ok false := hanswer.trans hmissing
      exact ih hup hnext

theorem nearest_of_settles (h : Settles answer root q) (hw : now w) :
    (fs.nearest root w).1 = .ok q := by
  obtain ⟨w', hw', heq⟩ := hsteady.exists_firstDirectory_eq hmaintains root h.toReaches hw
  rw [FileSystem.nearest, heq]
  cases hparent : q.parent? with
  | none =>
    rw [Path.ancestors_of_parent?_eq_none hparent]
    rfl
  | some parent =>
    have hdirectory : answer q = .ok true := by
      refine h.stops.resolve_left fun htop => ?_
      rw [Path.parent?_eq_none_iff.2 (.inr htop)] at hparent
      cases hparent
    have hanswer := (hsteady q w' hw').trans hdirectory
    rw [firstDirectory_ancestors fs root hparent]
    generalize fs.isDirectory q w' = asked at hanswer ⊢
    obtain ⟨found, w''⟩ := asked
    obtain rfl : found = .ok true := hanswer
    rfl

theorem nearest_of_blocks (hroot : root.isAbsolute = true) (h : Blocks answer root q fault)
    (hw : now w) : (fs.nearest root w).1 = .error (.unresolvedRoot root fault.chain) := by
  obtain ⟨w', hw', heq⟩ := hsteady.exists_firstDirectory_eq hmaintains root h.toReaches hw
  rw [FileSystem.nearest, heq]
  cases hparent : q.parent? with
  | none =>
    have hq := Path.isAbsolute_of_mem_ancestors hroot h.mem
    exact absurd ((Path.parent?_eq_none_iff_of_isAbsolute hq).1 hparent) h.inner
  | some parent =>
    have hanswer := (hsteady q w' hw').trans h.fails
    rw [firstDirectory_ancestors fs root hparent]
    generalize fs.isDirectory q w' = asked at hanswer ⊢
    obtain ⟨found, w''⟩ := asked
    obtain rfl : found = .error fault := hanswer
    rfl

theorem not_blocked_of_settles (hroot : root.isAbsolute = true) (h : Settles answer root q)
    (hw : now w) : ¬Blocked answer root := by
  rintro ⟨p, fault, hblocks⟩
  have hsettled := hsteady.nearest_of_settles hmaintains h hw
  rw [hsteady.nearest_of_blocks hmaintains hroot hblocks hw] at hsettled
  cases hsettled

/-- Either every root settles, or the first that is blocked ends the search. -/
theorem nearestAll_cases (hroots : ∀ root ∈ roots, root.isAbsolute = true) (hw : now w) :
    (∃ nearest, (fs.nearestAll roots w).1 = .ok nearest ∧
        List.Forall₂ (Settles answer) roots nearest ∧ ∀ root ∈ roots, ¬Blocked answer root) ∨
      ∃ before root after q fault, roots = before ++ root :: after ∧
        (∀ other ∈ before, ¬Blocked answer other) ∧ Blocks answer root q fault ∧
        (fs.nearestAll roots w).1 = .error (.unresolvedRoot root fault.chain) := by
  induction roots generalizing w with
  | nil => exact .inl ⟨[], rfl, .nil, fun _ hroot => absurd hroot List.not_mem_nil⟩
  | cons root rest ih =>
    obtain ⟨hroot, hrest⟩ := List.forall_mem_cons.1 hroots
    have hnext := hmaintains.nearest root hw
    rw [FileSystem.nearestAll]
    rcases Path.settles_or_blocked answer hroot with ⟨q, hq⟩ | ⟨q, fault, hq⟩
    · have hopen := hsteady.not_blocked_of_settles hmaintains hroot hq hw
      have hfirst := hsteady.nearest_of_settles hmaintains hq hw
      generalize fs.nearest root w = searched at hfirst hnext ⊢
      obtain ⟨found, w'⟩ := searched
      obtain rfl : found = .ok q := hfirst
      rcases ih hrest hnext with ⟨nearest, hnearest, hall, hothers⟩ |
        ⟨before, other, after, p, fault, rfl, hbefore, hblocks, hfailure⟩
      · refine .inl ⟨q :: nearest, ?_, .cons hq hall, List.forall_mem_cons.2 ⟨hopen, hothers⟩⟩
        dsimp only at hnearest ⊢
        generalize fs.nearestAll rest w' = others at hnearest ⊢
        obtain ⟨more, w''⟩ := others
        obtain rfl : more = .ok nearest := hnearest
        rfl
      · refine .inr ⟨root :: before, other, after, p, fault, rfl,
          List.forall_mem_cons.2 ⟨hopen, hbefore⟩, hblocks, ?_⟩
        dsimp only at hfailure ⊢
        generalize fs.nearestAll (before ++ other :: after) w' = others at hfailure ⊢
        obtain ⟨more, w''⟩ := others
        obtain rfl : more = .error (.unresolvedRoot other fault.chain) := hfailure
        rfl
    · refine .inr ⟨[], root, rest, q, fault, rfl, fun other hother => ?_, hq, ?_⟩
      · cases hother
      · have hfirst := hsteady.nearest_of_blocks hmaintains hroot hq hw
        generalize fs.nearest root w = searched at hfirst ⊢
        obtain ⟨found, w'⟩ := searched
        obtain rfl : found = .error (.unresolvedRoot root fault.chain) := hfirst
        rfl

end Steady

theorem now_firstDirectory {p : Path}
    (h : ∀ q ∈ p.ancestors, q.parent? ≠ none → ∀ w, now w → now (fs.isDirectory q w).2)
    (hw : now w) : now (fs.firstDirectory root p.ancestors w).2 := by
  induction p using Path.parentInduction generalizing w with
  | top p htop =>
    rw [Path.ancestors_of_parent?_eq_none htop]
    exact hw
  | child p parent hparent ih =>
    have hnext := h p (Path.mem_ancestors_self p) (by simp [hparent]) w hw
    rw [firstDirectory_ancestors fs root hparent]
    generalize fs.isDirectory p w = asked at hnext ⊢
    rcases asked with ⟨fault | _ | _, w'⟩
    · exact hnext
    · refine ih (fun q hq => h q ?_) hnext
      rw [Path.ancestors_of_parent? hparent]
      exact List.mem_cons_of_mem p hq
    · exact hnext

theorem now_nearestAll
    (h : ∀ root ∈ roots, ∀ q ∈ root.ancestors, q.parent? ≠ none →
      ∀ w, now w → now (fs.isDirectory q w).2)
    (hw : now w) : now (fs.nearestAll roots w).2 := by
  induction roots generalizing w with
  | nil => exact hw
  | cons root rest ih =>
    obtain ⟨hroot, hrest⟩ := List.forall_mem_cons.1 h
    have hfirst : now (fs.nearest root w).2 := now_firstDirectory hroot hw
    rw [nearestAll]
    generalize fs.nearest root w = searched at hfirst ⊢
    rcases searched with ⟨e | p, w'⟩
    · exact hfirst
    · have hothers := ih hrest hfirst
      dsimp only at hothers ⊢
      generalize fs.nearestAll rest w' = others at hothers ⊢
      rcases others with ⟨e | ps, w''⟩ <;> exact hothers

end FileSystem

namespace Registry

open DirectoryWatch.Path (Settles Blocks Blocked)

variable {World : Type} {fs : FileSystem World} {policy : Policy} {registry : Registry}
  {request absolute : Request} {w : World}

theorem register_of_absolute (fs : FileSystem World) (policy : Policy) (registry : Registry)
    (h : request.absolute fs.workingDirectory = .ok absolute) (w : World) :
    registry.register fs policy request w =
      ((fs.nearestAll absolute.roots w).1.map (registry.merge policy absolute),
        (fs.nearestAll absolute.roots w).2) := by
  rw [register, h]
  dsimp only
  rcases fs.nearestAll absolute.roots w with ⟨e | nearest, w'⟩ <;> rfl

/-- Nothing was done but to inspect ancestors of the roots, and never `/` itself. -/
def AsksBelowTop (roots : List Path) (t : Traced World) : Prop :=
  ∀ deed ∈ t.deeds, ∃ root ∈ roots, ∃ q ∈ root.ancestors, ∃ found,
    deed = .inspected q found ∧ q.components ≠ [.root]

theorem asksBelowTop_register {host : Host World} (policy : Policy) (registry : Registry)
    (h : request.absolute host.workingDirectory = .ok absolute) (w : World) :
    AsksBelowTop absolute.roots
      (registry.register host.traced.toFileSystem policy request (.start w)).2 := by
  have hstart : AsksBelowTop absolute.roots (Traced.start w) :=
    fun deed hdeed => absurd hdeed List.not_mem_nil
  rw [register_of_absolute host.traced.toFileSystem policy registry h]
  refine FileSystem.now_nearestAll (fun root hroot q hq hinner t ht => ?_) hstart
  change ∀ deed ∈ (t.note _ _).deeds, _
  rw [Traced.deeds_note, List.forall_mem_append]
  refine ⟨ht, List.forall_mem_singleton.2 ⟨root, hroot, q, hq, _, rfl, fun htop => hinner ?_⟩⟩
  exact Path.parent?_eq_none_iff.2 (.inr htop)

theorem Timeline.versions_step_of_error {t : Timeline World} {failure : Failure}
    (h : (t.current.registry.register fs policy request t.world).1 = .error failure) :
    (t.step fs policy (.register request)).versions = t.versions := by
  rw [step]
  generalize t.current.registry.register fs policy request t.world = registered at h ⊢
  obtain ⟨outcome, w⟩ := registered
  obtain rfl : outcome = .error failure := h
  rfl

/-- Either every root settles, or the failure names the first one that is blocked. -/
theorem register_cases {answer : Path → Except Fault Bool} {now : World → Prop}
    (hsteady : fs.Steady answer now) (hmaintains : fs.Maintains now)
    (hdirectory : fs.workingDirectory.isAbsolute = true) (policy : Policy) (registry : Registry)
    (hw : now w) (habsolute : request.absolute fs.workingDirectory = .ok absolute) :
    (∃ nearest, (registry.register fs policy request w).1 =
          .ok (registry.merge policy absolute nearest) ∧
        List.Forall₂ (Settles answer) absolute.roots nearest ∧
        ∀ root ∈ absolute.roots, ¬Blocked answer root) ∨
      ∃ root ∈ absolute.roots, ∃ q fault, Blocks answer root q fault ∧
        (registry.register fs policy request w).1 = .error (.unresolvedRoot root fault.chain) ∧
        ∀ other ∈ absolute.roots, Blocked answer other → root ≤ other := by
  have hroots : ∀ root ∈ absolute.roots, root.isAbsolute = true := fun root hroot =>
    Request.isAbsolute_of_mem_allRoots hdirectory habsolute (Path.mem_of_mem_topmost hroot)
  rw [register_of_absolute fs policy registry habsolute]
  rcases hsteady.nearestAll_cases hmaintains hroots hw with ⟨nearest, hnearest, hall, hopen⟩ |
    ⟨before, root, after, q, fault, hsplit, hbefore, hblocks, hfailure⟩
  · exact .inl ⟨nearest, by rw [hnearest, Except.map], hall, hopen⟩
  · refine .inr ⟨root, by simp [hsplit], q, fault, hblocks, by rw [hfailure, Except.map],
      fun other hother hblocked => ?_⟩
    -- The roots ascend, so those after the first that is blocked come later.
    have hascending := Path.ascending_topmost absolute.allRoots
    rw [← Request.roots, hsplit] at hascending
    have hlater := (List.pairwise_cons.1 (List.pairwise_append.1 hascending).2.1).1
    rw [hsplit, List.mem_append, List.mem_cons] at hother
    rcases hother with hother | rfl | hother
    · exact absurd hblocked (hbefore other hother)
    · exact List.le_refl other.key
    · exact List.le_of_lt (show root.key < other.key from hlater other hother)

/-- Where the answers of the file system do not change and the request has an absolute form, it is
registered unless the search from one of its roots is blocked. Then the first root that is blocked
is named, by the words of the failure that blocks it, and what was registered stays as it is.
Otherwise each root is replaced by the longest of it and its ancestors that is a directory, or by
`/`, and the request is merged with all the topmost of these. Of the ancestors only `/` is never
inspected. -/
theorem register_search {host : Host World} {answer : Path → Except Fault Bool}
    {now : World → Prop} (hsteady : host.Steady answer now)
    (hmaintains : host.toFileSystem.Maintains now)
    (hdirectory : host.workingDirectory.isAbsolute = true) (policy : Policy) (t : Timeline World)
    (ht : now t.world) (habsolute : request.absolute host.workingDirectory = .ok absolute) :
    let result := (t.current.registry.register host.toFileSystem policy request t.world).1
    ((∃ failure, result = .error failure) ↔ ∃ root ∈ absolute.roots, Blocked answer root) ∧
      (∀ failure, result = .error failure →
        (∃ root ∈ absolute.roots, ∃ q fault, Blocks answer root q fault ∧
          failure = .unresolvedRoot root fault.chain ∧
          ∀ other ∈ absolute.roots, Blocked answer other → root ≤ other) ∧
        (t.step host.toFileSystem policy (.register request)).versions = t.versions) ∧
      (∀ registry update, result = .ok (registry, update) →
        ∃ nearest, List.Forall₂ (Settles answer) absolute.roots nearest ∧
          (registry, update) = t.current.registry.merge policy absolute nearest ∧
          candidates absolute.roots nearest = Path.topmost nearest) ∧
      let traced := t.current.registry.register host.traced.toFileSystem policy request
        (.start t.world)
      traced.1 = result ∧ AsksBelowTop absolute.roots traced.2 := by
  intro result
  have htraced := host.traced_mirrors.registryRegister policy t.current.registry request
    (.start t.world)
  have hasked := asksBelowTop_register policy t.current.registry habsolute t.world
  rw [← and_assoc, ← and_assoc]
  refine ⟨?_, (congrArg Prod.fst htraced).symm, hasked⟩
  rcases register_cases hsteady hmaintains hdirectory policy t.current.registry ht habsolute with
    ⟨nearest, hresult, hall, hopen⟩ | ⟨root, hroot, q, fault, hblocks, hresult, hfirst⟩
  · refine ⟨⟨iff_of_false ?_ ?_, fun failure hfailure => ?_⟩, fun registry update hok => ?_⟩
    · rintro ⟨failure, hfailure⟩
      cases hresult.symm.trans hfailure
    · rintro ⟨root, hroot, hblocked⟩
      exact hopen root hroot hblocked
    · cases hresult.symm.trans hfailure
    · refine ⟨nearest, hall, Except.ok.inj (hok.symm.trans hresult), candidates_eq_topmost ?_⟩
      exact hall.imp fun root p hp => Path.atOrBelow_of_mem_ancestors hp.mem
  · refine ⟨⟨iff_of_true ⟨_, hresult⟩ ⟨root, hroot, q, fault, hblocks⟩, fun failure hfailure => ?_⟩,
      fun registry update hok => ?_⟩
    · have hnamed := Except.error.inj (hfailure.symm.trans hresult)
      exact ⟨⟨root, hroot, q, fault, hblocks, hnamed, hfirst⟩,
        Timeline.versions_step_of_error hfailure⟩
    · cases hresult.symm.trans hok

/-- A directory with one below it, and one about which every question fails. -/
def guardedListing : Listing :=
  .build [.directory (Path.ofString "/w/open/inner"), .directory (Path.ofString "/w/guarded"),
    .denial (Path.ofString "/w/guarded")]

/-- Two files that do not exist, one of them below the directory that cannot be asked about. -/
def guardedRequest : Request :=
  .ofRoots [Path.ofString "open/missing/file", Path.ofString "guarded/file"]

def openRequest : Request := .ofRoots [Path.ofString "open/missing/file"]

theorem register_search_guarded :
    let host := (Listing.fileSystem (Path.ofString "/w")).dry
    let result (request : Request) :=
      ((∅ : Registry).register host.toFileSystem .collapse request guardedListing).1
    (∃ root q fault, result guardedRequest = .error (.unresolvedRoot root fault.chain) ∧
        Blocks guardedListing.isDirectory root q fault) ∧
      ∃ registry update nearest, result openRequest = .ok (registry, update) ∧
        List.Forall₂ (Settles guardedListing.isDirectory)
          (openRequest.formFrom (Path.ofString "/w")).roots nearest := by
  intro host result
  have hsteady : host.Steady guardedListing.isDirectory (· = guardedListing) := by
    rintro p _ rfl
    rfl
  have hmaintains : host.toFileSystem.Maintains (· = guardedListing) :=
    ⟨fun _ _ => id, fun _ _ => id⟩
  have hform {request : Request} (h : ∀ root ∈ request.allRoots, root.isEmpty = false) :
      request.absolute host.workingDirectory =
        .ok (request.formFrom (Path.ofString "/w")) := Request.absolute_eq_ok_iff.2 ⟨h, rfl⟩
  have hguarded : ∀ root ∈ guardedRequest.allRoots, root.isEmpty = false := by decide
  have hopen : ∀ root ∈ openRequest.allRoots, root.isEmpty = false := by decide
  constructor
  · obtain ⟨-, hblocked, -⟩ := register_search hsteady hmaintains (by decide) .collapse
      (.start guardedListing) rfl (hform hguarded)
    have hroots : (guardedRequest.formFrom (Path.ofString "/w")).roots =
        [Path.ofString "/w/guarded/file", Path.ofString "/w/open/missing/file"] := by cbv
    have hfailed : (result guardedRequest).isOk = false := by
      change (Registry.register _ _ _ _ _).1.isOk = false
      rw [register_of_absolute _ _ _ (hform hguarded), hroots]
      decide +kernel
    cases hresult : result guardedRequest with
    | ok merged => simp [hresult, Except.isOk, Except.toBool] at hfailed
    | error failure =>
      obtain ⟨⟨root, -, q, fault, hblocks, rfl, -⟩, -⟩ := hblocked failure hresult
      exact ⟨root, q, fault, rfl, hblocks⟩
  · obtain ⟨-, -, hsettled, -⟩ := register_search hsteady hmaintains (by decide) .collapse
      (.start guardedListing) rfl (hform hopen)
    have hdone : (result openRequest).isOk = true := by decide +kernel
    cases hresult : result openRequest with
    | error failure => simp [hresult, Except.isOk, Except.toBool] at hdone
    | ok merged =>
      obtain ⟨nearest, hall, -⟩ := hsettled merged.1 merged.2 hresult
      exact ⟨merged.1, merged.2, nearest, rfl, hall⟩

end Registry

end DirectoryWatch
