import DirectoryWatch.FileSystem.Listing
import DirectoryWatch.Proofs.FileSystem.Decided
import DirectoryWatch.Proofs.Registry.Coherent
import DirectoryWatch.Proofs.Registry.Invariant
import DirectoryWatch.Proofs.Request.Union

/-!
# The order of requests

Where the file system keeps to its answers, a registry reflects the requests that it was given and
not the order in which they came. Under collapse it does not matter either how they were united
before.
-/
namespace DirectoryWatch

variable {World : Type} {fs : FileSystem World} {policy : Policy} {directory : List Component → Bool}
  {forms : List Request}

def Request.standIns (directory : List Component → Bool) (request : Request) : List Path :=
  Path.topmost (request.allRoots.map (Path.nearest directory))

/-- What is watched for absolute requests: the stand-ins of each, or those of their union. -/
def Policy.standIns (directory : List Component → Bool) (forms : List Request) : Policy → List Path
  | .append => forms.flatMap (Request.standIns directory)
  | .collapse => (Request.unionAll forms).standIns directory

theorem Policy.coveredBy_standIns (policy : Policy) (p : Path) :
    p.coveredBy (policy.standIns directory forms) =
      p.coveredBy ((Request.unionAll forms).allRoots.map (Path.nearest directory)) := by
  cases policy with
  | collapse => exact Path.coveredBy_topmost p _
  | append =>
    have heach (form : Request) : p.coveredBy (form.standIns directory) =
        p.coveredBy (form.allRoots.map (Path.nearest directory)) := Path.coveredBy_topmost p _
    rw [Bool.eq_iff_iff, Path.coveredBy_iff, Path.coveredBy_map_iff]
    constructor
    · rintro ⟨q, hq, hp⟩
      obtain ⟨form, hform, hq⟩ := List.mem_flatMap.1 hq
      have hcovered := heach form ▸ Path.coveredBy_iff.2 ⟨q, hq, hp⟩
      obtain ⟨root, hroot, hp⟩ := Path.coveredBy_map_iff.1 hcovered
      exact ⟨root, Request.mem_allRoots_unionAll.2 ⟨form, hform, hroot⟩, hp⟩
    · rintro ⟨root, hroot, hp⟩
      obtain ⟨form, hform, hroot⟩ := Request.mem_allRoots_unionAll.1 hroot
      have hcovered := heach form ▸ Path.coveredBy_map_iff.2 ⟨root, hroot, hp⟩
      obtain ⟨q, hq, hp⟩ := Path.coveredBy_iff.1 hcovered
      exact ⟨q, List.mem_flatMap.2 ⟨form, hform, hq⟩, hp⟩

theorem Request.exists_standIns_roots (request : Request) (p : Path) :
    (∃ q ∈ Path.topmost (request.roots.map (Path.nearest directory)), q.Same p) ↔
      ∃ q ∈ request.standIns directory, q.Same p := by
  refine (Path.apart_topmost _).exists_same_iff (Path.apart_topmost _) (fun q => ?_) p
  rw [Path.coveredBy_topmost, Path.coveredBy_topmost]
  exact Path.coveredBy_nearest_topmost q request.allRoots

namespace Registry

/-- The registry knows these absolute requests and no others. -/
structure Reflects (directory : List Component → Bool) (policy : Policy) (forms : List Request)
    (registry : Registry) : Prop where
  requests : registry.requests = .unionAll forms
  requestedRoots : ∀ p, registry.requestedRoots.contains p = true ↔
    ∃ form ∈ forms, ∃ root ∈ form.roots, root.Same p
  watchPoints : ∀ p, registry.watchPoints.contains p = true ↔
    ∃ q ∈ policy.standIns directory forms, q.Same p

/-- The same watch points, and the same answers to both questions. -/
structure Agrees (a b : Registry) : Prop where
  watchPoints : ∀ p, a.watchPoints.contains p = b.watchPoints.contains p
  reports : ∀ p, a.reports p = b.reports p
  needsWatch : ∀ d, a.needsWatch d = b.needsWatch d

namespace Reflects

variable {registry : Registry}

theorem empty (policy : Policy) : Reflects directory policy [] ∅ := by
  have hnone : policy.standIns directory [] = [] := by
    cases policy with
    | append => rfl
    | collapse => exact Path.topmost_eq_nil_iff.2 rfl
  refine ⟨rfl, ?_, ?_⟩
  · intro p
    simp [show (∅ : Registry).requestedRoots.contains p = false from rfl]
  · intro p
    simp [hnone, show (∅ : Registry).watchPoints.contains p = false from rfl]

theorem coveredBy_eq (h : Reflects directory policy forms registry) (p : Path) :
    p.coveredBy registry.watchPoints.toList =
      p.coveredBy ((Request.unionAll forms).allRoots.map (Path.nearest directory)) := by
  rw [← policy.coveredBy_standIns, Bool.eq_iff_iff, PathSet.coveredBy_iff, Path.coveredBy_iff]
  constructor
  · rintro ⟨q, hq, hp⟩
    obtain ⟨r, hr, hrq⟩ := (h.watchPoints q).1 hq
    exact ⟨r, hr, hrq.atOrBelow_congr_right p ▸ hp⟩
  · rintro ⟨q, hq, hp⟩
    exact ⟨q, (h.watchPoints q).2 ⟨q, hq, .refl q⟩, hp⟩

theorem apart (h : Reflects directory .collapse forms registry) :
    Path.Apart registry.watchPoints.toList := by
  intro p hp q hq hpq
  obtain ⟨p', hp', hpp⟩ := (h.watchPoints p).1 (PathSet.contains_of_mem hp)
  obtain ⟨q', hq', hqq⟩ := (h.watchPoints q).1 (PathSet.contains_of_mem hq)
  have hle : p'.atOrBelow q' = true := by
    rw [hpp.atOrBelow_congr, hqq.atOrBelow_congr_right, hpq]
  have hsame : p'.Same q' := Path.apart_topmost _ p' hp' q' hq' hle
  exact (hpp.same_iff hqq).1 hsame

theorem coherent (h : Reflects directory policy forms registry) : registry.Coherent := by
  refine ⟨fun p => ?_, fun root hroot => ?_⟩
  · rw [h.requests, Bool.eq_iff_iff, PathSet.coveredBy_iff, Path.coveredBy_iff]
    constructor
    · rintro ⟨q, hq, hp⟩
      obtain ⟨form, hform, root, hroot, hsame⟩ := (h.requestedRoots q).1 hq
      refine ⟨root, ?_, hsame.atOrBelow_congr_right p ▸ hp⟩
      exact Request.mem_allRoots_unionAll.2 ⟨form, hform, Path.mem_of_mem_topmost hroot⟩
    · rintro ⟨root, hroot, hp⟩
      obtain ⟨form, hform, hroot⟩ := Request.mem_allRoots_unionAll.1 hroot
      obtain ⟨top, htop, hle⟩ := Path.exists_atOrBelow_topmost hroot
      have hcontains := (h.requestedRoots top).2 ⟨form, hform, top, htop, .refl top⟩
      exact ⟨top, hcontains, Path.atOrBelow_trans hp hle⟩
  · rw [h.requests] at hroot
    rw [h.coveredBy_eq, Path.coveredBy_map_iff]
    exact ⟨root, hroot, Path.atOrBelow_nearest root⟩

theorem merge (h : Reflects directory policy forms registry) {form : Request} {after : Registry}
    {update : Update} (hresolved : Resolved form.roots (form.roots.map (Path.nearest directory)))
    (hmerges : Merges policy registry form (form.roots.map (Path.nearest directory)) after update) :
    Reflects directory policy (forms ++ [form]) after := by
  have hrequests : after.requests = .unionAll (forms ++ [form]) := by
    rw [Request.unionAll_concat, ← h.requests]
    exact hmerges.requests_eq h.coherent.requests_eq_empty
  refine ⟨hrequests, ?_, ?_⟩
  · intro p
    rw [hmerges.requestedRoots_eq, PathSet.contains_insertAll_iff, h.requestedRoots]
    simp [or_and_right, exists_or]
  · intro p
    cases policy with
    | append =>
      rw [hmerges.contains_append hresolved, h.watchPoints, form.exists_standIns_roots]
      simp [Policy.standIns, or_and_right, exists_or]
    | collapse =>
      rw [PathSet.contains_iff]
      refine (hmerges.apart h.apart).exists_same_iff (Path.apart_topmost _) (fun q => ?_) p
      rw [hmerges.coveredBy_eq hresolved, h.coveredBy_eq, Path.coveredBy_topmost, Request.roots,
        Path.coveredBy_nearest_topmost, Request.unionAll_concat, Bool.eq_iff_iff,
        Bool.or_eq_true]
      simp only [Path.coveredBy_map_iff, Request.mem_allRoots_union, or_and_right, exists_or]

variable {forms' : List Request} {other : Registry}

theorem agrees (h : Reflects directory policy forms registry)
    (k : Reflects directory policy forms' other)
    (halike : (Request.unionAll forms).Alike (Request.unionAll forms'))
    (hpoints : ∀ p, (∃ q ∈ policy.standIns directory forms, q.Same p) ↔
      ∃ q ∈ policy.standIns directory forms', q.Same p) : registry.Agrees other := by
  have hwatch (p : Path) : registry.watchPoints.contains p = other.watchPoints.contains p := by
    rw [Bool.eq_iff_iff, h.watchPoints, k.watchPoints, hpoints]
  refine ⟨hwatch, ?_, ?_⟩
  · intro p
    rw [reports, reports, h.requests, k.requests, halike.contains]
  · intro d
    have hcovered : d.coveredBy (Request.unionAll forms).allRoots =
        d.coveredBy (Request.unionAll forms').allRoots := by
      rw [Bool.eq_iff_iff, Path.coveredBy_iff, Path.coveredBy_iff]
      simp only [halike.mem_allRoots]
    have hleads : d.leadsTo (Request.unionAll forms).allRoots =
        d.leadsTo (Request.unionAll forms').allRoots := by
      rw [Bool.eq_iff_iff, Path.leadsTo_iff, Path.leadsTo_iff]
      simp only [halike.mem_allRoots]
    rw [h.coherent.needsWatch_eq_requests, k.coherent.needsWatch_eq_requests, h.requests, k.requests,
      hcovered, hleads, PathSet.leadsTo_congr hwatch]

theorem agrees_collapse (h : Reflects directory .collapse forms registry)
    (k : Reflects directory .collapse forms' other)
    (halike : (Request.unionAll forms).Alike (Request.unionAll forms')) :
    registry.Agrees other := by
  refine h.agrees k halike fun p => ?_
  refine (Path.apart_topmost _).exists_same_iff (Path.apart_topmost _) (fun q => ?_) p
  rw [Path.coveredBy_topmost, Path.coveredBy_topmost, Bool.eq_iff_iff]
  simp only [Path.coveredBy_map_iff, halike.mem_allRoots]

theorem agrees_of_perm (h : Reflects directory policy forms registry)
    (k : Reflects directory policy forms' other) (hperm : forms.Perm forms') :
    registry.Agrees other := by
  cases policy with
  | collapse => exact h.agrees_collapse k (Request.alike_of_perm hperm)
  | append =>
    refine h.agrees k (Request.alike_of_perm hperm) fun p => ?_
    simp only [Policy.standIns, List.mem_flatMap, hperm.mem_iff]

end Reflects

def registerAll (fs : FileSystem World) (policy : Policy) (requests : List Request) (w : World) :
    Version :=
  (run fs policy (requests.map .register) w).current

section

variable {now : World → Prop} {requests : List Request} {form : Request → Request}

/-- The items may be requests or groups of them; each is given as a request and has an absolute
form. -/
theorem reflects_run {α : Type} (h : fs.Decides directory now) (policy : Policy) {w : World}
    (hw : now w) {items : List α} {given absolute : α → Request}
    (habsolute : ∀ x ∈ items, (given x).absolute fs.workingDirectory = .ok (absolute x)) :
    let t := run fs policy ((items.map given).map .register) w
    now t.world ∧ t.current.merged = items.map given ∧
      Reflects directory policy (items.map absolute) t.current.registry := by
  induction items using List.reverseRecOn with
  | nil => exact ⟨hw, rfl, .empty policy⟩
  | append_singleton items x ih =>
    obtain ⟨hnow, hmerged, hreflects⟩ := ih fun y hy => habsolute y (by simp [hy])
    have hx := habsolute x (by simp)
    obtain ⟨w', hw', hnearest⟩ := h.nearestAll (absolute x).roots hnow
    simp only [List.map_append, List.map_singleton, run_concat, Timeline.step, register, hx,
      hnearest]
    refine ⟨hw', by rw [hmerged], hreflects.merge ?_ (merges_merge policy _ _ _)⟩
    exact FileSystem.atOrBelow_nearestAll hnearest

theorem reflects_registerAll (h : fs.Decides directory now) (policy : Policy) {w : World}
    (hw : now w)
    (hform : ∀ request ∈ requests, request.absolute fs.workingDirectory = .ok (form request)) :
    (registerAll fs policy requests w).merged = requests ∧
      Reflects directory policy (requests.map form)
        (registerAll fs policy requests w).registry := by
  have hgiven : ∀ request ∈ requests,
      (id request).absolute fs.workingDirectory = .ok (form request) := hform
  have hrun := (reflects_run h policy hw hgiven).2
  rwa [List.map_id] at hrun

theorem reflects_registerAll_unions (h : fs.Decides directory now) (policy : Policy) {w : World}
    (hw : now w) {groups : List (List Request)}
    (hform : ∀ request ∈ groups.flatten,
      request.absolute fs.workingDirectory = .ok (form request)) :
    (registerAll fs policy (groups.map .unionAll) w).merged = groups.map .unionAll ∧
      Reflects directory policy (groups.map fun group => .unionAll (group.map form))
        (registerAll fs policy (groups.map .unionAll) w).registry := by
  refine (reflects_run h policy hw fun group hgroup => ?_).2
  refine Request.absolute_unionAll fun request hrequest => ?_
  exact hform request (List.mem_flatten.2 ⟨group, hgroup, hrequest⟩)

theorem requestedRoots_of_perm {a b : Registry} {others : List Request}
    (h : Reflects directory policy forms a) (k : Reflects directory policy others b)
    (hperm : forms.Perm others) (p : Path) :
    a.requestedRoots.contains p = b.requestedRoots.contains p := by
  rw [Bool.eq_iff_iff, h.requestedRoots, k.requestedRoots]
  simp only [hperm.mem_iff]

/-- The watch points and the answers of a registry depend neither on the order of the requests nor,
under collapse, on how they were united. Here the file system answers by the components of a path
(`FileSystem.Decides`) and not by its spelling: of several spellings of a root only one is asked
for, and which one depends on how the requests were united. -/
theorem agrees_in_any_order (h : fs.Decides directory now) {w : World} (hw : now w)
    (hform : ∀ request ∈ requests, request.absolute fs.workingDirectory = .ok (form request)) :
    (∀ (policy : Policy) (order : List Request), order.Perm requests →
      let v := registerAll fs policy order w
      let v₀ := registerAll fs policy requests w
      v.merged = order ∧ v.registry.Agrees v₀.registry ∧
        (∀ p, v.registry.requestedRoots.contains p = v₀.registry.requestedRoots.contains p) ∧
        ∀ p, v.registry.watchPoints.contains p = true ↔
          ∃ q ∈ policy.standIns directory (requests.map form), q.Same p) ∧
      ∀ groups : List (List Request), groups.flatten.Perm requests →
        let v := registerAll fs .collapse (groups.map .unionAll) w
        v.merged = groups.map .unionAll ∧
          v.registry.Agrees (registerAll fs .collapse requests w).registry := by
  refine ⟨?_, ?_⟩
  · intro policy order hperm
    obtain ⟨-, hstart⟩ := reflects_registerAll h policy hw hform
    obtain ⟨hmerged, horder⟩ := reflects_registerAll h policy hw fun request hrequest =>
      hform request (hperm.mem_iff.1 hrequest)
    have hagrees := horder.agrees_of_perm hstart (hperm.map form)
    refine ⟨hmerged, hagrees, requestedRoots_of_perm horder hstart (hperm.map form), ?_⟩
    intro p
    rw [hagrees.watchPoints, hstart.watchPoints]
  · intro groups hperm
    obtain ⟨-, hstart⟩ := reflects_registerAll h .collapse hw hform
    obtain ⟨hmerged, hgroups⟩ := reflects_registerAll_unions h .collapse hw fun request hrequest =>
      hform request (hperm.mem_iff.1 hrequest)
    refine ⟨hmerged, hgroups.agrees_collapse hstart ?_⟩
    have hunited : Request.unionAll (groups.map fun group => .unionAll (group.map form)) =
        Request.unionAll (groups.flatten.map form) := by
      rw [List.map_flatten, ← Request.unionAll_flatten, List.map_map]
      rfl
    rw [hunited]
    exact Request.alike_of_perm (hperm.map form)

end

/-- `/x` stands in for the first root and covers what the requests after it ask for. -/
def scattered : List Request :=
  [.ofRoots [Path.ofString "/x/b/c"], .ofRoots [Path.ofString "/x/a"],
    .ofRoots [Path.ofString "/y", Path.ofString "/x/a/d"]]

def scatteredListing : Listing :=
  .build [.directory (Path.ofString "/x/a"), .directory (Path.ofString "/y")]

theorem agrees_in_any_order_scattered :
    let fs := Listing.fileSystem (Path.ofString "/")
    let l := scatteredListing
    let united := [.unionAll (scattered.take 1 ++ scattered.drop 2), scattered[1]]
    fs.Decides l.holdsDirectory (· = l) ∧
      (∀ request ∈ scattered, request.absolute fs.workingDirectory = .ok request) ∧
      (∀ policy, (registerAll fs policy scattered.reverse l).registry.Agrees
        (registerAll fs policy scattered l).registry) ∧
      (registerAll fs .collapse united l).registry.Agrees
        (registerAll fs .collapse scattered l).registry ∧
      (registerAll fs .collapse scattered l).registry.watchPoints.toList =
        [Path.ofString "/x", Path.ofString "/y"] ∧
      (registerAll fs .append scattered l).registry.watchPoints.toList =
        [Path.ofString "/x", Path.ofString "/x/a", Path.ofString "/y"] := by
  have hdecides := Listing.decides (l := scatteredListing) rfl (Path.ofString "/")
  have hform : ∀ request ∈ scattered,
      request.absolute (Path.ofString "/") = .ok (id request) := by
    intro request hrequest
    simp only [scattered, List.mem_cons, List.not_mem_nil, or_false] at hrequest
    rcases hrequest with rfl | rfl | rfl <;> rfl
  obtain ⟨horder, hgroups⟩ := agrees_in_any_order hdecides rfl hform
  refine ⟨hdecides, hform, ?_, ?_, by cbv, by cbv⟩
  · intro policy
    exact (horder policy _ scattered.reverse_perm).2.1
  · exact (hgroups [scattered.take 1 ++ scattered.drop 2, [scattered[1]]]
      (.cons _ (.swap _ _ _))).2

end Registry

end DirectoryWatch
