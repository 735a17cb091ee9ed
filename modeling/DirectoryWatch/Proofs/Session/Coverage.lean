import DirectoryWatch.Proofs.Registry.Needs
import DirectoryWatch.Proofs.Request.Absolute
import DirectoryWatch.Proofs.Session.Errand
import DirectoryWatch.Proofs.Session.Operations
import DirectoryWatch.Proofs.Session.Reach
import Mathlib

/-!
# Which directories are registered

On a file system that nobody changes, requests that all succeed leave those directories registered
that the walks for one of them came to. So it is up to the registry whether everything at or below
the requested roots is registered: a root that lies below an earlier watch point is not walked
again, and a watch point on the way to a directory keeps a walk from going there.
-/
namespace DirectoryWatch

variable {World : Type} {host : Host World} {now : World → Prop} {edits : List Listing.Edit}

theorem Listing.Consistent.leads_iff (h : Consistent edits) {start : Path}
    (hstart : start.components ≠ []) {wanted : Path → Bool} {d : Path} :
    (build edits).Leads start wanted start d ↔
      (build edits).isDirectory d = .ok true ∧ d.atOrBelow start = true ∧
        ∀ e : Path, d.atOrBelow e = true → e.below start = true → wanted e = true := by
  constructor
  · rintro ⟨hd, hall⟩
    refine ⟨(hall d (Path.atOrBelow_refl d) hd).1, hd, fun e hde he => ?_⟩
    obtain ⟨hne, hes⟩ := Path.below_iff.1 he
    exact (hall e hde hes).2.resolve_left hne
  · rintro ⟨hdirectory, hd, hwanted⟩
    refine ⟨hd, fun e hde hes => ⟨h.isDirectory_above hdirectory hde fun hnil => ?_, ?_⟩⟩
    · have hlength := (Path.atOrBelow_iff.1 hes).length_le
      rw [hnil, List.length_nil, Nat.le_zero, List.length_eq_zero_iff] at hlength
      exact hstart hlength
    · by_cases hsame : e.Same start
      · exact .inl hsame
      · exact .inr (hwanted e hde (Path.below_iff.2 ⟨hsame, hes⟩))

namespace Session

/-- Every directory at or below a root of the requests is registered. -/
def Covers (host : Host World) (s : Session) (l : Listing) (requests : List Request) : Prop :=
  ∀ request ∈ requests, ∀ absolute, request.absolute host.workingDirectory = .ok absolute →
    ∀ root ∈ absolute.allRoots, ∀ d : Path, l.isDirectory d = .ok true →
      d.atOrBelow root = true → s.registered.contains d = true

variable {s : Session} {request absolute : Request} {w w₁ : World} {done : Registration}
  {nearest : List Path} {t : Trail World}

theorem Registers.newPoint_ne_nil (h : Registers host s request w done absolute nearest w₁ t)
    (hwd : host.workingDirectory.isAbsolute = true) {p : Path} (hp : p ∈ done.update.newPoints) :
    p.components ≠ [] := by
  refine Path.components_ne_nil ?_
  refine FileSystem.isAbsolute_of_mem_nearestAll h.nearest_eq (fun root hroot => ?_)
    (h.merges.mem_nearest hp)
  exact Request.isAbsolute_of_mem_allRoots hwd h.absolute_eq (Path.mem_of_mem_topmost hroot)

/-- A registration adds the directories that its update reaches. -/
theorem Registers.contains_iff (h : Registers host s request w done absolute nearest w₁ t)
    (hserves : host.Serves (.build edits) now) (hedits : Listing.Consistent edits)
    (hwd : host.workingDirectory.isAbsolute = true) (hw : now w) (d : Path) :
    (s.register host request w).session.registered.contains d = true ↔
      s.registered.contains d = true ∨
        (Listing.build edits).isDirectory d = .ok true ∧ done.update.Reaches d := by
  have hw₁ := hserves.toMaintains.fileSystem.nearestAll absolute.roots hw
  rw [h.nearest_eq] at hw₁
  rw [h.registered_eq, Trail.contains_walkAll hserves.shows (Listing.linked_build hedits.plain)
    (fun _ _ => done.update.needsWatch_congr) hw₁ h.walk_eq]
  refine or_congr_right ?_
  constructor
  · rintro ⟨p, hp, hleads⟩
    obtain ⟨hd, hdp, hneeds⟩ := (hedits.leads_iff (h.newPoint_ne_nil hwd hp)).1 hleads
    exact ⟨hd, p, hp, hdp, hneeds⟩
  · rintro ⟨hd, p, hp, hdp, hneeds⟩
    exact ⟨p, hp, (hedits.leads_iff (h.newPoint_ne_nil hwd hp)).2 ⟨hd, hdp, hneeds⟩⟩

theorem runRequests_concat (host : Host World) (policy : Policy) (requests : List Request)
    (request : Request) (w : World) :
    runRequests host policy (requests ++ [request]) w =
      (start policy).run host (requests.map .register ++ [.register request]) w := by
  rw [runRequests, List.map_append, List.map_singleton]

theorem now_runRequests (h : host.Maintains now) (policy : Policy) (requests : List Request)
    (hw : now w) : now (runRequests host policy requests w).world :=
  h.run _ (by simp [Operation.Maintains]) hw

theorem length_registrations_le (host : Host World) (s : Session)
    (operations : List (Operation World)) (w : World) :
    (s.run host operations w).registrations.length ≤ operations.length := by
  induction operations using List.reverseRecOn with
  | nil => simp [run, History.registrations]
  | append_singleton operations operation ih =>
    rw [List.length_append, List.length_singleton]
    rcases run_concat_cases host s operations operation w with
      ⟨request, done, -, -, -, heq⟩ | ⟨-, heq⟩
    · rw [heq, List.length_append, List.length_singleton]
      omega
    · rw [heq]
      omega

theorem runRequests_concat_ok {policy : Policy} {requests : List Request}
    (hok : (runRequests host policy (requests ++ [request]) w).accepted = requests ++ [request]) :
    let before := runRequests host policy requests w
    let after := runRequests host policy (requests ++ [request]) w
    before.accepted = requests ∧ ∃ done,
      (before.session.register host request before.world).result = .ok done ∧
        after.session = (before.session.register host request before.world).session ∧
        after.registrations = before.registrations ++ [(request, done)] := by
  rw [runRequests_concat] at hok ⊢
  rcases run_concat_cases host (start policy) (requests.map .register) (.register request) w with
    ⟨other, done, heq, hdone, hsession, hregistrations⟩ | ⟨-, hregistrations⟩
  · obtain rfl := Operation.register.inj heq
    rw [History.accepted, hregistrations, List.map_append] at hok
    exact ⟨(List.append_inj' hok rfl).1, done, hdone, hsession, hregistrations⟩
  · have hle := length_registrations_le host (start policy) (requests.map .register) w
    have hlength := congrArg List.length hok
    rw [History.accepted, hregistrations] at hlength
    simp only [List.length_map, List.length_append, List.length_singleton] at hle hlength
    omega

/-- Registered is what exists and was reached for one of the requests. -/
theorem contains_runRequests_iff (hserves : host.Serves (.build edits) now)
    (hedits : Listing.Consistent edits) (hwd : host.workingDirectory.isAbsolute = true)
    (hw : now w) (policy : Policy) {requests : List Request}
    (hok : (runRequests host policy requests w).accepted = requests) (d : Path) :
    (runRequests host policy requests w).session.registered.contains d = true ↔
      (Listing.build edits).isDirectory d = .ok true ∧
        ∃ entry ∈ (runRequests host policy requests w).registrations,
          entry.2.update.Reaches d := by
  induction requests using List.reverseRecOn with
  | nil => simp [runRequests, run, start, PathSet.contains_empty, History.registrations]
  | append_singleton requests request ih =>
    obtain ⟨hprior, done, hdone, hsession, hregistrations⟩ := runRequests_concat_ok hok
    obtain ⟨absolute, nearest, w₁, t, hregisters⟩ := registers_of_ok hdone
    have hnow := now_runRequests hserves.toMaintains policy requests hw
    rw [hsession, hregisters.contains_iff hserves hedits hwd hnow, ih hprior, hregistrations]
    simp only [List.mem_append, List.mem_singleton, or_and_right, exists_or, exists_eq_left,
      and_or_left]

theorem covers_iff_reaches (hserves : host.Serves (.build edits) now)
    (hedits : Listing.Consistent edits) (hwd : host.workingDirectory.isAbsolute = true)
    (hw : now w) (policy : Policy) {requests : List Request}
    (hok : (runRequests host policy requests w).accepted = requests) :
    (runRequests host policy requests w).session.Covers host (.build edits) requests ↔
      ∀ entry ∈ (runRequests host policy requests w).registrations,
        ∀ root ∈ entry.2.update.newRoots, ∀ d : Path,
          (Listing.build edits).isDirectory d = .ok true → d.atOrBelow root = true →
            ∃ other ∈ (runRequests host policy requests w).registrations,
              other.2.update.Reaches d := by
  have hcontains := contains_runRequests_iff hserves hedits hwd hw policy hok
  have hcourse (entry : Request × Registration)
      (h : entry ∈ (runRequests host policy requests w).registrations) :
      ∃ absolute, entry.1.absolute host.workingDirectory = .ok absolute ∧
        entry.2.update.newRoots = absolute.roots := by
    obtain ⟨s, w, absolute, nearest, w₁, t, -, hregisters⟩ := registers_run host _ _ _ h
    exact ⟨absolute, hregisters.absolute_eq, hregisters.merges.newRoots⟩
  constructor
  · intro hcovers entry hentry root hroot d hd hdroot
    obtain ⟨absolute, habsolute, hroots⟩ := hcourse entry hentry
    have hrequest : entry.1 ∈ requests := hok ▸ List.mem_map_of_mem hentry
    rw [hroots] at hroot
    have hregistered :=
      hcovers entry.1 hrequest absolute habsolute root (Path.mem_of_mem_topmost hroot) d hd hdroot
    exact ((hcontains d).1 hregistered).2
  · intro hreached request hrequest absolute habsolute root hroot d hd hdroot
    rw [← hok] at hrequest
    obtain ⟨entry, hentry, rfl⟩ := List.mem_map.1 hrequest
    obtain ⟨form, hform, hroots⟩ := hcourse entry hentry
    obtain rfl : absolute = form := Except.ok.inj (habsolute.symm.trans hform)
    obtain ⟨top, htop, hrootTop⟩ := Path.exists_atOrBelow_topmost hroot
    refine (hcontains d).2 ⟨hd, hreached entry hentry top ?_ d hd ?_⟩
    · rw [hroots]
      exact htop
    · exact Path.atOrBelow_trans hdroot hrootTop

/-- Everything requested is registered exactly when no directory is missed at or below a root that
was left to the walks for other requests: for one of these it has to be a new watch point, or to
lie below one and have to do with a root. -/
theorem covers_collapse_iff (hserves : host.Serves (.build edits) now)
    (hedits : Listing.Consistent edits) (hwd : host.workingDirectory.isAbsolute = true)
    (hw : now w) {requests : List Request}
    (hok : (runRequests host .collapse requests w).accepted = requests) :
    (runRequests host .collapse requests w).session.Covers host (.build edits) requests ↔
      ∀ entry ∈ (runRequests host .collapse requests w).registrations,
        ∀ root ∈ entry.2.update.newRoots, root.coveredBy entry.2.update.newPoints = false →
          ∀ d : Path, (Listing.build edits).isDirectory d = .ok true → d.atOrBelow root = true →
            ∃ other ∈ (runRequests host .collapse requests w).registrations,
              other.2.update.Selects d := by
  have hselects (entry : Request × Registration)
      (h : entry ∈ (runRequests host .collapse requests w).registrations) (d : Path) :
      entry.2.update.Reaches d ↔ entry.2.update.Selects d := by
    obtain ⟨s, w, absolute, nearest, w₁, t, hpolicy, hregisters⟩ := registers_run host _ _ _ h
    have hmerges := hregisters.merges
    rw [hpolicy] at hmerges
    exact Update.reaches_iff_selects fun p hp q hq => hmerges.same_of_atOrBelow_newPoint hp hq
  rw [covers_iff_reaches hserves hedits hwd hw .collapse hok]
  constructor
  · intro hreached entry hentry root hroot _ d hd hdroot
    obtain ⟨other, hother, hreaches⟩ := hreached entry hentry root hroot d hd hdroot
    exact ⟨other, hother, (hselects other hother d).1 hreaches⟩
  · intro hkept entry hentry root hroot d hd hdroot
    cases hnew : root.coveredBy entry.2.update.newPoints with
    | false =>
      obtain ⟨other, hother, hselected⟩ := hkept entry hentry root hroot hnew d hd hdroot
      exact ⟨other, hother, (hselects other hother d).2 hselected⟩
    | true =>
      obtain ⟨p, hp, hrootP⟩ := Path.coveredBy_iff.1 hnew
      have hdp : d.atOrBelow p = true := Path.atOrBelow_trans hdroot hrootP
      have hcovered := Path.coveredBy_iff.2 ⟨root, hroot, hdroot⟩
      exact ⟨entry, hentry, (hselects entry hentry d).2 ⟨p, hp, hdp, .inr (.inl hcovered)⟩⟩

def recording : Host (Recorder Listing) := Recorder.host (Listing.fileSystem (Path.ofString "/"))

def onlyChild : List Listing.Edit := [.directory (Path.ofString "/x/y")]

/-- `/x` stands in for the first root, which does not exist. The second root lies below `/x`. -/
def belowStandIn : List Request :=
  [.ofRoots [Path.ofString "/x/a"], .ofRoots [Path.ofString "/x/y"]]

def standInHistory : History (Recorder Listing) :=
  runRequests recording .collapse belowStandIn (.start (.build onlyChild) none)

theorem consistent_onlyChild : Listing.Consistent onlyChild := by
  refine ⟨?_, by simp [onlyChild], by simp [onlyChild]⟩
  simp only [onlyChild, List.mem_singleton, forall_eq, Listing.Edit.path]
  decide +kernel

theorem covers_collapse_belowStandIn :
    Listing.Consistent onlyChild ∧ standInHistory.accepted = belowStandIn ∧
      (standInHistory.session.Covers recording (.build onlyChild) belowStandIn ↔
        ∀ entry ∈ standInHistory.registrations, ∀ root ∈ entry.2.update.newRoots,
          root.coveredBy entry.2.update.newPoints = false → ∀ d : Path,
            (Listing.build onlyChild).isDirectory d = .ok true → d.atOrBelow root = true →
              ∃ other ∈ standInHistory.registrations, other.2.update.Selects d) := by
  have hok : standInHistory.accepted = belowStandIn := by cbv
  exact ⟨consistent_onlyChild, hok, covers_collapse_iff (Recorder.serves _ _) consistent_onlyChild
    (by decide +kernel) ⟨rfl, rfl⟩ hok⟩

/-- The walk for the first root does not look into `/x/y`, and none starts for the second. -/
theorem not_covers_belowStandIn :
    ¬standInHistory.session.Covers recording (.build onlyChild) belowStandIn := by
  intro hcovers
  have hregistered := hcovers (.ofRoots [Path.ofString "/x/y"]) (by simp [belowStandIn])
    (.ofRoots [Path.ofString "/x/y"]) rfl (Path.ofString "/x/y")
    (by simp [Request.ofRoots, Request.allRoots]) (Path.ofString "/x/y") (by decide +kernel)
    (Path.atOrBelow_refl _)
  have hmissing :
      standInHistory.session.registered.contains (Path.ofString "/x/y") = false := by cbv
  rw [hmissing] at hregistered
  cases hregistered

/-- Everything requested is registered exactly when no directory is missed at or below a root from
which the walks for that root are cut off. -/
theorem covers_append_iff (hserves : host.Serves (.build edits) now)
    (hedits : Listing.Consistent edits) (hwd : host.workingDirectory.isAbsolute = true)
    (hw : now w) {requests : List Request}
    (hok : (runRequests host .append requests w).accepted = requests) :
    (runRequests host .append requests w).session.Covers host (.build edits) requests ↔
      ∀ entry ∈ (runRequests host .append requests w).registrations,
        ∀ root ∈ entry.2.update.newRoots, ∀ d : Path,
          (Listing.build edits).isDirectory d = .ok true → d.atOrBelow root = true →
            entry.2.update.CutsOff d →
              ∃ other ∈ (runRequests host .append requests w).registrations,
                other.2.update.Reaches d := by
  rw [covers_iff_reaches hserves hedits hwd hw .append hok]
  constructor
  · intro hreached entry hentry root hroot d hd hdroot _
    exact hreached entry hentry root hroot d hd hdroot
  · intro hcut entry hentry root hroot d hd hdroot
    by_cases hcuts : entry.2.update.CutsOff d
    · exact hcut entry hentry root hroot d hd hdroot hcuts
    · have hcovered := Path.coveredBy_iff.2 ⟨root, hroot, hdroot⟩
      exact ⟨entry, hentry, Update.reaches_of_not_cutsOff hcovered hcuts⟩

def twoChildren : List Listing.Edit :=
  [.directory (Path.ofString "/w/deep/er"), .directory (Path.ofString "/w/deep/other")]

/-- The second root lies above the first, with `/w/deep` between them. -/
def aboveNested : List Request :=
  [.ofRoots [Path.ofString "/w/deep/er"], .ofRoots [Path.ofString "/w"]]

def nestedHistory : History (Recorder Listing) :=
  runRequests recording .append aboveNested (.start (.build twoChildren) none)

theorem consistent_twoChildren : Listing.Consistent twoChildren := by
  refine ⟨?_, by simp [twoChildren], by simp [twoChildren]⟩
  simp only [twoChildren, List.mem_cons, List.not_mem_nil, or_false, forall_eq_or_imp, forall_eq,
    Listing.Edit.path]
  decide +kernel

theorem covers_append_aboveNested :
    Listing.Consistent twoChildren ∧ nestedHistory.accepted = aboveNested ∧
      (nestedHistory.session.Covers recording (.build twoChildren) aboveNested ↔
        ∀ entry ∈ nestedHistory.registrations, ∀ root ∈ entry.2.update.newRoots, ∀ d : Path,
          (Listing.build twoChildren).isDirectory d = .ok true → d.atOrBelow root = true →
            entry.2.update.CutsOff d →
              ∃ other ∈ nestedHistory.registrations, other.2.update.Reaches d) := by
  have hok : nestedHistory.accepted = aboveNested := by cbv
  exact ⟨consistent_twoChildren, hok, covers_append_iff (Recorder.serves _ _)
    consistent_twoChildren (by decide +kernel) ⟨rfl, rfl⟩ hok⟩

/-- The walk from `/w` does not look into `/w/deep`, which leads to the first watch point. -/
theorem not_covers_aboveNested :
    ¬nestedHistory.session.Covers recording (.build twoChildren) aboveNested := by
  intro hcovers
  have hregistered := hcovers (.ofRoots [Path.ofString "/w"]) (by simp [aboveNested])
    (.ofRoots [Path.ofString "/w"]) rfl (Path.ofString "/w")
    (by simp [Request.ofRoots, Request.allRoots]) (Path.ofString "/w/deep/other")
    (by decide +kernel) (by decide +kernel)
  have hmissing :
      nestedHistory.session.registered.contains (Path.ofString "/w/deep/other") = false := by cbv
  rw [hmissing] at hregistered
  cases hregistered

end Session

end DirectoryWatch
