import DirectoryWatch.Proofs.Registry.Scope
import DirectoryWatch.Proofs.Session.Ascent
import DirectoryWatch.Proofs.Session.Record

/-!
# First registrations

In a new session no earlier watch point stands in the way of a walk. So the first registration
answers with all directories, and only those, to which a chain of directories leads down from a
new watch point and which have to do with the request.
-/
namespace DirectoryWatch

/-- From `p` down to `d` there are only directories. -/
def Listing.Spans (l : Listing) (p d : Path) : Prop :=
  d.atOrBelow p = true ∧ ∀ e : Path, d.atOrBelow e = true → e.atOrBelow p = true →
    l.isDirectory e = .ok true

/-- A walk that starts from a point that no watch point lies below is stopped by nothing but a
missing directory. -/
theorem Listing.leads_iff_spans {l : Listing} {u : Update} {p d : Path}
    (h : ∀ q ∈ u.watchPoints.toList, q.atOrBelow p = true → q.Same p) :
    l.Leads p u.needsWatch p d ↔ l.Spans p d ∧ (d.Same p ∨ u.Concerns d) := by
  constructor
  · rintro ⟨hdp, hall⟩
    refine ⟨⟨hdp, fun e hde hep => (hall e hde hep).1⟩, ?_⟩
    rw [← Update.needsWatch_between_iff h hdp]
    intro e hde hep
    exact (hall e hde (Path.atOrBelow_of_below hep)).2.resolve_left (Path.below_iff.1 hep).1
  · rintro ⟨⟨hdp, hdirectories⟩, hd⟩
    refine ⟨hdp, fun e hde hep => ⟨hdirectories e hde hep, ?_⟩⟩
    by_cases hsame : e.Same p
    · exact .inl hsame
    · exact .inr ((Update.needsWatch_between_iff h hdp).2 hd e hde (Path.below_iff.2 ⟨hsame, hep⟩))

namespace Registry

variable {policy : Policy} {registry : Registry} {request : Request} {nearest : List Path}
  {update : Update}

/-- Where nothing was watched before, the watch points are the new ones, and they lie apart. -/
theorem Merges.same_of_first (h : Merges policy ∅ request nearest registry update) {p q : Path}
    (hp : p ∈ update.newPoints) (hq : q ∈ update.watchPoints.toList)
    (hqp : q.atOrBelow p = true) : q.Same p := by
  rw [h.watchPoints] at hq
  rcases h.contains_or_mem_newPoints (PathSet.contains_of_mem hq) with hprior | ⟨r, hr, hrq⟩
  · cases hprior
  · obtain ⟨paths, hsub⟩ := h.newPoints_sublist
    have hrp : r.atOrBelow p = true := Path.atOrBelow_trans hrq.atOrBelow hqp
    rw [Path.eq_of_atOrBelow_topmost (hsub.subset hr) (hsub.subset hp) hrp] at hrq
    exact hrq.symm

theorem Merges.concerns_first (h : Merges policy ∅ request nearest registry update) {d : Path} :
    update.Concerns d ↔ request.Concerns d := by
  rw [h.concerns_iff, or_iff_left_iff_imp, h.requestedRoots_eq, Path.strictlyLeadsTo_iff]
  rintro ⟨root, hroot, hbelow⟩
  rcases PathSet.mem_insertAll hroot with hprior | hroot
  · cases hprior
  · exact Request.concerns_iff.2
      (.inr (Path.leadsTo_iff.2 ⟨root, hroot, Path.atOrBelow_of_below hbelow⟩))

end Registry

namespace Session

variable {World : Type} {host : Host World} {now : World → Prop}

/-- What a call answers with is what it adds to what is registered. -/
theorem registered_call {s : Session} {w : World} {c : Call} {outcome : Outcome}
    (hok : (s.call host w c).result = .ok outcome) :
    (s.call host w c).session.registered = s.registered.insertAll outcome.directories := by
  obtain ⟨new, hnew, hdirectories⟩ := host.logged_records.call s ⟨w, []⟩ c
  have hmirrored := host.logged_mirrors.call s ⟨w, []⟩ c
  rw [hmirrored] at hok ⊢
  rw [hdirectories outcome hok]
  exact hnew.registered_eq

/-- The first registration of a session, on a listing that does not change meanwhile, answers in
ascending order with the directories to which only directories lead down from a new watch point
and which are that watch point or at or below a root of the request or lead to one. -/
theorem directories_first {edits : List Listing.Edit} (hedits : ∀ e ∈ edits, e.path.IsPlain)
    (hshows : host.Shows (.build edits) now) (policy : Policy) (request : Request) {w : World}
    (hw : now w) {done : Registration}
    (hok : ((start policy).register host request w).result = .ok done) :
    done.directories.Pairwise (· < ·) ∧
      ∃ absolute, request.absolute host.workingDirectory = .ok absolute ∧ ∀ d : Path,
        (∃ q ∈ done.directories, q.Same d) ↔
          ∃ p ∈ done.update.newPoints, (Listing.build edits).Spans p d ∧
            (d.Same p ∨ absolute.Concerns d) := by
  have hlinked := Listing.linked_build hedits
  have hcall : ((start policy).call host w (.register request)).result =
      .ok ⟨some done.update, done.directories⟩ := by
    rw [call, Step.map, hok]
    rfl
  refine ⟨ascending_call hshows hlinked hw hcall, ?_⟩
  obtain ⟨absolute, nearest, w₁, t, h⟩ := registers_of_ok hok
  have hmerges : Registry.Merges policy ∅ absolute nearest _ done.update := h.merges
  have hw₁ := hshows.fileSystem.nearestAll absolute.roots hw
  rw [h.nearest_eq] at hw₁
  refine ⟨absolute, h.absolute_eq, fun d => ?_⟩
  have hregistered := registered_call hcall
  calc (∃ q ∈ done.directories, q.Same d)
    _ ↔ t.registered.contains d = true := by
      have hall : t.registered = PathSet.insertAll ∅ done.directories :=
        h.registered_eq.symm.trans hregistered
      rw [hall, PathSet.contains_insertAll_iff]
      exact (or_iff_right Bool.false_ne_true).symm
    _ ↔ ∃ p ∈ done.update.newPoints,
          (Listing.build edits).Leads p done.update.needsWatch p d := by
      have hreached := Trail.contains_walkAll hshows hlinked
        (fun _ _ => done.update.needsWatch_congr) (t := (start policy).trail w₁) hw₁ h.walk_eq d
      exact hreached.trans (or_iff_right Bool.false_ne_true)
    _ ↔ _ := by
      refine exists_congr fun p => and_congr_right fun hp => ?_
      rw [Listing.leads_iff_spans fun q => hmerges.same_of_first hp, hmerges.concerns_first]

def besideFile : List Listing.Edit :=
  [.directory (Path.ofString "/x/a/b"), .file (Path.ofString "/x/f"),
    .directory (Path.ofString "/y/other")]

def partlyMissing : Request := .ofRoots [Path.ofString "/x", Path.ofString "/y/new/z"]

/-- Below `/x` every directory has to do with the request. Below `/y`, which stands in for the
missing root, only what leads to that root would, and `/y/other` does not. -/
theorem directories_first_besideFile :
    ∃ done, ((start .append).register recording partlyMissing
        (.start (.build besideFile) none)).result = .ok done ∧
      done.directories.map Path.display = ["/x", "/x/a", "/x/a/b", "/y"] ∧
      done.directories.Pairwise (· < ·) ∧
      ∃ absolute, partlyMissing.absolute recording.workingDirectory = .ok absolute ∧ ∀ d : Path,
        (∃ q ∈ done.directories, q.Same d) ↔
          ∃ p ∈ done.update.newPoints, (Listing.build besideFile).Spans p d ∧
            (d.Same p ∨ absolute.Concerns d) := by
  have hanswer : ((start .append).register recording partlyMissing
      (.start (.build besideFile) none)).result.toOption.map
        (fun done => done.directories.map Path.display) =
      some ["/x", "/x/a", "/x/a/b", "/y"] := by cbv
  rcases hresult : ((start .append).register recording partlyMissing
    (.start (.build besideFile) none)).result with e | done
  all_goals rw [hresult] at hanswer
  · cases hanswer
  · have hserves := Recorder.serves (.build besideFile) (Path.ofString "/")
    exact ⟨done, rfl, Option.some.inj hanswer, directories_first (by decide +kernel)
      hserves.shows .append partlyMissing ⟨rfl, rfl⟩ hresult⟩

end Session

end DirectoryWatch
