import DirectoryWatch.Proofs.FileSystem.Growth
import DirectoryWatch.Proofs.Registry.Points
import DirectoryWatch.Proofs.Request.Union
import DirectoryWatch.Proofs.Session.Coverage
import DirectoryWatch.Proofs.Session.Ending
import Mathlib

/-!
# Directories that are created later

On a file system that only grows, watch points stay directories. So nothing that was missing leads
to one, and when it appears, the walk from there is kept away from nothing that has to do with a
requested root.
-/
namespace DirectoryWatch

variable {World : Type} {host : Host World} {edits : List Listing.Edit}

theorem Host.Shows.decides {l : Listing} {now : World → Prop} (h : host.Shows l now)
    (hgranted : l.denied = []) : host.toFileSystem.Decides l.holdsDirectory now where
  answers hw p := (h.isDirectory_eq p _ hw).trans (Listing.isDirectory_of_granted hgranted p)
  keeps hw p := h.isDirectory p _ hw

theorem Host.Shows.isDirectory_of_mem_nearestAll {now : World → Prop}
    (h : host.Shows (.build edits) now) (hedits : Listing.Consistent edits) {roots nearest : List Path}
    {w w' : World} (hw : now w) (hnearest : host.nearestAll roots w = (.ok nearest, w'))
    (hroots : ∀ root ∈ roots, root.isAbsolute = true) {p : Path} (hp : p ∈ nearest) :
    (Listing.build edits).isDirectory p = .ok true := by
  have hgranted := Listing.denied_build hedits.granted
  have habsolute := FileSystem.isAbsolute_of_mem_nearestAll hnearest hroots hp
  obtain ⟨w₁, -, heq⟩ := (h.decides hgranted).nearestAll roots hw
  rw [hnearest] at heq
  cases heq
  obtain ⟨root, -, rfl⟩ := List.mem_map.1 hp
  have hstops : (root.nearest (Listing.build edits).holdsDirectory).Stops _ :=
    Path.stops_nearest root
  rcases hstops with hstop | hstop
  · rw [Listing.isDirectory_of_granted hgranted, hstop]
  · exact hedits.isDirectory_of_root ((Path.parent?_eq_none_iff_of_isAbsolute habsolute).1 hstop)

namespace Registry

/-- Every watch point is a directory, and each requested root lies at or below a watch point and at
or below a root of the requests. -/
structure Grounded (l : Listing) (registry : Registry) : Prop where
  points : ∀ p ∈ registry.watchPoints.toList, l.isDirectory p = .ok true
  watched : ∀ root ∈ registry.requestedRoots.toList,
    root.coveredBy registry.watchPoints.toList = true
  requested : ∀ root ∈ registry.requestedRoots.toList,
    root.coveredBy registry.requests.allRoots = true

theorem grounded_empty (l : Listing) : Grounded l ∅ := by
  refine ⟨?_, ?_, ?_⟩ <;> intro p hp <;> cases hp

/-- The directory lies at or below a requested root or leads to one. -/
def Relates (registry : Registry) (d : Path) : Prop :=
  d.coveredBy registry.requestedRoots.toList = true ∨
    d.leadsTo registry.requestedRoots.toList = true

theorem Relates.above {registry : Registry} {d e : Path} (h : registry.Relates d)
    (hde : d.atOrBelow e = true) : registry.Relates e := by
  rcases h with h | h
  · obtain ⟨root, hroot, hd⟩ := Path.coveredBy_iff.1 h
    rcases Path.atOrBelow_or_atOrBelow hde hd with he | he
    · exact .inl (Path.coveredBy_iff.2 ⟨root, hroot, he⟩)
    · exact .inr (Path.leadsTo_iff.2 ⟨root, hroot, he⟩)
  · obtain ⟨root, hroot, hd⟩ := Path.leadsTo_iff.1 h
    exact .inr (Path.leadsTo_iff.2 ⟨root, hroot, Path.atOrBelow_trans hd hde⟩)

theorem Merges.coveredBy_requests {policy : Policy} {prior registry : Registry} {request : Request}
    {nearest : List Path} {update : Update}
    (h : Merges policy prior request nearest registry update) {l : Listing}
    (hprior : prior.Grounded l) {root : Path} (hroot : root ∈ registry.requestedRoots.toList) :
    root.coveredBy registry.requests.allRoots = true := by
  have hrequest {root : Path} (hroot : root ∈ request.roots) :
      root.coveredBy request.allRoots = true :=
    Path.coveredBy_of_mem (Path.mem_of_mem_topmost hroot)
  have hunion {root : Path} (hroot : root ∈ (prior.requestedRoots.insertAll request.roots).toList) :
      root.coveredBy (prior.requests ∪ request).allRoots = true := by
    have hcovered : root.coveredBy prior.requests.allRoots = true ∨
        root.coveredBy request.allRoots = true :=
      (PathSet.mem_insertAll hroot).imp (hprior.requested root) hrequest
    simp only [Path.coveredBy_iff, Request.mem_allRoots_union, or_and_right, exists_or] at hcovered ⊢
    exact hcovered
  cases h with
  | unchanged => exact hprior.requested root hroot
  | append _ _ hroots =>
    subst hroots
    exact hunion hroot
  | collapse _ _ hroots =>
    subst hroots
    exact hunion hroot
  | first _ unwatched hroots =>
    subst hroots
    refine hrequest ((PathSet.mem_insertAll hroot).resolve_left fun hold => ?_)
    have hnone := hprior.watched root hold
    rw [List.isEmpty_iff.1 unwatched] at hnone
    cases hnone

namespace Grounded

variable {registry after : Registry} {policy : Policy} {request : Request} {update : Update}
  {w w' : World} {now : World → Prop}

theorem register (h : registry.Grounded (.build edits)) (hedits : Listing.Consistent edits)
    (hshows : host.Shows (.build edits) now) (hwd : host.workingDirectory.isAbsolute = true)
    (hw : now w)
    (hregister : registry.register host.toFileSystem policy request w = (.ok (after, update), w')) :
    after.Grounded (.build edits) := by
  obtain ⟨absolute, nearest, habsolute, hnearest, hresolved, hmerges⟩ :=
    merges_of_register hregister
  refine ⟨fun p hp => ?_, fun root hroot => ?_, fun root hroot => ?_⟩
  · rcases hmerges.mem_watchPoints hp with hp | hp
    · exact h.points p hp
    · exact hshows.isDirectory_of_mem_nearestAll hedits hw hnearest (fun root hroot =>
        Request.isAbsolute_of_mem_allRoots hwd habsolute (Path.mem_of_mem_topmost hroot)) hp
  · exact hmerges.coveredBy_of_mem_requestedRoots hresolved h.watched hroot
  · exact hmerges.coveredBy_requests h hroot

theorem append {more : List Listing.Edit} (h : registry.Grounded (.build edits))
    (hedits : Listing.Consistent (edits ++ more)) :
    registry.Grounded (.build (edits ++ more)) :=
  ⟨fun p hp => hedits.isDirectory_append (h.points p hp), h.watched, h.requested⟩

/-- What leads to nothing that was there needs a watch as soon as it has to do with a requested
root. -/
theorem needsWatch {l : Listing} (h : registry.Grounded l) {e : Path}
    (hmissing : ∀ q : Path, q.atOrBelow e = true → ¬l.isDirectory q = .ok true)
    (he : registry.Relates e) : registry.needsWatch e = true := by
  have hclear : e.leadsTo registry.watchPoints.toList = false := by
    rw [Bool.eq_false_iff, ne_eq, Path.leadsTo_iff]
    rintro ⟨q, hq, hqe⟩
    exact hmissing q hqe (h.points q hq)
  rw [needsWatch_eq_allRoots, hclear, Bool.not_false, Bool.and_true, Bool.or_eq_true,
    Bool.or_eq_true]
  rcases he with he | he
  · obtain ⟨root, hroot, heRoot⟩ := Path.coveredBy_iff.1 he
    obtain ⟨other, hother, hrootOther⟩ := Path.coveredBy_iff.1 (h.requested root hroot)
    exact .inl (.inl (Path.coveredBy_iff.2 ⟨other, hother, Path.atOrBelow_trans heRoot hrootOther⟩))
  · exact .inr he

end Grounded

end Registry

namespace Session

variable {now : Listing → World → Prop} {policy : Policy} {s : Session} {w : World}

/-- The sessions that calls and events lead to, with the additions to the file system that others
made until then. -/
inductive Reached (host : Host World) (now : Listing → World → Prop) (policy : Policy) :
    List Listing.Edit → Session → World → Prop
  | start {edits : List Listing.Edit} {w : World} (hw : now (.build edits) w) :
      Reached host now policy edits (.start policy) w
  | call {edits : List Listing.Edit} {s : Session} {w : World}
      (h : Reached host now policy edits s w) (c : Call) :
      Reached host now policy edits (s.call host w c).session (s.call host w c).world
  | handle {edits : List Listing.Edit} {s : Session} {w : World}
      (h : Reached host now policy edits s w) (event : Event) :
      Reached host now policy edits (s.handle host event w).2.1 (s.handle host event w).2.2
  | grow {edits : List Listing.Edit} {s : Session} {w w' : World}
      (h : Reached host now policy edits s w) (e : Listing.Edit)
      (hw' : now (.build (edits ++ [e])) w') :
      Reached host now policy (edits ++ [e]) s w'

theorem grounded_of_reached (hshows : ∀ l, host.Shows l (now l))
    (hwd : host.workingDirectory.isAbsolute = true) (h : Reached host now policy edits s w)
    (hedits : Listing.Consistent edits) :
    s.registry.Grounded (.build edits) ∧ now (.build edits) w := by
  induction h with
  | start hw => exact ⟨Registry.grounded_empty _, hw⟩
  | @call edits s w _ c ih =>
    obtain ⟨hgrounded, hw⟩ := ih hedits
    refine ⟨?_, (hshows _).toMaintains.call s c hw⟩
    rcases registry_call host s w c with hkept | ⟨request, update, w', hregister⟩
    · rwa [hkept]
    · exact hgrounded.register hedits (hshows _) hwd hw hregister
  | @handle edits s w _ event ih =>
    obtain ⟨hgrounded, hw⟩ := ih hedits
    refine ⟨?_, (hshows _).toMaintains.handlePaths event.created s event.paths hw⟩
    have hkeeps : s.Keeps (s.handle host event w).2.1 :=
      keeps_handlePaths event.created s event.paths w
    rwa [hkeeps.registry]
  | grow _ e hw' ih => exact ⟨(ih hedits.of_append).1.append hedits, hw'⟩

/-- A directory at or below a watch point that has to do with a requested root. -/
structure Relevant (s : Session) (l : Listing) (d : Path) : Prop where
  isDirectory : l.isDirectory d = .ok true
  watched : d.coveredBy s.registry.watchPoints.toList = true
  relates : s.registry.Relates d

def Attends (s : Session) (l : Listing) : Prop :=
  ∀ d, s.Relevant l d → s.registered.contains d = true

variable {l : Listing} {d e p t : Path}

/-- Below what was missing, everything on the way to a relevant directory needs a watch. -/
theorem Relevant.needsWatch (h : s.Relevant l d) (hgrounded : s.registry.Grounded (.build edits))
    (hedits : Listing.Consistent edits) (ht : (Listing.build edits).TopmostMissing p t)
    (hde : d.atOrBelow e = true) (het : e.atOrBelow t = true) :
    s.registry.needsWatch e = true := by
  refine hgrounded.needsWatch (fun q hq => ?_) (h.relates.above hde)
  exact ht.not_isDirectory_of_atOrBelow hedits (Path.atOrBelow_trans hq het)

theorem Relevant.of_isDirectory (h : s.Relevant l d) {l' : Listing}
    (hd : l'.isDirectory d = .ok true) : s.Relevant l' d :=
  ⟨hd, h.watched, h.relates⟩

/-- Taking up a directory that is there succeeds, and registers what it leads to. -/
theorem directoryCreated_ok {now : World → Prop} (hserves : host.Serves l now)
    (hlinked : l.Linked ∅) (hgranted : l.denied = [])
    (hlimit : ∀ w, now w → l.entries.length ≤ host.walkLimit w)
    (ht : (l.find? t).isSome = true) (hneeds : s.registry.needsWatch t = true) (hw : now w) :
    (∃ taken, (s.directoryCreated host t w).result = .ok taken) ∧
      ∀ d, (s.directoryCreated host t w).session.registered.contains d = true ↔
        s.registered.contains d = true ∨ l.Leads t s.registry.needsWatch t d := by
  have hstack : ∀ q ∈ [t], (l.find? q).isSome = true := by simpa using ht
  have hweight : l.stackWeight [t] ≤ host.walkLimit w := by
    rw [Listing.stackWeight, List.map_singleton, List.sum_singleton]
    exact (l.weight_le t.components).trans (hlimit w hw)
  obtain ⟨t', hwalk⟩ := Trail.exists_walkFrom_ok (t := s.trail w) hserves hlinked hgranted t
    s.registry.needsWatch hw hstack hweight
  have hcontains := Trail.contains_walkFrom hserves.shows hlinked
    (fun _ _ => s.registry.needsWatch_congr) hw hwalk
  have hwalked : Trail.walk host s.registry.needsWatch t (s.trail w) = (.ok (), t') := hwalk
  rw [directoryCreated, if_pos hneeds, hwalked]
  refine ⟨⟨_, rfl⟩, fun d => (hcontains d).trans ?_⟩
  simp only [List.mem_singleton, exists_eq_left]
  rfl

/-- A session that attends to every relevant directory does so again once a directory was created,
with what was missing above it, and the topmost of what was missing has been taken up. So every
directory at or below a requested root is registered then. -/
theorem attends_directoryCreated (hserves : ∀ l, host.Serves l (now l))
    (hlimit : ∀ l w, now l w → l.entries.length ≤ host.walkLimit w)
    (hwd : host.workingDirectory.isAbsolute = true) (hreached : Reached host now policy edits s w)
    (hedits : Listing.Consistent (edits ++ [.directory p]))
    (ht : (Listing.build edits).TopmostMissing p t) (hbefore : s.Attends (.build edits))
    {w' : World} (hw' : now (.build (edits ++ [.directory p])) w') :
    let after := s.directoryCreated host t w'
    (∃ taken, after.result = .ok taken) ∧
      after.session.Attends (.build (edits ++ [.directory p])) ∧
      ∀ d, (Listing.build (edits ++ [.directory p])).isDirectory d = .ok true →
        d.coveredBy s.registry.requestedRoots.toList = true →
          after.session.registered.contains d = true := by
  intro after
  have hgrounded := (grounded_of_reached (fun l => (hserves l).shows) hwd hreached
    hedits.of_append).1
  have hkeeps : s.Keeps after.session := keeps_directoryCreated s t w'
  have htop := ht.isDirectory hedits
  -- What is relevant was there before, or it lies below what was missing.
  have hrelevant {d : Path} (hd : s.Relevant (.build (edits ++ [.directory p])) d) :
      s.registered.contains d = true ∨ d.atOrBelow t = true :=
    (ht.isDirectory_or_atOrBelow hedits hd.isDirectory).imp_left fun hold =>
      hbefore d (hd.of_isDirectory hold)
  have hstep : (∃ taken, after.result = .ok taken) ∧
      ∀ d, s.Relevant (.build (edits ++ [.directory p])) d →
        after.session.registered.contains d = true := by
    cases hneeds : s.registry.needsWatch t with
    | true =>
      have hthere : ((Listing.build (edits ++ [.directory p])).find? t).isSome = true := by
        obtain ⟨-, children, hfound⟩ := Listing.isDirectory_eq_true_iff.1 htop
        rw [hfound]
        rfl
      obtain ⟨hok, hcontains⟩ := directoryCreated_ok (hserves _) (Listing.linked_build hedits.plain)
        (Listing.denied_build hedits.granted) (hlimit _) hthere hneeds hw'
      refine ⟨hok, fun d hd => (hcontains d).2 ((hrelevant hd).imp_right fun hdt => ?_)⟩
      refine (hedits.leads_iff (Path.components_ne_nil ht.absolute)).2
        ⟨hd.isDirectory, hdt, fun e hde het => ?_⟩
      exact hd.needsWatch hgrounded hedits.of_append ht hde (Path.atOrBelow_of_below het)
    | false =>
      have hafter : after = ⟨.ok [], s, [], w'⟩ := by
        simp only [after, directoryCreated, hneeds, Bool.false_eq_true, if_false]
      rw [hafter]
      refine ⟨⟨[], rfl⟩, fun d hd => (hrelevant hd).resolve_right fun hdt => ?_⟩
      have htaken := hd.needsWatch hgrounded hedits.of_append ht hdt (Path.atOrBelow_refl t)
      rw [hneeds] at htaken
      cases htaken
  obtain ⟨hok, hregistered⟩ := hstep
  refine ⟨hok, fun d hd => ?_, fun d hd hcovered => ?_⟩
  · obtain ⟨hdirectory, hwatched, hrelates⟩ := hd
    rw [hkeeps.registry] at hwatched hrelates
    exact hregistered d ⟨hdirectory, hwatched, hrelates⟩
  · obtain ⟨root, hroot, hdRoot⟩ := Path.coveredBy_iff.1 hcovered
    obtain ⟨q, hq, hrootQ⟩ := Path.coveredBy_iff.1 (hgrounded.watched root hroot)
    have hwatched := Path.coveredBy_iff.2 ⟨q, hq, Path.atOrBelow_trans hdRoot hrootQ⟩
    exact hregistered d ⟨hd, hwatched, .inl hcovered⟩

def missingRoots : Request := .ofRoots [Path.ofString "/a/b", Path.ofString "/a/x/y"]

def waiting : Step (Recorder Listing) Outcome :=
  (start .collapse).call recording (.start (.build []) none) (.register missingRoots)

def created : List Listing.Edit := [.directory (Path.ofString "/a/b/c")]

theorem attends_waiting : waiting.session.Attends (.build []) := by
  rintro d ⟨hd, -, -⟩
  have hroot : d.Same (Path.ofString "/") :=
    Listing.eq_root_of_isSome_initial (Listing.isSome_of_isDirectory hd)
  rw [PathSet.contains_congr _ hroot]
  cbv

theorem consistent_created : Listing.Consistent created := by
  refine ⟨?_, by simp [created], by simp [created]⟩
  simp only [created, List.mem_singleton, forall_eq, Listing.Edit.path]
  decide +kernel

theorem topmostMissing_created :
    (Listing.build []).TopmostMissing (Path.ofString "/a/b/c") (Path.ofString "/a") := by
  have hlinked : Listing.Linked ∅ (.build []) := Listing.linked_initial
  have hparent : (Path.ofString "/a").parent? = some (Path.ofString "/") := by cbv
  exact hlinked.topmostMissing (by decide +kernel) (by decide +kernel) (by decide +kernel) hparent
    (by decide +kernel)

theorem attends_directoryCreated_waiting :
    Reached recording (fun l r => r.world = l ∧ r.refusing = none) .collapse [] waiting.session
        waiting.world ∧
      Listing.Consistent created ∧
      (Listing.build []).TopmostMissing (Path.ofString "/a/b/c") (Path.ofString "/a") ∧
      waiting.session.Attends (.build []) ∧
      let after := waiting.session.directoryCreated recording (Path.ofString "/a")
        { waiting.world with world := .build created }
      after.session.registered.toList = ["/", "/a", "/a/b", "/a/b/c"].map Path.ofString ∧
        (∃ taken, after.result = .ok taken) ∧ after.session.Attends (.build created) ∧
        ∀ d, (Listing.build created).isDirectory d = .ok true →
          d.coveredBy waiting.session.registry.requestedRoots.toList = true →
            after.session.registered.contains d = true := by
  have hreached : Reached recording (fun l r => r.world = l ∧ r.refusing = none) .collapse []
      waiting.session waiting.world :=
    .call (.start ⟨rfl, rfl⟩) (.register missingRoots)
  refine ⟨hreached, consistent_created, topmostMissing_created, attends_waiting, by cbv, ?_⟩
  exact attends_directoryCreated (fun l => Recorder.serves l _)
    (fun l r hr => hr.1 ▸ Nat.le_succ r.world.entries.length) (by decide +kernel) hreached
    consistent_created topmostMissing_created attends_waiting ⟨rfl, by cbv⟩

end Session

end DirectoryWatch
