import DirectoryWatch.FileSystem.Listing
import DirectoryWatch.Proofs.Session.Operations
import DirectoryWatch.Proofs.Session.Record
import DirectoryWatch.Session.Recording

/-!
# Handling events

What is taken up on the way, with success or without, never touches the registry. So each path of an
event is reported or not as it would have been before the event. An event by which nothing was
created does nothing else, and one of a creation leaves what the calls for its paths leave.
-/
namespace DirectoryWatch

variable {World : Type} {host : Host World}

namespace Session

theorem Keeps.reports_eq {s s' : Session} (h : s.Keeps s') : s'.reports = s.reports := by
  funext p
  rw [reports, reports, h.registry]

theorem handlePaths_not_created (s : Session) (paths : List Path) (w : World) :
    s.handlePaths host false paths w = (paths.filter s.reports, s, w) := by
  induction paths with
  | nil => rfl
  | cons p rest ih =>
    simp only [handlePaths, Bool.false_eq_true, if_false, ih, List.filter_cons]

/-- Taking up one path leaves the verdict on it and on all later ones as it was. -/
theorem handlePaths_created (s : Session) (paths : List Path) (w : World) :
    s.handlePaths host true paths w = (paths.filter s.reports, s.allCreated host paths w) := by
  induction paths generalizing s w with
  | nil => rfl
  | cons p rest ih =>
    have hkeeps : s.Keeps (s.directoryCreated host p w).session := keeps_directoryCreated s p w
    simp only [handlePaths, if_true, ih, hkeeps.reports_eq, List.filter_cons, allCreated]

theorem handle_eq (host : Host World) (s : Session) (event : Event) (w : World) :
    s.handle host event w =
      (event.paths.filter s.reports,
        if event.created then s.allCreated host event.paths w else (s, w)) := by
  rw [handle]
  cases event.created with
  | false => exact handlePaths_not_created s event.paths w
  | true => exact handlePaths_created s event.paths w

theorem allCreated_eq_run (s : Session) (paths : List Path) (w : World) :
    let called := s.run host (paths.map .created) w
    s.allCreated host paths w = (called.session, called.world) := by
  induction paths generalizing s w with
  | nil => rfl
  | cons p rest ih => exact ih _ _

/-- An event is answered with those of its paths, in order and as often as they stand there, that
the session reported before it, and the registry stays as it is. Nothing else happens unless
something was created; then what is registered and what the facility accepted grow by the same
directories, and end as if every path had been taken up by a call of its own. -/
theorem handle_reports_as_before (host : Host World) (s : Session) (event : Event)
    (log : Logged World) :
    let (reported, s', log') := s.handle host.logged event log
    let called := s.run host.logged (event.paths.map .created) log
    s.handle host event log.world = (reported, s', log'.world) ∧
      reported = event.paths.filter s.reports ∧
      s'.policy = s.policy ∧ s'.registry = s.registry ∧
      (event.created = false → s' = s ∧ log' = log) ∧
      (event.created = true → s' = called.session ∧ log' = called.world) ∧
      ∃ new, s'.registered = s.registered.insertAll new ∧
        log'.accepted = log.accepted ++ new := by
  have hworld := host.logged_mirrors.handlePaths event.created s event.paths log
  have hkeeps : s.Keeps (s.handle host.logged event log).2.1 :=
    keeps_handlePaths event.created s event.paths log
  obtain ⟨new, htakes⟩ := host.logged_records.handlePaths event.created s event.paths log
  have hevent := handle_eq host.logged s event log
  refine ⟨hworld, congrArg Prod.fst hevent, hkeeps.policy, hkeeps.registry, fun hcreated => ?_,
    fun hcreated => ?_, new, htakes.registered_eq, htakes.record_eq⟩
  · rw [hcreated, if_neg Bool.false_ne_true] at hevent
    exact Prod.mk.inj (congrArg Prod.snd hevent)
  · rw [hcreated, if_pos rfl, allCreated_eq_run] at hevent
    exact Prod.mk.inj (congrArg Prod.snd hevent)

/-- A walk that the facility refuses to go on with hides no path from the report. -/
example :
    let host := Recorder.host (Listing.fileSystem (Path.ofString "/"))
    let l := Listing.build [.directory (Path.ofString "/x")]
    let step := (start .collapse).call host ⟨l, [], some (Path.ofString "/x/a")⟩
      (.register (.ofRoots [Path.ofString "/x"]))
    let made := { step.world with
      world := Listing.build (["/x/a", "/x/b"].map fun p => .directory (Path.ofString p)) }
    let paths := ["/x/a", "/x/b", "/y", "/x/a"].map Path.ofString
    let (reported, _, after) := step.session.handle host ⟨true, paths⟩ made
    reported = ["/x/a", "/x/b", "/x/a"].map Path.ofString ∧
      after.accepted = ["/x", "/x/b"].map Path.ofString := by
  cbv

end Session

end DirectoryWatch
