import DirectoryWatch.Proofs.Session.Ascent
import DirectoryWatch.Proofs.Session.Ending

/-!
# The loop of a walk

A walk takes one path after the other from its stack, and nothing but the end of the stack or a
failure ends it. On a listing that does not change this happens before long: the paths that are
taken ascend, and all but the first are directories of the listing.
-/
namespace DirectoryWatch

namespace Listing

variable {l : Listing} {p : Path} {place : List Component}

def directoryPlaces (l : Listing) : Finset (List Component) :=
  (l.entries.map Prod.fst).toFinset.filter fun place => l.at? place matches some (.directory _)

theorem mem_directoryPlaces_iff :
    place ∈ l.directoryPlaces ↔ ∃ children, l.at? place = some (.directory children) := by
  rw [directoryPlaces, Finset.mem_filter, List.mem_toFinset]
  constructor
  · rintro ⟨-, hplace⟩
    split at hplace
    · exact ⟨_, ‹_›⟩
    · cases hplace
  · rintro ⟨children, hchildren⟩
    obtain ⟨first, rest, hentries, -⟩ := List.lookup_eq_some_iff.1 hchildren
    refine ⟨List.mem_map.2 ⟨(place, .directory children), ?_, rfl⟩, ?_⟩
    · simp [hentries]
    · simp [hchildren]

theorem length_le_card_directoryPlaces {paths : List Path} (hascending : paths.Pairwise (· < ·))
    (hdirectories : ∀ p ∈ paths, l.isDirectory p = .ok true) :
    paths.length ≤ l.directoryPlaces.card := by
  have hnodup : (paths.map Path.components).Nodup := by
    refine List.pairwise_map.2 (hascending.imp fun {p q} hlt hsame => ?_)
    exact Path.not_lt.2 (Path.le_of_atOrBelow (Path.Same.atOrBelow hsame)) hlt
  have hsub : (paths.map Path.components).toFinset ⊆ l.directoryPlaces := by
    intro place hplace
    obtain ⟨p, hp, rfl⟩ := List.mem_map.1 (List.mem_toFinset.1 hplace)
    exact mem_directoryPlaces_iff.2 (isDirectory_eq_true_iff.1 (hdirectories p hp)).2
  calc paths.length
      = (paths.map Path.components).length := (List.length_map _).symm
    _ = (paths.map Path.components).toFinset.card := (List.toFinset_card_of_nodup hnodup).symm
    _ ≤ l.directoryPlaces.card := Finset.card_le_card hsub

end Listing

variable {World : Type} {host : Host World} {l : Listing} {now : World → Prop} {start : Path}
  {wanted : Path → Bool}

namespace Trail

/-- What the loop does when nothing limits it: the paths that it takes from the stack, in order, and
how it ends. -/
inductive Loop (host : Host World) (start : Path) (wanted : Path → Bool) :
    List Path → Trail World → List Path → Except Failure Unit × Trail World → Prop
  | done {t : Trail World} : Loop host start wanted [] t [] (.ok (), t)
  | passed {directory : Path} {stack popped : List Path} {t : Trail World}
      {r : Except Failure Unit × Trail World}
      (unwanted : ¬(directory.Same start ∨ wanted directory = true))
      (later : Loop host start wanted stack t popped r) :
      Loop host start wanted (directory :: stack) t (directory :: popped) r
  | failed {directory : Path} {stack : List Path} {t t' : Trail World} {e : Failure}
      (taken : directory.Same start ∨ wanted directory = true)
      (visited : visit host directory t = (.error e, t')) :
      Loop host start wanted (directory :: stack) t [directory] (.error e, t')
  /-- What a visit finds is taken up next. -/
  | visited {directory : Path} {stack popped found : List Path} {t t' : Trail World}
      {r : Except Failure Unit × Trail World}
      (taken : directory.Same start ∨ wanted directory = true)
      (visited : visit host directory t = (.ok found, t'))
      (later : Loop host start wanted (found ++ stack) t' popped r) :
      Loop host start wanted (directory :: stack) t (directory :: popped) r

namespace Loop

variable {stack popped others : List Path} {t : Trail World}
  {r r' : Except Failure Unit × Trail World}

theorem unique (h : Loop host start wanted stack t popped r)
    (k : Loop host start wanted stack t others r') : others = popped ∧ r' = r := by
  induction h generalizing others r' with
  | done =>
    cases k
    exact ⟨rfl, rfl⟩
  | passed hunwanted _ ih =>
    cases k with
    | passed _ hlater =>
      obtain ⟨rfl, rfl⟩ := ih hlater
      exact ⟨rfl, rfl⟩
    | failed htaken _ => exact absurd htaken hunwanted
    | visited htaken _ _ => exact absurd htaken hunwanted
  | failed htaken hvisit =>
    cases k with
    | passed hunwanted _ => exact absurd htaken hunwanted
    | failed _ hvisit' =>
      cases hvisit.symm.trans hvisit'
      exact ⟨rfl, rfl⟩
    | visited _ hvisit' _ => cases hvisit.symm.trans hvisit'
  | visited htaken hvisit _ ih =>
    cases k with
    | passed hunwanted _ => exact absurd htaken hunwanted
    | failed _ hvisit' => cases hvisit.symm.trans hvisit'
    | visited _ hvisit' hlater =>
      cases hvisit.symm.trans hvisit'
      obtain ⟨rfl, rfl⟩ := ih hlater
      exact ⟨rfl, rfl⟩

/-- A limit that allows for all the paths changes nothing. -/
theorem walkFrom_eq (h : Loop host start wanted stack t popped r) {limit : ℕ}
    (hlimit : popped.length ≤ limit) : walkFrom host start wanted limit stack t = r := by
  induction h generalizing limit with
  | done => rw [walkFrom]
  | passed hunwanted _ ih =>
    obtain ⟨limit, rfl⟩ := Nat.exists_eq_add_one_of_ne_zero (Nat.ne_zero_of_lt hlimit)
    rw [walkFrom, if_neg hunwanted]
    exact ih (Nat.le_of_succ_le_succ hlimit)
  | failed htaken hvisit =>
    obtain ⟨limit, rfl⟩ := Nat.exists_eq_add_one_of_ne_zero (Nat.ne_zero_of_lt hlimit)
    rw [walkFrom, if_pos htaken, hvisit]
  | visited htaken hvisit _ ih =>
    obtain ⟨limit, rfl⟩ := Nat.exists_eq_add_one_of_ne_zero (Nat.ne_zero_of_lt hlimit)
    rw [walkFrom, if_pos htaken, hvisit]
    exact ih (Nat.le_of_succ_le_succ hlimit)

/-- The paths that are taken ascend, and they lie at or below those of the stack. -/
theorem ascends (h : Loop host start wanted stack t popped r) (hshows : host.Shows l now)
    (hlinked : l.Linked ∅) (ht : now t.world) (hstack : stack.Pairwise Path.Precedes) :
    popped.Pairwise (· < ·) ∧ ∀ d ∈ popped, d.coveredBy stack = true := by
  have hpop {directory : Path} {stack popped found : List Path}
      (hfound : ∀ child ∈ found, child.below directory = true)
      (hstack : (directory :: stack).Pairwise Path.Precedes)
      (h : popped.Pairwise (· < ·) ∧ ∀ d ∈ popped, d.coveredBy (found ++ stack) = true) :
      (directory :: popped).Pairwise (· < ·) ∧
        ∀ d ∈ directory :: popped, d.coveredBy (directory :: stack) = true := by
    refine ⟨List.pairwise_cons.2 ⟨fun d hd => ?_, h.1⟩, List.forall_mem_cons.2 ⟨?_, fun d hd => ?_⟩⟩
    · exact Path.lt_of_coveredBy_append hfound (List.pairwise_cons.1 hstack).1 (h.2 d hd)
    · exact Path.coveredBy_of_mem (by simp)
    · exact Path.coveredBy_cons_of_append hfound (h.2 d hd)
  have hnone (directory : Path) : ∀ child ∈ ([] : List Path), child.below directory = true :=
    fun child hchild => absurd hchild List.not_mem_nil
  induction h with
  | done => exact ⟨.nil, by simp⟩
  | passed _ _ ih => exact hpop (hnone _) hstack (ih ht (List.pairwise_cons.1 hstack).2)
  | failed _ _ => exact hpop (hnone _) hstack ⟨.nil, by simp⟩
  | @visited directory _ _ _ t _ _ _ hvisit _ ih =>
    have ht' := hshows.visit directory ht
    rw [hvisit] at ht'
    obtain ⟨hfound, hordered⟩ := ordered_visit hshows hlinked ht hvisit
    exact hpop hfound hstack (ih ht' (Path.precedes_append_of_cons hfound hordered hstack))

theorem isDirectory_of_mem (h : Loop host start wanted stack t popped r)
    (hshows : host.Shows l now) (ht : now t.world) :
    ∀ d ∈ popped, d ∈ stack ∨ l.isDirectory d = .ok true := by
  induction h with
  | done => simp
  | passed _ _ ih =>
    refine List.forall_mem_cons.2 ⟨.inl (by simp), fun d hd => ?_⟩
    exact (ih ht d hd).imp_left (List.mem_cons_of_mem _)
  | failed _ _ => simp
  | @visited directory stack _ found t _ _ _ hvisit _ ih =>
    have ht' := hshows.visit directory ht
    rw [hvisit] at ht'
    refine List.forall_mem_cons.2 ⟨.inl (by simp), fun d hd => ?_⟩
    rcases ih ht' d hd with hd | hd
    · rcases List.mem_append.1 hd with hd | hd
      · exact .inr (isDirectory_of_mem_found hshows ht hvisit d hd)
      · exact .inl (List.mem_cons_of_mem directory hd)
    · exact .inr hd

theorem exists_eq_cons {p : Path} (h : Loop host start wanted (p :: stack) t popped r) :
    ∃ more, popped = p :: more := by
  cases h <;> exact ⟨_, rfl⟩

end Loop

/-- On a listing that does not change the loop comes to an end: a path that leads nowhere leaves a
shorter stack, any other a lighter one. -/
theorem exists_loop (h : host.Shows l now) (hlinked : l.Linked ∅) (start : Path)
    (wanted : Path → Bool) (stack : List Path) {t : Trail World} (ht : now t.world) :
    ∃ popped r, Loop host start wanted stack t popped r := by
  match stack with
  | [] => exact ⟨[], _, .done⟩
  | directory :: stack =>
    have hcons : l.stackWeight (directory :: stack) =
        l.weight directory.components + l.stackWeight stack := List.sum_cons
    by_cases htaken : directory.Same start ∨ wanted directory = true
    · have ht' := h.visit directory ht
      rcases hvisit : visit host directory t with ⟨e | found, t'⟩
      · exact ⟨[directory], _, .failed htaken hvisit⟩
      · rw [hvisit] at ht'
        have hless := stackWeight_found h hlinked ht hvisit
        obtain ⟨popped, r, hlater⟩ := exists_loop h hlinked start wanted (found ++ stack) ht'
        exact ⟨directory :: popped, r, .visited htaken hvisit hlater⟩
    · obtain ⟨popped, r, hlater⟩ := exists_loop h hlinked start wanted stack ht
      exact ⟨directory :: popped, r, .passed htaken hlater⟩
termination_by (l.stackWeight stack, stack.length)
decreasing_by
  · rw [Prod.lex_def, Listing.stackWeight_append, hcons]
    rcases hless with rfl | hless
    · simp only [show l.stackWeight [] = 0 from rfl, List.nil_append, List.length_cons]
      omega
    · exact .inl (Nat.add_lt_add_right hless _)
  · rw [Prod.lex_def, hcons]
    simp only [List.length_cons]
    omega

/-- On a listing that was built from plain paths and does not change, whatever the facility answers,
whatever it has already and whichever paths are wanted, the loop of a walk comes to an end in one
way. No path is taken from the stack twice, and there are at most as many as directories in the
listing and one more; so each limit that allows for these leaves the walk as it is. -/
theorem loop_ends {edits : List Listing.Edit} (hedits : ∀ e ∈ edits, e.path.IsPlain)
    (hshows : host.Shows (.build edits) now) (start : Path) (wanted : Path → Bool)
    {t : Trail World} (ht : now t.world) :
    ∃ popped r, Loop host start wanted [start] t popped r ∧
      (∀ others r', Loop host start wanted [start] t others r' → others = popped ∧ r' = r) ∧
      popped.Pairwise (fun p q => ¬p.Same q) ∧
      popped.length ≤ (Listing.build edits).directoryPlaces.card + 1 ∧
      ∀ limit, popped.length ≤ limit → walkFrom host start wanted limit [start] t = r := by
  have hlinked := Listing.linked_build hedits
  obtain ⟨popped, r, hloop⟩ := exists_loop hshows hlinked start wanted [start] ht
  obtain ⟨hascending, -⟩ := hloop.ascends hshows hlinked ht (List.pairwise_singleton _ start)
  have hdirectories := hloop.isDirectory_of_mem hshows ht
  refine ⟨popped, r, hloop, fun others r' => hloop.unique, ?_, ?_,
    fun limit => hloop.walkFrom_eq⟩
  · refine hascending.imp fun {p q} hlt hsame => ?_
    exact Path.not_lt.2 (Path.le_of_atOrBelow hsame.atOrBelow) hlt
  · obtain ⟨more, rfl⟩ := hloop.exists_eq_cons
    obtain ⟨hfirst, hmore⟩ := List.pairwise_cons.1 hascending
    refine Nat.succ_le_succ (Listing.length_le_card_directoryPlaces hmore fun d hd => ?_)
    refine (hdirectories d (List.mem_cons_of_mem start hd)).resolve_left fun hstart => ?_
    rw [List.mem_singleton] at hstart
    exact Path.lt_irrefl start (hstart ▸ hfirst d hd)

/-- A file takes the place of a directory that has one below it, and another directory is denied. -/
def overwritten : List Listing.Edit :=
  [.directory (Path.ofString "/a/b/c"), .file (Path.ofString "/a/b"),
    .directory (Path.ofString "/a/d/e"), .directory (Path.ofString "/a/f"),
    .denial (Path.ofString "/a/f")]

/-- The directory below the file is not found any more, nor is the one that is denied. -/
theorem loop_ends_overwritten :
    let t : Trail (Recorder Listing) := ⟨∅, [], [], .start (.build overwritten) none⟩
    let start := Path.ofString "/a"
    (Listing.build overwritten).directoryPlaces.card = 6 ∧
      ∃ popped r, Loop Session.recording start (fun _ => true) [start] t popped r ∧
        popped.length ≤ 7 ∧ r.2.added.map Path.display = ["/a", "/a/d", "/a/d/e"] := by
  intro t start
  have hserves := Recorder.serves (.build overwritten) (Path.ofString "/")
  have hcard : (Listing.build overwritten).directoryPlaces.card = 6 := by decide +kernel
  obtain ⟨popped, r, hloop, -, -, hlength, hwalk⟩ :=
    loop_ends (by decide +kernel) hserves.shows start (fun _ => true) (t := t) ⟨rfl, rfl⟩
  rw [hcard] at hlength
  refine ⟨hcard, popped, r, hloop, hlength, ?_⟩
  rw [← hwalk 7 hlength]
  decide +kernel

end Trail

end DirectoryWatch
