import DirectoryWatch.Proofs.Path.Region
import DirectoryWatch.Proofs.Session.Reach

/-!
# Itineraries

Over a listing a walk goes the same way whatever is registered already: it hands over those of the
directories on its way that are missing. A refusal cuts it short, and then it has come through a
first part of the way.
-/
namespace DirectoryWatch

namespace PathSet

/-- The paths that are not in the set, each once. -/
def missing (s : PathSet) : List Path → List Path
  | [] => []
  | p :: rest => if s.contains p then s.missing rest else p :: (s.insert p).missing rest

theorem missing_append (s : PathSet) (xs ys : List Path) :
    s.missing (xs ++ ys) = s.missing xs ++ (s.insertAll (s.missing xs)).missing ys := by
  induction xs generalizing s with
  | nil => rfl
  | cons p rest ih =>
    rw [List.cons_append, missing, missing]
    split
    · exact ih s
    · rw [ih]
      rfl

theorem contains_insertAll_missing (s : PathSet) {xs : List Path} {p : Path} (hp : p ∈ xs) :
    (s.insertAll (s.missing xs)).contains p = true := by
  induction xs generalizing s with
  | nil => cases hp
  | cons q rest ih =>
    rw [missing]
    split
    · rename_i hq
      rcases List.mem_cons.1 hp with rfl | hp
      · rw [contains_insertAll, hq, Bool.true_or]
      · exact ih s hp
    · change ((s.insert q).insertAll ((s.insert q).missing rest)).contains p = true
      rcases List.mem_cons.1 hp with rfl | hp
      · rw [contains_insertAll, contains_insert, decide_eq_true (Path.Same.refl p), Bool.true_or,
          Bool.true_or]
      · exact ih (s.insert q) hp

theorem missing_eq_nil {s : PathSet} {xs : List Path} (h : ∀ p ∈ xs, s.contains p = true) :
    s.missing xs = [] := by
  induction xs with
  | nil => rfl
  | cons p rest ih =>
    rw [missing, if_pos (h p (by simp)), ih fun q hq => h q (List.mem_cons_of_mem p hq)]

/-- What is missing after a first part was put in is the rest of what was missing before. -/
theorem missing_of_prefix (s : PathSet) {first xs : List Path} (h : first <+: xs) :
    s.missing xs = s.missing first ++ (s.insertAll (s.missing first)).missing xs := by
  obtain ⟨rest, rfl⟩ := h
  have hknown : (s.insertAll (s.missing first)).missing first = [] :=
    missing_eq_nil fun p hp => s.contains_insertAll_missing hp
  rw [missing_append (s.insertAll _), hknown, missing_append]
  rfl

end PathSet

namespace Listing

def directoriesIn (l : Listing) (directory : Path) : List Path :=
  match l.entriesOf directory with
  | .ok entries => Path.sort (entries.filter fun entry => l.isDirectory entry matches .ok true)
  | .error _ => []

/-- The directories to which a walk comes, in order, and how it ends, where nothing is refused. -/
def itinerary (l : Listing) (start : Path) (wanted : Path → Bool) :
    Nat → List Path → List Path × Except Failure Unit
  | _, [] => ([], .ok ())
  | 0, _ :: _ => ([], .error (.endlessWalk start))
  | limit + 1, directory :: rest =>
    if directory.Same start ∨ wanted directory then
      match l.isDirectory directory with
      | .error fault => ([], .error (.faulty fault))
      | .ok false => l.itinerary start wanted limit rest
      | .ok true =>
        let (later, ending) := l.itinerary start wanted limit (l.directoriesIn directory ++ rest)
        (directory :: later, ending)
    else l.itinerary start wanted limit rest

abbrev recorded (workingDirectory : Path) : Host (Recorder Listing) :=
  Recorder.host (fileSystem workingDirectory)

def itineraryAll (l : Listing) (wanted : Path → Bool) :
    List Path → List Path × Except Failure Unit
  | [] => ([], .ok ())
  | start :: rest =>
    match l.itinerary start wanted (l.entries.length + 1) [start] with
    | (way, .error e) => (way, .error e)
    | (way, .ok ()) =>
      let (later, ending) := l.itineraryAll wanted rest
      (way ++ later, ending)

end Listing

namespace Trail

variable (wd : Path)

/-- The trail of a recorder after `new` was accepted. What was skipped is left open. -/
structure Accepts (new : List Path) (t t' : Trail (Recorder Listing)) : Prop where
  registered_eq : t'.registered = t.registered.insertAll new
  added_eq : t'.added = t.added ++ new
  world_eq : t'.world = { t.world with accepted := t.world.accepted ++ new }

namespace Accepts

variable {t t₁ t₂ : Trail (Recorder Listing)}

theorem none (t : Trail (Recorder Listing)) (skipped : List Path) :
    Accepts [] t { t with skipped := skipped } := by
  refine ⟨rfl, (List.append_nil _).symm, ?_⟩
  rw [List.append_nil]

theorem trans {new more : List Path} (h : Accepts new t t₁) (k : Accepts more t₁ t₂) :
    Accepts (new ++ more) t t₂ := by
  refine ⟨?_, ?_, ?_⟩
  · rw [k.registered_eq, h.registered_eq, PathSet.insertAll_append]
  · rw [k.added_eq, h.added_eq, List.append_assoc]
  · rw [k.world_eq, h.world_eq, List.append_assoc]

theorem trans_missing {xs ys : List Path} (h : Accepts (t.registered.missing xs) t t₁)
    (k : Accepts (t₁.registered.missing ys) t₁ t₂) :
    Accepts (t.registered.missing (xs ++ ys)) t t₂ := by
  rw [PathSet.missing_append, ← h.registered_eq]
  exact h.trans k

end Accepts

theorem isDirectory_recorder (p : Path) (r : Recorder Listing) :
    (Listing.recorded wd).isDirectory p r = (r.world.isDirectory p, r) := rfl

theorem directoriesAmong_recorder (entries : List Path) (t : Trail (Recorder Listing)) :
    ∃ skipped, directoriesAmong (Listing.recorded wd) entries t =
      (entries.filter fun entry => t.world.world.isDirectory entry matches .ok true,
        { t with skipped := skipped }) := by
  induction entries generalizing t with
  | nil => exact ⟨t.skipped, rfl⟩
  | cons entry rest ih =>
    rw [directoriesAmong, isDirectory_recorder, List.filter_cons]
    rcases t.world.world.isDirectory entry with fault | _ | _
    · exact ih { t with skipped := t.skipped ++ [entry] }
    · exact ih t
    · obtain ⟨skipped, hrest⟩ := ih t
      exact ⟨skipped, by simp [hrest]⟩

theorem children_recorder {directory : Path} {t : Trail (Recorder Listing)}
    (h : t.world.world.isDirectory directory = .ok true) :
    ∃ skipped, children (Listing.recorded wd) directory t =
      (.ok (t.world.world.directoriesIn directory), { t with skipped := skipped }) := by
  obtain ⟨names, -, hentries⟩ := Listing.entriesOf_of_isDirectory h
  have hasked : (Listing.recorded wd).entries directory t.world =
      (t.world.world.entriesOf directory, t.world) := rfl
  obtain ⟨skipped, hamong⟩ := directoriesAmong_recorder wd
    (names.map fun name => directory.join ⟨name⟩) t
  refine ⟨skipped, ?_⟩
  rw [children, hasked, Listing.directoriesIn, hentries]
  simp only [hamong]

theorem register_recorder (directory : Path) (t : Trail (Recorder Listing)) :
    let registered := register (Listing.recorded wd) directory t
    (t.world.refusing ≠ none ∧ ∃ e, registered = (.error e, t)) ∨
      ∃ t', registered = (.ok (), t') ∧ Accepts (t.registered.missing [directory]) t t' := by
  rw [register, PathSet.missing]
  split
  · exact .inr ⟨t, rfl, .none t t.skipped⟩
  · have hwatch : (Listing.recorded wd).watch directory t.world =
        Recorder.watch directory t.world := rfl
    rw [hwatch, Recorder.watch]
    cases hrefuses : t.world.refuses directory with
    | true =>
      refine .inl ⟨fun hnone => ?_, _, rfl⟩
      simp [Recorder.refuses, hnone] at hrefuses
    | false => exact .inr ⟨_, rfl, rfl, rfl, rfl⟩

theorem visit_recorder (directory : Path) (t : Trail (Recorder Listing)) :
    let visited := visit (Listing.recorded wd) directory t
    (∃ fault, t.world.world.isDirectory directory = .error fault ∧
        visited = (.error (.faulty fault), t)) ∨
      (t.world.world.isDirectory directory = .ok false ∧ visited = (.ok [], t)) ∨
      t.world.world.isDirectory directory = .ok true ∧
        ((t.world.refusing ≠ none ∧ ∃ e, visited = (.error e, t)) ∨
          ∃ t', visited = (.ok (t.world.world.directoriesIn directory), t') ∧
            Accepts (t.registered.missing [directory]) t t') := by
  rw [visit, isDirectory_recorder]
  rcases hanswer : t.world.world.isDirectory directory with fault | _ | _
  · exact .inl ⟨fault, rfl, rfl⟩
  · exact .inr (.inl ⟨rfl, rfl⟩)
  · refine .inr (.inr ⟨rfl, ?_⟩)
    rcases register_recorder wd directory t with
      ⟨hrefusing, e, hregister⟩ | ⟨t₁, hregister, haccepts⟩
    · exact .inl ⟨hrefusing, e, by simp only [hregister]⟩
    · have hsame : t₁.world.world = t.world.world := by rw [haccepts.world_eq]
      obtain ⟨skipped, hchildren⟩ := children_recorder wd (hsame ▸ hanswer)
      refine .inr ⟨{ t₁ with skipped := skipped }, ?_, ?_⟩
      · simp only [hregister, hchildren, hsame]
      · exact ⟨haccepts.registered_eq, haccepts.added_eq, haccepts.world_eq⟩

/-- A walk takes the missing directories of a first part of its way, and of the whole way unless
the facility refuses one. -/
structure Follows (way : List Path × Except Failure Unit) (t : Trail (Recorder Listing))
    (walked : Except Failure Unit × Trail (Recorder Listing)) (taken : List Path) : Prop where
  first : taken <+: way.1
  accepts : Accepts (t.registered.missing taken) t walked.2
  whole : walked.1 = .ok () ∨ t.world.refusing = none → taken = way.1 ∧ walked.1 = way.2

theorem walkFrom_follows (start : Path) (wanted : Path → Bool) (limit : Nat) (stack : List Path)
    (t : Trail (Recorder Listing)) :
    ∃ taken, Follows (t.world.world.itinerary start wanted limit stack) t
      (walkFrom (Listing.recorded wd) start wanted limit stack t)
      taken := by
  induction limit generalizing stack t with
  | zero =>
    cases stack with
    | nil => exact ⟨[], List.nil_prefix, .none t t.skipped, fun _ => ⟨rfl, rfl⟩⟩
    | cons directory rest => exact ⟨[], List.nil_prefix, .none t t.skipped, fun _ => ⟨rfl, rfl⟩⟩
  | succ limit ih =>
    cases stack with
    | nil => exact ⟨[], List.nil_prefix, .none t t.skipped, fun _ => ⟨rfl, rfl⟩⟩
    | cons directory rest =>
      rw [walkFrom, Listing.itinerary]
      by_cases hwanted : directory.Same start ∨ wanted directory = true
      · rw [if_pos hwanted, if_pos hwanted]
        rcases visit_recorder wd directory t with
          ⟨fault, hanswer, hvisit⟩ | ⟨hanswer, hvisit⟩ | ⟨hanswer, hvisit⟩
        · rw [hvisit, hanswer]
          exact ⟨[], List.nil_prefix, .none t t.skipped, fun _ => ⟨rfl, rfl⟩⟩
        · rw [hvisit, hanswer]
          exact ih rest t
        · rcases hvisit with ⟨hrefusing, e, hvisit⟩ | ⟨t₁, hvisit, haccepts⟩
          · rw [hvisit, hanswer]
            refine ⟨[], List.nil_prefix, .none t t.skipped, fun hwhole => ?_⟩
            rcases hwhole with hok | hnone
            · cases hok
            · exact absurd hnone hrefusing
          · rw [hvisit, hanswer]
            have hsame : t₁.world.world = t.world.world := by rw [haccepts.world_eq]
            have hrefusing : t₁.world.refusing = t.world.refusing := by rw [haccepts.world_eq]
            obtain ⟨taken, hfollows⟩ := ih (t.world.world.directoriesIn directory ++ rest) t₁
            rw [hsame] at hfollows
            refine ⟨directory :: taken, ?_, haccepts.trans_missing hfollows.accepts, ?_⟩
            · exact (List.prefix_cons_inj directory).2 hfollows.first
            · intro hwhole
              obtain ⟨htaken, hending⟩ := hfollows.whole (hrefusing ▸ hwhole)
              exact ⟨by rw [htaken], hending⟩
      · rw [if_neg hwanted, if_neg hwanted]
        exact ih rest t

theorem walkAll_follows (wanted : Path → Bool) (starts : List Path)
    (t : Trail (Recorder Listing)) :
    ∃ taken, Follows (t.world.world.itineraryAll wanted starts) t
      (walkAll (Listing.recorded wd) wanted starts t) taken := by
  induction starts generalizing t with
  | nil => exact ⟨[], List.nil_prefix, .none t t.skipped, fun _ => ⟨rfl, rfl⟩⟩
  | cons start rest ih =>
    let limit := t.world.world.entries.length + 1
    obtain ⟨taken, hfirst⟩ := walkFrom_follows wd start wanted limit [start] t
    have hwalk : walk (Listing.recorded wd) wanted start t =
        walkFrom (Listing.recorded wd) start wanted limit [start] t := rfl
    rw [← hwalk] at hfirst
    rw [walkAll, Listing.itineraryAll]
    rcases hway : t.world.world.itinerary start wanted limit [start] with ⟨way, ending⟩
    rcases hwalked : walk (Listing.recorded wd) wanted start t with ⟨e | _, t₁⟩
    all_goals rw [hway, hwalked] at hfirst
    · refine ⟨taken, ?_, hfirst.accepts, fun hwhole => ?_⟩
      · rcases ending with _ | _
        · exact hfirst.first
        · exact hfirst.first.trans (List.prefix_append way _)
      · obtain ⟨htaken, hending⟩ := hfirst.whole (hwhole.imp_left fun hok => by cases hok)
        cases hending
        exact ⟨htaken, rfl⟩
    · obtain ⟨htaken, hending⟩ := hfirst.whole (.inl rfl)
      cases hending
      subst htaken
      have hsame : t₁.world.world = t.world.world := by rw [hfirst.accepts.world_eq]
      have hrefusing : t₁.world.refusing = t.world.refusing := by rw [hfirst.accepts.world_eq]
      obtain ⟨more, hrest⟩ := ih t₁
      rw [hsame] at hrest
      refine ⟨taken ++ more, ?_, hfirst.accepts.trans_missing hrest.accepts, fun hwhole => ?_⟩
      · exact (List.prefix_append_right_inj taken).2 hrest.first
      · obtain ⟨hmore, hending⟩ := hrest.whole (hrefusing ▸ hwhole)
        exact ⟨by rw [hmore], hending⟩

end Trail

end DirectoryWatch
