import DirectoryWatch.Proofs.FileSystem.Decided
import DirectoryWatch.Proofs.FileSystem.Growth
import DirectoryWatch.Proofs.Path.Region
import DirectoryWatch.Proofs.Registry.Needs
import DirectoryWatch.Proofs.Session.Operations
import DirectoryWatch.Proofs.Session.Reach
import DirectoryWatch.Proofs.Session.View
import Mathlib

/-!
# Directories made meanwhile

Others may make directories between any two calls of the file system and of the facility. A
directory is listed after the facility has accepted it, so what it held at that moment is found; what
comes later is announced by the facility.
-/
namespace DirectoryWatch

variable {World : Type} {host : Host World} {there : World → Path → Prop}

/-- Directories are only added, whoever adds them. No inspection fails, nor the listing of what is
there, and a child that is there is listed. -/
structure Host.OnlyGrows (host : Host World) (there : World → Path → Prop) : Prop where
  keeps : ∀ d, host.Maintains fun w => there w d
  same : ∀ {w p q}, p.Same q → there w p → there w q
  inspects : ∀ p w, ∃ answer, (host.isDirectory p w).1 = .ok answer ∧
    (there w p → answer = true) ∧ (answer = true → there (host.isDirectory p w).2 p)
  lists : ∀ p w, there w p → ∃ entries, (host.entries p w).1 = .ok entries ∧
    ∀ d c, d.components = p.components ++ [c] → there w d → ∃ entry ∈ entries, entry.Same d

theorem Host.OnlyGrows.traced (h : host.OnlyGrows there) :
    host.traced.OnlyGrows fun t => there t.world where
  keeps d :=
    ⟨fun p t => (h.keeps d).isDirectory p t.world, fun p t => (h.keeps d).entries p t.world,
      fun p t => (h.keeps d).watch p t.world⟩
  same := h.same
  inspects p t := h.inspects p t.world
  lists p t := h.lists p t.world

namespace Trail

variable {directory start : Path} {wanted : Path → Bool} {found stack : List Path}
  {t t' : Trail World}

theorem mem_directoriesAmong_of_there (h : host.OnlyGrows there) {entries : List Path}
    {t : Trail World} {entry : Path} (hentry : entry ∈ entries) (hthere : there t.world entry) :
    entry ∈ (directoriesAmong host entries t).1 := by
  fun_induction directoriesAmong host entries t with
  | case1 => cases hentry
  | case2 other rest t w heq found t' hrest ih =>
    rcases List.mem_cons.1 hentry with rfl | hentry
    · simp
    · have hlater := (h.keeps entry).isDirectory other t.world hthere
      rw [heq] at hlater
      have hfound := ih hentry hlater
      rw [hrest] at hfound
      exact List.mem_cons_of_mem other hfound
  | case3 other rest t w heq ih =>
    have hlater := (h.keeps entry).isDirectory other t.world hthere
    obtain ⟨answer, hanswer, hyes, -⟩ := h.inspects other t.world
    rw [heq] at hlater hanswer
    rcases List.mem_cons.1 hentry with rfl | hentry
    · cases hanswer
      cases hyes hthere
    · exact ih hentry hlater
  | case4 other rest t fault w heq ih =>
    obtain ⟨answer, hanswer, -⟩ := h.inspects other t.world
    rw [heq] at hanswer
    cases hanswer

/-- Children that are there when a directory is listed are found in it. -/
theorem exists_mem_children_of_there (h : host.OnlyGrows there)
    (hchildren : children host directory t = (.ok found, t')) (hthere : there t.world directory)
    {d : Path} {c : Component} (hd : d.components = directory.components ++ [c])
    (hdthere : there t.world d) : ∃ child ∈ found, child.Same d := by
  obtain ⟨entries, hentries, hlisted⟩ := h.lists directory t.world hthere
  obtain ⟨entry, hentry, hsame⟩ := hlisted d c hd hdthere
  have hlater := (h.keeps entry).entries directory t.world (h.same hsame.symm hdthere)
  rw [children] at hchildren
  rcases hasked : host.entries directory t.world with ⟨_ | listed, w⟩
  all_goals rw [hasked] at hchildren hentries hlater
  · cases hentries
  · cases hentries
    cases hchildren
    exact ⟨entry, Path.mem_sort.2 (mem_directoriesAmong_of_there h hentry hlater), hsame⟩

theorem contains_visit_of_there (h : host.OnlyGrows there)
    (hvisit : visit host directory t = (.ok found, t')) (hthere : there t.world directory) :
    t'.registered.contains directory = true := by
  rcases visit_ok hvisit with ⟨hanswer, -⟩ | ⟨w, t₁, -, hregister, hchildren⟩
  · obtain ⟨answer, hyes, hfound, -⟩ := h.inspects directory t.world
    rw [hanswer] at hyes
    cases hyes
    cases hfound hthere
  · rw [contains_children hregister hchildren, decide_eq_true (Path.Same.refl directory),
      Bool.or_true]

/-- A walk that succeeds has registered whatever it takes of its stack, if that is there. -/
theorem contains_walkFrom_of_there (h : host.OnlyGrows there) {limit : Nat} {t : Trail World}
    (hwalk : walkFrom host start wanted limit stack t = (.ok (), t')) {p : Path} (hp : p ∈ stack)
    (htaken : p.Same start ∨ wanted p = true) (hthere : there t.world p) :
    t'.registered.contains p = true := by
  fun_induction walkFrom host start wanted limit stack t with
  | case1 => cases hp
  | case2 => cases hwalk
  | case3 => cases hwalk
  | case4 limit directory rest t hwanted found t₁ hvisit ih =>
    have hlater := (h.keeps p).visit directory hthere
    rw [hvisit] at hlater
    rcases List.mem_cons.1 hp with rfl | hp
    · have hgrows := grows_walkFrom host start wanted limit (found ++ rest) t₁
      rw [hwalk] at hgrows
      exact hgrows p (contains_visit_of_there h hvisit hthere)
    · exact ih hwalk (List.mem_append_right found hp) hlater
  | case5 limit directory rest t hwanted ih =>
    rcases List.mem_cons.1 hp with rfl | hp
    · exact absurd htaken hwanted
    · exact ih hwalk hp hthere

end Trail

theorem FileSystem.traced_maintains_accepted (host : Host World) (entries : List (Path × World)) :
    host.traced.toFileSystem.Maintains fun t => t.accepted = entries := by
  refine ⟨fun p t ht => ?_, fun p t ht => ?_⟩
  all_goals
    refine (t.accepted_note _ _).trans ?_
    rw [List.append_nil, ht]

/-- Every child that is wanted and was there when a directory was accepted is registered. -/
def Traced.Complete (there : World → Path → Prop) (wanted : Path → Bool)
    (accepted : List (Path × World)) (registered : PathSet) : Prop :=
  ∀ entry ∈ accepted, ∀ d c, d.components = entry.1.components ++ [c] → there entry.2 d →
    wanted d = true → registered.contains d = true

namespace Trail

variable {directory start : Path} {wanted : Path → Bool} {found stack starts : List Path}
  {t t' : Trail (Traced World)}

/-- The directories that the facility accepted in between are those that were added. -/
def Gains (new : List (Path × World)) (t t' : Trail (Traced World)) : Prop :=
  t'.world.accepted = t.world.accepted ++ new ∧ t'.added = t.added ++ new.map Prod.fst

theorem Gains.none (hworld : t'.world.accepted = t.world.accepted) (hadded : t'.added = t.added) :
    Gains [] t t' :=
  ⟨by rw [hworld, List.append_nil], by rw [hadded, List.map_nil, List.append_nil]⟩

theorem Gains.trans {t₁ t₂ t₃ : Trail (Traced World)} {new more : List (Path × World)}
    (h : Gains new t₁ t₂) (k : Gains more t₂ t₃) : Gains (new ++ more) t₁ t₃ :=
  ⟨by rw [k.1, h.1, List.append_assoc],
    by rw [k.2, h.2, List.map_append, List.append_assoc]⟩

theorem gains_children (directory : Path) (t : Trail (Traced World)) :
    Gains [] t (children host.traced directory t).2 :=
  .none ((FileSystem.traced_maintains_accepted host _).children directory rfl)
    (added_children host.traced directory t)

theorem gains_register (h : register host.traced directory t = (.ok (), t')) :
    Gains [] t t' ∨ Gains [(directory, t'.world.world)] t t' := by
  rw [register] at h
  split at h
  · cases h
    exact .inl (.none rfl rfl)
  · rcases hanswer : host.watch directory t.world.world with ⟨_ | _, w⟩
    all_goals
      simp only [Host.traced, hanswer] at h
      cases h
    exact .inr ⟨t.world.accepted_note _ _, rfl⟩

/-- What a directory held when it was accepted is found on the same visit. -/
theorem gains_visit (h : host.OnlyGrows there)
    (hvisit : visit host.traced directory t = (.ok found, t')) :
    ∃ new, Gains new t t' ∧ ∀ entry ∈ new, ∀ d c, d.components = entry.1.components ++ [c] →
      there entry.2 d → ∃ child ∈ found, child.Same d ∧ there t'.world.world child := by
  have hasked := (FileSystem.traced_maintains_accepted host t.world.accepted).isDirectory directory
    t.world rfl
  rcases visit_ok hvisit with ⟨hno, -, -⟩ | ⟨w, t₁, hyes, hregister, hchildren⟩
  · rw [visit] at hvisit
    rcases hanswer : host.traced.isDirectory directory t.world with ⟨answer, w⟩
    rw [hanswer] at hno hasked hvisit
    cases hno
    cases hvisit
    exact ⟨[], .none hasked rfl, by simp⟩
  · rw [hyes] at hasked
    have hfirst : Gains [] t { t with world := w } := .none hasked rfl
    have hlooked : Gains [] t₁ (children host.traced directory t₁).2 := gains_children directory t₁
    rw [hchildren] at hlooked
    obtain hknown | haccepted := gains_register hregister
    · exact ⟨_, (hfirst.trans hknown).trans hlooked, by simp⟩
    · refine ⟨_, (hfirst.trans haccepted).trans hlooked, fun entry hentry d c hd hthere => ?_⟩
      obtain rfl : entry = (directory, t₁.world.world) := by simpa using hentry
      have hdirectory : there w.world directory := by
        obtain ⟨answer, hanswer, -, hstays⟩ := h.traced.inspects directory t.world
        rw [hyes] at hanswer hstays
        cases hanswer
        exact hstays rfl
      have hlater := (h.traced.keeps directory).register directory (t := { t with world := w })
        hdirectory
      rw [hregister] at hlater
      obtain ⟨child, hchild, hsame⟩ :=
        exists_mem_children_of_there h.traced hchildren hlater hd hthere
      have hstays := (h.traced.keeps child).fileSystem.children directory
        (h.same hsame.symm hthere : there t₁.world.world child)
      rw [hchildren] at hstays
      exact ⟨child, hchild, hsame, hstays⟩

theorem complete_walkFrom (h : host.OnlyGrows there)
    (hwanted : ∀ p q, Path.Same p q → wanted p = wanted q) {limit : Nat}
    {t : Trail (Traced World)}
    (hwalk : walkFrom host.traced start wanted limit stack t = (.ok (), t')) :
    ∃ new, Gains new t t' ∧ Traced.Complete there wanted new t'.registered := by
  fun_induction walkFrom host.traced start wanted limit stack t with
  | case1 limit t =>
    cases hwalk
    exact ⟨[], .none rfl rfl, by simp [Traced.Complete]⟩
  | case2 => cases hwalk
  | case3 => cases hwalk
  | case4 limit directory rest t htaken found t₁ hvisit ih =>
    obtain ⟨new, hnew, hfound⟩ := gains_visit h hvisit
    obtain ⟨more, hmore, hcomplete⟩ := ih hwalk
    refine ⟨new ++ more, hnew.trans hmore, fun entry hentry d c hd hthere hneeds => ?_⟩
    rcases List.mem_append.1 hentry with hentry | hentry
    · obtain ⟨child, hchild, hsame, hstays⟩ := hfound entry hentry d c hd hthere
      rw [← PathSet.contains_congr _ hsame]
      exact contains_walkFrom_of_there h.traced hwalk (List.mem_append_left rest hchild)
        (.inr (hwanted child d hsame ▸ hneeds)) hstays
    · exact hcomplete entry hentry d c hd hthere hneeds
  | case5 limit directory rest t htaken ih => exact ih hwalk

theorem complete_walkAll (h : host.OnlyGrows there)
    (hwanted : ∀ p q, Path.Same p q → wanted p = wanted q) {t : Trail (Traced World)}
    (hwalk : walkAll host.traced wanted starts t = (.ok (), t')) :
    ∃ new, Gains new t t' ∧ Traced.Complete there wanted new t'.registered := by
  fun_induction walkAll host.traced wanted starts t with
  | case1 t =>
    cases hwalk
    exact ⟨[], .none rfl rfl, by simp [Traced.Complete]⟩
  | case2 => cases hwalk
  | case3 start rest t t₁ hfirst ih =>
    rw [walk] at hfirst
    obtain ⟨new, hnew, hcomplete⟩ := complete_walkFrom h hwanted hfirst
    obtain ⟨more, hmore, hlater⟩ := ih hwalk
    refine ⟨new ++ more, hnew.trans hmore, fun entry hentry d c hd hthere hneeds => ?_⟩
    rcases List.mem_append.1 hentry with hentry | hentry
    · have hgrows := grows_walkAll host.traced wanted rest t₁
      rw [hwalk] at hgrows
      exact hgrows d (hcomplete entry hentry d c hd hthere hneeds)
    · exact hlater entry hentry d c hd hthere hneeds

end Trail

/-- Directories that others made so far, and those that they are about to make. -/
structure Busy where
  made : List { p : Path // p.IsPlain }
  coming : List (List { p : Path // p.IsPlain })

namespace Busy

def edits (b : Busy) : List Listing.Edit := b.made.map fun p => .directory p.1

def listing (b : Busy) : Listing := .build b.edits

def advance (b : Busy) : Busy :=
  match b.coming with
  | [] => b
  | next :: later => ⟨b.made ++ next, later⟩

def system : Host Busy where
  isDirectory p b := (b.advance.listing.isDirectory p, b.advance)
  entries p b := (b.advance.listing.entriesOf p, b.advance)
  watch _ b := (.ok (), b.advance)
  workingDirectory := .ofString "/"
  walkLimit b :=
    (b.made ++ b.coming.flatten).foldl (fun count p => count + p.1.components.length) 1

def There (b : Busy) (d : Path) : Prop := b.listing.isDirectory d = .ok true

theorem consistent (b : Busy) : Listing.Consistent b.edits := by
  refine ⟨fun e he => ?_, by simp [edits], by simp [edits]⟩
  obtain ⟨p, -, rfl⟩ := List.mem_map.1 he
  exact p.2

theorem There.advance {b : Busy} {d : Path} (h : b.There d) : b.advance.There d := by
  have hlater := b.advance.consistent
  rw [There, listing]
  rw [Busy.advance] at hlater ⊢
  split at hlater
  · exact h
  · rw [edits, List.map_append] at hlater ⊢
    exact hlater.isDirectory_append h

theorem onlyGrows : system.OnlyGrows There where
  keeps _ := ⟨fun _ _ => There.advance, fun _ _ => There.advance, fun _ _ => There.advance⟩
  same hsame h := (Listing.isDirectory_congr hsame).1 h
  inspects p b := by
    have hanswer : b.advance.listing.isDirectory p = _ :=
      Listing.isDirectory_of_granted (Listing.denied_build b.advance.consistent.granted) p
    refine ⟨_, hanswer, fun h => ?_, fun h => ?_⟩
    · have hlater : b.advance.listing.isDirectory p = .ok true := h.advance
      rw [hanswer] at hlater
      exact Except.ok.inj hlater
    · exact hanswer.trans (congrArg Except.ok h)
  lists p b h := by
    obtain ⟨children, hfound, hentries⟩ := Listing.entriesOf_of_isDirectory h.advance
    refine ⟨_, hentries, fun d c hd hthere => ?_⟩
    have hlinked : b.advance.listing.Linked ∅ := Listing.linked_build b.advance.consistent.plain
    have hprefix : p.components ++ [c] <+: d.components := hd ▸ List.prefix_refl d.components
    obtain ⟨name, hname, rfl⟩ := hlinked.exists_child hfound hthere.advance hprefix
    exact ⟨p.join ⟨name⟩, List.mem_map_of_mem hname,
      (hlinked.components_join hfound hname).trans hd.symm⟩

/-- `/w/a` is made right before `/w` is handed over, `/w/b` right before it is listed, and `/w/c`
right after that. -/
def making : Busy where
  made := [⟨.ofString "/w", by decide +kernel⟩]
  coming := [[], [], [⟨.ofString "/w/a", by decide +kernel⟩],
    [⟨.ofString "/w/b", by decide +kernel⟩], [⟨.ofString "/w/c", by decide +kernel⟩]]

end Busy

namespace Session

/-- While others make directories, a request that is registered or watched successfully leaves no
child of a new directory behind that was there when the facility accepted that directory and needs
a watch. -/
theorem contains_child_of_there (h : host.OnlyGrows there) {s : Session} {request : Request}
    {w : World} {done : Registration} (hok : (s.register host request w).result = .ok done) :
    let beside := s.register host.traced request (.start w)
    (s.register host request w).session = beside.session ∧ beside.result = .ok done ∧
      s.watch host.traced request (.start w) =
        ⟨.ok done.directories, beside.session, beside.notices, beside.world⟩ ∧
      beside.world.accepted.map Prod.fst = done.directories ∧
      Traced.Complete there done.update.needsWatch beside.world.accepted
        beside.session.registered := by
  intro beside
  have hseen : s.register host request w = beside.seen Traced.world :=
    host.traced_mirrors.sessionRegister s request (.start w)
  have hresult : beside.result = .ok done := by
    rw [hseen] at hok
    exact hok
  obtain ⟨absolute, nearest, t₁, t, hregisters⟩ := registers_of_ok hresult
  obtain ⟨new, ⟨haccepted, hadded⟩, hcomplete⟩ := Trail.complete_walkAll h
    (fun _ _ => done.update.needsWatch_congr) hregisters.walk_eq
  have hasked := (FileSystem.traced_maintains_accepted host []).registryRegister s.policy s.registry
    request (w := .start w) rfl
  rw [hregisters.register_eq] at hasked
  refine ⟨by rw [hseen]; rfl, hresult, ?_, ?_, ?_⟩
  · simp only [watch, beside] at hresult ⊢
    rw [hresult]
    rfl
  · rw [hregisters.world_eq, haccepted, hregisters.directories_eq, hadded]
    change (t₁.accepted ++ new).map Prod.fst = [] ++ new.map Prod.fst
    rw [hasked, List.nil_append, List.nil_append]
  · rw [hregisters.world_eq, haccepted, hregisters.registered_eq]
    change Traced.Complete there done.update.needsWatch (t₁.accepted ++ new) t.registered
    rwa [hasked]

def makingRequest : Request := .ofRoots [Path.ofString "/w"]

def makingStep : Step Busy Registration :=
  (start .collapse).register Busy.system makingRequest Busy.making

/-- `/w/c` came too late to be found; `/w` was watched by then. -/
theorem contains_child_of_there_making :
    makingStep.world.There (Path.ofString "/w/c") ∧ ∃ done, makingStep.result = .ok done ∧
      done.directories = ["/w", "/w/a", "/w/b"].map Path.ofString ∧
      let beside := (start .collapse).register Busy.system.traced makingRequest (.start Busy.making)
      makingStep.session = beside.session ∧ beside.result = .ok done ∧
        (start .collapse).watch Busy.system.traced makingRequest (.start Busy.making) =
          ⟨.ok done.directories, beside.session, beside.notices, beside.world⟩ ∧
        beside.world.accepted.map Prod.fst = done.directories ∧
        Traced.Complete Busy.There done.update.needsWatch beside.world.accepted
          beside.session.registered := by
  have hlate : makingStep.world.listing.isDirectory (Path.ofString "/w/c") = .ok true := by cbv
  have hdirectories : makingStep.result.map Registration.directories =
      .ok (["/w", "/w/a", "/w/b"].map Path.ofString) := by cbv
  cases hok : makingStep.result with
  | error e =>
    rw [hok] at hdirectories
    cases hdirectories
  | ok done =>
    rw [hok] at hdirectories
    exact ⟨hlate, done, rfl, Except.ok.inj hdirectories,
      contains_child_of_there Busy.onlyGrows hok⟩

end Session

end DirectoryWatch
