import DirectoryWatch.Proofs.Path.Components
import DirectoryWatch.Proofs.Session.Limits
import Mathlib

/-!
# Directories that vanish

Others may remove directories between any two calls of the file system and of the facility: after a
root was resolved, between being listed and being visited, between being handed over and being
listed. A walk passes over what is gone, so no call fails for that.
-/
namespace DirectoryWatch

variable {World : Type} {host : Host World} {there : World → Path → Prop}

/-- Directories are only lost, and no more than finitely many are there. No inspection fails, and a
listing fails only when the directory is gone; it names only children. Nothing is refused. -/
structure Host.OnlyLoses (host : Host World) (there : World → Path → Prop) : Prop where
  keeps : ∀ d, host.Maintains fun w => ¬there w d
  finite : ∀ w, (Path.components '' {p | there w p}).Finite
  inspects : ∀ p w, ∃ answer w', host.isDirectory p w = (.ok answer, w') ∧
    (answer = true → there w p) ∧ (there w' p → answer = true)
  lists : ∀ p w,
    (∃ entries w', host.entries p w = (.ok entries, w') ∧
      ∀ entry ∈ entries, ∃ c, entry.components = p.components ++ [c]) ∨
    ∃ fault w', host.entries p w = (.error fault, w') ∧ ¬there w' p
  accepts : ∀ p w, (host.watch p w).1 = .ok ()

def Shallow (there : World → Path → Prop) (depth : Nat) (w : World) : Prop :=
  ∀ p, there w p → p.components.length ≤ depth

namespace Host.OnlyLoses

theorem maintains_shallow (h : host.OnlyLoses there) (depth : Nat) :
    host.Maintains (Shallow there depth) := by
  have hback {w w' : World} (hlost : ∀ d, ¬there w d → ¬there w' d)
      (hw : Shallow there depth w) : Shallow there depth w' :=
    fun p hp => hw p (not_imp_not.1 (hlost p) hp)
  exact ⟨fun p w => hback fun d => (h.keeps d).isDirectory p w,
    fun p w => hback fun d => (h.keeps d).entries p w,
    fun p w => hback fun d => (h.keeps d).watch p w⟩

theorem exists_shallow (h : host.OnlyLoses there) (w : World) :
    ∃ depth, Shallow there depth w := by
  obtain ⟨depth, hdepth⟩ := ((h.finite w).image List.length).bddAbove
  exact ⟨depth, fun p hp => hdepth ⟨_, ⟨p, hp, rfl⟩, rfl⟩⟩

/-- A directory found gone while a root is resolved only makes the search go on above it. -/
theorem exists_nearest (h : host.OnlyLoses there) (root : Path) (w : World) :
    ∃ p w', host.nearest root w = (.ok p, w') := by
  rw [FileSystem.nearest]
  fun_induction FileSystem.firstDirectory host.toFileSystem root root.ancestors w with
  | case1 w => exact ⟨root, w, rfl⟩
  | case2 p w => exact ⟨p, w, rfl⟩
  | case3 p rest w hrest fault w' heq =>
    obtain ⟨answer, w'', hanswer, -⟩ := h.inspects p w
    rw [hanswer] at heq
    cases heq
  | case4 p rest w hrest w' heq => exact ⟨p, w', rfl⟩
  | case5 p rest w hrest w' heq ih => exact ih

theorem exists_nearestAll (h : host.OnlyLoses there) (roots : List Path) (w : World) :
    ∃ nearest w', host.nearestAll roots w = (.ok nearest, w') := by
  induction roots generalizing w with
  | nil => exact ⟨[], w, rfl⟩
  | cons root rest ih =>
    obtain ⟨p, w₁, hfirst⟩ := h.exists_nearest root w
    obtain ⟨ps, w₂, hrest⟩ := ih w₁
    exact ⟨p :: ps, w₂, by rw [FileSystem.nearestAll, hfirst]; simp only [hrest]⟩

theorem children (h : host.OnlyLoses there) (directory : Path) (t : Trail World) :
    ∃ found t', Trail.children host directory t = (.ok found, t') ∧
      ∀ child ∈ found, ∃ c, child.components = directory.components ++ [c] := by
  rw [Trail.children]
  rcases h.lists directory t.world with ⟨entries, w, hentries, hbelow⟩ | ⟨fault, w, hfault, hgone⟩
  · rw [hentries]
    refine ⟨_, _, rfl, fun child hchild => hbelow child ?_⟩
    exact Trail.mem_of_mem_directoriesAmong (Path.mem_sort.1 hchild)
  · obtain ⟨answer, w', hanswer, hthere, -⟩ := h.inspects directory w
    obtain rfl : answer = false := Bool.eq_false_iff.2 fun hyes => hgone (hthere hyes)
    rw [hfault]
    simp only [hanswer]
    exact ⟨[], _, rfl, by simp⟩

theorem visit (h : host.OnlyLoses there) (directory : Path) (t : Trail World) :
    ∃ found t', Trail.visit host directory t = (.ok found, t') ∧ ∀ child ∈ found,
      there t.world directory ∧ ∃ c, child.components = directory.components ++ [c] := by
  rw [Trail.visit]
  obtain ⟨answer, w, hanswer, hthere, -⟩ := h.inspects directory t.world
  rw [hanswer]
  cases answer with
  | false => exact ⟨[], _, rfl, by simp⟩
  | true =>
    obtain ⟨t₁, hregister⟩ :=
      Trail.exists_register_ok (t := { t with world := w }) (h.accepts directory w)
    obtain ⟨found, t₂, hchildren, hfound⟩ := h.children directory t₁
    simp only [hregister]
    exact ⟨found, t₂, hchildren, fun child hchild => ⟨hthere rfl, hfound child hchild⟩⟩

/-- The walk at a path comes to an end: what it finds in a directory lies deeper, and where no
directory is, it finds nothing. -/
theorem exists_finishes (h : host.OnlyLoses there) {depth : Nat} (start : Path)
    (wanted : Path → Bool) (p : Path) {t : Trail World} (ht : Shallow there depth t.world) :
    ∃ t', Trail.Finishes host start wanted [p] t t' ∧ Shallow there depth t'.world := by
  -- On the room that is left below the path. A listing may name a child twice, so there is nothing
  -- to count but depth.
  induction hroom : depth + 1 - p.components.length using Nat.strong_induction_on
    generalizing p t with
  | _ room ih =>
    by_cases htaken : p.Same start ∨ wanted p = true
    · obtain ⟨found, t₁, hvisit, hfound⟩ := h.visit p t
      have ht₁ := (h.maintains_shallow depth).visit p ht
      rw [hvisit] at ht₁
      have hchildren : ∀ child ∈ found, ∀ t : Trail World, Shallow there depth t.world →
          ∃ t', Trail.Finishes host start wanted [child] t t' ∧ Shallow there depth t'.world := by
        intro child hchild t₂ ht₂
        obtain ⟨hthere, c, hc⟩ := hfound child hchild
        have hdepth := ht p hthere
        refine ih (depth + 1 - child.components.length) ?_ child ht₂ rfl
        rw [hc, List.length_append, List.length_singleton]
        omega
      obtain ⟨t₂, hfinishes, ht₂⟩ := Trail.exists_finishes_stack hchildren ht₁
      exact ⟨t₂, .visit htaken hvisit hfinishes, ht₂⟩
    · exact ⟨t, .skip htaken, ht⟩

theorem walkAll (h : host.OnlyLoses there) {depth : Nat} (wanted : Path → Bool)
    (starts : List Path) {t : Trail World} (ht : Shallow there depth t.world) :
    ∃ enough t', ∀ limit : World → Nat, (∀ w, enough ≤ limit w) →
      Trail.walkAll (host.limited limit) wanted starts t = (.ok (), t') := by
  induction starts generalizing t with
  | nil => exact ⟨0, t, fun limit _ => rfl⟩
  | cons start rest ih =>
    obtain ⟨t₁, hfinishes, ht₁⟩ := h.exists_finishes start wanted start ht
    obtain ⟨first, hfirst⟩ := hfinishes.walk
    obtain ⟨later, t₂, hlater⟩ := ih ht₁
    refine ⟨max first later, t₂, fun limit hlimit => ?_⟩
    rw [Trail.walkAll, hfirst limit fun w => (le_max_left first later).trans (hlimit w)]
    exact hlater limit fun w => (le_max_right first later).trans (hlimit w)

end Host.OnlyLoses

namespace Session

theorem exists_errand (h : host.OnlyLoses there) (s : Session) (w : World) (c : Call)
    (habsolute : ∀ request ∈ c.request?, ∃ absolute,
      request.absolute host.workingDirectory = .ok absolute) :
    ∃ errand w₁, s.errand host.toFileSystem w c = (.ok errand, w₁) := by
  have hrequest (tell : Update → Option Update) {request : Request}
      (h' : request ∈ c.request?) :
      ∃ errand w₁, s.requestErrand host.toFileSystem tell request w = (.ok errand, w₁) := by
    obtain ⟨absolute, habsolute⟩ := habsolute request h'
    obtain ⟨nearest, w₁, hnearest⟩ := h.exists_nearestAll absolute.roots w
    rw [requestErrand, Registry.register, habsolute]
    simp only [hnearest]
    exact ⟨_, _, rfl⟩
  cases c with
  | register request => exact hrequest some rfl
  | watch request => exact hrequest (fun _ => none) rfl
  | created directory => exact ⟨_, _, rfl⟩

/-- Whenever directories vanish while a call is running, the call succeeds, if the roots of its
request can be made absolute and its walks may take up as many directories as they find. -/
theorem call_ok_of_onlyLoses (h : host.OnlyLoses there) (s : Session) (w : World) (c : Call)
    (habsolute : ∀ request ∈ c.request?, ∃ absolute,
      request.absolute host.workingDirectory = .ok absolute) :
    ∃ enough outcome, ∀ limit : World → Nat, (∀ w, enough ≤ limit w) →
      (s.call (host.limited limit) w c).result = .ok outcome := by
  obtain ⟨errand, w₁, herrand⟩ := exists_errand h s w c habsolute
  obtain ⟨depth, hdepth⟩ := h.exists_shallow w₁
  obtain ⟨enough, t, hwalks⟩ :=
    h.walkAll errand.wanted errand.starts (t := s.trail w₁) hdepth
  refine ⟨enough, ⟨errand.update?, t.added⟩, fun limit hlimit => ?_⟩
  have hbare := bare_call (host.limited limit) s w c
  rw [errand_limited, herrand] at hbare
  simp only [hwalks limit hlimit] at hbare
  exact (Step.bare_eq_iff.1 hbare).1

end Session

def isAlive (moments : List (Path × Nat)) (clock : Nat) (p : Path) : Bool :=
  moments.any fun moment => decide (moment.1.Same p) && decide (clock < moment.2)

def fadingNames : List Bytes := ["a", "b"].map Bytes.ofString

/-- The clock moves on with each call. Whatever is there lists the same names, whether they are
there or not. -/
def fading (moments : List (Path × Nat)) : Host Nat where
  isDirectory p clock := (.ok (isAlive moments clock p), clock + 1)
  entries p clock :=
    (if isAlive moments clock p then .ok (fadingNames.map fun name => p.join ⟨name⟩)
      else .error (.ofText "gone"), clock + 1)
  watch _ clock := (.ok (), clock + 1)
  workingDirectory := .ofString "/"
  walkLimit _ := 0

theorem onlyLoses_fading (moments : List (Path × Nat)) :
    (fading moments).OnlyLoses fun clock p => isAlive moments clock p = true := by
  have halive {clock : Nat} {p : Path} : isAlive moments clock p = true ↔
      ∃ moment ∈ moments, moment.1.Same p ∧ clock < moment.2 := by
    simp [isAlive]
  have hpast {clock : Nat} {p : Path} (h : isAlive moments (clock + 1) p = true) :
      isAlive moments clock p = true := by
    obtain ⟨moment, hmem, hsame, hlater⟩ := halive.1 h
    exact halive.2 ⟨moment, hmem, hsame, Nat.lt_of_succ_lt hlater⟩
  refine ⟨fun d => ⟨fun _ _ => mt hpast, fun _ _ => mt hpast, fun _ _ => mt hpast⟩, ?_, ?_, ?_, ?_⟩
  · intro clock
    refine (moments.map fun moment => moment.1.components).finite_toSet.subset ?_
    rintro place ⟨p, hp, rfl⟩
    obtain ⟨moment, hmem, hsame, -⟩ := halive.1 hp
    exact List.mem_map.2 ⟨moment, hmem, hsame⟩
  · exact fun p clock => ⟨_, _, rfl, id, hpast⟩
  · intro p clock
    by_cases h : isAlive moments clock p = true
    · refine .inl ⟨_, _, congrArg (·, clock + 1) (if_pos h), fun entry hentry => ?_⟩
      obtain ⟨name, hname, rfl⟩ := List.mem_map.1 hentry
      have hnames : ∀ name ∈ fadingNames,
          slash ∉ name ∧ Component.ofSegment? name = some (.name name) := by decide +kernel
      exact ⟨_, Path.components_join_name p (hnames name hname)⟩
    · exact .inr ⟨_, _, congrArg (·, clock + 1) (if_neg h), mt hpast h⟩
  · exact fun p clock => rfl

namespace Session

/-- While `/x` is walked, `/x/a` vanishes before it is visited and `/x/b` before it is listed. -/
def fadingBelow : Host Nat :=
  fading [(Path.ofString "/x", 100), (Path.ofString "/x/a", 6), (Path.ofString "/x/b", 9)]

theorem call_ok_of_onlyLoses_fading :
    let asked := Call.register (.ofRoots [Path.ofString "/x"])
    (∃ enough outcome, ∀ limit : Nat → Nat, (∀ clock, enough ≤ limit clock) →
        ((start .collapse).call (fadingBelow.limited limit) 0 asked).result = .ok outcome) ∧
      (((start .collapse).call (fadingBelow.limited fun _ => 3) 0 asked).result.map
          fun outcome => outcome.directories.map Path.display) = .ok ["/x", "/x/b"] := by
  refine ⟨call_ok_of_onlyLoses (onlyLoses_fading _) (start .collapse) 0 _ ?_, by cbv⟩
  intro request hrequest
  cases hrequest
  exact ⟨_, rfl⟩

end Session

end DirectoryWatch
