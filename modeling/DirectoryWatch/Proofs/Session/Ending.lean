import DirectoryWatch.Proofs.FileSystem.Decided
import DirectoryWatch.Proofs.Session.Reach
import Mathlib

/-!
# Walks that end

On a listing that does not change, what is still to be taken up carries a weight: the number of
entries at or below it. Taking up a directory loses its own entry, and its children share the rest,
so a walk has come to its end before it has taken up more paths than there are entries.
-/
namespace DirectoryWatch

namespace Listing

variable {l : Listing} {p : Path} {place : List Component}

/-- The number of entries at or below a place. -/
def weight (l : Listing) (place : List Component) : Nat :=
  l.entries.countP fun e => place.isPrefixOf e.1

theorem weight_le (l : Listing) (place : List Component) : l.weight place ≤ l.entries.length :=
  List.countP_le_length

theorem countP_entries_pos (h : (l.at? place).isSome = true) :
    0 < l.entries.countP fun e => e.1 == place := by
  rw [at?] at h
  obtain ⟨entry, hentry⟩ := Option.isSome_iff_exists.1 h
  obtain ⟨first, rest, hentries, -⟩ := List.lookup_eq_some_iff.1 hentry
  exact List.countP_pos_iff.2 ⟨(place, entry), by simp [hentries], by simp⟩

theorem weight_pos (h : (l.at? place).isSome = true) : 0 < l.weight place := by
  refine (countP_entries_pos h).trans_le (List.countP_mono_left fun e _ he => ?_)
  rw [eq_of_beq he]
  exact List.isPrefixOf_iff_prefix.2 (List.prefix_refl place)

theorem countP_child_le {children : List Component} (hchildren : children.Nodup)
    (place other : List Component) :
    (children.countP fun c => (place ++ [c]).isPrefixOf other) + (if other == place then 1 else 0) ≤
      if place.isPrefixOf other then 1 else 0 := by
  by_cases hprefix : place <+: other
  · rw [if_pos (List.isPrefixOf_iff_prefix.2 hprefix)]
    obtain ⟨more, rfl⟩ := hprefix
    cases more with
    | nil =>
      have hself (c : Component) : ¬place ++ [c] <+: place := fun h => by
        have hle := h.length_le
        rw [List.length_append, List.length_singleton] at hle
        omega
      simp [hself]
    | cons first more =>
      have hcount : (children.countP fun c => (place ++ [c]).isPrefixOf (place ++ first :: more)) ≤
          children.count first := by
        refine List.countP_mono_left fun c _ hc => ?_
        rw [List.isPrefixOf_iff_prefix, List.prefix_append_right_inj] at hc
        simpa using (List.cons_prefix_cons.1 hc).1
      have hone := List.nodup_iff_count_le_one.1 hchildren first
      simpa using hcount.trans hone
  · have hchild (c : Component) : ¬place ++ [c] <+: other :=
      fun h => hprefix ((List.prefix_append place [c]).trans h)
    have hne : other ≠ place := fun heq => hprefix (heq ▸ List.prefix_refl other)
    simp [hchild, hne, hprefix]

theorem sum_map_ite {α : Type} (p : α → Bool) (xs : List α) :
    (xs.map fun x => if p x then 1 else 0).sum = xs.countP p := by
  induction xs with
  | nil => rfl
  | cons x rest ih => rw [List.map_cons, List.sum_cons, ih, List.countP_cons, Nat.add_comm]

theorem weight_children {children : List Component} (hchildren : children.Nodup)
    (h : (l.at? place).isSome = true) :
    (children.map fun c => l.weight (place ++ [c])).sum < l.weight place := by
  have hsum (entries : List (List Component × Entry)) :
      (children.map fun c => entries.countP fun e => (place ++ [c]).isPrefixOf e.1).sum +
          (entries.countP fun e => e.1 == place) ≤
        entries.countP fun e => place.isPrefixOf e.1 := by
    induction entries with
    | nil => simp
    | cons e rest ih =>
      have hfirst := countP_child_le hchildren place e.1
      simp only [List.countP_cons, List.sum_map_add, sum_map_ite]
      omega
  have hown := countP_entries_pos h
  have hall := hsum l.entries
  simp only [weight]
  omega

def stackWeight (l : Listing) (stack : List Path) : Nat :=
  (stack.map fun p => l.weight p.components).sum

theorem stackWeight_append (l : Listing) (xs ys : List Path) :
    l.stackWeight (xs ++ ys) = l.stackWeight xs + l.stackWeight ys := by
  simp [stackWeight]

/-- The directories in a directory weigh less than it does. -/
theorem Linked.stackWeight_lt (h : Linked ∅ l) (hp : l.isDirectory p = .ok true)
    {entries : List Path} (hentries : l.entriesOf p = .ok entries) :
    l.stackWeight (l.directoriesAmong entries) < l.weight p.components := by
  obtain ⟨names, hfound, rfl⟩ := exists_names hp hentries
  have hnodup : (names.map Component.name).Nodup :=
    (h.nodup _ names hfound).map fun a b hab => Component.name.inj hab
  have hweights : (names.map fun name => p.join ⟨name⟩).map (fun q => l.weight q.components) =
      (names.map Component.name).map fun c => l.weight (p.components ++ [c]) := by
    rw [List.map_map, List.map_map]
    refine List.map_congr_left fun name hname => ?_
    simp only [Function.comp_apply, h.components_join hfound hname]
  have hthere : (l.at? p.components).isSome = true := isSome_of_isDirectory hp
  calc l.stackWeight (l.directoriesAmong _)
      = l.stackWeight ((names.map fun name => p.join ⟨name⟩).filter _) :=
        ((List.mergeSort_perm _ _).map _).sum_eq
    _ ≤ l.stackWeight (names.map fun name => p.join ⟨name⟩) :=
        (List.filter_sublist.map _).sum_le_sum (by simp)
    _ = ((names.map Component.name).map fun c => l.weight (p.components ++ [c])).sum :=
        congrArg List.sum hweights
    _ < l.weight p.components := weight_children hnodup hthere

end Listing

namespace Trail

variable {World : Type} {host : Host World} {l : Listing} {now : World → Prop} {start : Path}
  {wanted : Path → Bool}

theorem exists_visit_ok (h : host.Serves l now) (hgranted : l.denied = []) (directory : Path)
    {t : Trail World} (ht : now t.world) :
    ∃ found t', visit host directory t = (.ok found, t') := by
  have hlisting := h.isDirectory_eq directory t.world ht
  have hw := h.isDirectory directory t.world ht
  rw [visit]
  rcases hasked : host.isDirectory directory t.world with ⟨fault | _ | _, w⟩
  all_goals rw [hasked] at hlisting hw
  · rw [Listing.isDirectory_of_granted hgranted] at hlisting
    cases hlisting
  · exact ⟨[], _, rfl⟩
  · obtain ⟨t₁, hregister⟩ :=
      exists_register_ok (t := { t with world := w }) (h.watch_eq directory w hw)
    have ht₁ := h.register directory (t := { t with world := w }) hw
    rw [hregister] at ht₁
    obtain ⟨names, -, hlisted⟩ := Listing.entriesOf_of_isDirectory hlisting.symm
    have hentries := h.entries_eq directory t₁.world ht₁
    rw [hlisted] at hentries
    simp only [hregister, children]
    rcases hlooked : host.entries directory t₁.world with ⟨fault | entries, w'⟩
    all_goals rw [hlooked] at hentries
    · cases hentries
    · exact ⟨_, _, rfl⟩

section

variable {directory : Path} {found : List Path} {t t' : Trail World}

theorem isDirectory_of_mem_found (h : host.Shows l now) (ht : now t.world)
    (hvisit : visit host directory t = (.ok found, t')) :
    ∀ p ∈ found, l.isDirectory p = .ok true := by
  intro p hp
  rcases visit_shows h ht hvisit with ⟨-, rfl, -⟩ | ⟨-, -, entries, -, rfl⟩
  · cases hp
  · exact (Listing.mem_directoriesAmong.1 hp).2

/-- A visit finds nothing, or directories that weigh less than the one it was made to. -/
theorem stackWeight_found (h : host.Shows l now) (hlinked : l.Linked ∅) (ht : now t.world)
    (hvisit : visit host directory t = (.ok found, t')) :
    found = [] ∨ l.stackWeight found < l.weight directory.components := by
  rcases visit_shows h ht hvisit with ⟨-, hfound, -⟩ | ⟨hyes, -, entries, hentries, rfl⟩
  · exact .inl hfound
  · exact .inr (hlinked.stackWeight_lt hyes hentries)

theorem stackWeight_visit (h : host.Shows l now) (hlinked : l.Linked ∅) (ht : now t.world)
    (hthere : (l.find? directory).isSome = true)
    (hvisit : visit host directory t = (.ok found, t')) :
    (∀ p ∈ found, (l.find? p).isSome = true) ∧
      l.stackWeight found < l.weight directory.components := by
  constructor
  · intro p hp
    exact Listing.isSome_of_isDirectory (isDirectory_of_mem_found h ht hvisit p hp)
  · rcases stackWeight_found h hlinked ht hvisit with rfl | hless
    · exact Listing.weight_pos hthere
    · exact hless

end

/-- Where nothing is denied or refused, a walk succeeds, if it may take up as many paths as there
are entries at or below those on its stack. -/
theorem exists_walkFrom_ok (h : host.Serves l now) (hlinked : l.Linked ∅)
    (hgranted : l.denied = []) (start : Path) (wanted : Path → Bool) {limit : Nat}
    {stack : List Path} {t : Trail World} (ht : now t.world)
    (hstack : ∀ p ∈ stack, (l.find? p).isSome = true) (hlimit : l.stackWeight stack ≤ limit) :
    ∃ t', walkFrom host start wanted limit stack t = (.ok (), t') := by
  have hpop {p : Path} {rest : List Path} (found : List Path)
      (hfound : l.stackWeight found < l.weight p.components) {limit : Nat}
      (hle : l.stackWeight (p :: rest) ≤ limit + 1) : l.stackWeight (found ++ rest) ≤ limit := by
    rw [Listing.stackWeight_append]
    rw [Listing.stackWeight, List.map_cons, List.sum_cons, ← Listing.stackWeight] at hle
    omega
  fun_induction walkFrom host start wanted limit stack t with
  | case1 limit t => exact ⟨t, rfl⟩
  | case2 directory rest t =>
    have hpos := Listing.weight_pos (hstack directory (by simp))
    rw [Listing.stackWeight, List.map_cons, List.sum_cons] at hlimit
    omega
  | case3 limit directory rest t htaken e t' hvisit =>
    obtain ⟨found, t₁, hok⟩ := exists_visit_ok h hgranted directory ht
    rw [hok] at hvisit
    cases hvisit
  | case4 limit directory rest t htaken found t₁ hvisit ih =>
    have ht₁ := h.visit directory ht
    rw [hvisit] at ht₁
    have hthere := hstack directory (by simp)
    obtain ⟨hfound, hless⟩ := stackWeight_visit h.shows hlinked ht hthere hvisit
    refine ih ht₁ (fun p hp => ?_) (hpop found hless hlimit)
    rcases List.mem_append.1 hp with hp | hp
    · exact hfound p hp
    · exact hstack p (List.mem_cons_of_mem directory hp)
  | case5 limit directory rest t htaken ih =>
    have hthere := hstack directory (by simp)
    exact ih ht (fun p hp => hstack p (List.mem_cons_of_mem directory hp))
      (hpop [] (Listing.weight_pos hthere) hlimit)

end Trail

end DirectoryWatch
