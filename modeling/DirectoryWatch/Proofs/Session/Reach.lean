import DirectoryWatch.Proofs.FileSystem.Children
import DirectoryWatch.Proofs.Session.Walk
import DirectoryWatch.Proofs.Session.World
import DirectoryWatch.Session.Recording

/-!
# What walks reach

On a file system that always answers as a listing does, a walk that succeeds has registered the
directories to which a chain of directories leads down from its start, each of them wanted.
-/
namespace DirectoryWatch

variable {World : Type}

/-- As long as `now` holds, and it holds on, the host answers as the listing does. -/
structure Host.Shows (host : Host World) (l : Listing) (now : World → Prop) : Prop
    extends host.Maintains now where
  isDirectory_eq : ∀ p w, now w → (host.isDirectory p w).1 = l.isDirectory p
  entries_eq : ∀ p w, now w → (host.entries p w).1 = l.entriesOf p

/-- As long as `now` holds, and it holds on, the host answers as the listing does and refuses no
directory. -/
structure Host.Serves (host : Host World) (l : Listing) (now : World → Prop) : Prop
    extends host.Maintains now where
  isDirectory_eq : ∀ p w, now w → (host.isDirectory p w).1 = l.isDirectory p
  entries_eq : ∀ p w, now w → (host.entries p w).1 = l.entriesOf p
  watch_eq : ∀ p w, now w → (host.watch p w).1 = .ok ()

theorem Host.Serves.shows {host : Host World} {l : Listing} {now : World → Prop}
    (h : host.Serves l now) : host.Shows l now :=
  ⟨h.toMaintains, h.isDirectory_eq, h.entries_eq⟩

theorem Recorder.serves (l : Listing) (workingDirectory : Path) :
    (Recorder.host (Listing.fileSystem workingDirectory)).Serves l
      fun r => r.world = l ∧ r.refusing = none where
  isDirectory _ _ h := h
  entries _ _ h := h
  watch p r h := by
    have hrefuses : r.refuses p = false := by simp [Recorder.refuses, h.2]
    simp [Recorder.host, Recorder.watch, hrefuses, h]
  isDirectory_eq p r h := by rw [← h.1]; rfl
  entries_eq p r h := by rw [← h.1]; rfl
  watch_eq p r h := by
    have hrefuses : r.refuses p = false := by simp [Recorder.refuses, h.2]
    simp [Recorder.host, Recorder.watch, hrefuses]

namespace Listing

variable {l : Listing} {start p d : Path} {wanted : Path → Bool} {entries : List Path}

def directoriesAmong (l : Listing) (entries : List Path) : List Path :=
  Path.sort (entries.filter fun p => l.isDirectory p matches .ok true)

theorem mem_directoriesAmong :
    p ∈ l.directoriesAmong entries ↔ p ∈ entries ∧ l.isDirectory p = .ok true := by
  rw [directoriesAmong, Path.mem_sort, List.mem_filter]
  refine and_congr_right fun _ => ?_
  split <;> simp_all

/-- From `p` down to `d` there are only directories, and a walk from `start` takes all of them. -/
def Leads (l : Listing) (start : Path) (wanted : Path → Bool) (p d : Path) : Prop :=
  d.atOrBelow p = true ∧ ∀ e, d.atOrBelow e = true → e.atOrBelow p = true →
    l.isDirectory e = .ok true ∧ (e.Same start ∨ wanted e = true)

theorem Leads.isDirectory (h : l.Leads start wanted p d) : l.isDirectory p = .ok true :=
  (h.2 p h.1 (Path.atOrBelow_refl p)).1

theorem Leads.taken (h : l.Leads start wanted p d) : p.Same start ∨ wanted p = true :=
  (h.2 p h.1 (Path.atOrBelow_refl p)).2

/-- What a directory leads to is the directory or what its entries lead to. -/
theorem Linked.leads_iff (h : Linked ∅ l) (hp : l.isDirectory p = .ok true)
    (hentries : l.entriesOf p = .ok entries)
    (hwanted : ∀ e e', Path.Same e e' → wanted e = wanted e') :
    l.Leads start wanted p d ↔ (p.Same start ∨ wanted p = true) ∧
      (p.Same d ∨ ∃ child ∈ entries, l.Leads start wanted child d) := by
  obtain ⟨children, hfound, rfl⟩ := exists_names hp hentries
  constructor
  · intro hleads
    refine ⟨hleads.taken, ?_⟩
    obtain ⟨more, hmore⟩ := Path.atOrBelow_iff.1 hleads.1
    cases more with
    | nil => exact .inl (by rwa [List.append_nil] at hmore)
    | cons c more =>
      have hd := (hleads.2 d (Path.atOrBelow_refl d) hleads.1).1
      have hcd : p.components ++ [c] <+: d.components := ⟨more, by rw [← hmore]; simp⟩
      obtain ⟨name, hname, rfl⟩ := h.exists_child hfound hd hcd
      have hchild := h.components_join hfound hname
      have hchildP : (p.join ⟨name⟩).atOrBelow p = true :=
        Path.atOrBelow_iff.2 ⟨_, hchild.symm⟩
      refine .inr ⟨p.join ⟨name⟩, List.mem_map_of_mem hname, ?_, fun e hde hechild => ?_⟩
      · exact Path.atOrBelow_iff.2 (hchild ▸ hcd)
      · exact hleads.2 e hde (Path.atOrBelow_trans hechild hchildP)
  · rintro ⟨htaken, hbelow⟩
    have hsame {e : Path} (he : p.Same e) :
        l.isDirectory e = .ok true ∧ (e.Same start ∨ wanted e = true) :=
      ⟨(isDirectory_congr he).1 hp, htaken.imp he.symm.trans (fun hw => hwanted p e he ▸ hw)⟩
    rcases hbelow with hpd | ⟨child, hmem, hleads⟩
    · refine ⟨hpd.symm.atOrBelow, fun e hde hep => hsame ?_⟩
      have hpe : p.atOrBelow e = true := Path.atOrBelow_trans hpd.atOrBelow hde
      exact Path.same_of_atOrBelow hpe hep
    · obtain ⟨name, hname, rfl⟩ := List.mem_map.1 hmem
      have hchild := h.components_join hfound hname
      have hchildP : (p.join ⟨name⟩).atOrBelow p = true :=
        Path.atOrBelow_iff.2 ⟨_, hchild.symm⟩
      refine ⟨Path.atOrBelow_trans hleads.1 hchildP, fun e hde hep => ?_⟩
      rcases Path.atOrBelow_or_atOrBelow hde hleads.1 with hechild | hchilde
      · exact hleads.2 e hde hechild
      · rcases Path.same_or_same_of_between hchild hchilde hep with hpe | hce
        · exact hsame hpe
        · exact hleads.2 e hde hce.symm.atOrBelow

end Listing

namespace Trail

variable {host : Host World} {l : Listing} {now : World → Prop} {wanted : Path → Bool}

theorem directoriesAmong_shows (h : host.Shows l now) (entries : List Path) {t : Trail World}
    (ht : now t.world) : (directoriesAmong host entries t).1 =
      entries.filter fun p => l.isDirectory p matches .ok true := by
  have hkeep {entry : Path} {w : World} {answer : Except Fault Bool × World}
      (hw : now w) (heq : host.isDirectory entry w = answer) :
      l.isDirectory entry = answer.1 ∧ now answer.2 := by
    rw [← h.isDirectory_eq entry w hw, ← heq]
    exact ⟨rfl, h.isDirectory entry w hw⟩
  fun_induction directoriesAmong host entries t with
  | case1 => rfl
  | case2 entry rest t w heq found t' hrest ih =>
    obtain ⟨hentry, hw⟩ := hkeep ht heq
    have hfound := ih hw
    rw [hrest] at hfound
    rw [List.filter_cons_of_pos (by rw [hentry]), ← hfound]
  | case3 entry rest t w heq ih =>
    obtain ⟨hentry, hw⟩ := hkeep ht heq
    rw [List.filter_cons_of_neg (by simp [hentry]), ih hw]
  | case4 entry rest t fault w heq ih =>
    obtain ⟨hentry, hw⟩ := hkeep ht heq
    rw [List.filter_cons_of_neg (by simp [hentry]), ih hw]

theorem children_shows (h : host.Shows l now) {directory : Path} {entries found : List Path}
    {t t' : Trail World} (ht : now t.world) (hentries : l.entriesOf directory = .ok entries)
    (hchildren : children host directory t = (.ok found, t')) :
    found = l.directoriesAmong entries := by
  have hlisted := h.entries_eq directory t.world ht
  have hnow := h.entries directory t.world ht
  rw [hentries] at hlisted
  rw [children] at hchildren
  split at hchildren
  · rename_i listed w heq
    rw [heq] at hlisted hnow
    cases hlisted
    cases hchildren
    exact congrArg Path.sort (directoriesAmong_shows h entries (t := { t with world := w }) hnow)
  · rename_i heq
    rw [heq] at hlisted
    cases hlisted

/-- A visit finds nothing, or it registers the directory and answers with those in it. -/
theorem visit_shows (h : host.Shows l now) {directory : Path} {found : List Path}
    {t t' : Trail World} (ht : now t.world)
    (hvisit : visit host directory t = (.ok found, t')) :
    (l.isDirectory directory = .ok false ∧ found = [] ∧ t'.registered = t.registered) ∨
      (l.isDirectory directory = .ok true ∧
        (∀ p, t'.registered.contains p = true ↔
          t.registered.contains p = true ∨ directory.Same p) ∧
        ∃ entries, l.entriesOf directory = .ok entries ∧
          found = l.directoriesAmong entries) := by
  have hlisting := h.isDirectory_eq directory t.world ht
  rcases visit_ok hvisit with ⟨hanswer, hfound, hregistered⟩ | ⟨w, t₁, heq, hregister, hchildren⟩
  · rw [hanswer] at hlisting
    exact .inl ⟨hlisting.symm, hfound, hregistered⟩
  · have hw := h.isDirectory directory t.world ht
    rw [heq] at hlisting hw
    have ht₁ := h.register directory (t := { t with world := w }) hw
    rw [hregister] at ht₁
    obtain ⟨children, -, hentries⟩ := Listing.entriesOf_of_isDirectory hlisting.symm
    refine .inr ⟨hlisting.symm, fun p => ?_, _, hentries, children_shows h ht₁ hentries hchildren⟩
    simp [contains_children hregister hchildren]

/-- What is registered after a walk was registered before, or a path of the stack leads to it. -/
theorem contains_walkFrom (h : host.Shows l now) (hlinked : l.Linked ∅)
    (hwanted : ∀ p q, Path.Same p q → wanted p = wanted q) {start : Path} {limit : Nat}
    {stack : List Path} {t t' : Trail World} (ht : now t.world)
    (hwalk : walkFrom host start wanted limit stack t = (.ok (), t')) (d : Path) :
    t'.registered.contains d = true ↔
      t.registered.contains d = true ∨ ∃ p ∈ stack, l.Leads start wanted p d := by
  fun_induction walkFrom host start wanted limit stack t with
  | case1 limit t =>
    cases hwalk
    simp
  | case2 => cases hwalk
  | case3 => cases hwalk
  | case4 limit directory rest t htaken found t₁ hvisit ih =>
    have ht₁ := h.visit directory ht
    rw [hvisit] at ht₁
    refine (ih ht₁ hwalk).trans ?_
    rcases visit_shows h ht hvisit with
      ⟨hno, rfl, hregistered⟩ | ⟨hyes, hregistered, entries, hentries, rfl⟩
    · have hnone : ¬l.Leads start wanted directory d := fun hleads => by
        simp [hleads.isDirectory] at hno
      simp [hregistered, hnone]
    · have hstep : l.Leads start wanted directory d ↔
          directory.Same d ∨ ∃ child ∈ l.directoriesAmong entries, l.Leads start wanted child d := by
        rw [hlinked.leads_iff hyes hentries hwanted]
        constructor
        · rintro ⟨-, hd | ⟨child, hchild, hleads⟩⟩
          · exact .inl hd
          · have hmem := Listing.mem_directoriesAmong.2 ⟨hchild, hleads.isDirectory⟩
            exact .inr ⟨child, hmem, hleads⟩
        · rintro (hd | ⟨child, hchild, hleads⟩)
          · exact ⟨htaken, .inl hd⟩
          · exact ⟨htaken, .inr ⟨child, (Listing.mem_directoriesAmong.1 hchild).1, hleads⟩⟩
      simp only [hregistered, List.mem_append, List.mem_cons, or_and_right, exists_or,
        exists_eq_left, hstep, or_assoc]
  | case5 limit directory rest t htaken ih =>
    have hnone : ¬l.Leads start wanted directory d := fun hleads => htaken hleads.taken
    refine (ih ht hwalk).trans ?_
    simp [hnone]

theorem contains_walkAll (h : host.Shows l now) (hlinked : l.Linked ∅)
    (hwanted : ∀ p q, Path.Same p q → wanted p = wanted q) {starts : List Path}
    {t t' : Trail World} (ht : now t.world)
    (hwalk : walkAll host wanted starts t = (.ok (), t')) (d : Path) :
    t'.registered.contains d = true ↔
      t.registered.contains d = true ∨ ∃ start ∈ starts, l.Leads start wanted start d := by
  fun_induction walkAll host wanted starts t with
  | case1 t =>
    cases hwalk
    simp
  | case2 => cases hwalk
  | case3 start rest t t₁ hfirst ih =>
    rw [walk] at hfirst
    have hstart := contains_walkFrom h hlinked hwanted ht hfirst d
    have ht₁ := h.walkFrom start wanted (host.walkLimit t.world) [start] ht
    rw [hfirst] at ht₁
    refine (ih ht₁ hwalk).trans ?_
    simp only [hstart, List.mem_cons, List.not_mem_nil, or_false, exists_eq_left, or_and_right,
      exists_or, or_assoc]

end Trail

end DirectoryWatch
