import DirectoryWatch.Proofs.FileSystem.Consistent

/-!
# Growing listings

Where paths are only added and fit together, nothing is lost: what was there is still there, and a
directory is still one. A path is added as a directory together with all that was missing above it.
-/
namespace DirectoryWatch.Listing

variable {edits more : List Edit} {p d t : Path}

namespace Consistent

theorem of_append (h : Consistent (edits ++ more)) : Consistent edits where
  plain e he := h.plain e (List.mem_append_left more he)
  granted q hq := h.granted q (List.mem_append_left more hq)
  apart q hq :=
    have ⟨hroot, hothers⟩ := h.apart q (List.mem_append_left more hq)
    ⟨hroot, fun e he => hothers e (List.mem_append_left more he)⟩

theorem isDirectory_or_file (h : Consistent edits)
    (hd : ((build edits).find? d).isSome = true) :
    (build edits).isDirectory d = .ok true ∨ ∃ q, .file q ∈ edits ∧ q.Same d := by
  cases hfound : (build edits).find? d with
  | none => simp [hfound] at hd
  | some entry =>
    cases entry with
    | file => exact .inr (find?_build_eq_file_iff.1 hfound)
    | directory children =>
      have hgranted : (build edits).isDenied d = false := by simp [isDenied, denied_build h.granted]
      exact .inl (isDirectory_eq_true_iff.2 ⟨hgranted, children, hfound⟩)

theorem isDirectory_of_root (h : Consistent edits) (hd : d.components = [.root]) :
    (build edits).isDirectory d = .ok true := by
  have hthere : ((build edits).find? d).isSome = true := by
    rw [find?, hd]
    exact (linked_build h.plain).root
  refine (h.isDirectory_or_file hthere).resolve_right ?_
  rintro ⟨q, hq, hqd⟩
  exact (h.apart q hq).1 (Eq.trans hqd hd)

theorem isDirectory_append (h : Consistent (edits ++ more))
    (hd : (build edits).isDirectory d = .ok true) :
    (build (edits ++ more)).isDirectory d = .ok true := by
  obtain ⟨-, children, hchildren⟩ := isDirectory_eq_true_iff.1 hd
  have hadded := (isSome_find?_build_iff h.of_append.plain d).1 (isSome_of_isDirectory hd)
  have hthere := (isSome_find?_build_iff h.plain d).2 (hadded.imp_right fun hd => hd.append more)
  refine (h.isDirectory_or_file hthere).resolve_right ?_
  rintro ⟨q, hq, hqd⟩
  obtain ⟨hroot, hothers⟩ := h.apart q hq
  rcases hadded with hdroot | ⟨e, he, hadds⟩
  · exact hroot (Eq.trans hqd hdroot)
  obtain ⟨-, hed, -⟩ := (Edit.adds_iff (h.of_append.plain e he).1).1 hadds
  have heq : e.path.atOrBelow q = true := Path.atOrBelow_trans hed hqd.symm.atOrBelow
  have hunused := hothers e (List.mem_append_left more he)
  cases e with
  | directory r => exact hunused heq
  | denial r => exact h.granted r (List.mem_append_left more he)
  | file r =>
    have hrq : r.Same q := by
      by_contra hne
      exact hunused (Path.below_iff.2 ⟨hne, heq⟩)
    rw [find?_build_eq_file_iff.2 ⟨r, he, hrq.trans hqd⟩] at hchildren
    cases hchildren

theorem isDirectory_added (h : Consistent edits) (hp : .directory p ∈ edits) :
    (build edits).isDirectory p = .ok true := by
  have hadded : Added edits p := ⟨_, hp, p, Path.mem_ancestors_self p, .refl p⟩
  have hthere := (isSome_find?_build_iff h.plain p).2 (.inr hadded)
  refine (h.isDirectory_or_file hthere).resolve_right ?_
  rintro ⟨q, hq, hqp⟩
  exact (h.apart q hq).2 _ hp hqp.symm.atOrBelow

end Consistent

/-- Of the paths at or above `p` that are missing, `t` is the topmost. -/
structure TopmostMissing (l : Listing) (p t : Path) : Prop where
  above : p.atOrBelow t = true
  absolute : t.isAbsolute = true
  missing : l.find? t = none
  topmost : ∀ e : Path, e.isAbsolute = true → t.below e = true → (l.find? e).isSome = true

theorem Linked.topmostMissing {l : Listing} (h : Linked ∅ l) {q : Path}
    (habove : p.atOrBelow t = true) (ht : t.isAbsolute = true) (hmissing : l.find? t = none)
    (hparent : t.parent? = some q) (hq : (l.find? q).isSome = true) : l.TopmostMissing p t := by
  refine ⟨habove, ht, hmissing, fun e he hte => ?_⟩
  obtain ⟨c, hc⟩ := Path.components_of_parent? hparent
  obtain ⟨hne, hup⟩ := Path.below_iff.1 hte
  rw [Path.atOrBelow_iff, hc] at hup
  rcases List.prefix_concat_iff.1 hup with heq | habove
  · exact absurd (hc.trans heq.symm) hne
  · exact h.isSome_above (Path.components_ne_nil he) habove hq

namespace TopmostMissing

theorem isDirectory (ht : (build edits).TopmostMissing p t)
    (h : Consistent (edits ++ [.directory p])) :
    (build (edits ++ [.directory p])).isDirectory t = .ok true :=
  h.isDirectory_above (h.isDirectory_added (by simp)) ht.above (Path.components_ne_nil ht.absolute)

theorem not_isDirectory_of_atOrBelow (ht : (build edits).TopmostMissing p t)
    (h : Consistent edits) (hd : d.atOrBelow t = true) : ¬(build edits).isDirectory d = .ok true := by
  intro hdirectory
  obtain ⟨-, children, hchildren⟩ := isDirectory_eq_true_iff.1
    (h.isDirectory_above hdirectory hd (Path.components_ne_nil ht.absolute))
  rw [ht.missing] at hchildren
  cases hchildren

/-- A directory was there before, or it lies at or below the topmost missing one. -/
theorem isDirectory_or_atOrBelow (ht : (build edits).TopmostMissing p t)
    (h : Consistent (edits ++ [.directory p]))
    (hd : (build (edits ++ [.directory p])).isDirectory d = .ok true) :
    (build edits).isDirectory d = .ok true ∨ d.atOrBelow t = true := by
  obtain ⟨-, children, hchildren⟩ := isDirectory_eq_true_iff.1 hd
  have hsome := isSome_of_isDirectory hd
  have hd0 : d.components ≠ [] := (linked_build h.plain).components_ne_nil hsome
  cases hbefore : (build edits).find? d with
  | some entry =>
    have hthere : ((build edits).find? d).isSome = true := by rw [hbefore]; rfl
    refine .inl ((h.of_append.isDirectory_or_file hthere).resolve_right ?_)
    rintro ⟨q, hq, hqd⟩
    rw [find?_build_eq_file_iff.2 ⟨q, List.mem_append_left _ hq, hqd⟩] at hchildren
    cases hchildren
  | none =>
    right
    rw [build_concat] at hsome
    obtain ⟨a, ha, had⟩ := (isSome_or_adds_of_edit hsome).resolve_left (by simp [hbefore])
    have hpd : p.atOrBelow d = true :=
      Path.atOrBelow_trans (Path.atOrBelow_of_mem_ancestors ha) had.atOrBelow
    rcases Path.atOrBelow_or_atOrBelow hpd ht.above with hdt | htd
    · exact hdt
    · by_contra hne
      have hbelow : t.below d = true :=
        Path.below_iff.2 ⟨fun hsame => hne hsame.symm.atOrBelow, htd⟩
      have habove := ht.topmost d (Path.isAbsolute_of_atOrBelow htd ht.absolute hd0) hbelow
      simp [hbefore] at habove

end TopmostMissing

end DirectoryWatch.Listing
