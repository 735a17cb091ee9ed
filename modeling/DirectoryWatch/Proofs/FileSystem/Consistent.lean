import DirectoryWatch.Proofs.FileSystem.Added
import DirectoryWatch.Proofs.Path.Topmost

/-!
# Consistent listings

When no path is added as a file that is also needed as a directory, and nothing is denied,
everything above a directory is a directory.
-/
namespace DirectoryWatch.Listing

/-- The path is the directory that is added, or something is added below it. -/
def Edit.UsesAsDirectory (e : Edit) (q : Path) : Prop :=
  match e with
  | .directory p => p.atOrBelow q = true
  | .file p => p.below q = true
  | .denial _ => False

/-- Changes by plain paths that deny nothing and add no file where there is to be a directory. -/
structure Consistent (edits : List Edit) : Prop where
  plain : ∀ e ∈ edits, e.path.IsPlain
  granted : ∀ p, .denial p ∉ edits
  apart : ∀ p, .file p ∈ edits → p.components ≠ [.root] ∧ ∀ e ∈ edits, ¬e.UsesAsDirectory p

theorem isDirectory_eq_true_iff {l : Listing} {p : Path} :
    l.isDirectory p = .ok true ↔
      l.isDenied p = false ∧ ∃ children, l.find? p = some (.directory children) := by
  rw [isDirectory]
  cases hdenied : l.isDenied p with
  | true => simp
  | false =>
    rw [if_neg Bool.false_ne_true]
    split
    · simp [*]
    · rename_i hother
      simp only [Except.ok.injEq, Bool.false_eq_true, false_iff, not_and, not_exists]
      exact fun _ children hfound => hother children hfound

theorem isSome_of_isDirectory {l : Listing} {p : Path} (h : l.isDirectory p = .ok true) :
    (l.find? p).isSome = true := by
  obtain ⟨-, children, hfound⟩ := isDirectory_eq_true_iff.1 h
  rw [hfound]
  rfl

theorem isDirectory_congr {l : Listing} {p q : Path} (h : p.Same q) :
    l.isDirectory p = .ok true ↔ l.isDirectory q = .ok true := by
  simp only [isDirectory_eq_true_iff, isDenied, find?, show p.components = q.components from h]

theorem denied_link (l : Listing) (parent child : Path) :
    (l.link parent child).denied = l.denied := by
  rw [link]
  split
  · split <;> rfl
  · rfl

theorem denied_addChain (l : Listing) (chain : List Path) :
    (l.addChain chain).denied = l.denied := by
  fun_induction addChain l chain with
  | case1 => rfl
  | case2 => rfl
  | case3 => rfl
  | case4 => rfl
  | case5 l p parent rest hp ih => exact (denied_link _ parent p).trans ih

theorem denied_addFile (l : Listing) (p : Path) : (l.addFile p).denied = l.denied := by
  rw [addFile]
  split
  · rfl
  · exact (denied_link _ _ p).trans (denied_addChain _ _)

theorem denied_build {edits : List Edit} (h : ∀ p, .denial p ∉ edits) :
    (build edits).denied = [] := by
  induction edits using List.reverseRecOn with
  | nil => rfl
  | append_singleton edits e ih =>
    have hrest := ih fun p hp => h p (by simp [hp])
    rw [build_concat]
    cases e with
    | directory p => exact (denied_addChain _ p.ancestors).trans hrest
    | file p => exact (denied_addFile _ p).trans hrest
    | denial p => exact absurd (by simp) (h p)

theorem Consistent.file_leaf {edits : List Edit} (h : Consistent edits) {p d : Path}
    (hp : (build edits).find? p = some .file) (hd : ((build edits).find? d).isSome = true)
    (hdp : d.atOrBelow p = true) : d.Same p := by
  obtain ⟨q, hq, hqp⟩ := find?_build_eq_file_iff.1 hp
  obtain ⟨hroot, happart⟩ := h.apart q hq
  by_contra hne
  have hdq : d.atOrBelow q = true := Path.atOrBelow_trans hdp (Path.Same.atOrBelow hqp.symm)
  have hlt : q.components.length < d.components.length := by
    have hle := (Path.atOrBelow_iff.1 hdq).length_le
    have hsame : q.components.length ≠ d.components.length := fun hlength =>
      hne (((Path.atOrBelow_iff.1 hdq).eq_of_length hlength).symm.trans hqp)
    omega
  rcases (isSome_find?_build_iff h.plain d).1 hd with hdroot | ⟨e, he, hadds⟩
  · rw [hdroot, List.length_singleton] at hlt
    have hq0 : q.components = [] := List.length_eq_zero_iff.1 (by omega)
    exact Path.components_ne_nil (h.plain _ hq).1 hq0
  · obtain ⟨-, hed, -⟩ := (Edit.adds_iff (h.plain e he).1).1 hadds
    have heq : e.path.atOrBelow q = true := Path.atOrBelow_trans hed hdq
    have hle := (Path.atOrBelow_iff.1 hed).length_le
    cases e with
    | directory r => exact happart _ he heq
    | denial r => exact h.granted r he
    | file r =>
      refine happart _ he (Path.below_iff.2 ⟨fun hsame => ?_, heq⟩)
      have hlength := congrArg List.length hsame
      simp only [Edit.path] at hle
      omega

theorem Consistent.isDirectory_above {edits : List Edit} (h : Consistent edits) {d p : Path}
    (hd : (build edits).isDirectory d = .ok true) (hdp : d.atOrBelow p = true)
    (hp : p.components ≠ []) : (build edits).isDirectory p = .ok true := by
  obtain ⟨-, children, hchildren⟩ := isDirectory_eq_true_iff.1 hd
  have hsome := isSome_of_isDirectory hd
  have hthere : ((build edits).find? p).isSome = true :=
    (linked_build h.plain).isSome_above hp (Path.atOrBelow_iff.1 hdp) hsome
  rw [isDirectory_eq_true_iff]
  refine ⟨by simp [isDenied, denied_build h.granted], ?_⟩
  cases hfound : (build edits).find? p with
  | none => simp [hfound] at hthere
  | some entry =>
    cases entry with
    | directory others => exact ⟨others, rfl⟩
    | file =>
      have hsame := h.file_leaf hfound hsome hdp
      rw [find?, hsame] at hchildren
      rw [find?, hchildren] at hfound
      cases hfound

end DirectoryWatch.Listing
