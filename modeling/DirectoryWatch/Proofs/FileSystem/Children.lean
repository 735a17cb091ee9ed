import DirectoryWatch.Proofs.FileSystem.Consistent
import Mathlib.Data.List.Nodup

/-!
# What directories list

A directory names the entries directly below it, each once. So it lists every path that was added
there, by itself or because something was added below it, whatever was added again, replaced by a
file or put below a file.
-/
namespace DirectoryWatch

namespace Path

variable {p q d : Path}

def ChildOf (p d : Path) : Prop := ∃ parent, p.parent? = some parent ∧ parent.Same d

instance (p d : Path) : Decidable (p.ChildOf d) :=
  match h : p.parent? with
  | none => .isFalse fun ⟨parent, hparent, _⟩ => by simp [h] at hparent
  | some parent => decidable_of_iff (parent.Same d) (by simp [ChildOf, h])

theorem childOf_iff (hd : d.components ≠ []) :
    p.ChildOf d ↔ ∃ c, p.components = d.components ++ [c] := by
  constructor
  · rintro ⟨parent, hparent, hsame⟩
    obtain ⟨c, hc⟩ := components_of_parent? hparent
    exact ⟨c, by rw [hc, show parent.components = d.components from hsame]⟩
  · rintro ⟨c, hc⟩
    cases hparent : p.parent? with
    | none =>
      have hpos := List.length_pos_iff.2 hd
      have hlength := congrArg List.length hc
      rw [List.length_append, List.length_singleton] at hlength
      rcases parent?_eq_none_iff.1 hparent with hp | hp
      · simp [hp] at hlength
      · rw [hp, List.length_singleton] at hlength
        omega
    | some parent =>
      obtain ⟨c', hc'⟩ := components_of_parent? hparent
      exact ⟨parent, hparent, (List.append_inj' (hc'.symm.trans hc) rfl).1⟩

theorem ChildOf.ne_root (h : p.ChildOf d) : p.components ≠ [.root] := by
  obtain ⟨parent, hparent, -⟩ := h
  intro hp
  rw [parent?_eq_none_iff.2 (.inr hp)] at hparent
  cases hparent

theorem countP_same (paths : List Path) (p : Path) :
    paths.countP (fun q => q.Same p) = (paths.map components).count p.components := by
  rw [List.count, List.countP_map]
  refine List.countP_congr fun q _ => ?_
  rw [decide_eq_true_iff]
  exact beq_iff_eq.symm

end Path

namespace Listing

variable {l : Listing} {p d : Path} {entries : List Path} {edits : List Edit}

theorem entriesOf_of_isDirectory (h : l.isDirectory p = .ok true) :
    ∃ children, l.find? p = some (.directory children) ∧
      l.entriesOf p = .ok (children.map fun name => p.join ⟨name⟩) := by
  obtain ⟨hdenied, children, hfound⟩ := isDirectory_eq_true_iff.1 h
  exact ⟨children, hfound, by simp [entriesOf, hdenied, hfound]⟩

theorem exists_names (hp : l.isDirectory p = .ok true) (hentries : l.entriesOf p = .ok entries) :
    ∃ names, l.find? p = some (.directory names) ∧
      entries = names.map fun name => p.join ⟨name⟩ := by
  obtain ⟨names, hfound, heq⟩ := entriesOf_of_isDirectory hp
  exact ⟨names, hfound, Except.ok.inj (hentries.symm.trans heq)⟩

theorem Linked.components_join (h : Linked ∅ l) {children : List Bytes} {name : Bytes}
    (hfound : l.find? p = some (.directory children)) (hname : name ∈ children) :
    (p.join ⟨name⟩).components = p.components ++ [.name name] := by
  obtain ⟨q, hq, hqp⟩ := h.plain _ (h.present _ children name hfound hname)
  refine Path.components_join_name p (Path.isName_of_mem_components (p := q) ?_)
  simp [hqp]

theorem Linked.exists_name (h : Linked ∅ l) {children : List Bytes}
    (hfound : l.find? p = some (.directory children)) {c : Component}
    (hthere : (l.at? (p.components ++ [c])).isSome = true) : ∃ name ∈ children, c = .name name := by
  obtain ⟨q, hq, hqp⟩ := h.plain _ hthere
  have hne : p.components ≠ [] := h.components_ne_nil (by rw [hfound]; rfl)
  obtain ⟨name, rfl, -, -⟩ := hq.name hqp hne
  exact ⟨name, h.listed _ children name hfound hthere (fun hin => hin), rfl⟩

theorem Linked.exists_child (h : Linked ∅ l) {children : List Bytes}
    (hfound : l.find? p = some (.directory children)) (hd : l.isDirectory d = .ok true)
    {c : Component} (hdp : p.components ++ [c] <+: d.components) :
    ∃ name ∈ children, c = .name name := by
  have hthere := h.isSome_above (by simp) hdp (isSome_of_isDirectory hd)
  exact h.exists_name hfound hthere

theorem Linked.countP_entriesOf (h : Linked ∅ l) (hd : l.isDirectory d = .ok true)
    (hentries : l.entriesOf d = .ok entries) (p : Path) :
    entries.countP (fun q => q.Same p) =
      if (l.find? p).isSome = true ∧ p.ChildOf d then 1 else 0 := by
  obtain ⟨children, hfound, rfl⟩ := exists_names hd hentries
  have hne : d.components ≠ [] := h.components_ne_nil (by rw [hfound]; rfl)
  have hplaces : (children.map fun name => d.join ⟨name⟩).map Path.components =
      children.map fun name => d.components ++ [.name name] := by
    rw [List.map_map]
    exact List.map_congr_left fun name hname => h.components_join hfound hname
  have hnodup : (children.map fun name => d.components ++ [Component.name name]).Nodup :=
    (h.nodup _ children hfound).map fun a b hab => by simpa using hab
  rw [Path.countP_same, hplaces, hnodup.count]
  refine if_congr ?_ rfl rfl
  rw [List.mem_map, Path.childOf_iff hne]
  constructor
  · rintro ⟨name, hname, hp⟩
    refine ⟨?_, .name name, hp.symm⟩
    rw [find?, ← hp]
    exact h.present _ children name hfound hname
  · rintro ⟨hthere, c, hc⟩
    rw [find?, hc] at hthere
    obtain ⟨name, hname, rfl⟩ := h.exists_name hfound hthere
    exact ⟨name, hname, hc.symm⟩

/-- However files and directories were added, a directory that is not denied lists each path that
was ever added and has it as parent exactly once, and nothing else. -/
theorem countP_entriesOf_build (h : ∀ e ∈ edits, e.path.IsPlain)
    (hd : (build edits).isDirectory d = .ok true) :
    ∃ entries, (build edits).entriesOf d = .ok entries ∧ ∀ p : Path,
      entries.countP (fun q => q.Same p) = if Added edits p ∧ p.ChildOf d then 1 else 0 := by
  obtain ⟨children, -, hentries⟩ := entriesOf_of_isDirectory hd
  refine ⟨_, hentries, fun p => ?_⟩
  rw [(linked_build h).countP_entriesOf hd hentries]
  refine if_congr (and_congr_left fun hchild => ?_) rfl rfl
  rw [isSome_find?_build_iff h, or_iff_right hchild.ne_root]

/-- A file takes the place of a directory and comes a second time; directories are added below it. -/
def replaced : List Edit :=
  [.directory (Path.ofString "/a/b/c"), .file (Path.ofString "/a/b"),
    .directory (Path.ofString "/a/b/d/e"), .file (Path.ofString "/a/f"),
    .directory (Path.ofString "/a//b/d"), .directory (Path.ofString "/a/g/h"),
    .file (Path.ofString "/a/b")]

theorem countP_entriesOf_build_replaced :
    (∀ e ∈ replaced, e.path.IsPlain) ∧
      (build replaced).isDirectory (Path.ofString "/a") = .ok true ∧
      (build replaced).isDirectory (Path.ofString "/a/b") = .ok false ∧
      ∃ entries, (build replaced).entriesOf (Path.ofString "/a") = .ok entries ∧
        entries = ["/a/b", "/a/f", "/a/g"].map Path.ofString ∧
        ∀ p : Path, entries.countP (fun q => q.Same p) =
          if Added replaced p ∧ p.ChildOf (Path.ofString "/a") then 1 else 0 := by
  have hplain : ∀ e ∈ replaced, e.path.IsPlain := by decide +kernel
  have hd : (build replaced).isDirectory (Path.ofString "/a") = .ok true := by decide +kernel
  have hlisted : (build replaced).entriesOf (Path.ofString "/a") =
      .ok (["/a/b", "/a/f", "/a/g"].map Path.ofString) := rfl
  obtain ⟨entries, hentries, hcount⟩ := countP_entriesOf_build hplain hd
  exact ⟨hplain, hd, by decide +kernel, entries, hentries,
    Except.ok.inj (hentries.symm.trans hlisted), hcount⟩

end Listing

end DirectoryWatch
