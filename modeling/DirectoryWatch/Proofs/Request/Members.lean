import DirectoryWatch.Proofs.Path.Rest
import DirectoryWatch.Proofs.Request.Filters

/-!
# Members of absolute forms

A request consists of members, each with a root and a filter; a plain root is a member whose filter
admits all. The absolute form anchors each relative member in the working directory. What the member
contained it still contains as seen from there, and it contains nothing else.
-/
namespace DirectoryWatch

namespace Tree

theorem contains_withRoot_eq (tree : Tree) {p root q top : Path} (h : p.AlikeBelow root q top) :
    (tree.withRoot root).contains p = (tree.withRoot top).contains q := by
  rw [contains, contains, withRoot, withRoot, h.relativeTo?_eq, decide_eq_decide.2 h.same_iff]

/-- The tree with its root read from the working directory. An absolute root stays. -/
def anchoredIn (workingDirectory : Path) (tree : Tree) : Tree :=
  tree.withRoot (tree.root.formFrom workingDirectory)

variable {workingDirectory p q : Path} {tree : Tree}

theorem anchoredIn_of_isAbsolute (h : tree.root.isAbsolute = true) :
    tree.anchoredIn workingDirectory = tree := by
  rw [anchoredIn, Path.formFrom, if_pos h]
  rfl

theorem anchoredIn_of_relative (h : tree.root.isAbsolute = false) :
    tree.anchoredIn workingDirectory =
      tree.withRoot (tree.root.absoluteFrom workingDirectory) := by
  rw [anchoredIn, Path.formFrom, if_neg (by simp [h])]

/-- Anchored in the working directory a tree keeps what it contained, as seen from there. -/
theorem contains_anchoredIn (hdirectory : workingDirectory.isAbsolute = true)
    (hne : tree.root.isEmpty = false) (h : tree.contains p = true) :
    (tree.anchoredIn workingDirectory).contains
      (if p.isAbsolute then p else workingDirectory.join p) = true := by
  have hbelow := atOrBelow_of_contains h
  have hroot : tree.root.components ≠ [] :=
    fun hnil => by simp [Path.isEmpty_iff_components.2 hnil] at hne
  have hanchor := Path.anchor_eq_of_atOrBelow hbelow hroot
  have habsolute : p.isAbsolute = tree.root.isAbsolute := by
    rw [Path.isAbsolute, hanchor, ← Path.isAbsolute]
  cases hrelative : tree.root.isAbsolute with
  | true => rwa [anchoredIn_of_isAbsolute hrelative, if_pos (habsolute.trans hrelative)]
  | false =>
    rw [anchoredIn_of_relative hrelative, if_neg (by simp [habsolute, hrelative]),
      tree.contains_withRoot_eq (Path.alikeBelow_join hdirectory hrelative hne hbelow)]
    exact h

/-- Anchored in the working directory a relative tree contains nothing that it did not contain
before, up to a leading `.` of its root. -/
theorem exists_of_contains_anchoredIn (hdirectory : workingDirectory.isAbsolute = true)
    (hroot : tree.root.isAbsolute = false)
    (h : (tree.anchoredIn workingDirectory).contains q = true) :
    ∃ p, p.isAbsolute = false ∧ q.Same (workingDirectory.join p) ∧
      (tree.withRoot tree.root.withoutDot).contains p = true := by
  rw [anchoredIn_of_relative hroot] at h
  obtain ⟨p, hp, hsame, halike⟩ :=
    Path.exists_alikeBelow hdirectory hroot (atOrBelow_of_contains h)
  exact ⟨p, hp, hsame, by rwa [← tree.contains_withRoot_eq halike]⟩

end Tree

namespace Request

variable {workingDirectory p : Path} {r : Request}

/-- The plain roots, as trees whose filter admits all, and the trees. -/
def members (r : Request) : List Tree := r.plain.map Tree.unfiltered ++ r.trees

theorem contains_iff_members :
    r.contains p = true ↔ ∃ member ∈ r.members, member.contains p = true := by
  have hplain : p.coveredBy r.plain = (r.plain.map Tree.unfiltered).any (·.contains p) := by
    simp only [Path.coveredBy, List.any_map, Function.comp_def, Tree.contains_unfiltered]
  rw [contains, hplain, ← List.any_append, ← members, List.any_eq_true]

theorem root_mem_allRoots {member : Tree} (h : member ∈ r.members) : member.root ∈ r.allRoots := by
  rcases List.mem_append.1 h with h | h
  · obtain ⟨root, hroot, rfl⟩ := List.mem_map.1 h
    exact List.mem_append_left _ hroot
  · exact List.mem_append_right _ (List.mem_map_of_mem h)

theorem members_formFrom :
    (r.formFrom workingDirectory).members =
      r.members.map (Tree.anchoredIn workingDirectory) := by
  simp only [members, formFrom, List.map_append, List.map_map]
  rfl

/-- A request has an absolute form unless one of its roots is empty. This form has absolute roots
and the same filters, and it is its own absolute form. Seen from the working directory it contains
what the request contains: each path of the request, read from there, belongs to it, and each of its
paths belongs to a member of the request that is absolute already, or is read from there and belongs
to a relative member without the leading `.` of its root. -/
theorem absolute_keeps_members (workingDirectory : Path) (r : Request)
    (hdirectory : workingDirectory.isAbsolute = true) :
    ((∃ failure, r.absolute workingDirectory = .error failure) ↔
        ∃ root ∈ r.allRoots, root.isEmpty = true) ∧
      ∀ absolute, r.absolute workingDirectory = .ok absolute →
        (∀ root ∈ absolute.allRoots, root.isAbsolute = true) ∧
        (∀ anywhere, absolute.absolute anywhere = .ok absolute) ∧
        absolute.trees.map Tree.filter = r.trees.map Tree.filter ∧
        (∀ p, r.contains p = true →
          absolute.contains (if p.isAbsolute then p else workingDirectory.join p) = true) ∧
        ∀ q, absolute.contains q = true → ∃ member ∈ r.members,
          member.root.isAbsolute = true ∧ member.contains q = true ∨
            member.root.isAbsolute = false ∧ ∃ p, p.isAbsolute = false ∧
              q.Same (workingDirectory.join p) ∧
              (member.withRoot member.root.withoutDot).contains p = true := by
  constructor
  · cases hform : r.absolute workingDirectory with
    | error failure =>
      refine ⟨fun _ => ?_, fun _ => ⟨failure, rfl⟩⟩
      by_contra hnone
      have hall : ∀ root ∈ r.allRoots, root.isEmpty = false := by simpa using hnone
      simp [absolute_eq_ok_iff.2 ⟨hall, rfl⟩] at hform
    | ok absolute =>
      have hall := (absolute_eq_ok_iff.1 hform).1
      constructor
      · rintro ⟨failure, hfailure⟩
        cases hfailure
      · rintro ⟨root, hroot, hempty⟩
        simp [hall root hroot] at hempty
  · intro absolute hform
    obtain ⟨hne, rfl⟩ := absolute_eq_ok_iff.1 hform
    have habsolute : ∀ root ∈ (r.formFrom workingDirectory).allRoots, root.isAbsolute = true :=
      fun root hroot => isAbsolute_of_mem_allRoots hdirectory hform hroot
    refine ⟨habsolute, absolute_eq_self habsolute, ?_, fun p hp => ?_, fun q hq => ?_⟩
    · rw [formFrom, List.map_map]
      rfl
    · obtain ⟨member, hmember, hcontains⟩ := contains_iff_members.1 hp
      rw [contains_iff_members, members_formFrom]
      exact ⟨_, List.mem_map_of_mem hmember,
        Tree.contains_anchoredIn hdirectory (hne _ (root_mem_allRoots hmember)) hcontains⟩
    · rw [contains_iff_members, members_formFrom] at hq
      obtain ⟨_, hanchored, hcontains⟩ := hq
      obtain ⟨member, hmember, rfl⟩ := List.mem_map.1 hanchored
      refine ⟨member, hmember, ?_⟩
      cases hroot : member.root.isAbsolute with
      | true =>
        rw [Tree.anchoredIn_of_isAbsolute hroot] at hcontains
        exact .inl ⟨rfl, hcontains⟩
      | false => exact .inr ⟨rfl, Tree.exists_of_contains_anchoredIn hdirectory hroot hcontains⟩

/-- A file by its absolute name, what lies beside the working directory, and the sources in it. -/
def mixedRequest : Request :=
  ⟨[Path.ofString "/etc/hosts", Path.ofString "../docs/"],
    [⟨Path.ofString "./src", (Filter.ofPatterns ["*.rs"] []).toOption.getD .admitAll⟩,
      ⟨Path.ofString ".", (Filter.ofPatterns ["*.toml"] []).toOption.getD .admitAll⟩]⟩

theorem absolute_keeps_members_mixed :
    mixedRequest.contains (Path.ofString "./src//main.rs") = true ∧
      ∃ absolute, mixedRequest.absolute (Path.ofString "/w") = .ok absolute ∧
        absolute.allRoots.map Path.bytes =
          ["/etc/hosts", "/w/../docs/", "/w/src", "/w"].map Bytes.ofString ∧
        absolute.contains (Path.ofString "/w/./src//main.rs") = true ∧
        absolute.contains (Path.ofString "/w/src/notes.md") = false ∧
        ∃ member ∈ mixedRequest.members, member.root.isAbsolute = false ∧
          ∃ p, p.isAbsolute = false ∧
            (Path.ofString "/w/Cargo.toml").Same ((Path.ofString "/w").join p) ∧
            (member.withRoot member.root.withoutDot).contains p = true := by
  have hcontains : mixedRequest.contains (Path.ofString "./src//main.rs") = true := by
    decide +kernel
  obtain ⟨-, hform⟩ := absolute_keeps_members (Path.ofString "/w") mixedRequest (by decide)
  obtain ⟨-, -, -, hkept, honly⟩ := hform (mixedRequest.formFrom (Path.ofString "/w"))
    (absolute_eq_ok_iff.2 ⟨by decide +kernel, rfl⟩)
  refine ⟨hcontains, _, absolute_eq_ok_iff.2 ⟨by decide +kernel, rfl⟩, by decide +kernel,
    hkept _ hcontains, by decide +kernel, ?_⟩
  obtain ⟨member, hmember, habsolute | hrelative⟩ :=
    honly (Path.ofString "/w/Cargo.toml") (by decide +kernel)
  · have hnone : ∀ member ∈ mixedRequest.members, ¬(member.root.isAbsolute = true ∧
        member.contains (Path.ofString "/w/Cargo.toml") = true) := by decide +kernel
    exact absurd habsolute (hnone member hmember)
  · exact ⟨member, hmember, hrelative⟩

end Request

end DirectoryWatch
