import DirectoryWatch.Proofs.FileSystem.Located
import Mathlib.Data.List.Nodup

/-!
# Disks that were made

A disk on which directories, files and links were made and things were removed is a tree, and a
directory on it lists each thing that lies in it once.
-/
namespace DirectoryWatch.Disk

inductive Change
  | directory (p : Path)
  | file (p : Path) (contents : Bytes)
  | link (p target : Path)
  | removal (p : Path)

def change (disk : Disk) : Change → Disk
  | .directory p => disk.makeDirectory p
  | .file p contents => disk.writeFile p contents
  | .link p target => disk.makeLink p target
  | .removal p => disk.remove p

def build (changes : List Change) : Disk := changes.foldl change default

/-- Every place has one node, and lies in a directory. -/
structure IsTree (disk : Disk) : Prop where
  distinct : (disk.nodes.map Prod.fst).Nodup
  named : ∀ e ∈ disk.nodes, e.1 ≠ [] ∧ ∀ name ∈ e.1, name.IsName
  above : ∀ e ∈ disk.nodes, disk.node? e.1.dropLast = some .directory

variable {disk : Disk} {location place : Location} {name : Bytes} {node : Node}
  {p q workingDirectory : Path}

theorem node?_eq_lookup (h : location ≠ []) : disk.node? location = disk.nodes.lookup location := by
  cases location with
  | nil => contradiction
  | cons => rfl

theorem isSome_node?_iff (h : location ≠ []) :
    (disk.node? location).isSome = true ↔ location ∈ disk.nodes.map Prod.fst := by
  rw [node?_eq_lookup h, List.lookup_isSome_iff, List.mem_map]
  exact exists_congr fun e => and_congr_right fun _ => by rw [beq_iff_eq, eq_comm]

theorem eq_concat_iff :
    (if place.dropLast = location then place.getLast? else none) = some name ↔
      place = location ++ [name] := by
  constructor
  · intro h
    split_ifs at h with hlocation
    obtain ⟨above, rfl⟩ := List.getLast?_eq_some_iff.1 h
    rw [← hlocation, List.dropLast_concat]
  · rintro rfl
    rw [if_pos List.dropLast_concat, List.getLast?_concat]

theorem mem_namesIn_iff :
    name ∈ disk.namesIn location ↔ (disk.node? (location ++ [name])).isSome = true := by
  rw [isSome_node?_iff (List.concat_ne_nil name location), namesIn, List.mem_filterMap,
    List.mem_map]
  exact exists_congr fun e => and_congr_right fun _ => eq_concat_iff

theorem node?_filter (keep : Location → Bool) (h : keep location = true) :
    (⟨disk.nodes.filter fun e => keep e.1⟩ : Disk).node? location = disk.node? location := by
  by_cases hnil : location = []
  · rw [hnil]
    rfl
  · rw [node?_eq_lookup hnil, node?_eq_lookup hnil]
    induction disk.nodes with
    | nil => rfl
    | cons e rest ih =>
      obtain ⟨place, node⟩ := e
      by_cases heq : location = place
      · subst heq
        simp [h]
      · have hne : (location == place) = false := by simpa using heq
        cases hkeep : keep place <;> simp [List.lookup_cons, hkeep, hne, ih]

theorem node?_put_of_ne (h : location ≠ place) :
    (disk.put place node).node? location = disk.node? location := by
  rw [← disk.node?_filter (· != place) (by simpa using h)]
  cases location with
  | nil => rfl
  | cons first rest =>
    have hne : ((first :: rest) == place) = false := by simpa using h
    simp [node?, put, List.lookup_cons, hne]

/-- A file goes where something can be made and no directory is. -/
theorem exists_placeFor? {links : ℕ} (hplace : disk.filePlace? links p = some place) :
    (∃ q, disk.placeFor? q = some place) ∧ disk.node? place ≠ some .directory := by
  fun_induction filePlace? disk links p with
  | case1 => cases hplace
  | case2 => cases hplace
  | case3 _ q _ hq _ hnode =>
    cases hplace
    exact ⟨⟨q, hq⟩, by simp [hnode]⟩
  | case4 _ q _ hq _ contents hnode =>
    cases hplace
    exact ⟨⟨q, hq⟩, by simp [hnode]⟩
  | case5 => cases hplace
  | case6 => cases hplace
  | case7 _ _ _ _ _ _ _ ih => exact ih hplace

namespace IsTree

theorem nodup_namesIn (h : disk.IsTree) (location : Location) : (disk.namesIn location).Nodup := by
  refine List.Pairwise.filterMap _ ?_ (List.pairwise_map.1 h.distinct)
  intro e e' hne name hname name' hname' heq
  exact hne (by rw [eq_concat_iff.1 hname, eq_concat_iff.1 hname', heq])

theorem put (h : disk.IsTree) (hnil : place ≠ []) (hnames : ∀ name ∈ place, name.IsName)
    (habove : disk.node? place.dropLast = some .directory)
    (hold : disk.node? place ≠ some .directory) (node : Node) : (disk.put place node).IsTree := by
  have hkept {other : Location} (hother : disk.node? other = some .directory) :
      (disk.put place node).node? other = some .directory := by
    rw [node?_put_of_ne, hother]
    rintro rfl
    exact hold hother
  refine ⟨?_, ?_, ?_⟩
  · rw [Disk.put, List.map_cons, List.nodup_cons]
    exact ⟨by simp, h.distinct.sublist (List.filter_sublist.map _)⟩
  · intro e he
    rcases List.mem_cons.1 he with rfl | he
    · exact ⟨hnil, hnames⟩
    · exact h.named e (List.mem_of_mem_filter he)
  · intro e he
    rcases List.mem_cons.1 he with rfl | he
    · exact hkept habove
    · exact hkept (h.above e (List.mem_of_mem_filter he))

theorem remove (h : disk.IsTree) (p : Path) : (disk.remove p).IsTree := by
  rw [Disk.remove]
  split
  · rename_i place _
    refine ⟨h.distinct.sublist (List.filter_sublist.map _),
      fun e he => h.named e (List.mem_of_mem_filter he), fun e he => ?_⟩
    obtain ⟨he, houtside⟩ := List.mem_filter.1 he
    rw [node?_filter (fun place' => !place.isPrefixOf place'), h.above e he]
    simp only [Bool.not_eq_true', Bool.eq_false_iff, ne_eq, List.isPrefixOf_iff_prefix]
      at houtside ⊢
    exact fun hbelow => houtside (hbelow.trans (List.dropLast_prefix e.1))
  · exact h

theorem isName_of_mem (h : disk.IsTree) (hlocation : (disk.node? location).isSome = true) :
    ∀ name ∈ location, name.IsName := by
  by_cases hnil : location = []
  · simp [hnil]
  · obtain ⟨e, he, rfl⟩ := List.mem_map.1 ((isSome_node?_iff hnil).1 hlocation)
    exact (h.named e he).2

theorem of_placeFor? (h : disk.IsTree) (hplace : disk.placeFor? p = some place) :
    place ≠ [] ∧ (∀ name ∈ place, name.IsName) ∧ disk.node? place.dropLast = some .directory := by
  simp only [placeFor?, Option.bind_eq_bind, Option.bind_eq_some_iff] at hplace
  obtain ⟨parent, -, name, hname, hplace⟩ := hplace
  split at hplace
  · rename_i location _
    split_ifs at hplace with hdirectory
    cases hplace
    have hisName : name.IsName := by
      rw [Path.fileName?] at hname
      split at hname
      · rename_i bytes hlast
        cases hname
        exact Path.isName_of_mem_components (List.mem_of_getLast? hlast)
      · cases hname
    refine ⟨List.concat_ne_nil _ _, fun other hother => ?_, ?_⟩
    · rcases List.mem_append.1 hother with hother | hother
      · exact h.isName_of_mem (by rw [hdirectory.1]; rfl) other hother
      · exact List.mem_singleton.1 hother ▸ hisName
    · rw [List.dropLast_concat, hdirectory.1]
  · cases hplace

theorem make (h : disk.IsTree) (p : Path) (node : Node) : (disk.make p node).IsTree := by
  rw [Disk.make]
  split
  · rename_i place hplace
    split_ifs with hthere
    · exact h
    · obtain ⟨hnil, hnames, habove⟩ := h.of_placeFor? hplace
      exact h.put hnil hnames habove (fun hold => hthere (by simp [hold])) node
  · exact h

theorem makeDirectory (h : disk.IsTree) (p : Path) : (disk.makeDirectory p).IsTree := by
  rw [Disk.makeDirectory]
  induction p.ancestors.reverse generalizing disk with
  | nil => exact h
  | cons q rest ih =>
    apply ih
    dsimp only
    split
    · exact h.make q .directory
    · exact h

theorem put_filePlace? (h : disk.IsTree) {links : ℕ} (hplace : disk.filePlace? links p = some place)
    (contents : Bytes) : (disk.put place (.file contents)).IsTree := by
  obtain ⟨⟨q, hq⟩, hold⟩ := exists_placeFor? hplace
  obtain ⟨hnil, hnames, habove⟩ := h.of_placeFor? hq
  exact h.put hnil hnames habove hold _

theorem writeFile (h : disk.IsTree) (p : Path) (contents : Bytes) :
    (disk.writeFile p contents).IsTree := by
  rw [Disk.writeFile]
  cases p.parent? with
  | none =>
    dsimp only
    split
    · exact h.put_filePlace? ‹_› contents
    · exact h
  | some parent =>
    have hready := h.makeDirectory parent
    dsimp only
    split
    · exact hready.put_filePlace? ‹_› contents
    · exact hready

theorem change (h : disk.IsTree) (c : Change) : (disk.change c).IsTree := by
  cases c with
  | directory p => exact h.makeDirectory p
  | file p contents => exact h.writeFile p contents
  | link p target => exact h.make p _
  | removal p => exact h.remove p

end IsTree

theorem isTree_build (changes : List Change) : (build changes).IsTree := by
  induction changes using List.reverseRecOn with
  | nil => exact ⟨List.nodup_nil, by simp [build, default], by simp [build, default]⟩
  | append_singleton changes c ih =>
    rw [build, List.foldl_concat]
    exact ih.change c

/-- On a disk that was made in any way, reading a directory lists each thing that lies there once
and nothing else. -/
theorem entries_build (changes : List Change) (workingDirectory p : Path) {place : Location}
    (h : (build changes).directoryAt workingDirectory p = .ok place) :
    ∃ paths, (build changes).entries workingDirectory p = .ok paths ∧
      paths.Pairwise (fun q r => ¬q.Same r) ∧
      ∀ q : Path, (∃ path ∈ paths, path.Same q) ↔
        ∃ name, ((build changes).node? (place ++ [name])).isSome = true ∧
          q.components = p.components ++ [.name name] := by
  have htree := isTree_build changes
  have hcomponents {name : Bytes} (hname : name ∈ (build changes).namesIn place) :
      (p.join ⟨name⟩).components = p.components ++ [.name name] := by
    refine Path.components_join_name p (htree.isName_of_mem (mem_namesIn_iff.1 hname) name ?_)
    exact List.mem_append_right _ (List.mem_singleton_self name)
  refine ⟨((build changes).namesIn place).map fun name => p.join ⟨name⟩, ?_, ?_, ?_⟩
  · rw [entries, names_eq, h]
    rfl
  · refine List.pairwise_map.2 ((htree.nodup_namesIn place).imp_of_mem ?_)
    intro name other hname hother hne hsame
    rw [Path.Same, hcomponents hname, hcomponents hother, List.append_right_inj] at hsame
    exact hne (by simpa using hsame)
  · intro q
    simp only [List.mem_map, exists_exists_and_eq_and, ← mem_namesIn_iff]
    refine exists_congr fun name => and_congr_right fun hname => ?_
    rw [Path.Same, hcomponents hname, eq_comm]

end DirectoryWatch.Disk
