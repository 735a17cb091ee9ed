import DirectoryWatch.FileSystem.Disk
import DirectoryWatch.Proofs.FileSystem.Spelling
import DirectoryWatch.Proofs.Path.Rest

/-!
# Where paths lead on a disk

Whether a path leads to a directory, and to which, goes by its components, as long as the path is
not too long to be followed at all. The place that it leads to is reached by its own names from the
root, without links.
-/
namespace DirectoryWatch.Disk

variable {disk : Disk} {links : ℕ} {location place : Location} {segment : Bytes}
  {rest segments others : List Bytes} {p q workingDirectory : Path}

theorem follow_nil : disk.follow links location [] = .ok location := by rw [follow]

theorem follow_cons :
    disk.follow links location (segment :: rest) =
      match disk.enter links location segment with
      | .ok (links, location, before) => disk.follow links location (before ++ rest)
      | .error e => .error e := by
  rw [follow]
  split <;> simp only [*]

theorem follow_of_idle (hidle : Path.idle segment = true)
    (h : disk.node? location = some .directory) :
    disk.follow links location (segment :: rest) = disk.follow links location rest := by
  rw [follow_cons, enter, if_neg (not_not.2 h), if_pos (Path.idle_iff.1 hidle)]
  rfl

/-- What was found, if it is a directory. -/
def onlyDirectory (disk : Disk) : Except IoError Location → Except IoError Location
  | .ok place => if disk.node? place = some .directory then .ok place else .error .notADirectory
  | .error e => .error e

def directoryFrom (disk : Disk) (links : ℕ) (location : Location) (segments : List Bytes) :
    Except IoError Location :=
  disk.onlyDirectory (disk.follow links location segments)

theorem directoryFrom_cons :
    disk.directoryFrom links location (segment :: rest) =
      match disk.enter links location segment with
      | .ok (links, location, before) => disk.directoryFrom links location (before ++ rest)
      | .error e => .error e := by
  rw [directoryFrom, follow_cons]
  cases disk.enter links location segment <;> rfl

theorem directoryFrom_of_not_directory (h : disk.node? location ≠ some .directory) :
    disk.directoryFrom links location segments = .error .notADirectory := by
  cases segments with
  | nil =>
    rw [directoryFrom, follow_nil]
    exact if_neg h
  | cons => rw [directoryFrom_cons, enter, if_pos h]

theorem directoryFrom_trimStart (segments : List Bytes) :
    disk.directoryFrom links location (Path.trimStart segments) =
      disk.directoryFrom links location segments := by
  induction segments with
  | nil => rfl
  | cons segment rest ih =>
    cases hidle : Path.idle segment with
    | false => rw [Path.trimStart_of_not_idle hidle]
    | true =>
      rw [Path.trimStart_of_idle hidle, ih]
      by_cases hdirectory : disk.node? location = some .directory
      · rw [directoryFrom, directoryFrom, follow_of_idle hidle hdirectory]
      · rw [directoryFrom_of_not_directory hdirectory, directoryFrom_of_not_directory hdirectory]

theorem exists_directoryFrom_cons
    (h : (segment :: rest).filterMap Component.ofSegment? =
      others.filterMap Component.ofSegment?) :
    ∃ more, disk.directoryFrom links location others =
        disk.directoryFrom links location (segment :: more) ∧
      rest.filterMap Component.ofSegment? = more.filterMap Component.ofSegment? := by
  cases hc : Component.ofSegment? segment with
  | none =>
    rw [List.filterMap_cons_none hc] at h
    refine ⟨others, ?_, h⟩
    rw [← directoryFrom_trimStart (segment :: others),
      Path.trimStart_of_idle (Path.ofSegment?_eq_none_iff.1 hc), directoryFrom_trimStart]
  | some c =>
    rw [List.filterMap_cons_some hc] at h
    obtain ⟨more, hstart, -, hmore, -⟩ := Path.exists_trimStart_eq h.symm
    rw [← directoryFrom_trimStart others, hstart, Path.ofSegment?_bytes hc]
    exact ⟨more, rfl, hmore.symm⟩

/-- Segments that stand for no component lead nowhere else. -/
theorem directoryFrom_congr
    (h : segments.filterMap Component.ofSegment? = others.filterMap Component.ofSegment?) :
    disk.directoryFrom links location segments = disk.directoryFrom links location others := by
  induction links, location, segments using follow.induct disk generalizing others with
  | case1 links location =>
    have hothers : Path.trimStart others = [] :=
      List.dropWhile_eq_nil_iff.2 fun segment hsegment =>
        Path.ofSegment?_eq_none_iff.1 (List.filterMap_eq_nil_iff.1 h.symm segment hsegment)
    rw [← directoryFrom_trimStart others, hothers]
  | case2 links location segment rest links' place before henter ih =>
    obtain ⟨more, hcons, hmore⟩ := exists_directoryFrom_cons h
    rw [hcons, directoryFrom_cons, directoryFrom_cons, henter]
    exact ih (by rw [List.filterMap_append, List.filterMap_append, hmore])
  | case3 links location segment rest e henter =>
    obtain ⟨more, hcons, -⟩ := exists_directoryFrom_cons h
    rw [hcons, directoryFrom_cons, directoryFrom_cons, henter]

def directoryAt (disk : Disk) (workingDirectory p : Path) : Except IoError Location :=
  disk.onlyDirectory (disk.locate workingDirectory p)

theorem isDirectory_eq (disk : Disk) (workingDirectory p : Path) :
    disk.isDirectory workingDirectory p =
      match disk.directoryAt workingDirectory p with
      | .ok _ => .ok true
      | .error .notFound => .ok false
      | .error .notADirectory => .ok false
      | .error e => .error ⟨"inspecting " ++ p.quoted, [e.message]⟩ := by
  rw [isDirectory, directoryAt]
  cases disk.locate workingDirectory p with
  | error e => cases e <;> rfl
  | ok place =>
    by_cases hplace : disk.node? place = some .directory <;> simp [onlyDirectory, hplace]

theorem names_eq (disk : Disk) (workingDirectory p : Path) :
    disk.names workingDirectory p = (disk.directoryAt workingDirectory p).map disk.namesIn := by
  rw [names, directoryAt]
  cases disk.locate workingDirectory p with
  | error e => rfl
  | ok place =>
    by_cases hplace : disk.node? place = some .directory <;>
      simp [onlyDirectory, hplace, bind, Except.bind, pure, Except.pure, Except.map]

theorem directoryAt_of_length_lt (h : p.bytes.length < longestPath) :
    disk.directoryAt workingDirectory p =
      if p.bytes.contains 0 then .error .nulInPath
      else if p.isEmpty then .error .notFound
      else disk.directoryFrom mostLinks [] (Bytes.split slash (workingDirectory.join p).bytes) := by
  rw [directoryAt, locate, if_neg (Nat.not_le.2 h)]
  split_ifs <;> rfl

theorem directoryAt_congr (disk : Disk) (workingDirectory : Path) (h : p.Same q)
    (hp : p.bytes.length < longestPath) (hq : q.bytes.length < longestPath) :
    disk.directoryAt workingDirectory p = disk.directoryAt workingDirectory q := by
  have hsegments : disk.directoryFrom mostLinks []
      (Bytes.split slash (workingDirectory.join p).bytes) =
        disk.directoryFrom mostLinks [] (Bytes.split slash (workingDirectory.join q).bytes) := by
    apply directoryFrom_congr
    rw [Path.filterMap_split, Path.filterMap_split, (h.join_right _).inner]
  rw [directoryAt_of_length_lt hp, directoryAt_of_length_lt hq, hsegments, h.isEmpty,
    h.contains_bytes (by decide) (by decide)]

/-- A disk answers alike for the same path, however it is spelled, where no spelling is too long. -/
theorem answers_congr (disk : Disk) (workingDirectory : Path) (h : p.Same q)
    (hp : p.bytes.length < longestPath) (hq : q.bytes.length < longestPath) :
    Alongside Eq Eq ((fileSystem workingDirectory).isDirectory p disk)
        ((fileSystem workingDirectory).isDirectory q disk) ∧
      Alongside Path.AllSame Eq ((fileSystem workingDirectory).entries p disk)
        ((fileSystem workingDirectory).entries q disk) := by
  have hplace := directoryAt_congr disk workingDirectory h hp hq
  simp only [fileSystem, isDirectory_eq, entries, names_eq, hplace]
  cases disk.directoryAt workingDirectory q with
  | error e => exact ⟨by cases e <;> constructor <;> rfl, .error rfl⟩
  | ok place =>
    refine ⟨.ok rfl rfl, .ok ?_ rfl⟩
    exact List.forall₂_map_left_iff.2 (List.forall₂_map_right_iff.2
      (List.forall₂_same.2 fun name _ => h.join ⟨name⟩))

/-- Everything on the way from the root to the place is a directory, and the place is no link. -/
inductive Direct (disk : Disk) : Location → Prop
  | root : Direct disk []
  | child {location : Location} {name : Bytes} {node : Node} (above : Direct disk location)
      (directory : disk.node? location = some .directory) (isName : name.IsName)
      (short : name.length ≤ longestName) (there : disk.node? (location ++ [name]) = some node)
      (noLink : ∀ target, node ≠ .link target) : Direct disk (location ++ [name])

namespace Direct

theorem dropLast (h : disk.Direct location) : disk.Direct location.dropLast := by
  cases h with
  | root => exact .root
  | child above => rwa [List.dropLast_concat]

theorem slash_notMem (h : disk.Direct location) : ∀ name ∈ location, slash ∉ name := by
  induction h with
  | root => simp
  | child _ _ isName _ _ _ ih =>
    intro name hname
    rcases List.mem_append.1 hname with hname | hname
    · exact ih name hname
    · exact List.mem_singleton.1 hname ▸ isName.1

theorem enter (h : disk.Direct location) (hslash : slash ∉ segment) {links' : ℕ}
    {before : List Bytes} (henter : disk.enter links location segment = .ok (links', place, before)) :
    disk.Direct place ∧ ∀ piece ∈ before, slash ∉ piece := by
  cases enters henter with
  | idle => exact ⟨h, by simp⟩
  | up => exact ⟨h.dropLast, by simp⟩
  | down directory active notUp short there noLink =>
    have hname : Component.ofSegment? segment = some (.name segment) := by
      rw [Component.ofSegment?, if_neg active, if_neg notUp]
    exact ⟨.child h directory ⟨hslash, hname⟩ short there noLink, by simp⟩
  | link =>
    refine ⟨?_, fun piece hpiece => Bytes.sep_notMem_of_mem_split hpiece⟩
    split_ifs
    · exact .root
    · exact h

theorem follow (h : disk.Direct location) (hsegments : ∀ segment ∈ segments, slash ∉ segment)
    (hplace : disk.follow links location segments = .ok place) : disk.Direct place := by
  induction links, location, segments using Disk.follow.induct disk with
  | case1 links location =>
    rw [follow_nil] at hplace
    exact Except.ok.inj hplace ▸ h
  | case2 links location segment rest links' next before henter ih =>
    obtain ⟨hsegment, hrest⟩ := List.forall_mem_cons.1 hsegments
    obtain ⟨hnext, hbefore⟩ := h.enter hsegment henter
    rw [follow_cons, henter] at hplace
    refine ih hnext (fun piece hpiece => ?_) hplace
    exact (List.mem_append.1 hpiece).elim (hbefore piece) (hrest piece)
  | case3 links location segment rest e henter =>
    rw [follow_cons, henter] at hplace
    cases hplace

/-- Such a place is found from the root by its own names, whatever the number of links that may be
met. -/
theorem follow_append (h : disk.Direct location) (rest : List Bytes) :
    disk.follow links [] (location ++ rest) = disk.follow links location rest := by
  induction h generalizing rest with
  | root => rfl
  | @child location name node _ directory isName short there noLink ih =>
    have henter : disk.enter links location name = .ok (links, location ++ [name], []) := by
      have hidle : ¬(name = [] ∨ name = [dot]) := by
        rw [← Path.idle_iff, ← Path.ofSegment?_eq_none_iff, isName.2]
        simp
      have hparent : name ≠ [dot, dot] := by
        rintro rfl
        cases isName.2
      rw [Disk.enter, if_neg (not_not.2 directory), if_neg hidle, if_neg hparent,
        if_neg (Nat.not_lt.2 short), there]
      cases node with
      | link target => exact absurd rfl (noLink target)
      | _ => rfl
    rw [List.append_assoc, ih, List.singleton_append, follow_cons, henter]
    rfl

end Direct

theorem direct_of_locate (h : disk.locate workingDirectory p = .ok place) : disk.Direct place := by
  rw [locate] at h
  split_ifs at h
  exact Direct.root.follow (fun _ hsegment => Bytes.sep_notMem_of_mem_split hsegment) h

theorem Direct.follow_split (h : disk.Direct place) :
    disk.follow links [] (Bytes.split slash (Path.ofParts .root place).bytes) = .ok place := by
  have hsplit : Bytes.split slash (Path.ofParts .root place).bytes =
      [] :: Bytes.split slash (Bytes.join slash place) := rfl
  rw [hsplit, follow_of_idle rfl rfl]
  by_cases hnil : place = []
  · subst hnil
    exact (follow_of_idle rfl rfl).trans follow_nil
  · rw [Bytes.split_join hnil h.slash_notMem, ← List.append_nil place, h.follow_append, follow_nil,
      List.append_nil]

/-- A resolved path leads to the same place, where the same is read, and resolves to itself. -/
theorem locate_of_resolve (h : disk.resolve workingDirectory p = .ok q)
    (hlength : q.bytes.length < longestPath) (hnul : q.bytes.contains 0 = false) :
    disk.locate workingDirectory q = disk.locate workingDirectory p ∧
      disk.read workingDirectory q = disk.read workingDirectory p ∧
      disk.resolve workingDirectory q = .ok q := by
  cases hplace : disk.locate workingDirectory p with
  | error e =>
    rw [resolve, hplace] at h
    cases h
  | ok place =>
    rw [resolve, hplace] at h
    cases h
    have habsolute : (Path.ofParts .root place).isAbsolute = true :=
      Path.isAbsolute_iff_bytes.2 rfl
    have hlocate : disk.locate workingDirectory (.ofParts .root place) = .ok place := by
      rw [locate, hnul, if_neg Bool.false_ne_true, if_neg (Nat.not_le.2 hlength),
        if_neg (by simp [Path.isEmpty, Path.ofParts, Anchor.bytes]), Path.join, if_pos habsolute]
      exact (direct_of_locate hplace).follow_split
    refine ⟨hlocate, ?_, ?_⟩
    · rw [read, read, hlocate, hplace]
    · rw [resolve, hlocate]
      rfl

end DirectoryWatch.Disk
