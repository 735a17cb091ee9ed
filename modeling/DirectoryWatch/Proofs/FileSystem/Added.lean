import DirectoryWatch.Proofs.FileSystem.Linked

/-!
# What was added to a listing

A change puts a path and everything above it where they are missing, and it takes nothing away. So
a listing holds the root, every path that was ever added and everything above one. Whatever was
added as a file is a file, even if a directory was there before or comes later.
-/
namespace DirectoryWatch.Listing

variable {l : Listing} {e : Edit} {edits more : List Edit} {p : Path}

/-- The change adds the path: it is the path that the change puts there, or one above that. -/
def Edit.Adds (e : Edit) (p : Path) : Prop :=
  match e with
  | .directory q => ∃ a ∈ q.ancestors, a.Same p
  | .file q => ∃ a ∈ q.ancestors, a.Same p
  | .denial _ => False

instance (e : Edit) (p : Path) : Decidable (e.Adds p) :=
  match e with
  | .directory q => inferInstanceAs (Decidable (∃ a ∈ q.ancestors, a.Same p))
  | .file q => inferInstanceAs (Decidable (∃ a ∈ q.ancestors, a.Same p))
  | .denial _ => inferInstanceAs (Decidable False)

/-- The path was ever added, by itself or as an ancestor. -/
def Added (edits : List Edit) (p : Path) : Prop := ∃ e ∈ edits, e.Adds p

instance (edits : List Edit) (p : Path) : Decidable (Added edits p) :=
  inferInstanceAs (Decidable (∃ e ∈ edits, e.Adds p))

theorem Edit.adds_iff (he : e.path.isAbsolute = true) :
    e.Adds p ↔ (∀ q, e ≠ .denial q) ∧ e.path.atOrBelow p = true ∧ p.components ≠ [] := by
  cases e with
  | directory q | file q =>
    exact (Path.exists_mem_ancestors_iff he).trans ⟨fun h => ⟨nofun, h⟩, And.right⟩
  | denial q => simp [Adds]

theorem Added.append (h : Added edits p) (more : List Edit) : Added (edits ++ more) p := by
  obtain ⟨e, he, hadds⟩ := h
  exact ⟨e, List.mem_append_left more he, hadds⟩

theorem build_concat (edits : List Edit) (e : Edit) :
    build (edits ++ [e]) = (build edits).edit e := by
  rw [build, List.foldl_append]
  rfl

theorem Linked.isSome_above (h : Linked ∅ l) {place other : List Component} (hplace : place ≠ [])
    (habove : place <+: other) (hother : (l.at? other).isSome = true) :
    (l.at? place).isSome = true := by
  obtain ⟨more, rfl⟩ := habove
  induction more using List.reverseRecOn with
  | nil => rwa [List.append_nil] at hother
  | append_singleton more c ih =>
    rw [← List.append_assoc] at hother
    exact ih (h.parent _ c hother (fun hin => hin) (by simp [hplace]))

theorem isSome_edit_of_isSome (h : (l.find? p).isSome = true) (e : Edit) :
    ((l.edit e).find? p).isSome = true := by
  cases e with
  | directory q => exact isSome_at?_addChain h
  | denial q => exact h
  | file q =>
    simp only [edit, addFile]
    split
    · exact isSome_at?_set h
    · rw [find?, isSome_at?_link]
      exact isSome_at?_addChain (isSome_at?_set h)

theorem isSome_or_adds_of_edit (h : ((l.edit e).find? p).isSome = true) :
    (l.find? p).isSome = true ∨ e.Adds p := by
  have hset {q : Path} (h : ((l.set q .file).find? p).isSome = true) :
      (l.find? p).isSome = true ∨ q.Same p := by
    rw [find?, at?_set] at h
    split at h
    · exact .inr (Eq.symm ‹_›)
    · exact .inl h
  cases e with
  | denial q => exact .inl h
  | directory q =>
    refine (mem_of_isSome_addChain h).imp_right ?_
    rintro ⟨a, ha, hp⟩
    exact ⟨a, ha, hp.symm⟩
  | file q =>
    simp only [edit, addFile] at h
    split at h
    · exact (hset h).imp_right fun hp => ⟨q, Path.mem_ancestors_self q, hp⟩
    · rename_i parent hparent
      rw [find?, isSome_at?_link] at h
      rcases mem_of_isSome_addChain h with h | ⟨a, ha, hp⟩
      · exact (hset h).imp_right fun hp => ⟨q, Path.mem_ancestors_self q, hp⟩
      · refine .inr ⟨a, ?_, hp.symm⟩
        rw [Path.ancestors_of_parent? hparent]
        exact List.mem_cons_of_mem q ha

theorem isSome_find?_edit (h : ∀ q, e ≠ .denial q) :
    ((l.edit e).find? e.path).isSome = true := by
  cases e with
  | directory q => exact isSome_find?_addDirectory l q
  | denial q => exact absurd rfl (h q)
  | file q =>
    have hset : ((l.set q .file).find? q).isSome = true := by simp [find?, at?_set]
    simp only [edit, addFile, Edit.path]
    split
    · exact hset
    · rw [find?, isSome_at?_link]
      exact isSome_at?_addChain hset

/-- A change keeps what is there and puts there what it adds. -/
theorem Linked.isSome_edit_iff (h : Linked ∅ l) (he : e.path.IsPlain) (p : Path) :
    ((l.edit e).find? p).isSome = true ↔ (l.find? p).isSome = true ∨ e.Adds p := by
  refine ⟨isSome_or_adds_of_edit, ?_⟩
  rintro (hp | hadds)
  · exact isSome_edit_of_isSome hp e
  · obtain ⟨hnot, hpath, hne⟩ := (Edit.adds_iff he.1).1 hadds
    exact (h.edit he).isSome_above hne (Path.atOrBelow_iff.1 hpath) (isSome_find?_edit hnot)

theorem isSome_find?_build_iff (h : ∀ e ∈ edits, e.path.IsPlain) (p : Path) :
    ((build edits).find? p).isSome = true ↔ p.components = [.root] ∨ Added edits p := by
  induction edits using List.reverseRecOn with
  | nil =>
    change (initial.at? p.components).isSome = true ↔ _
    simp [at?_initial, Added]
  | append_singleton edits e ih =>
    have hedits : ∀ e ∈ edits, e.path.IsPlain := fun e he => h e (by simp [he])
    rw [build_concat, (linked_build hedits).isSome_edit_iff (h e (by simp)), ih hedits, or_assoc]
    simp [Added, or_and_right, exists_or]

/-- A file is never replaced by a directory, and nothing but adding a file makes one. -/
theorem find?_edit_eq_file_iff :
    (l.edit e).find? p = some .file ↔
      l.find? p = some .file ∨ ∃ q, e = .file q ∧ q.Same p := by
  cases e with
  | directory q => simp [edit, addDirectory, find?, at?_addChain_eq_file_iff]
  | denial q => simp [edit, deny, find?, at?]
  | file q =>
    have hset : (l.set q .file).find? p = some .file ↔ l.find? p = some .file ∨ q.Same p := by
      rw [find?, at?_set]
      split
      · simp [Path.Same, *]
      · simp [Path.Same, find?, Ne.symm ‹_›]
    simp only [edit, addFile, Edit.file.injEq, exists_eq_left']
    split
    · exact hset
    · rw [find?, at?_link_eq_file_iff, addDirectory, at?_addChain_eq_file_iff]
      exact hset

theorem find?_build_eq_file_iff :
    (build edits).find? p = some .file ↔ ∃ q, .file q ∈ edits ∧ q.Same p := by
  induction edits using List.reverseRecOn with
  | nil =>
    change initial.at? p.components = some .file ↔ _
    rw [at?_initial]
    split <;> simp
  | append_singleton edits e ih =>
    rw [build_concat, find?_edit_eq_file_iff, ih]
    simp [or_and_right, exists_or, eq_comm]

end DirectoryWatch.Listing
