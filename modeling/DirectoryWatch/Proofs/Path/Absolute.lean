import DirectoryWatch.Proofs.Path.Components
import DirectoryWatch.Proofs.Path.Topmost

/-!
# Components of absolute forms

A relative path that is not empty has the components of the working directory and then its own,
without a leading `.`. So absolute forms keep what lies below what.
-/
namespace DirectoryWatch.Path

theorem exists_segments_eq_cons {p : Path} (hanchor : p.anchor = .none) (hne : p.bytes ≠ []) :
    ∃ segment more, p.segments = segment :: more ∧ idle segment = false := by
  obtain ⟨bytes⟩ := p
  obtain ⟨b, rest, rfl⟩ := List.exists_cons_of_ne_nil hne
  have hanchored : anchored (b :: rest) = (.none, b :: rest) := by
    have hbytes := bytes_anchored (b :: rest)
    rw [show (anchored (b :: rest)).1 = .none from hanchor] at hbytes
    exact Prod.ext hanchor hbytes
  have hslash : b ≠ slash := by
    rintro rfl
    cases rest <;> simp [anchored] at hanchored
  obtain ⟨piece, more, hsplit⟩ := List.exists_cons_of_ne_nil (Bytes.split_ne_nil slash rest)
  refine ⟨b :: piece, more, ?_, ?_⟩
  · rw [segments, hanchored, Bytes.split, if_neg hslash, hsplit]
  · rw [Bool.eq_false_iff, ne_eq, idle_iff]
    rintro (hnil | hdot)
    · cases hnil
    · obtain ⟨rfl, rfl⟩ := List.cons.inj hdot
      cases rest with
      | nil => simp [anchored, slash, dot] at hanchored
      | cons c rest =>
        have hc : c ≠ slash := by
          rintro rfl
          simp [anchored, slash, dot] at hanchored
        rw [Bytes.split, if_neg hc] at hsplit
        split at hsplit <;> cases hsplit

theorem isEmpty_iff_components {p : Path} : p.isEmpty = true ↔ p.components = [] := by
  rw [isEmpty, List.isEmpty_iff]
  constructor
  · intro h
    obtain ⟨bytes⟩ := p
    cases h
    rfl
  · intro h
    obtain ⟨hanchor, hsegments⟩ := List.append_eq_nil_iff.1 h
    by_contra hne
    have hnone : p.anchor = .none := by cases ha : p.anchor <;> simp_all [Anchor.components]
    obtain ⟨segment, more, hcons, hfirst⟩ := exists_segments_eq_cons hnone hne
    rw [hcons, List.filterMap_cons] at hsegments
    split at hsegments
    · rename_i hidle
      simp [ofSegment?_eq_none_iff.1 hidle] at hfirst
    · cases hsegments

theorem not_isAbsolute_of_isEmpty {p : Path} (h : p.isEmpty = true) : p.isAbsolute = false := by
  rw [Bool.eq_false_iff]
  intro habsolute
  exact components_ne_nil habsolute (isEmpty_iff_components.1 h)

theorem components_join_empty (base : Path) : (base.join ⟨[]⟩).components = base.components := by
  obtain ⟨bytes⟩ := base
  have hrel : (⟨[]⟩ : Path).isAbsolute = false := rfl
  rw [join, hrel, if_neg Bool.false_ne_true]
  split
  · rw [List.append_nil]
  · rename_i hbytes
    rw [components_append_slash fun hnil => hbytes (.inl hnil)]
    simp [Bytes.split, Component.ofSegment?]

theorem ofSegment?_bytes {segment : Bytes} {c : Component}
    (h : Component.ofSegment? segment = some c) : c.bytes = segment := by
  simp only [Component.ofSegment?] at h
  split_ifs at h with hidle hparent
  · cases h
    exact hparent.symm
  · cases h
    rfl

theorem components_joinAll (base : Path) {pieces : List Bytes}
    (h : ∀ piece ∈ pieces, slash ∉ piece) :
    (joinAll base (pieces.filterMap Component.ofSegment?)).components =
      base.components ++ pieces.filterMap Component.ofSegment? := by
  induction pieces generalizing base with
  | nil => exact (List.append_nil _).symm
  | cons piece rest ih =>
    have hrest := fun base => ih base fun other hother => h other (List.mem_cons_of_mem piece hother)
    cases hpiece : Component.ofSegment? piece with
    | none => rw [List.filterMap_cons_none hpiece, hrest]
    | some c =>
      rw [List.filterMap_cons_some hpiece, joinAll, List.foldl_cons, ← joinAll, hrest,
        ofSegment?_bytes hpiece, components_join_segment base (h piece (by simp)) hpiece,
        List.append_assoc, List.singleton_append]

theorem isAbsolute_of_hasDoubleRoot {p : Path} (h : p.hasDoubleRoot = true) :
    p.isAbsolute = true := by
  rw [isAbsolute_iff_bytes]
  simp only [hasDoubleRoot, decide_eq_true_eq] at h
  rcases hbytes : p.bytes with _ | ⟨b, rest⟩
  · simp [hbytes] at h
  · simp only [hbytes, List.take_succ_cons, List.cons.injEq] at h
    simp [h.1.1]

theorem filterMap_ne_current (segments : List Bytes) :
    (segments.filterMap Component.ofSegment?).filter (· != .current) =
      segments.filterMap Component.ofSegment? := by
  refine List.filter_eq_self.2 fun c hc => ?_
  obtain ⟨segment, -, hsegment⟩ := List.mem_filterMap.1 hc
  simp only [Component.ofSegment?] at hsegment
  split_ifs at hsegment <;> cases hsegment <;> rfl

theorem filter_components {p : Path} (hp : p.isAbsolute = false) :
    p.components.filter (· != .current) = p.segments.filterMap Component.ofSegment? := by
  have hanchor : p.anchor.components.filter (· != .current) = [] := by
    rw [isAbsolute, decide_eq_false_iff_not] at hp
    cases ha : p.anchor <;> simp_all [Anchor.components]
  rw [components, List.filter_append, hanchor, filterMap_ne_current, List.nil_append]

theorem components_absoluteFrom {p : Path} (hp : p.isAbsolute = false) (workingDirectory : Path) :
    (p.absoluteFrom workingDirectory).components =
      workingDirectory.components ++ p.components.filter (· != .current) := by
  have hdouble : p.hasDoubleRoot = false := by
    rw [Bool.eq_false_iff]
    intro h
    simp [isAbsolute_of_hasDoubleRoot h] at hp
  have hjoined := components_joinAll workingDirectory
    (fun piece hpiece => Bytes.sep_notMem_of_mem_split hpiece : ∀ piece ∈ p.segments, slash ∉ piece)
  rw [filter_components hp, ← hjoined, absoluteFrom]
  simp only [hdouble, hp, Bool.false_eq_true, if_false]
  split
  · exact components_join_empty _
  · rfl

/-- The path as it is, where it is absolute, and its absolute form otherwise. -/
def formFrom (p workingDirectory : Path) : Path :=
  if p.isAbsolute then p else p.absoluteFrom workingDirectory

theorem isAbsolute_formFrom (p : Path) {workingDirectory : Path}
    (h : workingDirectory.isAbsolute = true) : (p.formFrom workingDirectory).isAbsolute = true := by
  rw [formFrom]
  split
  · assumption
  · exact isAbsolute_absoluteFrom p h

theorem atOrBelow_formFrom {p top : Path} (workingDirectory : Path) (h : p.atOrBelow top = true)
    (htop : top.isEmpty = false) :
    (p.formFrom workingDirectory).atOrBelow (top.formFrom workingDirectory) = true := by
  have hne : top.components ≠ [] := fun hnil => by simp [isEmpty_iff_components.2 hnil] at htop
  obtain ⟨more, hmore⟩ := atOrBelow_iff.1 h
  have habsolute : p.isAbsolute = top.isAbsolute := by
    rw [Bool.eq_iff_iff, isAbsolute_iff_components, isAbsolute_iff_components, ← hmore,
      List.head?_append_of_ne_nil _ hne]
  rw [formFrom, formFrom, habsolute]
  cases hrelative : top.isAbsolute with
  | true => exact h
  | false =>
    simp only [Bool.false_eq_true, if_false]
    rw [atOrBelow_iff, components_absoluteFrom hrelative,
      components_absoluteFrom (habsolute.trans hrelative), List.prefix_append_right_inj]
    exact (atOrBelow_iff.1 h).filter _

end DirectoryWatch.Path
