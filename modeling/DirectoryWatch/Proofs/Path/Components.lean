import DirectoryWatch.Path.Absolute
import DirectoryWatch.Path.Coverage
import Mathlib.Data.List.DropRight

/-!
# Components of joins, parents and ancestors

What the operations on spellings do to the components: joining a name appends it, the parent
drops the last one, and the ancestors of a path are the paths it lies at or below.
-/
namespace DirectoryWatch

/-- A segment that is a name and neither empty nor `.` nor `..`. -/
def Bytes.IsName (name : Bytes) : Prop :=
  slash ∉ name ∧ Component.ofSegment? name = some (.name name)

namespace Path

theorem anchored_append_slash {bytes : Bytes} (h : bytes ≠ []) (rest : Bytes) :
    anchored (bytes ++ slash :: rest) =
      ((anchored bytes).1, (anchored bytes).2 ++ slash :: rest) := by
  fun_cases anchored bytes <;> simp_all [anchored]

theorem components_append_slash {bytes : Bytes} (h : bytes ≠ []) (rest : Bytes) :
    components ⟨bytes ++ slash :: rest⟩ =
      components ⟨bytes⟩ ++ (Bytes.split slash rest).filterMap Component.ofSegment? := by
  simp only [components, anchor, segments, anchored_append_slash h, Bytes.split_append_sep,
    List.filterMap_append, List.append_assoc]

theorem components_of_segment {segment : Bytes} {c : Component} (hslash : slash ∉ segment)
    (hc : Component.ofSegment? segment = some c) : components ⟨segment⟩ = [c] := by
  have hanchored : anchored segment = (.none, segment) := by
    fun_cases anchored segment <;> simp_all [Component.ofSegment?]
  simp [components, anchor, segments, hanchored, Anchor.components,
    Bytes.split_of_notMem hslash, hc]

/-- A relative path is put below a path that is not empty by its segments. -/
theorem components_join {base p : Path} (hbase : base.bytes ≠ []) (hp : p.isAbsolute = false) :
    (base.join p).components =
      base.components ++ (Bytes.split slash p.bytes).filterMap Component.ofSegment? := by
  obtain ⟨bytes⟩ := base
  have hrel : ¬p.isAbsolute = true := by simp [hp]
  by_cases hlast : bytes.getLast? = some slash
  · obtain ⟨init, rfl⟩ := List.getLast?_eq_some_iff.1 hlast
    rw [join, if_neg hrel, if_pos (.inr hlast), List.append_assoc, List.singleton_append]
    by_cases hinit : init = []
    · subst hinit
      cases p.bytes <;> simp [components, anchor, segments, anchored, Anchor.components,
        Bytes.split, Component.ofSegment?]
    · rw [components_append_slash hinit, components_append_slash hinit]
      simp [Bytes.split, Component.ofSegment?]
  · rw [join, if_neg hrel, if_neg (by simp [hlast, hbase]), components_append_slash hbase]

theorem components_join_segment (base : Path) {segment : Bytes} {c : Component}
    (hslash : slash ∉ segment) (hc : Component.ofSegment? segment = some c) :
    (base.join ⟨segment⟩).components = base.components ++ [c] := by
  have hrel : (⟨segment⟩ : Path).isAbsolute = false := by
    have hanchored : anchored segment = (.none, segment) := by
      fun_cases anchored segment <;> simp_all [Component.ofSegment?]
    simp [isAbsolute, anchor, hanchored]
  by_cases hempty : base.bytes = []
  · simpa [join, hrel, hempty, components, anchor, segments, anchored, Anchor.components,
      Bytes.split, Component.ofSegment?] using components_of_segment hslash hc
  · rw [components_join hempty hrel]
    simp [Bytes.split_of_notMem hslash, hc]

theorem components_join_name (base : Path) {name : Bytes} (h : name.IsName) :
    (base.join ⟨name⟩).components = base.components ++ [.name name] :=
  components_join_segment base h.1 h.2

theorem ofSegment?_eq_none_iff {segment : Bytes} :
    Component.ofSegment? segment = none ↔ idle segment = true := by
  simp [idle]

theorem idle_iff {segment : Bytes} : idle segment = true ↔ segment = [] ∨ segment = [dot] := by
  rw [← ofSegment?_eq_none_iff, Component.ofSegment?]
  split
  · simp [*]
  · split <;> simp_all

theorem isName_of_mem_components {p : Path} {name : Bytes}
    (h : Component.name name ∈ p.components) : name.IsName := by
  rcases List.mem_append.1 h with h | h
  · cases ha : p.anchor <;> simp_all [Anchor.components]
  · obtain ⟨segment, hmem, hname⟩ := List.mem_filterMap.1 h
    have heq : segment = name := by
      simp only [Component.ofSegment?] at hname
      split_ifs at hname <;> simp_all
    subst heq
    exact ⟨Bytes.sep_notMem_of_mem_split hmem, hname⟩

theorem components_ofParts {p : Path} {first : List Bytes} (h : first <+: p.segments) :
    (ofParts p.anchor first).components =
      p.anchor.components ++ first.filterMap Component.ofSegment? := by
  obtain ⟨more, hmore⟩ := h
  have hpieces : ∀ piece ∈ first ++ more, slash ∉ piece := by
    rw [hmore]
    exact fun piece hpiece => Bytes.sep_notMem_of_mem_split hpiece
  by_cases hmoreNil : more = []
  · rw [hmoreNil, List.append_nil] at hmore
    rw [hmore, ofParts_segments, components]
  by_cases hfirst : first = []
  · subst hfirst
    cases p.anchor <;> rfl
  by_cases hempty : p.anchor.bytes ++ Bytes.join slash first = []
  · obtain ⟨hanchor, hjoin⟩ := List.append_eq_nil_iff.1 hempty
    have hnone : p.anchor = .none := by cases ha : p.anchor <;> simp_all [Anchor.bytes]
    cases first with
    | nil => contradiction
    | cons piece rest =>
      cases rest with
      | nil =>
        have hpiece : piece = [] := hjoin
        subst hpiece
        rw [hnone]
        rfl
      | cons => simp [Bytes.join] at hjoin
  have hbytes : p.bytes = (p.anchor.bytes ++ Bytes.join slash first) ++
      slash :: Bytes.join slash more := by
    have hp := congrArg Path.bytes (ofParts_segments p)
    rw [ofParts, ← hmore, Bytes.join_append hfirst hmoreNil, ← List.append_assoc] at hp
    exact hp.symm
  have hcomponents := components_append_slash hempty (Bytes.join slash more)
  rw [← hbytes, Bytes.split_join hmoreNil fun piece hpiece => hpieces piece (by simp [hpiece])]
    at hcomponents
  change p.components = _ at hcomponents
  rw [components, ← hmore, List.filterMap_append, ← List.append_assoc] at hcomponents
  exact (List.append_cancel_right hcomponents).symm

theorem filterMap_trimEnd (segments : List Bytes) :
    (trimEnd segments).filterMap Component.ofSegment? =
      segments.filterMap Component.ofSegment? := by
  change (segments.rdropWhile idle).filterMap _ = _
  induction segments using List.reverseRecOn with
  | nil => rfl
  | append_singleton segments segment ih =>
    rw [List.rdropWhile_concat]
    split
    · rename_i hidle
      rw [ih, List.filterMap_append, List.filterMap_cons_none (ofSegment?_eq_none_iff.2 hidle)]
      simp
    · rfl

theorem filterMap_trimEnd_dropLast {segments : List Bytes} (h : trimEnd segments ≠ []) :
    ∃ c, (trimEnd segments).filterMap Component.ofSegment? =
      (trimEnd segments).dropLast.filterMap Component.ofSegment? ++ [c] := by
  have hlast : ¬idle ((trimEnd segments).getLast h) = true :=
    List.rdropWhile_last_not idle segments h
  obtain ⟨c, hc⟩ : ∃ c, Component.ofSegment? ((trimEnd segments).getLast h) = some c := by
    cases hc : Component.ofSegment? ((trimEnd segments).getLast h) with
    | none => exact absurd (ofSegment?_eq_none_iff.1 hc) hlast
    | some c => exact ⟨c, rfl⟩
  refine ⟨c, ?_⟩
  conv_lhs => rw [← List.dropLast_append_getLast h]
  rw [List.filterMap_append, List.filterMap_cons_some hc, List.filterMap_nil]

theorem trimEnd_eq_nil_iff {segments : List Bytes} :
    trimEnd segments = [] ↔ segments.filterMap Component.ofSegment? = [] := by
  constructor
  · intro h
    rw [← filterMap_trimEnd, h, List.filterMap_nil]
  · intro h
    by_contra hne
    obtain ⟨c, hc⟩ := filterMap_trimEnd_dropLast hne
    rw [filterMap_trimEnd, h] at hc
    simp at hc

theorem root_notMem_filterMap (segments : List Bytes) :
    Component.root ∉ segments.filterMap Component.ofSegment? := by
  intro h
  obtain ⟨segment, -, hsegment⟩ := List.mem_filterMap.1 h
  simp only [Component.ofSegment?] at hsegment
  split_ifs at hsegment <;> cases hsegment

theorem components_of_parent? {p q : Path} (h : p.parent? = some q) :
    ∃ c, p.components = q.components ++ [c] := by
  have htrim := filterMap_trimEnd p.segments
  rw [parent?] at h
  split at h
  · rename_i hnil hanchor
    cases h
    rw [hnil, List.filterMap_nil] at htrim
    exact ⟨.current, by rw [components, hanchor, ← htrim]; rfl⟩
  · cases h
  · rename_i hcases _
    have hne : trimEnd p.segments ≠ [] := by simpa using hcases
    obtain ⟨c, hc⟩ := filterMap_trimEnd_dropLast hne
    have hcont : trimEnd (trimEnd p.segments).dropLast <+: p.segments :=
      (List.rdropWhile_prefix idle _).trans
        ((List.dropLast_prefix _).trans (List.rdropWhile_prefix idle _))
    cases h
    refine ⟨c, ?_⟩
    rw [components_ofParts hcont, filterMap_trimEnd, components, ← htrim, hc, List.append_assoc]

theorem parent?_eq_none_iff {p : Path} :
    p.parent? = none ↔ p.components = [] ∨ p.components = [.root] := by
  constructor
  · intro h
    rw [parent?] at h
    split at h
    · cases h
    · rename_i hnil hanchor
      rw [components, trimEnd_eq_nil_iff.1 hnil]
      cases ha : p.anchor <;> simp_all [Anchor.components]
    · cases h
  · intro h
    have hroot := root_notMem_filterMap p.segments
    have hnil : trimEnd p.segments = [] := by
      rw [trimEnd_eq_nil_iff]
      rw [components] at h
      rcases h with h | h
      · exact (List.append_eq_nil_iff.1 h).2
      · cases ha : p.anchor with
        | root => simpa [ha, Anchor.components] using h
        | current => simp [ha, Anchor.components] at h
        | none =>
          rw [ha, Anchor.components, List.nil_append] at h
          simp [h] at hroot
    have hanchor : p.anchor ≠ .current := by
      intro ha
      rw [components, ha] at h
      simp [Anchor.components] at h
    rw [parent?, hnil]
    cases ha : p.anchor <;> simp_all

theorem ancestors_of_parent?_eq_none {p : Path} (h : p.parent? = none) : p.ancestors = [p] := by
  rw [ancestors]
  cases p.components.length with
  | zero => rfl
  | succ n => rw [ancestorsUpTo, h]

theorem ancestors_of_parent? {p parent : Path} (h : p.parent? = some parent) :
    p.ancestors = p :: parent.ancestors := by
  obtain ⟨c, hc⟩ := components_of_parent? h
  rw [ancestors, hc, List.length_append, List.length_singleton, ancestorsUpTo, h]
  rfl

theorem ancestors_eq_cons (p : Path) : p.ancestors = p :: p.ancestors.tail := by
  cases hparent : p.parent? with
  | none => rw [ancestors_of_parent?_eq_none hparent, List.tail_cons]
  | some parent => rw [ancestors_of_parent? hparent, List.tail_cons]

theorem mem_ancestors_self (p : Path) : p ∈ p.ancestors := by
  rw [ancestors_eq_cons]
  exact List.mem_cons_self

theorem length_components_of_parent? {p parent : Path} (h : p.parent? = some parent) :
    parent.components.length < p.components.length := by
  obtain ⟨c, hc⟩ := components_of_parent? h
  simp [hc]

theorem parentInduction {motive : Path → Prop} (top : ∀ p, p.parent? = none → motive p)
    (child : ∀ p parent, p.parent? = some parent → motive parent → motive p) (p : Path) :
    motive p := by
  cases hparent : p.parent? with
  | none => exact top p hparent
  | some parent => exact child p parent hparent (parentInduction top child parent)
termination_by p.components.length
decreasing_by exact length_components_of_parent? hparent

theorem atOrBelow_parent {p parent : Path} (h : p.parent? = some parent) :
    p.atOrBelow parent = true := by
  obtain ⟨c, hc⟩ := components_of_parent? h
  exact atOrBelow_iff.2 ⟨[c], hc.symm⟩

theorem atOrBelow_of_mem_ancestors {p q : Path} (h : q ∈ p.ancestors) : p.atOrBelow q = true := by
  cases hparent : p.parent? with
  | none =>
    rw [ancestors_of_parent?_eq_none hparent, List.mem_singleton] at h
    rw [h]
    exact atOrBelow_refl p
  | some parent =>
    rw [ancestors_of_parent? hparent] at h
    rcases List.mem_cons.1 h with rfl | h
    · exact atOrBelow_refl q
    · exact atOrBelow_trans (atOrBelow_parent hparent) (atOrBelow_of_mem_ancestors h)
termination_by p.components.length
decreasing_by exact length_components_of_parent? hparent

theorem isAbsolute_iff_anchor {p : Path} : p.isAbsolute = true ↔ p.anchor = .root := by
  simp [isAbsolute]

theorem isAbsolute_iff_components {p : Path} :
    p.isAbsolute = true ↔ p.components.head? = some .root := by
  have hroot := root_notMem_filterMap p.segments
  rw [isAbsolute_iff_anchor, components]
  cases ha : p.anchor with
  | root => simp [Anchor.components]
  | current => simp [Anchor.components]
  | none =>
    simp only [Anchor.components, List.nil_append, reduceCtorEq, false_iff]
    exact fun hhead => hroot (List.mem_of_head? hhead)

theorem isAbsolute_iff_bytes {p : Path} :
    p.isAbsolute = true ↔ p.bytes.head? = some slash := by
  rw [isAbsolute_iff_anchor, anchor]
  fun_cases anchored p.bytes <;> simp_all

/-- What an absolute path lies at or below is absolute, or has no component at all. -/
theorem isAbsolute_of_atOrBelow {p root : Path} (h : p.atOrBelow root = true)
    (hp : p.isAbsolute = true) (hroot : root.components ≠ []) : root.isAbsolute = true := by
  rw [isAbsolute_iff_components] at hp ⊢
  obtain ⟨more, hmore⟩ := atOrBelow_iff.1 h
  rwa [← hmore, List.head?_append_of_ne_nil _ hroot] at hp

theorem components_ne_nil {p : Path} (h : p.isAbsolute = true) : p.components ≠ [] := by
  intro hnil
  rw [isAbsolute_iff_components, hnil] at h
  cases h

theorem parent?_eq_none_iff_of_isAbsolute {p : Path} (h : p.isAbsolute = true) :
    p.parent? = none ↔ p.components = [.root] := by
  rw [parent?_eq_none_iff, or_iff_right (components_ne_nil h)]

theorem isAbsolute_parent {p parent : Path} (hp : p.isAbsolute = true)
    (h : p.parent? = some parent) : parent.isAbsolute = true := by
  refine isAbsolute_of_atOrBelow (atOrBelow_parent h) hp fun hnil => ?_
  obtain ⟨c, hc⟩ := components_of_parent? h
  rw [hnil, List.nil_append] at hc
  have hroot : c = .root := by
    have hhead := isAbsolute_iff_components.1 hp
    rw [hc] at hhead
    simpa using hhead
  have hnone := parent?_eq_none_iff.2 (.inr (hroot ▸ hc))
  simp [hnone] at h

theorem isAbsolute_of_mem_ancestors {p q : Path} (hp : p.isAbsolute = true)
    (h : q ∈ p.ancestors) : q.isAbsolute = true := by
  cases hparent : p.parent? with
  | none =>
    rw [ancestors_of_parent?_eq_none hparent, List.mem_singleton] at h
    exact h ▸ hp
  | some parent =>
    rw [ancestors_of_parent? hparent] at h
    rcases List.mem_cons.1 h with rfl | h
    · exact hp
    · exact isAbsolute_of_mem_ancestors (isAbsolute_parent hp hparent) h
termination_by p.components.length
decreasing_by exact length_components_of_parent? hparent

/-- The ancestors of an absolute path are the paths with components that it lies at or below. -/
theorem exists_mem_ancestors_iff {p q : Path} (hp : p.isAbsolute = true) :
    (∃ a ∈ p.ancestors, a.Same q) ↔ p.atOrBelow q = true ∧ q.components ≠ [] := by
  constructor
  · rintro ⟨a, ha, hsame⟩
    rw [atOrBelow_iff, ← show a.components = q.components from hsame]
    exact ⟨atOrBelow_iff.1 (atOrBelow_of_mem_ancestors ha),
      components_ne_nil (isAbsolute_of_mem_ancestors hp ha)⟩
  · rintro ⟨hpq, hq⟩
    induction p using parentInduction with
    | top p htop =>
      have hup := atOrBelow_iff.1 hpq
      have hpos := List.length_pos_iff.2 hq
      have hle := hup.length_le
      refine ⟨p, mem_ancestors_self p, (hup.eq_of_length ?_).symm⟩
      rw [(parent?_eq_none_iff_of_isAbsolute hp).1 htop, List.length_singleton] at hle ⊢
      omega
    | child p parent hparent ih =>
      obtain ⟨c, hc⟩ := components_of_parent? hparent
      rw [atOrBelow_iff, hc] at hpq
      rcases List.prefix_concat_iff.1 hpq with heq | hpq
      · exact ⟨p, mem_ancestors_self p, hc.trans heq.symm⟩
      · obtain ⟨a, ha, hsame⟩ := ih (isAbsolute_parent hp hparent) (atOrBelow_iff.2 hpq)
        rw [ancestors_of_parent? hparent]
        exact ⟨a, List.mem_cons_of_mem p ha, hsame⟩

theorem isAbsolute_join {base : Path} (h : base.isAbsolute = true) (p : Path) :
    (base.join p).isAbsolute = true := by
  have hhead := isAbsolute_iff_bytes.1 h
  rw [isAbsolute_iff_bytes, join]
  split_ifs with hp hend
  · exact isAbsolute_iff_bytes.1 hp
  · simp [List.head?_append, hhead]
  · simp [List.head?_append, hhead]

theorem isAbsolute_joinAll {base : Path} (h : base.isAbsolute = true)
    (components : List Component) : (joinAll base components).isAbsolute = true := by
  induction components generalizing base with
  | nil => exact h
  | cons c rest ih => exact ih (isAbsolute_join h ⟨c.bytes⟩)

theorem isAbsolute_absoluteFrom (p : Path) {workingDirectory : Path}
    (h : workingDirectory.isAbsolute = true) :
    (p.absoluteFrom workingDirectory).isAbsolute = true := by
  have hfull (full : Path) (hfull : full.isAbsolute = true) :
      (if p.endsWithSlash then full.join ⟨[]⟩ else full).isAbsolute = true := by
    split
    · exact isAbsolute_join hfull ⟨[]⟩
    · exact hfull
  apply hfull
  split_ifs
  · exact isAbsolute_joinAll (by decide) _
  · exact isAbsolute_joinAll (by decide) _
  · exact isAbsolute_joinAll h _

end Path

end DirectoryWatch
