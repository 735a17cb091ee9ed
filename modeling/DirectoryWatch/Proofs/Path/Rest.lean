import DirectoryWatch.Proofs.Path.Trimmed

/-!
# What is left below a root

Where a relative path and a root are read from one directory, the path lies below the root just as
before, and what is left of it there is spelled as before. And whatever lies below a root that was
read from a directory is a relative path read from there.
-/
namespace DirectoryWatch.Path

variable {p q root top workingDirectory : Path} {first later more segments : List Bytes} {n : ℕ}

/-- The components after the anchor. -/
def inner (p : Path) : List Component := p.segments.filterMap Component.ofSegment?

theorem components_eq_anchor_append (p : Path) : p.components = p.anchor.components ++ p.inner :=
  rfl

theorem inner_of_segments (h : p.segments = first ++ more) :
    p.inner = first.filterMap Component.ofSegment? ++ more.filterMap Component.ofSegment? := by
  rw [inner, h, List.filterMap_append]

/-- The segments after the first `n` components, without those at their ends that stand for
nothing. -/
def rest (n : ℕ) (segments : List Bytes) : List Bytes :=
  trimEnd (trimStart (dropComponents n segments))

theorem rest_trimStart (n : ℕ) (segments : List Bytes) :
    rest n (trimStart segments) = rest n segments := by
  rw [rest, ← trimStart_dropComponents, ← rest]

theorem rest_trimEnd (n : ℕ) (segments : List Bytes) :
    rest n (trimEnd segments) = rest n segments := by
  have htwice : trimEnd (trimEnd segments) = trimEnd segments :=
    List.rdropWhile_idempotent idle segments
  simp only [rest, trimEnd_trimStart, trimEnd_dropComponents, htwice]

theorem trimStart_dropComponents_append (m : ℕ) (more : List Bytes)
    (hfirst : (first.filterMap Component.ofSegment?).length = n) :
    trimStart (dropComponents (n + m) (first ++ more)) = trimStart (dropComponents m more) := by
  induction first generalizing n with
  | nil =>
    subst hfirst
    rw [List.filterMap_nil, List.length_nil, Nat.zero_add, List.nil_append]
  | cons segment first ih =>
    cases hsegment : Component.ofSegment? segment with
    | none =>
      rw [List.filterMap_cons_none hsegment] at hfirst
      rw [trimStart_dropComponents, List.cons_append,
        trimStart_of_idle (ofSegment?_eq_none_iff.1 hsegment), ← trimStart_dropComponents]
      exact ih hfirst
    | some c =>
      have hidle : idle segment = false := by simp [idle, hsegment]
      rw [List.filterMap_cons_some hsegment, List.length_cons] at hfirst
      rw [← hfirst, Nat.add_right_comm, List.cons_append, dropComponents,
        if_neg (by simp [hidle])]
      exact ih rfl

theorem rest_append (m : ℕ) (more : List Bytes)
    (hfirst : (first.filterMap Component.ofSegment?).length = n) :
    rest (n + m) (first ++ more) = rest m more := by
  rw [rest, trimStart_dropComponents_append m more hfirst, ← rest]

theorem filterMap_trimStart (segments : List Bytes) :
    (trimStart segments).filterMap Component.ofSegment? =
      segments.filterMap Component.ofSegment? := by
  induction segments with
  | nil => rfl
  | cons segment rest ih =>
    cases hidle : idle segment with
    | true =>
      rw [trimStart_of_idle hidle, ih,
        List.filterMap_cons_none (ofSegment?_eq_none_iff.2 hidle)]
    | false => rw [trimStart_of_not_idle hidle]

theorem trimStart_trimEnd_trimStart (segments : List Bytes) :
    trimStart (trimEnd (trimStart segments)) = trimEnd (trimStart segments) := by
  have htwice : trimStart (trimStart segments) = trimStart segments :=
    List.dropWhile_idempotent idle segments
  rw [← trimEnd_trimStart, htwice]

theorem slash_notMem_of_mem_trim (hmore : more <:+ p.segments) :
    ∀ segment ∈ trimEnd (trimStart more), slash ∉ segment := by
  intro segment hsegment
  have hstart : segment ∈ trimStart more :=
    (List.rdropWhile_prefix idle (trimStart more)).subset hsegment
  have hmem : segment ∈ p.segments := hmore.subset ((List.dropWhile_sublist idle).subset hstart)
  exact Bytes.sep_notMem_of_mem_split hmem

theorem anchored_of_not_idle {bytes segment : Bytes}
    (h : Bytes.split slash bytes = segment :: more) (hidle : idle segment = false) :
    anchored bytes = (.none, bytes) := by
  have hsegment : segment ≠ [] ∧ segment ≠ [dot] := by
    rw [← not_or, ← idle_iff, hidle]
    exact Bool.false_ne_true
  fun_cases anchored bytes with
  | case1 => rfl
  | case2 => simp_all [Bytes.split]
  | case3 => simp_all [Bytes.split, slash, dot]
  | case4 => rfl
  | case5 => simp_all [Bytes.split]
  | case6 => simp_all [Bytes.split, slash, dot]
  | case7 => rfl

theorem parts_ofParts_none (hslash : ∀ segment ∈ segments, slash ∉ segment)
    (htrim : trimStart segments = segments) :
    (ofParts .none segments).anchor = .none ∧
      trimStart (ofParts .none segments).segments = segments := by
  cases segments with
  | nil => exact ⟨rfl, rfl⟩
  | cons segment more =>
    have hidle : idle segment = false := by
      simpa using List.dropWhile_eq_self_iff.1 htrim (Nat.zero_lt_succ _)
    have hsplit := Bytes.split_join (List.cons_ne_nil segment more) hslash
    have hanchored := anchored_of_not_idle hsplit hidle
    refine ⟨congrArg Prod.fst hanchored, ?_⟩
    change trimStart (Bytes.split slash (anchored (Bytes.join slash (segment :: more))).2) = _
    rw [hanchored, hsplit, htrim]

/-- The path of what is left between the ends of the last segments. -/
def ofTrimmed (segments : List Bytes) : Path := ofParts .none (trimEnd (trimStart segments))

section

variable (hmore : more <:+ p.segments)
include hmore

theorem anchor_ofTrimmed : (ofTrimmed more).anchor = .none :=
  (parts_ofParts_none (slash_notMem_of_mem_trim hmore) (trimStart_trimEnd_trimStart more)).1

theorem trimStart_ofTrimmed :
    trimStart (ofTrimmed more).segments = trimEnd (trimStart more) :=
  (parts_ofParts_none (slash_notMem_of_mem_trim hmore) (trimStart_trimEnd_trimStart more)).2

theorem inner_ofTrimmed : (ofTrimmed more).inner = more.filterMap Component.ofSegment? := by
  rw [inner, ← filterMap_trimStart, trimStart_ofTrimmed hmore, filterMap_trimEnd,
    filterMap_trimStart]

theorem rest_ofTrimmed (n : ℕ) : rest n (ofTrimmed more).segments = rest n more := by
  rw [← rest_trimStart, trimStart_ofTrimmed hmore, rest_trimEnd, rest_trimStart]

end

theorem exists_segments_join (hdirectory : workingDirectory.isAbsolute = true)
    (hp : p.isAbsolute = false) :
    ∃ first, (workingDirectory.join p).segments = first ++ Bytes.split slash p.bytes ∧
      first.filterMap Component.ofSegment? = workingDirectory.inner := by
  obtain ⟨bytes⟩ := workingDirectory
  obtain ⟨tail, rfl⟩ : ∃ tail, bytes = slash :: tail :=
    List.head?_eq_some_iff.1 (isAbsolute_iff_bytes.1 hdirectory)
  have hsegments (tail : Bytes) : (⟨slash :: tail⟩ : Path).segments = Bytes.split slash tail := by
    cases tail <;> rfl
  rw [join, if_neg (by simp [hp])]
  by_cases hlast : (slash :: tail).getLast? = some slash
  · rw [if_pos (.inr hlast)]
    by_cases htail : tail = []
    · subst htail
      exact ⟨[], hsegments p.bytes, rfl⟩
    · rw [List.getLast?_cons, List.getLast?_eq_some_getLast htail, Option.getD_some,
        Option.some_inj] at hlast
      have hinit := List.dropLast_append_getLast htail
      rw [hlast] at hinit
      refine ⟨Bytes.split slash tail.dropLast, ?_, ?_⟩
      · rw [List.cons_append, hsegments, ← hinit, List.append_assoc, List.singleton_append,
          Bytes.split_append_sep, List.dropLast_concat]
      · rw [inner, hsegments]
        conv_rhs => rw [← hinit, Bytes.split_append_sep, List.filterMap_append]
        exact (List.append_nil _).symm
  · rw [if_neg (by simp [hlast])]
    exact ⟨Bytes.split slash tail, by rw [List.cons_append, hsegments, Bytes.split_append_sep],
      by rw [inner, hsegments]⟩

theorem trimStart_split (hp : p.isAbsolute = false) :
    trimStart (Bytes.split slash p.bytes) = trimStart p.segments := by
  obtain ⟨bytes⟩ := p
  rw [isAbsolute, decide_eq_false_iff_not, anchor] at hp
  rw [segments]
  fun_cases anchored bytes <;> simp_all [Bytes.split, anchored] <;> rfl

theorem filterMap_split (p : Path) :
    (Bytes.split slash p.bytes).filterMap Component.ofSegment? = p.inner := by
  cases hp : p.isAbsolute with
  | false => rw [← filterMap_trimStart, trimStart_split hp, filterMap_trimStart, inner]
  | true =>
    obtain ⟨bytes⟩ := p
    obtain ⟨tail, rfl⟩ : ∃ tail, bytes = slash :: tail :=
      List.head?_eq_some_iff.1 (isAbsolute_iff_bytes.1 hp)
    cases tail <;> rfl

theorem mem_bytes_iff_inner {b : UInt8} (hslash : b ≠ slash) (hdot : b ≠ dot) :
    b ∈ p.bytes ↔ ∃ c ∈ p.inner, b ∈ c.bytes := by
  rw [← Bytes.mem_split_iff hslash, ← filterMap_split]
  constructor
  · rintro ⟨piece, hpiece, hb⟩
    cases hc : Component.ofSegment? piece with
    | none =>
      rcases idle_iff.1 (ofSegment?_eq_none_iff.1 hc) with rfl | rfl
      · cases hb
      · exact absurd (List.mem_singleton.1 hb) hdot
    | some c =>
      exact ⟨c, List.mem_filterMap.2 ⟨piece, hpiece, hc⟩, (ofSegment?_bytes hc).symm ▸ hb⟩
  · rintro ⟨c, hc, hb⟩
    obtain ⟨piece, hpiece, hc⟩ := List.mem_filterMap.1 hc
    exact ⟨piece, hpiece, ofSegment?_bytes hc ▸ hb⟩

theorem Same.inner (h : p.Same q) : p.inner = q.inner := h.filterMap_segments

theorem Same.contains_bytes (h : p.Same q) {b : UInt8} (hslash : b ≠ slash) (hdot : b ≠ dot) :
    p.bytes.contains b = q.bytes.contains b := by
  rw [Bool.eq_iff_iff, List.contains_iff_mem, List.contains_iff_mem,
    mem_bytes_iff_inner hslash hdot, mem_bytes_iff_inner hslash hdot, h.inner]

theorem Same.join_right (h : p.Same q) (base : Path) : (base.join p).Same (base.join q) := by
  cases hp : p.isAbsolute with
  | true => rwa [Path.join, Path.join, if_pos hp, if_pos (h.isAbsolute ▸ hp)]
  | false =>
    have hq : q.isAbsolute = false := h.isAbsolute ▸ hp
    by_cases hbase : base.bytes = []
    · obtain ⟨bytes⟩ := base
      subst hbase
      simpa [Path.join, hp, hq] using h
    · rw [Same, components_join hbase hp, components_join hbase hq, filterMap_split,
        filterMap_split, h.inner]

theorem ne_nil_of_isAbsolute (h : p.isAbsolute = true) : p.bytes ≠ [] := by
  intro hnil
  rw [isAbsolute_iff_bytes, hnil] at h
  cases h

theorem components_join_of_isAbsolute (hdirectory : workingDirectory.isAbsolute = true)
    (hp : p.isAbsolute = false) :
    (workingDirectory.join p).components = workingDirectory.components ++ p.inner := by
  rw [components_join (ne_nil_of_isAbsolute hdirectory) hp, filterMap_split]

/-- `p` stands to `root` as `q` stands to `top`: it is the root itself just where the other is, and
what is left of it below the root is spelled alike. -/
structure AlikeBelow (p root q top : Path) : Prop where
  same_iff : p.Same root ↔ q.Same top
  relativeTo?_eq : p.relativeTo? root = q.relativeTo? top

theorem relativeTo?_eq_rest {common : List Component} (hcommon : common <+: p.inner)
    (hroot : root.components = p.anchor.components ++ common) :
    p.relativeTo? root = some (ofParts .none (rest common.length p.segments)) := by
  refine relativeTo?_eq_some hcommon.length_le ?_
  rw [hroot, ← inner, ← List.prefix_iff_eq_take.1 hcommon]

/-- With further segments in front of a path, and their components in front of what comes after the
anchor of a root, what is left below the root stays the same. -/
theorem alikeBelow_of_append {front : List Component} (common : List Component)
    (hsegments : q.segments = first ++ later)
    (hfirst : first.filterMap Component.ofSegment? = front)
    (hlater : later.filterMap Component.ofSegment? = p.inner)
    (hrest : ∀ n, rest n later = rest n p.segments) (hcommon : common <+: p.inner)
    (htop : top.components = q.anchor.components ++ (front ++ common))
    (hroot : root.components = p.anchor.components ++ common) : q.AlikeBelow top p root := by
  have hinner : q.inner = front ++ p.inner := by rw [inner_of_segments hsegments, hfirst, hlater]
  constructor
  · rw [Same, Same, htop, hroot, components_eq_anchor_append, components_eq_anchor_append, hinner,
      List.append_right_inj, List.append_right_inj, List.append_right_inj]
  · have hlong : front ++ common <+: q.inner := by
      rw [hinner]
      exact (List.prefix_append_right_inj front).2 hcommon
    rw [relativeTo?_eq_rest hlong htop, relativeTo?_eq_rest hcommon hroot, hsegments,
      List.length_append, rest_append _ _ (by rw [hfirst]), hrest]

theorem components_absoluteFrom_inner (hdirectory : workingDirectory.isAbsolute = true)
    (hroot : root.isAbsolute = false) :
    (root.absoluteFrom workingDirectory).components =
      Anchor.root.components ++ (workingDirectory.inner ++ root.inner) := by
  rw [components_absoluteFrom hroot, filter_components hroot, components_eq_anchor_append,
    isAbsolute_iff_anchor.1 hdirectory, List.append_assoc]
  rfl

/-- A path below a relative root stays below it, with the same rest, where both are read from the
working directory. -/
theorem alikeBelow_join (hdirectory : workingDirectory.isAbsolute = true)
    (hroot : root.isAbsolute = false) (hne : root.isEmpty = false)
    (h : p.atOrBelow root = true) :
    (workingDirectory.join p).AlikeBelow (root.absoluteFrom workingDirectory) p root := by
  have hanchor : p.anchor = root.anchor :=
    anchor_eq_of_atOrBelow h fun hnil => by simp [isEmpty_iff_components.2 hnil] at hne
  have hp : p.isAbsolute = false := by rw [isAbsolute, hanchor, ← isAbsolute, hroot]
  obtain ⟨first, hsegments, hfirst⟩ := exists_segments_join hdirectory hp
  refine alikeBelow_of_append root.inner hsegments hfirst (filterMap_split p) (fun n => ?_)
    ?_ ?_ ?_
  · rw [← rest_trimStart, trimStart_split hp, rest_trimStart]
  · rw [atOrBelow_iff, components_eq_anchor_append, components_eq_anchor_append, hanchor,
      List.prefix_append_right_inj] at h
    exact h
  · rw [components_absoluteFrom_inner hdirectory hroot,
      isAbsolute_iff_anchor.1 (isAbsolute_join hdirectory p)]
  · rw [hanchor, components_eq_anchor_append]

def withoutDot (p : Path) : Path := (p.relativeTo? ⟨[dot]⟩).getD p

theorem components_withoutDot (hp : p.isAbsolute = false) : p.withoutDot.components = p.inner := by
  have hdot : (⟨[dot]⟩ : Path).components = [.current] := rfl
  cases hanchor : p.anchor with
  | root => simp [isAbsolute, hanchor] at hp
  | current =>
    have hrest : p.relativeTo? ⟨[dot]⟩ = some (ofParts .none (rest 0 p.segments)) :=
      relativeTo?_eq_rest List.nil_prefix (by rw [hdot, hanchor]; rfl)
    rw [withoutDot, hrest, rest, dropComponents, ← ofTrimmed, Option.getD_some,
      components_eq_anchor_append, anchor_ofTrimmed List.suffix_rfl,
      inner_ofTrimmed List.suffix_rfl]
    rfl
  | none =>
    have hrelative : p.relativeTo? ⟨[dot]⟩ = none := by
      refine if_neg fun hprefix => ?_
      have hbelow : p.atOrBelow ⟨[dot]⟩ = true := hprefix
      have hcurrent := anchor_eq_of_atOrBelow hbelow (by simp [hdot])
      rw [hanchor] at hcurrent
      cases hcurrent
    rw [withoutDot, hrelative, Option.getD_none, components_eq_anchor_append, hanchor]
    rfl

/-- What lies below a root that was read from the working directory is a relative path read from
there, which lies below the relative root without its leading `.`. -/
theorem exists_alikeBelow (hdirectory : workingDirectory.isAbsolute = true)
    (hroot : root.isAbsolute = false)
    (h : q.atOrBelow (root.absoluteFrom workingDirectory) = true) :
    ∃ p, p.isAbsolute = false ∧ q.Same (workingDirectory.join p) ∧
      q.AlikeBelow (root.absoluteFrom workingDirectory) p root.withoutDot := by
  have htop := components_absoluteFrom_inner hdirectory hroot
  have habsolute := isAbsolute_absoluteFrom root hdirectory
  have hanchor : q.anchor = .root :=
    (anchor_eq_of_atOrBelow h (components_ne_nil habsolute)).trans
      (isAbsolute_iff_anchor.1 habsolute)
  obtain ⟨more, hinner⟩ : workingDirectory.inner ++ root.inner <+: q.inner := by
    rwa [atOrBelow_iff, htop, components_eq_anchor_append, hanchor,
      List.prefix_append_right_inj] at h
  rw [List.append_assoc] at hinner
  obtain ⟨first, ⟨later, hsegments⟩, hfirst⟩ :=
    exists_prefix_filterMap q.segments workingDirectory.inner.length
  rw [← inner, ← hinner, List.take_left] at hfirst
  have hlater : later.filterMap Component.ofSegment? = root.inner ++ more := by
    rw [inner_of_segments hsegments.symm, hfirst] at hinner
    exact (List.append_cancel_left hinner).symm
  have hsuffix : later <:+ q.segments := ⟨first, hsegments⟩
  have hnone : (ofTrimmed later).anchor = .none := anchor_ofTrimmed hsuffix
  have hrelative : (ofTrimmed later).isAbsolute = false := by simp [isAbsolute, hnone]
  have hkept := inner_ofTrimmed hsuffix
  refine ⟨ofTrimmed later, hrelative, ?_, ?_⟩
  · rw [Same, components_join_of_isAbsolute hdirectory hrelative, hkept, hlater,
      components_eq_anchor_append q, components_eq_anchor_append workingDirectory, hanchor,
      isAbsolute_iff_anchor.1 hdirectory, ← hinner, List.append_assoc]
  · refine alikeBelow_of_append root.inner hsegments.symm hfirst hkept.symm
      (fun n => (rest_ofTrimmed hsuffix n).symm) ⟨more, ?_⟩ ?_ ?_
    · rw [hkept, hlater]
    · rw [htop, hanchor]
    · rw [hnone, components_withoutDot hroot]
      rfl

end DirectoryWatch.Path
