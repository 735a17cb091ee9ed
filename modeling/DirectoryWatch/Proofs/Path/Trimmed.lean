import DirectoryWatch.Proofs.Path.Absolute

/-!
# Segments without their ends

What is left of a path below another keeps its inner segments and loses those at its ends that stand
for no component.
-/
namespace DirectoryWatch.Path

variable {p q root : Path} {segments : List Bytes} {c : Component} {cs : List Component}

theorem trimEnd_cons (segment : Bytes) (rest : List Bytes) :
    trimEnd (segment :: rest) =
      if idle segment = true ∧ trimEnd rest = [] then [] else segment :: trimEnd rest := by
  simp only [trimEnd, List.reverse_cons, List.dropWhile_append]
  by_cases hnil : rest.reverse.dropWhile idle = []
  · cases hidle : idle segment <;> simp [hnil, hidle]
  · simp [hnil]

theorem trimEnd_of_not_idle {segment : Bytes} (h : idle segment = false) (rest : List Bytes) :
    trimEnd (segment :: rest) = segment :: trimEnd rest := by
  rw [trimEnd_cons, if_neg (by simp [h])]

theorem trimStart_of_idle {segment : Bytes} (h : idle segment = true) (rest : List Bytes) :
    trimStart (segment :: rest) = trimStart rest :=
  List.dropWhile_cons_of_pos h

theorem trimStart_of_not_idle {segment : Bytes} (h : idle segment = false) (rest : List Bytes) :
    trimStart (segment :: rest) = segment :: rest :=
  List.dropWhile_cons_of_neg (by simp [h])

theorem trimEnd_trimStart (segments : List Bytes) :
    trimEnd (trimStart segments) = trimStart (trimEnd segments) := by
  induction segments with
  | nil => rfl
  | cons segment rest ih =>
    cases hidle : idle segment with
    | true =>
      rw [trimStart_of_idle hidle, ih, trimEnd_cons]
      split_ifs with hnil
      · rw [hnil.2]
      · rw [trimStart_of_idle hidle]
    | false =>
      rw [trimStart_of_not_idle hidle, trimEnd_of_not_idle hidle, trimStart_of_not_idle hidle]

theorem trimEnd_dropComponents (n : ℕ) (segments : List Bytes) :
    trimEnd (dropComponents n segments) = dropComponents n (trimEnd segments) := by
  fun_induction dropComponents n segments with
  | case1 => rw [dropComponents]
  | case2 => rfl
  | case3 n segment rest hidle ih =>
    rw [ih, trimEnd_cons]
    split_ifs with hnil
    · rw [hnil.2]
    · simp [dropComponents, hidle]
  | case4 n segment rest hidle ih =>
    rw [ih, trimEnd_of_not_idle (by simpa using hidle)]
    simp [dropComponents, hidle]

theorem trimStart_dropComponents (n : ℕ) (segments : List Bytes) :
    trimStart (dropComponents n segments) = trimStart (dropComponents n (trimStart segments)) := by
  induction segments with
  | nil => rfl
  | cons segment rest ih =>
    cases hidle : idle segment with
    | true =>
      rw [trimStart_of_idle hidle, ← ih]
      cases n with
      | zero => rw [dropComponents, dropComponents, trimStart_of_idle hidle]
      | succ n => rw [dropComponents, if_pos hidle]
    | false => rw [trimStart_of_not_idle hidle]

/-- What stands for nothing is kept at the start, as long as something comes after it. -/
theorem trimEnd_eq (segments : List Bytes) :
    trimEnd segments =
      if trimEnd (trimStart segments) = [] then []
      else segments.takeWhile idle ++ trimEnd (trimStart segments) := by
  induction segments with
  | nil => rfl
  | cons segment rest ih =>
    cases hidle : idle segment with
    | true =>
      rw [trimStart_of_idle hidle, trimEnd_cons, ih]
      split_ifs <;> simp_all
    | false =>
      rw [trimStart_of_not_idle hidle]
      split_ifs with hnil
      · exact hnil
      · simp [hidle]

theorem exists_trimStart_eq (h : segments.filterMap Component.ofSegment? = c :: cs) :
    ∃ rest, trimStart segments = c.bytes :: rest ∧ idle c.bytes = false ∧
      rest.filterMap Component.ofSegment? = cs ∧
      ∀ n, dropComponents (n + 1) segments = dropComponents n rest := by
  induction segments with
  | nil => cases h
  | cons segment rest ih =>
    cases hsegment : Component.ofSegment? segment with
    | none =>
      have hidle := ofSegment?_eq_none_iff.1 hsegment
      rw [List.filterMap_cons_none hsegment] at h
      obtain ⟨more, hstart, hfirst, hmore, hdrop⟩ := ih h
      refine ⟨more, ?_, hfirst, hmore, fun n => ?_⟩
      · rw [trimStart_of_idle hidle, hstart]
      · rw [dropComponents, if_pos hidle, hdrop]
    | some d =>
      have hidle : idle segment = false := by simp [idle, hsegment]
      rw [List.filterMap_cons_some hsegment] at h
      obtain ⟨rfl, rfl⟩ := List.cons.inj h
      rw [ofSegment?_bytes hsegment]
      refine ⟨rest, trimStart_of_not_idle hidle rest, hidle, rfl, fun n => ?_⟩
      rw [dropComponents, if_neg (by simp [hidle])]

theorem anchor_eq_current_iff : p.anchor = .current ↔ p.components.head? = some .current := by
  have hcurrent : Component.current ∉ p.segments.filterMap Component.ofSegment? := by
    intro hmem
    rw [← filterMap_ne_current] at hmem
    simpa using List.of_mem_filter hmem
  rw [components]
  cases p.anchor with
  | root => simp [Anchor.components]
  | current => simp [Anchor.components]
  | none =>
    simp only [Anchor.components, List.nil_append, reduceCtorEq, false_iff]
    exact fun hhead => hcurrent (List.mem_of_head? hhead)

theorem anchor_eq_of_head? (h : p.components.head? = q.components.head?) :
    p.anchor = q.anchor := by
  have hroot : p.anchor = .root ↔ q.anchor = .root := by
    rw [← isAbsolute_iff_anchor, ← isAbsolute_iff_anchor, isAbsolute_iff_components,
      isAbsolute_iff_components, h]
  have hcurrent : p.anchor = .current ↔ q.anchor = .current := by
    rw [anchor_eq_current_iff, anchor_eq_current_iff, h]
  cases hp : p.anchor <;> cases hq : q.anchor <;> simp_all

theorem Same.isAbsolute (h : p.Same q) : p.isAbsolute = q.isAbsolute := by
  rw [Bool.eq_iff_iff, isAbsolute_iff_components, isAbsolute_iff_components,
    show p.components = q.components from h]

theorem Same.anchor (h : p.Same q) : p.anchor = q.anchor :=
  anchor_eq_of_head? (congrArg List.head? h)

theorem anchor_eq_of_atOrBelow (h : p.atOrBelow root = true) (hroot : root.components ≠ []) :
    p.anchor = root.anchor := by
  obtain ⟨more, hmore⟩ := atOrBelow_iff.1 h
  exact anchor_eq_of_head? (by rw [← hmore, List.head?_append_of_ne_nil _ hroot])

theorem Same.filterMap_segments (h : p.Same q) :
    p.segments.filterMap Component.ofSegment? = q.segments.filterMap Component.ofSegment? := by
  have hcomponents : p.components = q.components := h
  rw [components, components, h.anchor] at hcomponents
  exact List.append_cancel_left hcomponents

theorem trimStart_trimEnd_of_anchor (h : p.anchor = .none) :
    trimStart (trimEnd p.segments) = trimEnd p.segments := by
  by_cases hne : p.bytes = []
  · obtain ⟨bytes⟩ := p
    cases hne
    rfl
  · obtain ⟨segment, more, hcons, hfirst⟩ := exists_segments_eq_cons h hne
    rw [hcons, trimEnd_of_not_idle hfirst, trimStart_of_not_idle hfirst]

theorem exists_prefix_filterMap (segments : List Bytes) (n : ℕ) :
    ∃ first, first <+: segments ∧ first.filterMap Component.ofSegment? =
      (segments.filterMap Component.ofSegment?).take n := by
  induction segments generalizing n with
  | nil => exact ⟨[], List.prefix_refl _, by simp⟩
  | cons segment rest ih =>
    cases hsegment : Component.ofSegment? segment with
    | none =>
      obtain ⟨first, hprefix, hcomponents⟩ := ih n
      refine ⟨segment :: first, (List.prefix_cons_inj segment).2 hprefix, ?_⟩
      rw [List.filterMap_cons_none hsegment, List.filterMap_cons_none hsegment, hcomponents]
    | some c =>
      cases n with
      | zero => exact ⟨[], List.nil_prefix, rfl⟩
      | succ n =>
        obtain ⟨first, hprefix, hcomponents⟩ := ih n
        refine ⟨segment :: first, (List.prefix_cons_inj segment).2 hprefix, ?_⟩
        rw [List.filterMap_cons_some hsegment, List.filterMap_cons_some hsegment, hcomponents,
          List.take_succ_cons]

theorem exists_above (p : Path) (n : ℕ) :
    ∃ root : Path, root.components =
      p.anchor.components ++ (p.segments.filterMap Component.ofSegment?).take n := by
  obtain ⟨first, hprefix, hcomponents⟩ := exists_prefix_filterMap p.segments n
  exact ⟨ofParts p.anchor first, by rw [components_ofParts hprefix, hcomponents]⟩

theorem relativeTo?_eq_some {n : ℕ} (hn : n ≤ (p.segments.filterMap Component.ofSegment?).length)
    (hroot : root.components =
      p.anchor.components ++ (p.segments.filterMap Component.ofSegment?).take n) :
    p.relativeTo? root =
      some (ofParts .none (trimEnd (trimStart (dropComponents n p.segments)))) := by
  have hprefix : root.components.isPrefixOf p.components = true := by
    rw [List.isPrefixOf_iff_prefix, hroot, components, List.prefix_append_right_inj]
    exact List.take_prefix _ _
  have hlength : root.components.length = p.anchor.components.length + n := by
    rw [hroot, List.length_append, List.length_take, Nat.min_eq_left hn]
  rw [relativeTo?, if_pos hprefix, hlength]
  cases hanchor : p.anchor with
  | root => simp [Anchor.components, Nat.add_comm 1 n]
  | current => simp [Anchor.components, Nat.add_comm 1 n]
  | none =>
    cases n with
    | zero =>
      rw [trimEnd_trimStart, dropComponents, trimStart_trimEnd_of_anchor hanchor]
      rfl
    | succ n => simp [Anchor.components]

/-- Paths that differ at most at their ends have the same rest below any other path. -/
theorem Same.relativeTo?_eq (h : p.Same q) (htrim : trimEnd p.segments = trimEnd q.segments)
    (root : Path) : p.relativeTo? root = q.relativeTo? root := by
  rw [relativeTo?, relativeTo?, h.anchor, show p.components = q.components from h, htrim]
  simp only [trimEnd_trimStart, trimEnd_dropComponents, htrim]

theorem Same.relativeTo?_eq_of_isAbsolute (h : p.Same q) (hroot : root.isAbsolute = true)
    (htrim : p.isAbsolute = true →
      trimEnd (trimStart p.segments) = trimEnd (trimStart q.segments)) :
    p.relativeTo? root = q.relativeTo? root := by
  rw [relativeTo?, relativeTo?, h.anchor, show p.components = q.components from h]
  cases hprefix : root.components.isPrefixOf q.components with
  | false => rfl
  | true =>
    obtain ⟨n, hn⟩ := Nat.exists_eq_succ_of_ne_zero
      (mt List.length_eq_zero_iff.1 (components_ne_nil hroot))
    have hq : q.isAbsolute = true := by
      obtain ⟨more, hmore⟩ := List.isPrefixOf_iff_prefix.1 hprefix
      rw [isAbsolute_iff_components] at hroot ⊢
      rw [← hmore, List.head?_append_of_ne_nil _ (by simp [← List.length_pos_iff, hn]), hroot]
    have hinner := htrim (h.isAbsolute.trans hq)
    simp only [hn, isAbsolute_iff_anchor.1 hq, Anchor.components]
    rw [trimStart_dropComponents _ p.segments, trimStart_dropComponents _ q.segments,
      trimEnd_trimStart, trimEnd_trimStart, trimEnd_dropComponents, trimEnd_dropComponents, hinner]

end DirectoryWatch.Path
