import DirectoryWatch.Glob.Basic
import DirectoryWatch.Proofs.Path.Trimmed
import DirectoryWatch.Proofs.Text.Utf8
import DirectoryWatch.Request.Tree
import Mathlib.Tactic.SplitIfs

/-!
# What filters see of a path

A filter sees a path as a text of characters, slash by slash. So the texts of what is left of a path
below its ancestors tell how often each slash is repeated in it, and where a `.` stands.
-/
namespace DirectoryWatch

theorem Bytes.eq_of_flatMap_sep {sep : UInt8} {xs ys : List Bytes} (hx : ∀ piece ∈ xs, sep ∉ piece)
    (hy : ∀ piece ∈ ys, sep ∉ piece)
    (h : xs.flatMap (· ++ [sep]) = ys.flatMap (· ++ [sep])) : xs = ys := by
  have hsplit {zs : List Bytes} (hz : ∀ piece ∈ zs, sep ∉ piece) :
      split sep (zs.flatMap (· ++ [sep])) = zs ++ [[]] := by
    induction zs with
    | nil => rfl
    | cons piece more ih =>
      rw [List.flatMap_cons, List.append_assoc, List.singleton_append, split_append_sep,
        split_of_notMem (hz piece (by simp)), ih fun p hp => hz p (by simp [hp])]
      rfl
  exact List.append_cancel_right ((hsplit hx).symm.trans ((congrArg _ h).trans (hsplit hy)))

namespace Tree

def filterChars (p : Path) : List Char :=
  (Text.Utf8.pieces p.bytes).map fun piece =>
    let c := piece.char?.getD '\uFFFD'
    if c = '\\' then '/' else c

theorem mem_utf8EncodeChar_iff {c : Char} :
    (0x5c : UInt8) ∈ String.utf8EncodeChar c ↔ c = '\\' := by
  constructor
  · intro h
    have hvalue : c.val.toNat = 92 := by
      simp only [String.utf8EncodeChar] at h
      generalize c.val.toNat = value at h ⊢
      split_ifs at h with h₁ h₂ h₃
      all_goals
        simp only [List.mem_cons, List.not_mem_nil, or_false, ← UInt8.toNat_inj,
          UInt8.toNat_ofNat', UInt8.reduceToNat] at h
        omega
    exact Char.ext (UInt32.toNat_inj.1 hvalue)
  · rintro rfl
    decide

theorem map_utf8EncodeChar (c : Char) :
    ((String.utf8EncodeChar c).map fun b => if b = 0x5c then slash else b) =
      String.utf8EncodeChar (if c = '\\' then '/' else c) := by
  by_cases hc : c = '\\'
  · subst hc
    decide
  · rw [if_neg hc]
    refine (List.map_congr_left fun b hb => if_neg ?_).trans (List.map_id _)
    rintro rfl
    exact hc (mem_utf8EncodeChar_iff.1 hb)

theorem filterText_eq (p : Path) : filterText p = Glob.bytesOf (filterChars p) := by
  rw [filterText, Text.Utf8.lossy, Bytes.ofString, Glob.bytesOf, filterChars]
  simp only [String.toByteArray_ofList, List.utf8Encode, List.data_toByteArray, List.map_flatMap,
    List.flatMap_map, map_utf8EncodeChar]

theorem filterText_append_slash (first rest : Bytes) :
    filterText ⟨first ++ slash :: rest⟩ = filterText ⟨first⟩ ++ slash :: filterText ⟨rest⟩ := by
  have hpieces : Text.Utf8.pieces (first ++ slash :: rest) =
      Text.Utf8.pieces first ++ .char '/' :: Text.Utf8.pieces rest :=
    Text.Utf8.piecesFrom_append (fun _ hp => by cases hp) first (by decide) rest
  simp only [filterText_eq, filterChars, hpieces, Glob.bytesOf, List.map_append, List.map_cons,
    List.flatMap_append, List.flatMap_cons]
  rfl

open DirectoryWatch.Path (idle trimStart trimEnd dropComponents)

def segmentText (segments : List Bytes) : Bytes := filterText (.ofParts .none segments)

theorem segmentText_cons (segment : Bytes) {rest : List Bytes} (h : rest ≠ []) :
    segmentText (segment :: rest) = filterText ⟨segment⟩ ++ slash :: segmentText rest := by
  obtain ⟨next, more, rfl⟩ := List.exists_cons_of_ne_nil h
  exact filterText_append_slash segment (Bytes.join slash (next :: more))

theorem segmentText_append {gap rest : List Bytes} (hgap : ∀ segment ∈ gap, idle segment = true)
    (hrest : rest ≠ []) :
    segmentText (gap ++ rest) = gap.flatMap (· ++ [slash]) ++ segmentText rest := by
  induction gap with
  | nil => rfl
  | cons segment gap ih =>
    have htext : filterText ⟨segment⟩ = segment := by
      rcases Path.idle_iff.1 (hgap segment (by simp)) with rfl | rfl <;> rfl
    rw [List.cons_append, segmentText_cons segment (by simp [hrest]), htext,
      ih fun s hs => hgap s (by simp [hs])]
    simp

theorem filterText_ofParts (p : Path) :
    filterText (.ofParts p.anchor (trimEnd p.segments)) =
      p.anchor.bytes ++ segmentText (trimEnd p.segments) := by
  cases hanchor : p.anchor with
  | none => rfl
  | root => exact filterText_append_slash [] _
  | current =>
    have hslash (bytes : Bytes) : (Path.anchored bytes).1 = .current →
        ∃ more, Bytes.split slash (Path.anchored bytes).2 = [] :: more := by
      fun_cases Path.anchored bytes <;> simp_all [Bytes.split]
    obtain ⟨more, hmore⟩ : ∃ more, p.segments = [] :: more := hslash p.bytes hanchor
    rw [hmore, Path.trimEnd_cons]
    split_ifs with hnil
    · rfl
    · have hne : trimEnd more ≠ [] := fun h => hnil ⟨rfl, h⟩
      obtain ⟨next, rest, hrest⟩ := List.exists_cons_of_ne_nil hne
      rw [segmentText_cons _ hne, hrest]
      exact filterText_append_slash [dot] _

theorem eq_of_segmentText_eq {xs ys rest : List Bytes} (hx : ∀ segment ∈ xs, idle segment = true)
    (hy : ∀ segment ∈ ys, idle segment = true) (hrest : rest ≠ [])
    (h : segmentText (xs ++ rest) = segmentText (ys ++ rest)) : xs = ys := by
  have hslash {zs : List Bytes} (hz : ∀ segment ∈ zs, idle segment = true) :
      ∀ segment ∈ zs, slash ∉ segment := by
    intro segment hsegment
    rcases Path.idle_iff.1 (hz segment hsegment) with rfl | rfl <;> decide
  rw [segmentText_append hx hrest, segmentText_append hy hrest] at h
  exact Bytes.eq_of_flatMap_sep (hslash hx) (hslash hy) (List.append_cancel_right h)

/-- Segments with the same components that read alike after each of these are the same between the
first of them and the last. -/
theorem inner_eq_of_segmentText {cs : List Component} {xs ys : List Bytes}
    (hx : xs.filterMap Component.ofSegment? = cs) (hy : ys.filterMap Component.ofSegment? = cs)
    (h : ∀ n < cs.length, segmentText (trimEnd (trimStart (dropComponents n xs))) =
      segmentText (trimEnd (trimStart (dropComponents n ys)))) :
    trimEnd (trimStart xs) = trimEnd (trimStart ys) := by
  induction cs generalizing xs ys with
  | nil =>
    rw [Path.trimEnd_trimStart, Path.trimEnd_trimStart, Path.trimEnd_eq_nil_iff.2 hx,
      Path.trimEnd_eq_nil_iff.2 hy]
  | cons c cs ih =>
    obtain ⟨xrest, hxstart, hidle, hxrest, hxdrop⟩ := Path.exists_trimStart_eq hx
    obtain ⟨yrest, hystart, -, hyrest, hydrop⟩ := Path.exists_trimStart_eq hy
    have hlater : trimEnd (trimStart xrest) = trimEnd (trimStart yrest) := by
      refine ih hxrest hyrest fun n hn => ?_
      rw [← hxdrop, ← hydrop]
      exact h (n + 1) (by simpa using hn)
    have hfirst : segmentText (trimEnd (trimStart xs)) = segmentText (trimEnd (trimStart ys)) := by
      simpa only [dropComponents] using h 0 (by simp)
    rw [hxstart, hystart, Path.trimEnd_of_not_idle hidle, Path.trimEnd_of_not_idle hidle]
      at hfirst ⊢
    rw [Path.trimEnd_eq xrest, Path.trimEnd_eq yrest, ← hlater] at hfirst ⊢
    split_ifs at hfirst ⊢ with hnil
    · rfl
    · have hne (gap : List Bytes) : gap ++ trimEnd (trimStart xrest) ≠ [] := by simp [hnil]
      rw [segmentText_cons _ (hne _), segmentText_cons _ (hne _)] at hfirst
      have hgap := (List.cons.inj (List.append_cancel_left hfirst)).2
      rw [eq_of_segmentText_eq (fun _ => List.mem_takeWhile_imp) (fun _ => List.mem_takeWhile_imp)
        hnil hgap]

end Tree

end DirectoryWatch
