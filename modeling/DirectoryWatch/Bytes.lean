/-!
# Byte strings

File names and the texts of paths are byte strings, most of them UTF-8 and some of them not.
A byte string is split at a separator into pieces, and pieces are joined by it again.
-/
namespace DirectoryWatch

abbrev Bytes := List UInt8

namespace Bytes

def ofString (s : String) : Bytes := s.toByteArray.data.toList

/-- The pieces between separators. There is always one more piece than there are separators. -/
def split (sep : UInt8) : Bytes → List Bytes
  | [] => [[]]
  | b :: rest =>
    if b = sep then [] :: split sep rest
    else match split sep rest with
      | [] => [[b]]
      | piece :: more => (b :: piece) :: more

def join (sep : UInt8) : List Bytes → Bytes
  | [] => []
  | [piece] => piece
  | piece :: next :: more => piece ++ sep :: join sep (next :: more)

theorem split_ne_nil (sep : UInt8) (bytes : Bytes) : split sep bytes ≠ [] := by
  cases bytes with
  | nil => simp [split]
  | cons b rest =>
    simp only [split]
    split
    · simp
    · split <;> simp

theorem sep_notMem_of_mem_split {sep : UInt8} {bytes piece : Bytes}
    (h : piece ∈ split sep bytes) : sep ∉ piece := by
  induction bytes generalizing piece with
  | nil => simp_all [split]
  | cons b rest ih =>
    simp only [split] at h
    split at h
    · rcases List.mem_cons.1 h with rfl | h
      · simp
      · exact ih h
    · rename_i hb
      split at h
      · rw [List.mem_singleton.1 h, List.mem_singleton]
        exact Ne.symm hb
      · rename_i first more hsplit
        rcases List.mem_cons.1 h with rfl | h
        · have := @ih first (by simp [hsplit])
          simp [this, Ne.symm hb]
        · exact ih (by simp [hsplit, h])

theorem mem_split_iff {sep b : UInt8} (h : b ≠ sep) {bytes : Bytes} :
    (∃ piece ∈ split sep bytes, b ∈ piece) ↔ b ∈ bytes := by
  induction bytes with
  | nil => simp [split]
  | cons c rest ih =>
    rw [split]
    by_cases hc : c = sep
    · simp [ih, hc, h]
    · rw [if_neg hc, List.mem_cons, ← ih]
      cases hsplit : split sep rest with
      | nil => exact absurd hsplit (split_ne_nil sep rest)
      | cons piece more => simp [or_assoc]

theorem split_append_sep (sep : UInt8) (bytes rest : Bytes) :
    split sep (bytes ++ sep :: rest) = split sep bytes ++ split sep rest := by
  induction bytes with
  | nil => simp [split]
  | cons b bytes ih =>
    rw [List.cons_append, split, split, ih]
    split
    · rfl
    · cases h : split sep bytes with
      | nil => exact absurd h (split_ne_nil sep bytes)
      | cons piece more => rfl

theorem split_of_notMem {sep : UInt8} {piece : Bytes} (h : sep ∉ piece) :
    split sep piece = [piece] := by
  induction piece with
  | nil => rfl
  | cons b piece ih =>
    simp only [List.mem_cons, not_or] at h
    rw [split, if_neg (Ne.symm h.1), ih h.2]

theorem join_append {sep : UInt8} {pieces more : List Bytes} (h : pieces ≠ []) (hmore : more ≠ []) :
    join sep (pieces ++ more) = join sep pieces ++ sep :: join sep more := by
  induction pieces with
  | nil => contradiction
  | cons piece pieces ih =>
    cases pieces with
    | nil =>
      cases more with
      | nil => contradiction
      | cons next more => rfl
    | cons next pieces =>
      rw [List.cons_append, List.cons_append, join, ← List.cons_append, ih (by simp), join]
      simp

theorem join_split (sep : UInt8) (bytes : Bytes) : join sep (split sep bytes) = bytes := by
  induction bytes with
  | nil => rfl
  | cons b rest ih =>
    have hne := split_ne_nil sep rest
    cases hsplit : split sep rest with
    | nil => contradiction
    | cons piece more =>
      rw [hsplit] at ih
      by_cases hb : b = sep
      · simp [split, hb, hsplit, join, ih]
      · cases more <;> simp_all [split, join]

theorem split_join {sep : UInt8} {pieces : List Bytes} (hne : pieces ≠ [])
    (h : ∀ piece ∈ pieces, sep ∉ piece) : split sep (join sep pieces) = pieces := by
  induction pieces with
  | nil => contradiction
  | cons piece more ih =>
    cases more with
    | nil => exact split_of_notMem (h piece (by simp))
    | cons next more =>
      rw [join, split_append_sep, split_of_notMem (h piece (by simp)),
        ih (by simp) fun p hp => h p (by simp [hp]), List.singleton_append]

end Bytes

end DirectoryWatch
