import DirectoryWatch.Path.Basic

/-!
# Sets of paths

A finite set of paths, kept as a strictly ascending list. A path already present is not replaced:
the first spelling stays.
-/
namespace DirectoryWatch

namespace Path

/-- Puts `p`, whose key is given, in its place in an ascending list that may already hold it. -/
def insertByKey (key : List Bytes) (p : Path) : List Path → List Path
  | [] => [p]
  | q :: rest =>
    let other := q.key
    if key < other then p :: q :: rest
    else if other < key then q :: insertByKey key p rest
    else q :: rest

def insertInto (p : Path) (paths : List Path) : List Path := insertByKey p.key p paths

theorem insertInto_nil (p : Path) : insertInto p [] = [p] := rfl

theorem insertInto_cons (p q : Path) (rest : List Path) :
    insertInto p (q :: rest) =
      if p < q then p :: q :: rest
      else if q < p then q :: insertInto p rest
      else q :: rest := rfl

theorem mem_insertInto {p x : Path} {paths : List Path} (h : x ∈ insertInto p paths) :
    x = p ∨ x ∈ paths := by
  induction paths with
  | nil => simpa [insertInto_nil] using h
  | cons q rest ih =>
    rw [insertInto_cons] at h
    split at h
    · simpa using h
    · split at h
      · rcases List.mem_cons.1 h with rfl | h
        · simp
        · rcases ih h with rfl | h <;> simp [*]
      · exact .inr h

theorem pairwise_insertInto (p : Path) {paths : List Path} (h : paths.Pairwise (· < ·)) :
    (insertInto p paths).Pairwise (· < ·) := by
  induction paths with
  | nil => simp [insertInto_nil]
  | cons q rest ih =>
    have ⟨hq, hrest⟩ := List.pairwise_cons.1 h
    rw [insertInto_cons]
    split
    · rename_i hpq
      refine List.pairwise_cons.2 ⟨fun x hx => ?_, h⟩
      rcases List.mem_cons.1 hx with rfl | hx
      · exact hpq
      · exact lt_trans hpq (hq x hx)
    · split
      · rename_i hqp
        refine List.pairwise_cons.2 ⟨fun x hx => ?_, ih hrest⟩
        rcases mem_insertInto hx with rfl | hx
        · exact hqp
        · exact hq x hx
      · exact h

end Path

structure PathSet where
  toList : List Path
  ascending : toList.Pairwise (· < ·)

namespace PathSet

def empty : PathSet := ⟨[], .nil⟩

instance : EmptyCollection PathSet := ⟨empty⟩

instance : Inhabited PathSet := ⟨∅⟩

def isEmpty (s : PathSet) : Bool := s.toList.isEmpty

/-- Membership does not depend on the spelling. -/
def contains (s : PathSet) (p : Path) : Bool :=
  let components := p.components
  s.toList.any fun q => decide (q.components = components)

def insert (s : PathSet) (p : Path) : PathSet :=
  ⟨p.insertInto s.toList, Path.pairwise_insertInto p s.ascending⟩

theorem contains_eq_any (s : PathSet) (p : Path) :
    s.contains p = s.toList.any fun q => decide (q.Same p) := rfl

theorem contains_iff {s : PathSet} {p : Path} :
    s.contains p = true ↔ ∃ q ∈ s.toList, q.Same p := by
  simp [contains_eq_any]

theorem contains_insert (s : PathSet) (p q : Path) :
    (s.insert p).contains q = (decide (p.Same q) || s.contains q) := by
  simp only [contains_eq_any, insert]
  induction s.toList with
  | nil => simp [Path.insertInto_nil]
  | cons r rest ih =>
    rw [Path.insertInto_cons]
    split
    · simp
    · split
      · simp only [List.any_cons, ih]
        ac_rfl
      · rename_i hpr hrp
        have hsame := Path.same_of_le_of_le (Path.not_lt.1 hrp) (Path.not_lt.1 hpr)
        have heq : decide (p.Same q) = decide (r.Same q) :=
          decide_eq_decide.2 ⟨hsame.symm.trans, hsame.trans⟩
        simp [heq]

def insertAll (s : PathSet) (paths : List Path) : PathSet := paths.foldl insert s

theorem contains_insertAll (s : PathSet) (paths : List Path) (q : Path) :
    (s.insertAll paths).contains q = (s.contains q || paths.any fun p => decide (p.Same q)) := by
  induction paths generalizing s with
  | nil => simp [insertAll]
  | cons p rest ih =>
    change ((s.insert p).insertAll rest).contains q = _
    rw [ih, contains_insert, List.any_cons]
    ac_rfl

def ofList (paths : List Path) : PathSet := (∅ : PathSet).insertAll paths

theorem contains_congr (s : PathSet) {p q : Path} (h : p.Same q) : s.contains p = s.contains q := by
  simp only [contains, show p.components = q.components from h]

theorem contains_of_mem {s : PathSet} {p : Path} (h : p ∈ s.toList) : s.contains p = true :=
  contains_iff.2 ⟨p, h, Path.Same.refl p⟩

theorem contains_empty (p : Path) : (∅ : PathSet).contains p = false := rfl

theorem mem_insertAll {s : PathSet} {paths : List Path} {q : Path}
    (h : q ∈ (s.insertAll paths).toList) : q ∈ s.toList ∨ q ∈ paths := by
  induction paths generalizing s with
  | nil => exact .inl h
  | cons p rest ih =>
    rcases @ih (s.insert p) h with h | h
    · rcases Path.mem_insertInto h with rfl | h
      · simp
      · exact .inl h
    · exact .inr (List.mem_cons_of_mem p h)

theorem contains_ofList {paths : List Path} {q : Path} :
    (ofList paths).contains q = true ↔ ∃ p ∈ paths, p.Same q := by
  rw [ofList, contains_insertAll, contains_empty, Bool.false_or]
  simp

theorem mem_ofList {paths : List Path} {q : Path} (h : q ∈ (ofList paths).toList) : q ∈ paths :=
  (mem_insertAll h).resolve_left (List.not_mem_nil)

end PathSet

end DirectoryWatch
