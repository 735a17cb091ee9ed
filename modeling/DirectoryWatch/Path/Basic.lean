import DirectoryWatch.Bytes

/-!
# Paths

A path keeps the bytes it was spelled with. What it means is its list of components: the root,
a leading `.`, each `..`, and the names. Doubled and trailing slashes and inner `.` segments have
no component. Two paths are the same path when their components agree, and they are ordered by
their components: an ancestor comes before everything below it.
-/
namespace DirectoryWatch

inductive Component
  | root
  | current
  | parent
  | name (bytes : Bytes)
  deriving DecidableEq, Repr

structure Path where
  bytes : Bytes
  deriving Repr

def slash : UInt8 := 0x2f

def dot : UInt8 := 0x2e

namespace Component

/-- Components compare by these keys: the root first, then `.`, then `..`, then names by bytes. -/
def key : Component → Bytes
  | .root => [0]
  | .current => [1]
  | .parent => [2]
  | .name bytes => 3 :: bytes

theorem key_injective {a b : Component} (h : a.key = b.key) : a = b := by
  cases a <;> cases b <;> simp_all [key]

def bytes : Component → Bytes
  | .root => [slash]
  | .current => [dot]
  | .parent => [dot, dot]
  | .name bytes => bytes

/-- The component of a segment between slashes. An empty segment and `.` have none. -/
def ofSegment? (segment : Bytes) : Option Component :=
  if segment = [] ∨ segment = [dot] then none
  else if segment = [dot, dot] then some .parent
  else some (.name segment)

end Component

/-- What a path starts from: the root, a leading `.`, or neither. -/
inductive Anchor
  | root
  | current
  | none
  deriving DecidableEq, Repr

namespace Anchor

def components : Anchor → List Component
  | .root => [.root]
  | .current => [.current]
  | .none => []

def bytes : Anchor → Bytes
  | .root => [slash]
  | .current => [dot]
  | .none => []

end Anchor

namespace Path

def ofString (s : String) : Path := ⟨Bytes.ofString s⟩

/-- The anchor and the bytes after it. Only a `.` that is a whole segment is an anchor. -/
def anchored : Bytes → Anchor × Bytes
  | [] => (.none, [])
  | [b] =>
    if b = slash then (.root, [])
    else if b = dot then (.current, [])
    else (.none, [b])
  | b :: c :: rest =>
    if b = slash then (.root, c :: rest)
    else if b = dot ∧ c = slash then (.current, c :: rest)
    else (.none, b :: c :: rest)

def anchor (p : Path) : Anchor := (anchored p.bytes).1

def segments (p : Path) : List Bytes := Bytes.split slash (anchored p.bytes).2

def ofParts (anchor : Anchor) (segments : List Bytes) : Path :=
  ⟨anchor.bytes ++ Bytes.join slash segments⟩

def components (p : Path) : List Component :=
  p.anchor.components ++ p.segments.filterMap Component.ofSegment?

theorem bytes_anchored (bytes : Bytes) :
    (anchored bytes).1.bytes ++ (anchored bytes).2 = bytes := by
  fun_cases anchored bytes <;> simp_all [Anchor.bytes]

theorem ofParts_segments (p : Path) : ofParts p.anchor p.segments = p := by
  simp [ofParts, anchor, segments, Bytes.join_split, bytes_anchored]

def isAbsolute (p : Path) : Bool := p.anchor = .root

def isEmpty (p : Path) : Bool := p.bytes.isEmpty

/-- The same path, possibly in another spelling. -/
def Same (p q : Path) : Prop := p.components = q.components

instance (p q : Path) : Decidable (p.Same q) := inferInstanceAs (Decidable (_ = _))

theorem Same.refl (p : Path) : p.Same p := rfl

theorem Same.symm {p q : Path} (h : p.Same q) : q.Same p := Eq.symm h

theorem Same.trans {p q r : Path} (h : p.Same q) (k : q.Same r) : p.Same r := Eq.trans h k

def key (p : Path) : List Bytes := p.components.map Component.key

theorem key_eq_key_iff {p q : Path} : p.key = q.key ↔ p.Same q :=
  List.map_inj_right fun _ _ => Component.key_injective

instance : LT Path := ⟨fun p q => p.key < q.key⟩

instance : LE Path := ⟨fun p q => p.key ≤ q.key⟩

instance (p q : Path) : Decidable (p < q) := inferInstanceAs (Decidable (p.key < q.key))

instance (p q : Path) : Decidable (p ≤ q) := inferInstanceAs (Decidable (p.key ≤ q.key))

theorem lt_irrefl (p : Path) : ¬p < p := List.lt_irrefl p.key

theorem lt_trans {p q r : Path} (h : p < q) (k : q < r) : p < r := List.lt_trans h k

theorem le_trans {p q r : Path} (h : p ≤ q) (k : q ≤ r) : p ≤ r := List.le_trans h k

theorem le_total (p q : Path) : p ≤ q ∨ q ≤ p := List.le_total p.key q.key

theorem not_lt {p q : Path} : ¬p < q ↔ q ≤ p := Iff.rfl

theorem same_of_le_of_le {p q : Path} (h : p ≤ q) (k : q ≤ p) : p.Same q :=
  key_eq_key_iff.1 (List.le_antisymm h k)

/-- Earlier paths first. Spellings of the same path keep the order they came in. -/
def sort (paths : List Path) : List Path := paths.mergeSort fun p q => decide (p ≤ q)

theorem mem_sort {p : Path} {paths : List Path} : p ∈ sort paths ↔ p ∈ paths :=
  List.mem_mergeSort

theorem pairwise_sort (paths : List Path) : (sort paths).Pairwise (· ≤ ·) := by
  refine (List.pairwise_mergeSort (fun p q r h k => ?_) (fun p q => ?_) paths).imp
    fun h => of_decide_eq_true h
  · exact decide_eq_true (le_trans (of_decide_eq_true h) (of_decide_eq_true k))
  · simpa using le_total p q

end Path

end DirectoryWatch
