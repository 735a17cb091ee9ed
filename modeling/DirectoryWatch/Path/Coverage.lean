import DirectoryWatch.Path.Basic

/-!
# Covered regions

A root covers itself and everything below it. `topmost` reduces a list of roots to those that lie
below no other, in order; the region they cover stays the same.
-/
namespace DirectoryWatch.Path

/-- `p` is `root` or lies below it. Containment is by components: `/ab` is not below `/a`. -/
def atOrBelow (p root : Path) : Bool := root.components.isPrefixOf p.components

def below (p root : Path) : Bool := !decide (p.Same root) && p.atOrBelow root

/-- `p` is one of the roots or lies below one. -/
def coveredBy (p : Path) (roots : List Path) : Bool := roots.any fun root => p.atOrBelow root

/-- `p` is one of the roots or an ancestor of one. -/
def leadsTo (p : Path) (roots : List Path) : Bool := roots.any fun root => root.atOrBelow p

/-- `p` is an ancestor of one of the roots, and not only one of them. -/
def strictlyLeadsTo (p : Path) (roots : List Path) : Bool := roots.any fun root => root.below p

/-- Drops each path that lies at or below the last one kept. -/
def keepUncovered : Option Path → List Path → List Path
  | _, [] => []
  | none, p :: rest => p :: keepUncovered (some p) rest
  | some kept, p :: rest =>
    if p.atOrBelow kept then keepUncovered (some kept) rest
    else p :: keepUncovered (some p) rest

/-- The paths below no other, in order, each once. Of several spellings the first stays.

In order, what lies below a path follows it at once, so the last path kept is the only one that
can cover the next. -/
def topmost (paths : List Path) : List Path := keepUncovered none (sort paths)

theorem mem_of_mem_keepUncovered {kept : Option Path} {p : Path} {paths : List Path}
    (h : p ∈ keepUncovered kept paths) : p ∈ paths := by
  fun_induction keepUncovered kept paths with
  | case1 => exact h
  | case2 q rest ih => simpa using (List.mem_cons.1 h).imp_right ih
  | case3 kept q rest hq ih => exact List.mem_cons_of_mem q (ih h)
  | case4 kept q rest hq ih => simpa using (List.mem_cons.1 h).imp_right ih

theorem mem_of_mem_topmost {p : Path} {paths : List Path} (h : p ∈ topmost paths) : p ∈ paths :=
  mem_sort.1 (mem_of_mem_keepUncovered h)

theorem atOrBelow_iff {p root : Path} :
    p.atOrBelow root = true ↔ root.components <+: p.components :=
  List.isPrefixOf_iff_prefix

theorem atOrBelow_refl (p : Path) : p.atOrBelow p = true :=
  atOrBelow_iff.2 (List.prefix_refl _)

theorem atOrBelow_trans {p q r : Path} (h : p.atOrBelow q = true) (k : q.atOrBelow r = true) :
    p.atOrBelow r = true :=
  atOrBelow_iff.2 ((atOrBelow_iff.1 k).trans (atOrBelow_iff.1 h))

theorem le_of_atOrBelow {p root : Path} (h : p.atOrBelow root = true) : root ≤ p :=
  ((atOrBelow_iff.1 h).map Component.key).le

end DirectoryWatch.Path
