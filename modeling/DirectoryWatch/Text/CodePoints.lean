/-!
# Sets of code points

A set of characters given by the ranges of its code points, ends included. The sets of this library
are those of Unicode 17.
-/
namespace DirectoryWatch.Text

abbrev CodePoints := List (Nat × Nat)

def CodePoints.contains (ranges : CodePoints) (c : Char) : Bool :=
  ranges.any fun (first, last) => first ≤ c.toNat && c.toNat ≤ last

end DirectoryWatch.Text
