import DirectoryWatch.Glob.Basic

/-!
# Globs as expressions

The globs that no simpler comparison decides stand for an expression over bytes. Expressions may
only nest so deep, counting their sequences, groups, choices, repetitions and classes. The text of
the expression is shown where one of them is refused by itself.
-/
namespace DirectoryWatch.Glob

def deepestNesting : Nat := 250

/-- The number of items that a token contributes to the sequence it stands in, and the depth of
the deepest. -/
structure Extent where
  items : Nat
  depth : Nat

namespace Extent

def none : Extent := ⟨0, 0⟩

def andThen (a b : Extent) : Extent := ⟨a.items + b.items, max a.depth b.depth⟩

/-- The depth of the items as one expression: two or more of them make a sequence. -/
def asExpression (e : Extent) : Nat := if e.items ≤ 1 then e.depth else e.depth + 1

end Extent

/-- A range lists the first bytes of its lower end, one range of bytes, and the last bytes of its
upper end. -/
def rangeItems (first last : Char) : Nat :=
  let low := (String.utf8EncodeChar first).length
  if first = last then low else low + (String.utf8EncodeChar last).length - 1

def classItems (ranges : List (Char × Char)) : Nat :=
  ranges.foldl (fun count (first, last) => count + rangeItems first last) 0

namespace Token

mutual

def extent : Token → Extent
  | .literal c => ⟨(String.utf8EncodeChar c).length, 0⟩
  | .anyByte => ⟨1, 0⟩
  | .anyRun => ⟨1, 1⟩
  | .leadingDirs => ⟨1, 4⟩
  | .innerDirs => ⟨1, 4⟩
  | .trailingAll => ⟨2, 1⟩
  | .charClass _ ranges => ⟨1, if classItems ranges ≤ 1 then 1 else 2⟩
  | .choice branches =>
    match branchExtent branches with
    | ⟨0, _⟩ => .none
    | ⟨1, depth⟩ => ⟨1, depth + 1⟩
    | ⟨_, depth⟩ => ⟨1, depth + 2⟩

def branchExtent : List (List Token) → Extent
  | [] => .none
  | branch :: rest =>
    if vacuous branch then branchExtent rest
    else Extent.andThen ⟨1, (extentAll branch).asExpression⟩ (branchExtent rest)

def extentAll : List Token → Extent
  | [] => .none
  | token :: rest => token.extent.andThen (extentAll rest)

end

/-- The depth of the whole expression, which is always a sequence. -/
def nesting (tokens : List Token) : Nat := (extentAll tokens).depth + 1

end Token

def specialChars : List Char :=
  ['\\', '.', '+', '*', '?', '(', ')', '|', '[', ']', '\x7b', '\x7d', '^', '$', '#', '&', '-', '~']

def literalByte (b : UInt8) : List Char :=
  if b < 0x80 then
    let c := Char.ofNat b.toNat
    if c ∈ specialChars then ['\\', c] else [c]
  else
    '\\' :: 'x' :: Nat.toDigits 16 b.toNat

def literalChar (c : Char) : List Char := (String.utf8EncodeChar c).flatMap literalByte

def rangeText (first last : Char) : List Char :=
  if first = last then literalChar first else literalChar first ++ '-' :: literalChar last

namespace Token

mutual

def expression : Token → List Char
  | .literal c => literalChar c
  | .anyByte => ['.']
  | .anyRun => ".*".toList
  | .leadingDirs => "(?:/?|.*/)".toList
  | .innerDirs => "(?:/|/.*/)".toList
  | .trailingAll => "/.*".toList
  | .charClass negated ranges =>
    '[' :: (if negated then ['^'] else []) ++
      ranges.flatMap (fun (first, last) => rangeText first last) ++ [']']
  | .choice branches =>
    if allVacuous branches then []
    else "(?:".toList ++ ['|'].intercalate (branchExpressions branches) ++ [')']

def branchExpressions : List (List Token) → List (List Char)
  | [] => []
  | branch :: rest =>
    if vacuous branch then branchExpressions rest
    else expressionAll branch :: branchExpressions rest

def expressionAll : List Token → List Char
  | [] => []
  | token :: rest => token.expression ++ expressionAll rest

end

end Token

def expression (g : Glob) : String :=
  let body := match g.tokens with
    | [.leadingDirs] => ".*".toList
    | tokens => Token.expressionAll tokens
  String.ofList ("(?-u)^".toList ++ body ++ ['$'])

def tooDeep (g : Glob) : Bool := deepestNesting < Token.nesting g.tokens

end DirectoryWatch.Glob
