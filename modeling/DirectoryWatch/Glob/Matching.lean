import DirectoryWatch.Glob.Token

/-!
# Matching globs

A glob is matched against the whole of a byte string. Each token turns the rests of the string
that are still to be matched into the rests after it; the glob matches when the empty rest is
among the last ones.
-/
namespace DirectoryWatch.Glob

def ends : Bytes → List Bytes
  | [] => [[]]
  | b :: rest => (b :: rest) :: ends rest

def afterSlashes : Bytes → List Bytes
  | [] => []
  | b :: rest => if b = 0x2f then rest :: afterSlashes rest else afterSlashes rest

/-- Rests of one string, the longest first and each once, put together. -/
def mergeRests (xs : List Bytes) (ys : List Bytes) : List Bytes :=
  match xs, ys with
  | [], ys => ys
  | xs, [] => xs
  | x :: xs, y :: ys =>
    if x.length = y.length then x :: mergeRests xs ys
    else if y.length < x.length then x :: mergeRests xs (y :: ys)
    else y :: mergeRests (x :: xs) ys
  termination_by xs.length + ys.length

def dropStart? : Bytes → Bytes → Option Bytes
  | [], bytes => some bytes
  | _ :: _, [] => none
  | s :: start, b :: bytes => if s = b then dropStart? start bytes else none

/-- The bytes of a class are those of the characters it lists. A range goes through the first
bytes of its lower end, then from the last of these to the first byte of its upper end, then
through the rest of that. -/
def rangeHas (first last : Char) (b : UInt8) : Bool :=
  let low := String.utf8EncodeChar first
  let high := String.utf8EncodeChar last
  if first = last then low.contains b
  else low.dropLast.contains b ||
    (low.getLastD 0 ≤ b && b ≤ high.headD 0) || high.tail.contains b

def classHas (negated : Bool) (ranges : List (Char × Char)) (b : UInt8) : Bool :=
  negated != ranges.any fun (first, last) => rangeHas first last b

def afterSlash (rests : List Bytes) : List Bytes := rests.filterMap (dropStart? [0x2f])

/-- The rests after any run of bytes. Every rest ends the longest one. -/
def afterRun : List Bytes → List Bytes
  | [] => []
  | longest :: _ => ends longest

def afterDirs : List Bytes → List Bytes
  | [] => []
  | longest :: _ => afterSlashes longest

namespace Token

mutual

/-- From the rests before the token to the rests after it. -/
def rests : Token → List Bytes → List Bytes
  | .literal c, before => before.filterMap (dropStart? (String.utf8EncodeChar c))
  | .anyByte, before => before.filterMap List.tail?
  | .anyRun, before => afterRun before
  | .leadingDirs, before => mergeRests before (afterDirs before)
  | .innerDirs, before =>
    let inner := afterSlash before
    mergeRests inner (afterDirs inner)
  | .trailingAll, before => afterRun (afterSlash before)
  | .charClass negated ranges, before => before.filterMap fun rest =>
    match rest with
    | b :: rest => if classHas negated ranges b then some rest else none
    | [] => none
  | .choice branches, before => if allVacuous branches then before else restsAny branches before

def restsAny : List (List Token) → List Bytes → List Bytes
  | [], _ => []
  | branch :: rest, before =>
    if vacuous branch then restsAny rest before
    else mergeRests (restsAll branch before) (restsAny rest before)

def restsAll : List Token → List Bytes → List Bytes
  | [], before => before
  | token :: rest, before => restsAll rest (token.rests before)

end

/-- The tokens match the whole string. A glob that is only `**` matches every string. -/
def matchAll (tokens : List Token) (bytes : Bytes) : Bool :=
  match tokens with
  | [.leadingDirs] => true
  | tokens => (restsAll tokens [bytes]).contains []

end Token

end DirectoryWatch.Glob
