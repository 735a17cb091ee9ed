import DirectoryWatch.Path.Basic

/-!
# Parts of a path

The parent and the last name of a path, the path below a directory, and the chain of ancestors.
All of them follow the components and keep the spelling of what they leave standing.
-/
namespace DirectoryWatch.Path

/-- A segment that stands for no component. -/
def idle (segment : Bytes) : Bool := (Component.ofSegment? segment).isNone

def trimStart (segments : List Bytes) : List Bytes := segments.dropWhile idle

def trimEnd (segments : List Bytes) : List Bytes := (segments.reverse.dropWhile idle).reverse

/-- The path without its last component. The root and the empty path have no parent. -/
def parent? (p : Path) : Option Path :=
  match trimEnd p.segments, p.anchor with
  | [], .current => some ⟨[]⟩
  | [], _ => none
  | segments, anchor => some (ofParts anchor (trimEnd segments.dropLast))

def fileName? (p : Path) : Option Bytes :=
  match p.components.getLast? with
  | some (.name bytes) => some bytes
  | _ => none

/-- `p` seen from `base`. An absolute `p` stays as it is. -/
def join (base p : Path) : Path :=
  if p.isAbsolute then p
  else if base.bytes = [] ∨ base.bytes.getLast? = some slash then ⟨base.bytes ++ p.bytes⟩
  else ⟨base.bytes ++ slash :: p.bytes⟩

/-- The segments after the first `n` components among them. -/
def dropComponents : Nat → List Bytes → List Bytes
  | 0, segments => segments
  | _ + 1, [] => []
  | n + 1, segment :: rest =>
    if idle segment then dropComponents (n + 1) rest else dropComponents n rest

/-- What is left of `p` below `base`; none where `base` is neither `p` nor an ancestor of it. -/
def relativeTo? (p base : Path) : Option Path :=
  if base.components.isPrefixOf p.components then
    match base.components.length with
    | 0 => some (ofParts p.anchor (trimEnd p.segments))
    | n + 1 =>
      let inner := dropComponents (n + 1 - p.anchor.components.length) p.segments
      some (ofParts .none (trimEnd (trimStart inner)))
  else none

def ancestorsUpTo : Nat → Path → List Path
  | 0, p => [p]
  | depth + 1, p =>
    match p.parent? with
    | none => [p]
    | some parent => p :: ancestorsUpTo depth parent

/-- The path, its parent, and so on to the root or the empty path. -/
def ancestors (p : Path) : List Path := ancestorsUpTo p.components.length p

end DirectoryWatch.Path
