import DirectoryWatch.Bytes

/-!
# UTF-8

Bytes are read as characters where they are well formed. Where they are not, the longest start of
a sequence that could still have become a character is one ill-formed piece, and so is a byte that
can start none.
-/
namespace DirectoryWatch.Text

inductive Piece
  | char (c : Char)
  | illFormed (bytes : Bytes)
  deriving DecidableEq, Repr

namespace Piece

def char? : Piece → Option Char
  | .char c => some c
  | .illFormed _ => none

end Piece

namespace Utf8

/-- The ranges that the bytes after a lead byte must lie in, one for each byte. A lead byte of a
sequence that would be overlong, a surrogate or past the last code point has none. -/
def tails (lead : UInt8) : List (UInt8 × UInt8) :=
  if 0xc2 ≤ lead ∧ lead ≤ 0xdf then [(0x80, 0xbf)]
  else if lead = 0xe0 then [(0xa0, 0xbf), (0x80, 0xbf)]
  else if lead = 0xed then [(0x80, 0x9f), (0x80, 0xbf)]
  else if 0xe1 ≤ lead ∧ lead ≤ 0xef then [(0x80, 0xbf), (0x80, 0xbf)]
  else if lead = 0xf0 then [(0x90, 0xbf), (0x80, 0xbf), (0x80, 0xbf)]
  else if 0xf1 ≤ lead ∧ lead ≤ 0xf3 then [(0x80, 0xbf), (0x80, 0xbf), (0x80, 0xbf)]
  else if lead = 0xf4 then [(0x80, 0x8f), (0x80, 0xbf), (0x80, 0xbf)]
  else []

/-- The bits of the code point that the lead byte carries. -/
def leadBits (lead : UInt8) : Nat :=
  if lead < 0xe0 then lead.toNat - 0xc0
  else if lead < 0xf0 then lead.toNat - 0xe0
  else lead.toNat - 0xf0

/-- A sequence that still waits for bytes. -/
structure Pending where
  taken : Bytes
  value : Nat
  next : UInt8 × UInt8
  after : List (UInt8 × UInt8)

/-- What a byte amounts to where a sequence may start. -/
def start (b : UInt8) : Piece ⊕ Pending :=
  if b < 0x80 then .inl (.char (Char.ofNat b.toNat))
  else match tails b with
    | [] => .inl (.illFormed [b])
    | next :: after => .inr ⟨[b], leadBits b, next, after⟩

/-- Reads on, after the bytes of an unfinished sequence if there is one. -/
def piecesFrom : Option Pending → Bytes → List Piece
  | none, [] => []
  | some p, [] => [.illFormed p.taken]
  | none, b :: rest =>
    match start b with
    | .inl piece => piece :: piecesFrom none rest
    | .inr p => piecesFrom (some p) rest
  | some p, b :: rest =>
    if p.next.1 ≤ b ∧ b ≤ p.next.2 then
      let value := p.value * 64 + (b.toNat - 0x80)
      match p.after with
      | [] => .char (Char.ofNat value) :: piecesFrom none rest
      | next :: after => piecesFrom (some ⟨p.taken ++ [b], value, next, after⟩) rest
    else
      match start b with
      | .inl piece => .illFormed p.taken :: piece :: piecesFrom none rest
      | .inr q => .illFormed p.taken :: piecesFrom (some q) rest

def pieces (bytes : Bytes) : List Piece := piecesFrom none bytes

/-- The characters, where the bytes are well formed throughout. -/
def decode? (bytes : Bytes) : Option String :=
  ((pieces bytes).mapM Piece.char?).map String.ofList

/-- The characters, with U+FFFD for each ill-formed piece. -/
def lossy (bytes : Bytes) : String :=
  String.ofList ((pieces bytes).map fun piece => piece.char?.getD '\uFFFD')

end Utf8

end DirectoryWatch.Text
