import DirectoryWatch.Path.Basic
import DirectoryWatch.Text.Printable
import DirectoryWatch.Text.Utf8

/-!
# Paths in messages

A path is written plainly, with U+FFFD for what is not UTF-8, or quoted, so that every byte of it
can be read off: quotes and backslashes are escaped, and so is all that cannot be seen.
-/
namespace DirectoryWatch

namespace Text

def hexDigit (n : Nat) : Char := if n < 10 then Char.ofNat (48 + n) else Char.ofNat (87 + n)

/-- Hexadecimal in lower case and without leading zeros. -/
def hex (n : Nat) : List Char := Nat.toDigits 16 n

def hexByte (b : UInt8) : List Char :=
  [hexDigit (b.toNat / 16), hexDigit (b.toNat % 16)].map Char.toUpper

def quotedChar (c : Char) : List Char :=
  if c = '\x00' then ['\\', '0']
  else if c = '\t' then ['\\', 't']
  else if c = '\r' then ['\\', 'r']
  else if c = '\n' then ['\\', 'n']
  else if c = '\\' then ['\\', '\\']
  else if c = '"' then ['\\', '"']
  else if isPrintable c then [c]
  else '\\' :: 'u' :: '\x7b' :: (hex c.toNat ++ ['\x7d'])

def quotedPiece : Piece → List Char
  | .char c => quotedChar c
  | .illFormed bytes => bytes.flatMap fun b => '\\' :: 'x' :: hexByte b

end Text

namespace Path

def display (p : Path) : String := Text.Utf8.lossy p.bytes

/-- The path in double quotes, unambiguous. -/
def quoted (p : Path) : String :=
  String.ofList ('"' :: ((Text.Utf8.pieces p.bytes).flatMap Text.quotedPiece ++ ['"']))

def quotedAll (paths : List Path) : String :=
  "[" ++ ", ".intercalate (paths.map quoted) ++ "]"

end Path

end DirectoryWatch
