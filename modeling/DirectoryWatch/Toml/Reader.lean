import DirectoryWatch.Toml.Quoted
import DirectoryWatch.Toml.Table

/-!
# Reading TOML

A document is read into its sections, each a header with the keys below it, and the sections are
put together to one table. The readers take characters from the front and answer with what is
left. `fuel` bounds the number of steps; the length of the text is always enough.
-/
namespace DirectoryWatch.Toml

/-- Values may nest this deep. -/
def deepestValue : Nat := 80

/-- A dotted key may have this many parts. -/
def longestKey : Nat := 80

def skipSpace (chars : List Char) : List Char := chars.dropWhile isSpace

def skipBlank (inComment : Bool) : List Char → Option (List Char)
  | [] => some []
  | c :: rest =>
    if isBreak c rest then skipBlank (inComment && c == '\r') rest
    else if inComment then if isControl c then none else skipBlank true rest
    else if isSpace c then skipBlank false rest
    else if c = '#' then skipBlank true rest
    else some (c :: rest)

def lineEnd (inComment : Bool) : List Char → Option (List Char)
  | [] => some []
  | c :: rest =>
    if c = '\n' then some rest
    else if isBreak c rest then lineEnd inComment rest
    else if inComment then if isControl c then none else lineEnd true rest
    else if isSpace c then lineEnd false rest
    else if c = '#' then lineEnd true rest
    else none

def isKeyChar (c : Char) : Bool :=
  (c.isAlpha || c.isDigit || c == '_' || c == '-') && c.toNat < 0x80

def keyPart? (chars : List Char) : Option (String × List Char) :=
  match chars with
  | '"' :: _ => lineText? chars
  | '\'' :: _ => lineText? chars
  | _ =>
    let word := chars.takeWhile isKeyChar
    if word.isEmpty then none else some (String.ofList word, chars.dropWhile isKeyChar)

/-- A dotted key of at most so many parts: its parts but the last, the last, and what follows the
white space after it. -/
def keyOfParts? : Nat → List Char → Option (List String × String × List Char)
  | 0, _ => none
  | more + 1, chars => do
    let (part, rest) ← keyPart? (skipSpace chars)
    match skipSpace rest with
    | '.' :: rest =>
      let (path, key, rest) ← keyOfParts? more rest
      return (part :: path, key, rest)
    | rest => return ([], part, rest)

def key? (chars : List Char) : Option (List String × String × List Char) :=
  keyOfParts? longestKey chars

def isUnquotedChar (c : Char) : Bool :=
  !(isSpace c || isControl c || c ∈ [',', '[', ']', '\x7b', '\x7d', '#', '=', '"', '\''])

/-- The text of an unquoted value. A date may be followed by a space and a time. -/
def unquoted (chars : List Char) : List Char × List Char :=
  let word := chars.takeWhile isUnquotedChar
  match chars.dropWhile isUnquotedChar with
  | ' ' :: c :: rest =>
    if afterDate? word = some [] ∧ c.isDigit then
      (word ++ ' ' :: (c :: rest).takeWhile isUnquotedChar, (c :: rest).dropWhile isUnquotedChar)
    else (word, ' ' :: c :: rest)
  | rest => (word, rest)

mutual

/-- A value. `depth` is the number of arrays and tables it may still open. -/
def value? : Nat → Nat → List Char → Option (Value × List Char)
  | 0, _, _ => none
  | fuel + 1, depth, chars =>
    match chars with
    | '"' :: _ => (text? chars).map fun (t, rest) => (.string t, rest)
    | '\'' :: _ => (text? chars).map fun (t, rest) => (.string t, rest)
    | '[' :: rest =>
      match depth with
      | 0 => none
      | depth + 1 => (items? fuel depth [] rest).map fun (vs, rest) => (.array false vs, rest)
    | '\x7b' :: rest =>
      match depth with
      | 0 => none
      | depth + 1 => (pairs? fuel depth [] rest).map fun (es, rest) => (.table .inlined es, rest)
    | chars =>
      let (word, rest) := unquoted chars
      (scalar? word).map fun v => (v, rest)

/-- The items of an array, after the bracket or a comma. -/
def items? : Nat → Nat → List Value → List Char → Option (List Value × List Char)
  | 0, _, _, _ => none
  | fuel + 1, depth, found, chars => do
    match ← skipBlank false chars with
    | ']' :: rest => return (found.reverse, rest)
    | chars =>
      let (v, rest) ← value? fuel depth chars
      match ← skipBlank false rest with
      | ',' :: rest => items? fuel depth (v :: found) rest
      | ']' :: rest => return ((v :: found).reverse, rest)
      | _ => none

/-- The keys of a table between braces, after the brace or a comma. Lines may break anywhere between
them but inside of a key. -/
def pairs? : Nat → Nat → Entries → List Char → Option (Entries × List Char)
  | 0, _, _, _ => none
  | fuel + 1, depth, found, chars => do
    match ← skipBlank false chars with
    | '\x7d' :: rest => return (found, rest)
    | chars =>
      let (path, key, rest) ← key? chars
      match ← skipBlank false rest with
      | '=' :: rest =>
        let (v, rest) ← value? fuel depth (← skipBlank false rest)
        let found ← found.addKey path key v
        match ← skipBlank false rest with
        | ',' :: rest => pairs? fuel depth found rest
        | '\x7d' :: rest => return (found, rest)
        | _ => none
      | _ => none

end

structure Section where
  /-- The path of the header and its last key; the first section has none. -/
  header : Option (List String × String)
  /-- The header stands in double brackets. -/
  ofArray : Bool
  /-- The keys below the header, each with its path and its value, last first. -/
  keys : List (List String × String × Value)

def header? (chars : List Char) : Option (Section × List Char) := do
  match chars with
  | '[' :: chars =>
    let (path, key, rest) ← key? chars
    match rest with
    | ']' :: ']' :: rest => return (⟨some (path, key), true, []⟩, ← lineEnd false rest)
    | _ => none
  | chars =>
    let (path, key, rest) ← key? chars
    match rest with
    | ']' :: rest => return (⟨some (path, key), false, []⟩, ← lineEnd false rest)
    | _ => none

/-- The sections of a document, last first. -/
def sections? : Nat → List Section → List Char → Option (List Section)
  | 0, _, _ => none
  | fuel + 1, found, chars => do
    match ← skipBlank false chars, found with
    | [], _ => return found
    | '[' :: rest, _ =>
      let (header, rest) ← header? rest
      sections? fuel (header :: found) rest
    | chars, last :: before =>
      let (path, key, rest) ← key? chars
      match rest with
      | '=' :: rest =>
        let (v, rest) ← value? fuel deepestValue (skipSpace rest)
        let rest ← lineEnd false rest
        sections? fuel ({ last with keys := (path, key, v) :: last.keys } :: before) rest
      | _ => none
    | _, [] => none

namespace Section

def fill (s : Section) (entries : Entries) : Option Entries :=
  s.keys.reverse.foldlM (fun entries (path, key, v) => entries.addKey path key v) entries

def addTo (s : Section) (root : Entries) : Option Entries :=
  match s.header with
  | none => s.fill root
  | some (path, key) =>
    if s.ofArray then root.addElement path key s.fill else root.addTable path key s.fill

end Section

/-- A mark that may stand before a text and says nothing. -/
def byteOrderMark : Char := '\uFEFF'

def read? (text : String) : Option Entries := do
  let chars := match text.toList with
    | c :: rest => if c = byteOrderMark then rest else c :: rest
    | [] => []
  let sections ← sections? (chars.length + 2) [⟨none, false, []⟩] chars
  sections.reverse.foldlM (fun root s => s.addTo root) []

end DirectoryWatch.Toml
