import DirectoryWatch.Toml.Scalar

/-!
# Quoted texts

Texts between quotes, on one line or on several. Between double quotes a backslash introduces an
escape; between single quotes every character stands for itself.
-/
namespace DirectoryWatch.Toml

def isSpace (c : Char) : Bool := c == ' ' || c == '\t'

/-- A control character other than the tab. -/
def isControl (c : Char) : Bool := (c.toNat < 0x20 && c != '\t') || c == '\x7f'

/-- A line break is a line feed, with a carriage return before it or without. -/
def isBreak (c : Char) (rest : List Char) : Bool :=
  c == '\n' || (c == '\r' && rest.head? == some '\n')

/-- Drops the line break right after the opening quotes. -/
def withoutFirstBreak : List Char → List Char
  | '\n' :: rest => rest
  | '\r' :: '\n' :: rest => rest
  | chars => chars

def escaped? : Char → Option Char
  | 'b' => some '\x08'
  | 't' => some '\t'
  | 'n' => some '\n'
  | 'f' => some '\x0c'
  | 'r' => some '\r'
  | 'e' => some '\x1b'
  | '"' => some '"'
  | '\\' => some '\\'
  | _ => none

def hexLength? : Char → Option Nat
  | 'x' => some 2
  | 'u' => some 4
  | 'U' => some 8
  | _ => none

/-- The character with this number. Surrogates are none. -/
def scalarValue? (n : Nat) : Option Char := if n.isValidChar then some (Char.ofNat n) else none

/-- Where a reader is in a text between double quotes. -/
inductive BasicMode
  | plain
  | escape
  /-- In a numeric escape with `left` digits to come. -/
  | hex (left value : Nat)
  /-- After a backslash that hides the rest of the line, before the line break. -/
  | lineEnd
  /-- After that line break: white space is hidden until something else comes. -/
  | gap
  deriving DecidableEq

/-- The end of a text in three quotes, after the three: up to two more belong to the text. -/
def closing (quote : Char) (text rest : List Char) : List Char × List Char :=
  match rest with
  | c :: d :: rest' =>
    if c = quote then
      if d = quote then (quote :: quote :: text, rest') else (quote :: text, d :: rest')
    else (text, rest)
  | [c] => if c = quote then (quote :: text, []) else (text, rest)
  | [] => (text, [])

/-- Reads a text between double quotes up to its end. `text` is what has been read, last character
first. -/
def basicFrom (multiline : Bool) (mode : BasicMode) (text : List Char) :
    List Char → Option (List Char × List Char)
  | [] => none
  | c :: rest =>
    let mode := if mode = .gap ∧ ¬(isSpace c ∨ isBreak c rest) then .plain else mode
    match mode with
    | .gap => basicFrom multiline .gap text rest
    | .lineEnd =>
      if isSpace c then basicFrom multiline .lineEnd text rest
      else if c = '\n' then basicFrom multiline .gap text rest
      else if isBreak c rest then basicFrom multiline .lineEnd text rest
      else none
    | .escape =>
      match escaped? c, hexLength? c with
      | some e, _ => basicFrom multiline .plain (e :: text) rest
      | none, some left => basicFrom multiline (.hex left 0) text rest
      | none, none =>
        if ¬multiline then none
        else if c = '\n' then basicFrom multiline .gap text rest
        else if isSpace c ∨ isBreak c rest then basicFrom multiline .lineEnd text rest
        else none
    | .hex left value =>
      match digit? 16 c with
      | none => none
      | some d =>
        let value := value * 16 + d
        if left = 1 then
          match scalarValue? value with
          | some e => basicFrom multiline .plain (e :: text) rest
          | none => none
        else basicFrom multiline (.hex (left - 1) value) text rest
    | .plain =>
      if c = '\\' then basicFrom multiline .escape text rest
      else if c = '"' then
        if ¬multiline then some (text, rest)
        else match rest with
          | '"' :: '"' :: after => some (closing '"' text after)
          | _ => basicFrom multiline .plain (c :: text) rest
      else if isControl c ∧ ¬(multiline ∧ isBreak c rest) then none
      else basicFrom multiline .plain (c :: text) rest

def literalFrom (multiline : Bool) (text : List Char) : List Char → Option (List Char × List Char)
  | [] => none
  | c :: rest =>
    if c = '\'' then
      if ¬multiline then some (text, rest)
      else match rest with
        | '\'' :: '\'' :: after => some (closing '\'' text after)
        | _ => literalFrom multiline (c :: text) rest
    else if isControl c ∧ ¬(multiline ∧ isBreak c rest) then none
    else literalFrom multiline (c :: text) rest

def lineText? : List Char → Option (String × List Char)
  | '"' :: rest => (basicFrom false .plain [] rest).map fun (t, r) => (String.ofList t.reverse, r)
  | '\'' :: rest => (literalFrom false [] rest).map fun (t, r) => (String.ofList t.reverse, r)
  | _ => none

def text? : List Char → Option (String × List Char)
  | '"' :: '"' :: '"' :: rest =>
    (basicFrom true .plain [] (withoutFirstBreak rest)).map fun (t, r) =>
      (String.ofList t.reverse, r)
  | '\'' :: '\'' :: '\'' :: rest =>
    (literalFrom true [] (withoutFirstBreak rest)).map fun (t, r) => (String.ofList t.reverse, r)
  | chars => lineText? chars

end DirectoryWatch.Toml
