import DirectoryWatch.Glob.Matching
import DirectoryWatch.Glob.Reader

/-!
# Globs as tests on a relative path

A glob keeps the text it was read from. Most globs are matched against the whole path, but some
forms look at its last name only: `**/name` compares the name, `*.ext` compares what follows the
last dot, and `**/` before literals and classes leaves only the last name to them. A glob that ends
in a literal `.ext` also asks the last name to have it.
-/
namespace DirectoryWatch

structure Glob where
  text : String
  tokens : List Glob.Token
  tokens_eq : Glob.readTokens text = .ok tokens

namespace Glob

def read (text : String) : Except SyntaxError Glob :=
  match h : readTokens text with
  | .ok tokens => .ok ⟨text, tokens, h⟩
  | .error e => .error e

/-- What a glob is compared with. -/
inductive Scope
  | lastName (name : Bytes)
  /-- The last name ends in exactly this, from its last dot on. -/
  | extension (ext : Bytes)
  | text
  | start
  | ending
  /-- The path as a whole, and the last name from its last dot on. -/
  | wholeWithExtension (ext : Bytes)
  /-- The last name, byte by byte. -/
  | withinName
  | whole
  deriving DecidableEq, Repr

def literals? : List Token → Option (List Char)
  | [] => some []
  | .literal c :: rest => (literals? rest).map (c :: ·)
  | _ :: _ => none

def bytesOf (chars : List Char) : Bytes := chars.flatMap String.utf8EncodeChar

/-- The name of a glob `**/name`. -/
def lastName? : List Token → Option Bytes
  | .leadingDirs :: first :: rest =>
    match literals? (first :: rest) with
    | some chars => if '/' ∈ chars then none else some (bytesOf chars)
    | none => none
  | _ => none

def withoutLeadingDirs : List Token → List Token
  | .leadingDirs :: rest => rest
  | tokens => tokens

/-- The extension of a glob `*.ext` or `**/*.ext`. -/
def extension? (tokens : List Token) : Option Bytes :=
  match withoutLeadingDirs tokens with
  | .anyRun :: .literal '.' :: rest =>
    match literals? rest with
    | some chars => if '.' ∈ chars ∨ '/' ∈ chars then none else some (bytesOf ('.' :: chars))
    | none => none
  | _ => none

def isStart (tokens : List Token) : Bool :=
  match tokens.reverse with
  | .anyRun :: before => 2 ≤ tokens.length && before.all Token.isLiteral
  | .trailingAll :: before => before.all Token.isLiteral
  | _ => false

def isEnding (tokens : List Token) : Bool :=
  match withoutLeadingDirs tokens with
  | .anyRun :: rest =>
    match literals? rest with
    | some chars => !(chars.isEmpty || chars == ['/'])
    | none => false
  | [] => false
  | rest => rest.all Token.isLiteral

/-- The literal `.ext` that ends the tokens, given last token first. -/
def finalExtension? (found : List Char) : List Token → Option Bytes
  | .literal '.' :: _ => some (bytesOf ('.' :: found))
  | .literal '/' :: _ => none
  | .literal c :: rest => finalExtension? (c :: found) rest
  | _ => none

def Token.isInName : Token → Bool
  | .literal c => c != '/'
  | .charClass negated ranges => !classHas negated ranges 0x2f
  | _ => false

/-- The glob is `**/` before literals and classes that no slash is among. -/
def staysInName : List Token → Bool
  | .leadingDirs :: first :: rest => (first :: rest).all Token.isInName
  | _ => false

def scopeOf (tokens : List Token) : Scope :=
  match lastName? tokens with
  | some name => .lastName name
  | none =>
    if !tokens.isEmpty && tokens.all Token.isLiteral then .text
    else match extension? tokens with
      | some ext => .extension ext
      | none =>
        if isStart tokens then .start
        else if isEnding tokens then .ending
        else match finalExtension? [] tokens.reverse with
          | some ext => .wholeWithExtension ext
          | none => if staysInName tokens then .withinName else .whole

def scope (g : Glob) : Scope := scopeOf g.tokens

/-- What follows the last slash, unless that is empty or `..`. -/
def lastNameOf? (path : Bytes) : Option Bytes :=
  match (Bytes.split 0x2f path).getLastD [] with
  | [] => none
  | name => if name = [0x2e, 0x2e] then none else some name

def extensionOf? (path : Bytes) : Option Bytes := do
  let name ← lastNameOf? path
  match Bytes.split 0x2e name with
  | [] => none
  | [_] => none
  | pieces => some (0x2e :: pieces.getLastD [])

def isMatch (g : Glob) (path : Bytes) : Bool :=
  match g.scope with
  | .lastName name => lastNameOf? path = some name
  | .extension ext => extensionOf? path = some ext
  | .wholeWithExtension ext => extensionOf? path = some ext && Token.matchAll g.tokens path
  | _ => Token.matchAll g.tokens path

end Glob

end DirectoryWatch
