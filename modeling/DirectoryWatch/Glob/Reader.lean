import DirectoryWatch.Glob.Token

/-!
# Reading globs

One pass over the characters. The reader keeps the tokens of the branch it is in, last first, the
choices it is inside of, and the class it is inside of, if any; the character before the present
one decides what `**` means.
-/
namespace DirectoryWatch.Glob

/-- A choice that is still open: the tokens before it and its finished branches, last first. -/
structure OpenChoice where
  before : List Token
  branches : List (List Token)

structure Reader where
  branch : List Token
  choices : List OpenChoice

namespace Reader

def initial : Reader := ⟨[], []⟩

def push (r : Reader) (token : Token) : Reader := { r with branch := token :: r.branch }

def insideChoice (r : Reader) : Bool := !r.choices.isEmpty

def openChoice (r : Reader) : Reader := ⟨[], ⟨r.branch, []⟩ :: r.choices⟩

def closeChoice (r : Reader) : Except SyntaxError Reader :=
  match r.choices with
  | [] => .error .unopenedChoice
  | choice :: outer =>
    let branches := (r.branch.reverse :: choice.branches).reverse
    .ok ⟨.choice branches :: choice.before, outer⟩

/-- Outside of a choice a comma is a comma. -/
def comma (r : Reader) : Reader :=
  match r.choices with
  | [] => r.push (.literal ',')
  | choice :: outer => ⟨[], ⟨choice.before, r.branch.reverse :: choice.branches⟩ :: outer⟩

def twoRuns (r : Reader) : Reader := (r.push .anyRun).push .anyRun

/-- Replaces the last token, a slash as a rule, by a token for the directories. Directories
directly after directories are folded into them. -/
def pushDirs (r : Reader) (token : Token) : Reader :=
  match r.branch with
  | .leadingDirs :: rest => ⟨.leadingDirs :: rest, r.choices⟩
  | .trailingAll :: rest => ⟨.trailingAll :: rest, r.choices⟩
  | _ :: rest => ⟨token :: rest, r.choices⟩
  | [] => ⟨[token], r.choices⟩

end Reader

structure OpenClass where
  negated : Bool
  ranges : List (Char × Char)
  first : Bool
  /-- A `-` has been read that the next character may complete. -/
  inRange : Bool

namespace OpenClass

def add (cls : OpenClass) (c : Char) : OpenClass :=
  { cls with ranges := (c, c) :: cls.ranges, first := false, inRange := false }

def extend (cls : OpenClass) (c : Char) : Except SyntaxError OpenClass :=
  match cls.ranges with
  | (first, _) :: rest =>
    if c < first then .error (.invalidRange first c)
    else .ok { cls with ranges := (first, c) :: rest, inRange := false }
  | [] => .ok (cls.add c)

def read (cls : OpenClass) (c : Char) : Except SyntaxError OpenClass :=
  if cls.first then .ok (cls.add c)
  else if cls.inRange then cls.extend c
  else if c = '-' then .ok { cls with inRange := true }
  else .ok (cls.add c)

def close (cls : OpenClass) : Token :=
  let ranges := if cls.inRange then ('-', '-') :: cls.ranges else cls.ranges
  .charClass cls.negated ranges.reverse

end OpenClass

/-- Whether `**` may stand for directories after the character `before`: after a slash, or, inside
a choice, after a comma or an opening brace. -/
def dirsAllowedAfter (r : Reader) : Option Char → Bool
  | some '/' => true
  | some ',' => r.insideChoice
  | some '{' => r.insideChoice
  | _ => false

/-- What `**` adds between the character `before` and the characters `after`, and whether it takes
the slash after it along. -/
def readStars (before : Option Char) (r : Reader) (after : List Char) : Reader × Bool :=
  if r.branch.isEmpty then
    match after with
    | [] => (r.push .leadingDirs, false)
    | c :: _ => if c = '/' then (r.push .leadingDirs, true) else (r.twoRuns, false)
  else if dirsAllowedAfter r before then
    match after with
    | [] => (r.pushDirs .trailingAll, false)
    | c :: _ =>
      if c = '/' then (r.pushDirs .innerDirs, true)
      else if r.insideChoice ∧ (c = ',' ∨ c = '}') then (r.pushDirs .trailingAll, false)
      else (r.twoRuns, false)
  else (r.twoRuns, false)

/-- Reads on. `before` is the last character read, and `cls` the open class. -/
def readFrom (before : Option Char) (cls : Option OpenClass) (r : Reader)
    (chars : List Char) : Except SyntaxError Reader :=
  match cls, chars with
  | none, [] => .ok r
  | some _, [] => .error .unclosedClass
  | some cls, c :: rest =>
    if c = ']' ∧ ¬cls.first then readFrom (some c) none (r.push cls.close) rest
    else do readFrom (some c) (some (← cls.read c)) r rest
  | none, '?' :: rest => readFrom (some '?') none (r.push .anyByte) rest
  | none, '[' :: '!' :: rest => readFrom (some '!') (some ⟨true, [], true, false⟩) r rest
  | none, '[' :: '^' :: rest => readFrom (some '^') (some ⟨true, [], true, false⟩) r rest
  | none, '[' :: rest => readFrom (some '[') (some ⟨false, [], true, false⟩) r rest
  | none, '{' :: rest => readFrom (some '{') none r.openChoice rest
  | none, '}' :: rest => do readFrom (some '}') none (← r.closeChoice) rest
  | none, ',' :: rest => readFrom (some ',') none r.comma rest
  | none, ['\\'] => .error .danglingEscape
  | none, '\\' :: c :: rest => readFrom (some c) none (r.push (.literal c)) rest
  | none, '*' :: '*' :: after =>
    match readStars before r after with
    | (r, false) => readFrom (some '*') none r after
    | (r, true) =>
      match after with
      | [] => .ok r
      | c :: after => readFrom (some c) none r after
  | none, '*' :: rest => readFrom (some '*') none (r.push .anyRun) rest
  | none, c :: rest => readFrom (some c) none (r.push (.literal c)) rest

def readTokens (text : String) : Except SyntaxError (List Token) := do
  let r ← readFrom none none .initial text.toList
  if r.insideChoice then .error .unclosedChoice else .ok r.branch.reverse

end DirectoryWatch.Glob
