import DirectoryWatch.Bytes

/-!
# Globs

A glob is read into tokens. `?` is any byte and `*` any run of bytes, slashes included; `**` as a
whole component stands for any number of directories; `[..]` is a class and `{..,..}` a choice.
-/
namespace DirectoryWatch.Glob

inductive Token
  | literal (c : Char)
  | anyByte
  | anyRun
  /-- `**/` at the start, or `**` alone. -/
  | leadingDirs
  /-- `/**/` in the middle. -/
  | innerDirs
  /-- `/**` at the end. -/
  | trailingAll
  | charClass (negated : Bool) (ranges : List (Char × Char))
  | choice (branches : List (List Token))
  deriving Repr

inductive SyntaxError
  | unclosedClass
  | invalidRange (first last : Char)
  | unopenedChoice
  | unclosedChoice
  | danglingEscape
  deriving DecidableEq, Repr

def SyntaxError.message : SyntaxError → String
  | .unclosedClass => "unclosed character class; missing ']'"
  | .invalidRange first last =>
    "invalid range; '" ++ first.toString ++ "' > '" ++ last.toString ++ "'"
  | .unopenedChoice =>
    "unopened alternate group; missing '\x7b' (maybe escape '\x7d' with '[\x7d]'?)"
  | .unclosedChoice =>
    "unclosed alternate group; missing '\x7d' (maybe escape '\x7b' with '[\x7b]'?)"
  | .danglingEscape => "dangling '\\'"

namespace Token

def isLiteral : Token → Bool
  | .literal _ => true
  | _ => false

mutual

/-- A token that stands for nothing: a choice without branches that stand for something. -/
def isVacuous : Token → Bool
  | .choice branches => allVacuous branches
  | _ => false

def allVacuous : List (List Token) → Bool
  | [] => true
  | branch :: rest => vacuous branch && allVacuous rest

def vacuous : List Token → Bool
  | [] => true
  | token :: rest => token.isVacuous && vacuous rest

end

end Token

end DirectoryWatch.Glob
