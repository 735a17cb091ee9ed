import DirectoryWatch.Glob.Expression

/-!
# Filters

A filter admits what one of its include globs matches and none of its exclude globs does. Without
include globs it admits all that is not excluded.
-/
namespace DirectoryWatch

inductive PatternError
  | malformed (pattern : String) (cause : Glob.SyntaxError)
  /-- The glob with this index among those matched as expressions nests too deep. -/
  | tooDeep (index : Nat)
  /-- This glob, which asks for an extension too, nests too deep. -/
  | tooDeepWithExtension (glob : Glob)

namespace PatternError

def malformedMessage (pattern : String) (cause : Glob.SyntaxError) : String :=
  pattern ++ ": error parsing glob '" ++ pattern ++ "': " ++ cause.message

def message : PatternError → String
  | .malformed pattern cause => malformedMessage pattern cause
  | .tooDeep index => "error parsing pattern " ++ toString index
  | .tooDeepWithExtension glob =>
    "error parsing glob '" ++ glob.expression ++ "': error parsing pattern 0"

end PatternError

namespace Glob

def isWholeWithExtension (g : Glob) : Bool :=
  match g.scope with
  | .wholeWithExtension _ => true
  | _ => false

def readAll : List String → Except PatternError (List Glob)
  | [] => .ok []
  | pattern :: rest =>
    match Glob.read pattern with
    | .error cause => .error (.malformed pattern cause)
    | .ok glob => do return glob :: (← readAll rest)

/-- The globs that are matched as expressions may not nest too deep. Those that ask for an
extension are looked at first. -/
def checkDepth (globs : List Glob) : Except PatternError Unit :=
  match globs.find? fun g => g.isWholeWithExtension && g.tooDeep with
  | some g => .error (.tooDeepWithExtension g)
  | none =>
    match (globs.filter fun g => g.scope = .whole).findIdx? tooDeep with
    | some index => .error (.tooDeep index)
    | none => .ok ()

def compile (patterns : List String) : Except PatternError (List Glob) := do
  let globs ← readAll patterns
  checkDepth globs
  return globs

end Glob

structure Filter where
  includes : List Glob
  excludes : List Glob

namespace Filter

def admitAll : Filter := ⟨[], []⟩

def ofPatterns (includes excludes : List String) : Except PatternError Filter := do
  return ⟨← Glob.compile includes, ← Glob.compile excludes⟩

def includePatterns (f : Filter) : List String := f.includes.map Glob.text

def excludePatterns (f : Filter) : List String := f.excludes.map Glob.text

def admits (f : Filter) (path : Bytes) : Bool :=
  (f.includes.isEmpty || f.includes.any fun g => g.isMatch path) &&
    !f.excludes.any fun g => g.isMatch path

end Filter

end DirectoryWatch
