import DirectoryWatch.Glob.Filter
import DirectoryWatch.Text.Quoted

/-!
# Failures

Everything that can stop an operation, by its cause, and the one place where causes are worded.
-/
namespace DirectoryWatch

inductive IoError
  | notFound
  | notADirectory
  | isADirectory
  | linkLoop
  | nameTooLong
  | permissionDenied
  | nulInPath
  /-- The contents of a file are no text. -/
  | notUtf8
  | emptyPath
  /-- Anything else, in the words of the system. -/
  | other (text : String)
  deriving DecidableEq, Repr

def IoError.message : IoError → String
  | .notFound => "No such file or directory (os error 2)"
  | .notADirectory => "Not a directory (os error 20)"
  | .isADirectory => "Is a directory (os error 21)"
  | .linkLoop => "Too many levels of symbolic links (os error 40)"
  | .nameTooLong => "File name too long (os error 36)"
  | .permissionDenied => "Permission denied (os error 13)"
  | .nulInPath => "file name contained an unexpected NUL byte"
  | .notUtf8 => "stream did not contain valid UTF-8"
  | .emptyPath => "cannot make an empty path absolute"
  | .other text => text

/-- What a file system or a watch facility answers when it cannot do what it was asked: a summary
and the reasons below it. -/
structure Fault where
  summary : String
  reasons : List String
  deriving DecidableEq, Repr

namespace Fault

def ofText (text : String) : Fault := ⟨text, []⟩

def chain (fault : Fault) : String := ": ".intercalate (fault.summary :: fault.reasons)

end Fault

inductive Failure
  | noRequests
  | emptyRequest (request : String)
  | blankFile (request : String)
  | blankDirectory (request : String)
  | malformedPattern (request directory pattern : String) (cause : Glob.SyntaxError)
  | invalidPattern (cause : PatternError)
  | unreadable (cause : IoError)
  | malformedConfig
  | unresolvedRoot (root : Path) (reason : String)
  | refused (directory : Path) (reason : String)
  | faulty (fault : Fault)
  | endlessWalk (start : Path)

namespace Failure

def message : Failure → String
  | .noRequests =>
    "Configuration error: config must contain at least one [request.<name>] section"
  | .emptyRequest request =>
    "Configuration error: request '" ++ request ++ "' must declare at least one file or tree"
  | .blankFile request =>
    "Configuration error: request '" ++ request ++ "' has an empty entry in `files`"
  | .blankDirectory request =>
    "Configuration error: request '" ++ request ++ "' has a tree with an empty `dir`"
  | .malformedPattern request directory pattern cause =>
    "Invalid pattern: request '" ++ request ++ "', tree '" ++ directory ++ "': " ++
      PatternError.malformedMessage pattern cause
  | .invalidPattern cause => "Invalid pattern: " ++ cause.message
  | .unreadable cause => "IO error: " ++ cause.message
  | .malformedConfig => "TOML parsing error:"
  | .unresolvedRoot root reason => "Cannot resolve watch root " ++ root.quoted ++ ": " ++ reason
  | .refused directory reason =>
    "Cannot watch directory " ++ directory.quoted ++ ": " ++ reason
  | .faulty fault => fault.summary
  | .endlessWalk start => "Walk below " ++ start.quoted ++ " does not end"

def causes : Failure → List String
  | .unreadable cause => [cause.message]
  | .faulty fault => fault.reasons
  | _ => []

end Failure

end DirectoryWatch
