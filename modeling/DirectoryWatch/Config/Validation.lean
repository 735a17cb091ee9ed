import DirectoryWatch.Config.Basic
import DirectoryWatch.Failure
import DirectoryWatch.Request.Basic

/-!
# Valid configurations

A configuration is valid when it has a request, every request names a file or a tree, no name of a
file or directory is blank, and every pattern in force is well formed. A valid configuration is
turned into one request for each of its sections.
-/
namespace DirectoryWatch

namespace TreeSection

/-- Checks the patterns in force for a tree of a request, the includes first. -/
def check (defaults : Defaults) (request : String) (tree : TreeSection) : Except Failure Unit :=
  (tree.effectiveIncludes defaults ++ tree.effectiveExcludes defaults).forM fun pattern =>
    match Glob.read pattern with
    | .ok _ => .ok ()
    | .error cause => .error (.malformedPattern request tree.directory pattern cause)

def treeAt (defaults : Defaults) (base : Path) (tree : TreeSection) : Except Failure Tree :=
  let root := base.join (.ofString tree.directory)
  let includes := tree.effectiveIncludes defaults
  let excludes := tree.effectiveExcludes defaults
  match Tree.ofPatterns root includes excludes with
  | .ok tree => .ok tree
  | .error cause => .error (.invalidPattern cause)

end TreeSection

namespace RequestSection

/-- Checks a request: first that it names something, then the names, then the patterns. -/
def check (defaults : Defaults) (name : String) (request : RequestSection) :
    Except Failure Unit :=
  if request.files.isEmpty && request.trees.isEmpty then .error (.emptyRequest name)
  else if request.files.any Text.isBlank then .error (.blankFile name)
  else if request.trees.any fun tree => Text.isBlank tree.directory then
    .error (.blankDirectory name)
  else request.trees.forM (TreeSection.check defaults name)

/-- The request with all its names seen from `base`, in the order in which they are given. -/
def requestAt (defaults : Defaults) (base : Path) (request : RequestSection) :
    Except Failure Request := do
  let trees ← request.trees.mapM (TreeSection.treeAt defaults base)
  return ⟨request.files.map fun file => base.join (.ofString file), trees⟩

end RequestSection

namespace Config

/-- Checks the requests in the order of their names. -/
def check (config : Config) : Except Failure Unit :=
  if config.requests.isEmpty then .error .noRequests
  else config.requests.toList.forM fun (name, request) => request.check config.defaults name

end Config

/-- A configuration that passed every check. -/
structure ValidConfig extends Config where
  checked : toConfig.check = .ok ()

namespace ValidConfig

def ofConfig (config : Config) : Except Failure ValidConfig :=
  match h : config.check with
  | .ok () => .ok ⟨config, h⟩
  | .error e => .error e

def requestsAt (config : ValidConfig) (base : Path) : Except Failure (List (String × Request)) :=
  config.requests.toList.mapM fun (name, request) => do
    return (name, ← request.requestAt config.defaults base)

end ValidConfig

end DirectoryWatch
