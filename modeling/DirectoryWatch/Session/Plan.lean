import DirectoryWatch.Session.Basic

/-!
# Plans

Named requests registered one after the other, and what each of them led to. With a facility that
takes everything and does nothing this tells beforehand what would be watched.
-/
namespace DirectoryWatch

variable {World : Type}

/-- The file system with a facility that takes every directory and does nothing. -/
def FileSystem.dry (fs : FileSystem World) : Host World where
  toFileSystem := fs
  watch _ w := (.ok (), w)

structure PlannedRequest where
  name : String
  newPoints : List Path
  directories : List Path

structure Plan (World : Type) where
  result : Except Failure (List PlannedRequest)
  session : Session
  notices : List Notice
  world : World

/-- Registers the requests in order. The first failure ends it. -/
def Session.registerAll (host : Host World) :
    Session → List (String × Request) → World → Plan World
  | s, [], w => ⟨.ok [], s, [], w⟩
  | s, (name, request) :: rest, w =>
    let step := s.register host request w
    match step.result with
    | .error e => ⟨.error e, step.session, step.notices, step.world⟩
    | .ok done =>
      let plan := registerAll host step.session rest step.world
      { plan with
        result := plan.result.map fun planned =>
          ⟨name, done.update.newPoints, done.directories⟩ :: planned
        notices := step.notices ++ plan.notices }

namespace PlannedRequest

def lines (planned : PlannedRequest) : List String :=
  ["  - " ++ planned.name] ++
    (if planned.newPoints.isEmpty then []
      else ["      new watch points: " ++ Path.quotedAll planned.newPoints]) ++
    planned.directories.map fun directory => "      watch: " ++ directory.display

end PlannedRequest

def Policy.title : Policy → String
  | .collapse => "Collapse"
  | .append => "Append"

def renderPlan (policy : Policy) (planned : List PlannedRequest) : String :=
  let lines := ["watchpoints dry-run", "  config.merge_policy = " ++ policy.title, "",
    "requests (" ++ toString planned.length ++ "):"] ++ planned.flatMap PlannedRequest.lines
  String.join (lines.map (· ++ "\n"))

end DirectoryWatch
