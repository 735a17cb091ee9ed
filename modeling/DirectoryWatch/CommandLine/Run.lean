import DirectoryWatch.CommandLine.Arguments
import DirectoryWatch.Config.Document
import DirectoryWatch.Session.Plan

/-!
# Runs

One run of the program: it reads its arguments and its configuration, registers the requests, and
ends with a text, with a failure, or with a session that is ready to be told of events.
-/
namespace DirectoryWatch

structure Machine (World : Type) extends Host World where
  read : Path → World → Except IoError Bytes × World

inductive Ending
  | printed (text : String)
  | misused (cause : Misuse)
  | failed (cause : Failure)
  /-- Everything is registered, and watching can begin. -/
  | watching (session : Session)

structure Run (World : Type) where
  ending : Ending
  log : List Notice
  world : World

/-- The level of the log: the one in the arguments, else the one that the environment names, else
`info`. -/
def Arguments.level (arguments : Arguments) (levelName : Option String) : Level :=
  (arguments.logLevel <|> levelName.bind Level.read?).getD .info

namespace ValidConfig

def patternCount (config : ValidConfig) : Nat :=
  (config.requests.toList.flatMap fun (_, request) => request.trees.flatMap fun tree =>
    tree.effectiveIncludes config.defaults ++ tree.effectiveExcludes config.defaults).length

end ValidConfig

namespace Machine

variable {World : Type}

def load (machine : Machine World) (file : Path) (w : World) : Except Failure ValidConfig × World :=
  match machine.read file w with
  | (.error cause, w) => (.error (.unreadable cause), w)
  | (.ok contents, w) => ((Config.ofBytes contents).bind ValidConfig.ofConfig, w)

def register (machine : Machine World) (dryRun : Bool) (policy : Policy)
    (requests : List (String × Request)) (w : World) : Run World :=
  let host := if dryRun then machine.toFileSystem.dry else machine.toHost
  let plan := (Session.start policy).registerAll host requests w
  let opened := if dryRun then [] else [.opened]
  let ending := match plan.result with
    | .error cause => .failed cause
    | .ok planned => if dryRun then .printed (renderPlan policy planned) else .watching plan.session
  ⟨ending, opened ++ plan.notices, plan.world⟩

def perform (machine : Machine World) (arguments : Arguments) (w : World) : Run World :=
  let file := Path.ofString arguments.config
  match machine.load file w with
  | (.error cause, w) => ⟨.failed cause, [], w⟩
  | (.ok config, w) =>
    let base := file.home machine.workingDirectory
    let count := config.patternCount
    let patterns := if count = 0 then [] else [.patterns count]
    match config.requestsAt base with
    | .error cause => ⟨.failed cause, patterns, w⟩
    | .ok requests =>
      let policy := arguments.policy.getD config.policy
      let run := machine.register arguments.dryRun policy requests w
      { run with log := patterns ++ .loaded policy requests.length base :: run.log }

def run (machine : Machine World) (words : List String) (levelName : Option String) (w : World) :
    Run World :=
  match Arguments.read words with
  | .error cause => ⟨.misused cause, [], w⟩
  | .ok arguments =>
    let run := machine.perform arguments w
    let level := arguments.level levelName
    { run with log := run.log.filter fun notice => level.shows notice.level }

end Machine

/-- A failure as it is reported: its message and the causes below it, numbered if there are
several. -/
def Failure.report (cause : Failure) : String :=
  let below := match cause.causes with
    | [] => []
    | [only] => ["    " ++ only]
    | several => several.mapIdx fun i text => "    " ++ toString i ++ ": " ++ text
  let below := if below.isEmpty then [] else ["", "Caused by:"] ++ below
  "\n".intercalate (("watchpoints error: " ++ cause.message) :: below)

def versionText : String := "watchpoints 0.1.0\n"

def helpText : String :=
  String.join (([
    "Watch requested files and directory trees with a minimal set of non-recursive watches.",
    "",
    "Usage: watchpoints [OPTIONS]",
    "",
    "Options:",
    "      --config <PATH>      Path to the config file (TOML) [default: Watchpoints.toml]",
    "      --policy <POLICY>    Override the merge policy (collapse or append)",
    "      --log-level <LEVEL>  Logging level (error, warn, info, debug, trace)",
    "      --dry-run            Print the resulting watch points and directories, then stop",
    "  -h, --help               Print help",
    "  -V, --version            Print version"]).map (· ++ "\n"))

namespace Ending

def exitCode : Ending → UInt32
  | .printed _ => 0
  | .misused .help => 0
  | .misused .version => 0
  | .misused _ => 2
  | .failed _ => 1
  | .watching _ => 0

def output : Ending → String
  | .printed text => text
  | .misused .help => helpText
  | .misused .version => versionText
  | _ => ""

def complaint? : Ending → Option String
  | .failed cause => some cause.report
  | .misused .help => none
  | .misused .version => none
  | .misused cause => some ("error: " ++ cause.message)
  | _ => none

end Ending

end DirectoryWatch
