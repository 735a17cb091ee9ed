import DirectoryWatch.Path.Basic
import DirectoryWatch.Policy
import DirectoryWatch.Text.Quoted

/-!
# The log

What a run has to say about itself, each notice with its level, and how much of it is shown.
-/
namespace DirectoryWatch

inductive Level
  | error
  | warn
  | info
  | debug
  | trace
  deriving DecidableEq, Repr

namespace Level

def all : List Level := [.error, .warn, .info, .debug, .trace]

def rank : Level → Nat
  | .error => 0
  | .warn => 1
  | .info => 2
  | .debug => 3
  | .trace => 4

def name : Level → String
  | .error => "error"
  | .warn => "warn"
  | .info => "info"
  | .debug => "debug"
  | .trace => "trace"

def label : Level → String
  | .error => "ERROR"
  | .warn => "WARN"
  | .info => "INFO"
  | .debug => "DEBUG"
  | .trace => "TRACE"

def ofName? (s : String) : Option Level := all.find? fun level => level.name = s

/-- Reads a name in any case and with white space around it. -/
def read? (text : String) : Option Level :=
  let word := Text.lowerCase (Text.trim text)
  if word = "warning" then some .warn else ofName? word

/-- A log shows what is at least as grave as its level. -/
def shows (threshold level : Level) : Bool := level.rank ≤ threshold.rank

end Level

inductive Notice
  | patterns (count : Nat)
  | loaded (policy : Policy) (requests : Nat) (base : Path)
  | opened
  | merged (newPoints subsumed : List Path)
  | skipped (entry : Path)
  | registered (points directories : Nat)

namespace Notice

def level : Notice → Level
  | .patterns _ => .debug
  | .loaded .. => .info
  | .opened => .trace
  | .merged .. => .debug
  | .skipped _ => .warn
  | .registered .. => .info

def text : Notice → String
  | .patterns count => "read patterns: " ++ toString count
  | .loaded policy requests base =>
    "loaded watch requests: " ++ toString requests ++ ", policy " ++ policy.name ++ ", base " ++
      base.quoted
  | .opened => "opened the watch facility"
  | .merged newPoints subsumed =>
    "merged a request: new watch points " ++ Path.quotedAll newPoints ++ ", subsumed " ++
      Path.quotedAll subsumed
  | .skipped entry => "skipped an entry that cannot be inspected: " ++ entry.quoted
  | .registered points directories =>
    "registered a request: watch points " ++ toString points ++ ", directories " ++
      toString directories

end Notice

end DirectoryWatch
