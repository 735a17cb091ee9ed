import DirectoryWatch.Log

/-!
# Arguments

The options of the program. An option that takes a value has it after `=` or in the next word; a
word that begins with a dash is no value, unless it is the dash alone. Words are read from left to
right. A value in a word of its own is looked at when the next option that has a meaning comes, or
at the end.
-/
namespace DirectoryWatch

structure Arguments where
  config : String
  policy : Option Policy
  logLevel : Option Level
  dryRun : Bool
  deriving DecidableEq, Repr

/-- Why the arguments are not carried out: something is wrong with them, or they ask for nothing but
the help or the version. -/
inductive Misuse
  | help
  | version
  /-- No option has this name, or no option takes the word. -/
  | unknown (word : String)
  | missingValue (option : String)
  | unknownLevel (value : String)
  | unknownPolicy (value : String)
  | repeated (option : String)
  | needlessValue (option : String)
  deriving DecidableEq, Repr

inductive Setting
  | config
  | policy
  | logLevel
  deriving DecidableEq, Repr

inductive Switch
  | dryRun
  | help
  | version
  deriving DecidableEq, Repr

def Setting.name : Setting → String
  | .config => "--config"
  | .policy => "--policy"
  | .logLevel => "--log-level"

def Switch.name : Switch → String
  | .dryRun => "--dry-run"
  | .help => "--help"
  | .version => "--version"

inductive Word
  | plain (text : String)
  /-- Two dashes alone: only plain words follow. -/
  | optionsEnd
  | setting (name : Setting) (value : Option String)
  | switch (name : Switch) (value : Option String)
  /-- Something that looks like an option and is none. -/
  | stray (text : String)
  deriving DecidableEq, Repr

namespace Word

def ofLong (text name : String) (value : Option String) : Word :=
  match [Setting.config, .policy, .logLevel].find? (fun s => s.name = name),
      [Switch.dryRun, .help, .version].find? (fun s => s.name = name) with
  | some s, _ => .setting s value
  | none, some s => .switch s value
  | none, none => .stray text

def splitValue : List Char → List Char × Option (List Char)
  | [] => ([], none)
  | '=' :: rest => ([], some rest)
  | c :: rest =>
    let (name, value) := splitValue rest
    (c :: name, value)

/-- Short options are single letters. Both end the reading, so what follows them in the word does
not matter. -/
def ofString (text : String) : Word :=
  match text.toList with
  | ['-', '-'] => .optionsEnd
  | '-' :: '-' :: rest =>
    let (name, value) := splitValue ('-' :: '-' :: rest)
    ofLong text (String.ofList name) (value.map String.ofList)
  | '-' :: 'h' :: _ => .switch .help none
  | '-' :: 'V' :: _ => .switch .version none
  | '-' :: _ :: _ => .stray text
  | _ => .plain text

end Word

structure Reading where
  arguments : Arguments
  /-- The settings that have their values, and the switches that were given. -/
  given : List String
  /-- A setting whose value has not been looked at, or is still to come. -/
  pending : Option (Setting × Option String)

namespace Reading

def initial : Reading := ⟨⟨"Watchpoints.toml", none, none, false⟩, [], none⟩

def assign (r : Reading) (setting : Setting) (value : Option String) : Except Misuse Reading := do
  match value with
  | none => .error (.missingValue setting.name)
  | some value =>
    if setting.name ∈ r.given then .error (.repeated setting.name)
    let arguments ← match setting with
      | .config => pure { r.arguments with config := value }
      | .policy =>
        match Policy.read value with
        | .ok policy => pure { r.arguments with policy := some policy }
        | .error _ => .error (.unknownPolicy value)
      | .logLevel =>
        match Level.ofName? value with
        | some level => pure { r.arguments with logLevel := some level }
        | none => .error (.unknownLevel value)
    return { r with arguments := arguments, given := setting.name :: r.given }

def settle (r : Reading) : Except Misuse Reading :=
  match r.pending with
  | none => .ok r
  | some (setting, value) => { r with pending := none }.assign setting value

def flip (r : Reading) : Switch → Except Misuse Reading
  | .help => .error .help
  | .version => .error .version
  | .dryRun =>
    if Switch.dryRun.name ∈ r.given then .error (.repeated Switch.dryRun.name)
    else .ok { r with arguments := { r.arguments with dryRun := true },
                      given := Switch.dryRun.name :: r.given }

def read : Reading → List String → Except Misuse Arguments
  | r, [] => do return (← r.settle).arguments
  | r, text :: rest =>
    match Word.ofString text with
    | .plain value =>
      match r.pending with
      | some (setting, none) => read { r with pending := some (setting, some value) } rest
      | _ => .error (.unknown value)
    | .stray word => .error (.unknown word)
    | .optionsEnd =>
      match rest with
      | [] => do return (← r.settle).arguments
      | word :: _ => .error (.unknown word)
    | .switch switch (some _) => .error (.needlessValue switch.name)
    | .switch switch none => do read (← (← r.settle).flip switch) rest
    | .setting setting none => do read { (← r.settle) with pending := some (setting, none) } rest
    | .setting setting value => do read (← (← r.settle).assign setting value) rest

end Reading

def Arguments.read (words : List String) : Except Misuse Arguments := Reading.initial.read words

namespace Misuse

def message : Misuse → String
  | .help => "the help is asked for"
  | .version => "the version is asked for"
  | .unknown word => "unexpected argument '" ++ word ++ "'"
  | .missingValue option => "'" ++ option ++ "' needs a value"
  | .unknownLevel value => "unknown log level '" ++ value ++ "'"
  | .unknownPolicy value => "unknown policy '" ++ value ++ "'"
  | .repeated option => "'" ++ option ++ "' is given twice"
  | .needlessValue option => "'" ++ option ++ "' takes no value"

end Misuse

end DirectoryWatch
