import DirectoryWatch.Config.Validation
import DirectoryWatch.Text.Utf8
import DirectoryWatch.Toml.Reader

/-!
# Configuration documents

A configuration is written as a TOML document with the sections `config`, `default` and `request`.
Keys that mean nothing are passed over. A section may also be written as an array of its values in
the order of its keys.
-/
namespace DirectoryWatch.Config

open Toml (Value Entries)

/-- The value of each key of a section that has these keys. A date has no keys, and so none of
them. -/
def fields? (keys : List String) : Value → Option (String → Option Value)
  | .table _ entries =>
    if entries.all fun (key, v) => key ∈ keys || v.isSound then some (Entries.get? entries)
    else none
  | .array _ items => some fun key => items[keys.idxOf key]?
  | .dateTime _ => some fun _ => none
  | _ => none

def orElse {α : Type} (default : α) (read : Value → Option α) : Option Value → Option α
  | none => some default
  | some v => read v

def text? : Value → Option String
  | .string text => some text
  | _ => none

def flag? : Value → Option Bool
  | .boolean b => some b
  | _ => none

def list? {α : Type} (read : Value → Option α) : Value → Option (List α)
  | .array _ items => items.mapM read
  | _ => none

def texts? : Value → Option (List String) := list? text?

/-- A policy is written as its name, or as a table with its name for the only key and nothing for
the value. -/
def policy? : Value → Option Policy
  | .string name => Policy.ofName? name
  | .table _ [(name, .table _ [])] => Policy.ofName? name
  | .table _ [(name, .array _ [])] => Policy.ofName? name
  | _ => none

def tree? (v : Value) : Option TreeSection := do
  let field ← fields?
    ["dir", "include", "exclude", "append_default_include", "append_default_exclude"] v
  return {
    directory := ← text? (← field "dir")
    includes := ← orElse none (fun v => (texts? v).map some) (field "include")
    excludes := ← orElse none (fun v => (texts? v).map some) (field "exclude")
    appendIncludes := ← orElse false flag? (field "append_default_include")
    appendExcludes := ← orElse false flag? (field "append_default_exclude") }

def request? (v : Value) : Option RequestSection := do
  let field ← fields? ["files", "tree"] v
  return ⟨← orElse [] texts? (field "files"), ← orElse [] (list? tree?) (field "tree")⟩

def requests? : Value → Option NamedRequests
  | .table _ entries => do
    return .ofList (← entries.mapM fun (name, v) => do return (name, ← request? v))
  | _ => none

def defaults? (v : Value) : Option Defaults := do
  let field ← fields? ["include", "exclude"] v
  return ⟨← orElse [] texts? (field "include"), ← orElse [] texts? (field "exclude")⟩

def general? (v : Value) : Option Policy := do
  let field ← fields? ["merge_policy"] v
  orElse default policy? (field "merge_policy")

def ofDocument? (document : Entries) : Option Config := do
  let field ← fields? ["config", "default", "request"] (.table .header document)
  return ⟨← orElse default general? (field "config"), ← orElse ⟨[], []⟩ defaults? (field "default"),
    ← orElse ∅ requests? (field "request")⟩

def ofBytes (contents : Bytes) : Except Failure Config :=
  match Text.Utf8.decode? contents with
  | none => .error (.unreadable .notUtf8)
  | some text =>
    match (Toml.read? text).bind ofDocument? with
    | none => .error .malformedConfig
    | some config => .ok config

def defaultFile : Path := .ofString "Watchpoints.toml"

end DirectoryWatch.Config
