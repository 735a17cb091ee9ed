import DirectoryWatch.Text.Blank
import DirectoryWatch.Text.LowerCase

/-!
# Merge policies

A policy says how a new request joins the watch points that are already there.
-/
namespace DirectoryWatch

inductive Policy
  /-- Watch points are reduced to the topmost after every request. -/
  | collapse
  /-- New watch points are added even below existing ones. -/
  | append
  deriving DecidableEq, Repr

namespace Policy

instance : Inhabited Policy := ⟨.collapse⟩

def ofAllowNested (allowNested : Bool) : Policy := if allowNested then .append else .collapse

def allowsNested : Policy → Bool
  | .collapse => false
  | .append => true

def name : Policy → String
  | .collapse => "collapse"
  | .append => "append"

def ofName? (s : String) : Option Policy :=
  if s = "collapse" then some .collapse else if s = "append" then some .append else none

/-- Reads a name in any case and with white space around it. A failure answers with the text that
was compared. -/
def read (text : String) : Except String Policy :=
  let word := Text.lowerCase (Text.trim text)
  match ofName? word with
  | some policy => .ok policy
  | none => .error word

def unknownMessage (word : String) : String :=
  "invalid merge_policy: " ++ word ++ " (expected \"collapse\" or \"append\")"

end Policy

end DirectoryWatch
