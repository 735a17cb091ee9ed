import DirectoryWatch.Policy

/-!
# Configurations

What a configuration says, as it was written: a policy, default patterns for trees, and named
requests. Requests are kept by their names in ascending order, each name once.
-/
namespace DirectoryWatch

/-- A tree of a request. Patterns that are not given are taken from the defaults. -/
structure TreeSection where
  directory : String
  includes : Option (List String)
  excludes : Option (List String)
  appendIncludes : Bool
  appendExcludes : Bool
  deriving DecidableEq, Repr

structure RequestSection where
  files : List String
  trees : List TreeSection
  deriving DecidableEq, Repr

/-- The patterns of trees that give none of their own. -/
structure Defaults where
  includes : List String
  excludes : List String
  deriving DecidableEq, Repr

def effectivePatterns (own : Option (List String)) (defaults : List String) (append : Bool) :
    List String :=
  match own with
  | none => defaults
  | some own => if append then own ++ defaults else own

theorem effectivePatterns_none (defaults : List String) (append : Bool) :
    effectivePatterns none defaults append = defaults := rfl

theorem effectivePatterns_some (own defaults : List String) (append : Bool) :
    effectivePatterns (some own) defaults append = own ++ if append then defaults else [] := by
  cases append <;> simp [effectivePatterns]

namespace TreeSection

def effectiveIncludes (tree : TreeSection) (defaults : Defaults) : List String :=
  effectivePatterns tree.includes defaults.includes tree.appendIncludes

def effectiveExcludes (tree : TreeSection) (defaults : Defaults) : List String :=
  effectivePatterns tree.excludes defaults.excludes tree.appendExcludes

end TreeSection

/-- Puts a request in its place in an ascending list. A request of the same name gives way. -/
def RequestSection.putInto (name : String) (request : RequestSection) :
    List (String × RequestSection) → List (String × RequestSection)
  | [] => [(name, request)]
  | entry :: rest =>
    if name < entry.1 then (name, request) :: entry :: rest
    else if entry.1 < name then entry :: putInto name request rest
    else (name, request) :: rest

structure NamedRequests where
  toList : List (String × RequestSection)
  ascending : toList.Pairwise fun a b => a.1 < b.1

namespace NamedRequests

theorem mem_putInto {name : String} {request : RequestSection}
    {entries : List (String × RequestSection)} {x : String × RequestSection}
    (h : x ∈ request.putInto name entries) : x = (name, request) ∨ x ∈ entries := by
  induction entries with
  | nil => simpa [RequestSection.putInto] using h
  | cons entry rest ih =>
    simp only [RequestSection.putInto] at h
    split at h
    · simpa using h
    · split at h
      · rcases List.mem_cons.1 h with rfl | h
        · simp
        · rcases ih h with rfl | h <;> simp [*]
      · rcases List.mem_cons.1 h with rfl | h <;> simp [*]

theorem pairwise_putInto (name : String) (request : RequestSection)
    {entries : List (String × RequestSection)} (h : entries.Pairwise fun a b => a.1 < b.1) :
    (request.putInto name entries).Pairwise fun a b => a.1 < b.1 := by
  induction entries with
  | nil => simp [RequestSection.putInto]
  | cons entry rest ih =>
    have ⟨hentry, hrest⟩ := List.pairwise_cons.1 h
    simp only [RequestSection.putInto]
    split
    · rename_i hlt
      refine List.pairwise_cons.2 ⟨fun x hx => ?_, h⟩
      rcases List.mem_cons.1 hx with rfl | hx
      · exact hlt
      · exact String.lt_trans hlt (hentry x hx)
    · split
      · rename_i hlt
        refine List.pairwise_cons.2 ⟨fun x hx => ?_, ih hrest⟩
        rcases mem_putInto hx with rfl | hx
        · exact hlt
        · exact hentry x hx
      · rename_i hle hge
        have heq : name = entry.1 := String.le_antisymm (String.not_lt.1 hge) (String.not_lt.1 hle)
        exact List.pairwise_cons.2 ⟨fun x hx => heq ▸ hentry x hx, hrest⟩

def empty : NamedRequests := ⟨[], .nil⟩

instance : EmptyCollection NamedRequests := ⟨empty⟩

instance : Inhabited NamedRequests := ⟨∅⟩

def isEmpty (requests : NamedRequests) : Bool := requests.toList.isEmpty

def put (requests : NamedRequests) (name : String) (request : RequestSection) : NamedRequests :=
  ⟨request.putInto name requests.toList, pairwise_putInto name request requests.ascending⟩

/-- The requests of a list. Of several with one name the last counts. -/
def ofList (entries : List (String × RequestSection)) : NamedRequests :=
  entries.foldl (fun requests entry => requests.put entry.1 entry.2) ∅

end NamedRequests

structure Config where
  policy : Policy
  defaults : Defaults
  requests : NamedRequests

end DirectoryWatch
