import DirectoryWatch.Toml.Value

/-!
# Tables

How lines of a document add to a table. A key may be given once. A dotted key adds to tables that
dotted keys made, and a header goes through every table that is not written between braces; in an
array of tables it goes to the last one.
-/
namespace DirectoryWatch.Toml.Entries

def get? (entries : Entries) (key : String) : Option Value := List.lookup key entries

/-- Replaces the value of a key, or adds the key at the end. -/
def put (entries : Entries) (key : String) (value : Value) : Entries :=
  match entries with
  | [] => [(key, value)]
  | (k, v) :: rest => if k = key then (key, value) :: rest else (k, v) :: put rest key value

/-- Changes the table that a path leads to, making the tables on the way that are missing. `kind`
is the kind of the table the path starts in, and `dotted` says that the path is written in a
key. -/
def changeAt (dotted : Bool) (change : TableKind → Entries → Option Entries) :
    TableKind → List String → Entries → Option Entries
  | kind, [], entries => change kind entries
  | _, key :: path, entries =>
    match get? entries key with
    | none => do
      let kind := if dotted then .dotted else .implied
      return put entries key (.table kind (← changeAt dotted change kind path []))
    | some (.table kind inner) =>
      if kind = .inlined ∨ (dotted ∧ kind = .header) then none
      else do return put entries key (.table kind (← changeAt dotted change kind path inner))
    | some (.array true items) =>
      match items.getLast? with
      | some (.table kind inner) => do
        let inner ← changeAt dotted change kind path inner
        return put entries key (.array true (items.dropLast ++ [.table kind inner]))
      | _ => none
    | some _ => none

/-- Adds the value of a key, dotted or not, to a table. -/
def addKey (entries : Entries) (path : List String) (key : String) (value : Value) :
    Option Entries :=
  let dotted := !path.isEmpty
  changeAt dotted (fun kind inner =>
    if (kind == .dotted) != dotted || (get? inner key).isSome then none
    else some (put inner key value)) .header path entries

/-- Fills the table of a header. A table that only headers below it implied is taken up. -/
def addTable (entries : Entries) (path : List String) (key : String)
    (fill : Entries → Option Entries) : Option Entries :=
  changeAt false (fun _ parent =>
    match get? parent key with
    | none => do return put parent key (.table .header (← fill []))
    | some (.table .implied prior) => do return put parent key (.table .header (← fill prior))
    | some _ => none) .header path entries

/-- Adds a table to the array of a header in double brackets. -/
def addElement (entries : Entries) (path : List String) (key : String)
    (fill : Entries → Option Entries) : Option Entries :=
  changeAt false (fun _ parent =>
    match get? parent key with
    | none => do return put parent key (.array true [.table .header (← fill [])])
    | some (.array true items) => do
      return put parent key (.array true (items ++ [.table .header (← fill [])]))
    | some _ => none) .header path entries

end DirectoryWatch.Toml.Entries
