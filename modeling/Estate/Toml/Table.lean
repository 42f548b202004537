import Estate.Document.Node

/-! Tables while they are being filled. Which keys may still be added to a table depends on how it
came about: by a header of its own, by a longer header, or by a dotted key. -/
namespace Estate.Toml
open Document

inductive Origin where
  | header | longerHeader | dottedKey
deriving DecidableEq

/-- What stands under a key: a value, to which nothing can be added, a table, or a list of tables.
-/
inductive Item where
  | value (n : Node)
  | table (origin : Origin) (entries : List (String × Item))
  | tables (items : List (List (String × Item)))

abbrev Entries : Type := List (String × Item)

/-- The entries with an item under a key, in the place of one that was there. -/
def Entries.put (entries : Entries) (key : String) (item : Item) : Entries :=
  if entries.any (·.1 == key) then entries.map fun e => if e.1 == key then (key, item) else e
  else entries ++ [(key, item)]

/-- Changes the table that a path leads to. Missing tables on the way are made; a path of dotted
keys must not lead through a table with a header of its own, and no path leads through a value. Of a
list of tables the last one counts. -/
def within? (isDotted : Bool) (change : Origin → Entries → Option Entries) :
    (path : List String) → Origin → Entries → Option Entries
  | [], origin, entries => change origin entries
  | key :: path, _, entries =>
    match entries.lookup key with
    | none =>
      let origin := if isDotted then .dottedKey else .longerHeader
      (within? isDotted change path origin []).map fun below =>
        entries.put key (.table origin below)
    | some (.value _) => none
    | some (.table origin below) =>
      if isDotted && origin = .header then none
      else (within? isDotted change path origin below).map fun below =>
        entries.put key (.table origin below)
    | some (.tables items) =>
      match items.getLast? with
      | some last => (within? isDotted change path .header last).map fun last =>
          entries.put key (.tables (items.dropLast ++ [last]))
      | none => none

/-- Splits a path into the way to its last key and that key. -/
def splitLast? (path : List String) : Option (List String × String) :=
  path.getLast?.map (path.dropLast, ·)

/-- Adds a value under a dotted key. The tables on its way must be made of dotted keys only, and
nothing may be there yet. -/
def define? (key : List String) (n : Node) (origin : Origin) (entries : Entries) :
    Option Entries := do
  let (path, name) ← splitLast? key
  within? true (fun reached entries =>
    if (reached == .dottedKey) == path.isEmpty || entries.any (·.1 == name) then none
    else some (entries.put name (.value n))) path origin entries

/-- Opens a table by its header. It may be there already, but only because of longer headers. -/
def openTable? (header : List String) (root : Entries) : Option Entries := do
  let (path, name) ← splitLast? header
  within? false (fun _ entries =>
    match entries.lookup name with
    | none => some (entries.put name (.table .header []))
    | some (.table .longerHeader below) => some (entries.put name (.table .header below))
    | some _ => none) path .header root

def openNext? (header : List String) (root : Entries) : Option Entries := do
  let (path, name) ← splitLast? header
  within? false (fun _ entries =>
    match entries.lookup name with
    | none => some (entries.put name (.tables [[]]))
    | some (.tables items) => some (entries.put name (.tables (items ++ [[]])))
    | some _ => none) path .header root

mutual

def Item.node : Item → Node
  | .value n => n
  | .table _ entries => .object (nodesOf entries)
  | .tables items => .list (objectsOf items)
termination_by structural item => item

def nodesOf : List (String × Item) → List (Node × Node)
  | [] => []
  | (key, item) :: rest => (.text key, item.node) :: nodesOf rest
termination_by structural entries => entries

def objectsOf : List (List (String × Item)) → List Node
  | [] => []
  | entries :: rest => .object (nodesOf entries) :: objectsOf rest
termination_by structural items => items

end

end Estate.Toml
