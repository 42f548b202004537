import Estate.Storage.Files

/-! A whole tree of files held as a value. A program can work on it as a state. -/
namespace Estate.Storage

inductive Entry where
  | file (content : ByteArray)
  | directory

def Entry.kind : Entry → Kind
  | file _ => .file
  | directory => .directory

/-- A location: the names on the way down from the top. -/
abbrev Location : Type := List String

/-- A tree of files, and the location from which relative paths start. The top is always a
directory. -/
structure Volume where
  entries : List (Location × Entry)
  home : Location

namespace Volume

def entry? (v : Volume) (location : Location) : Option Entry :=
  if location = [] then some .directory else v.entries.lookup location

def put (v : Volume) (location : Location) (entry : Entry) : Volume :=
  { v with entries := (location, entry) :: v.entries.filter (·.1 ≠ location) }

def isDirectory (v : Volume) (location : Location) : Bool :=
  match v.entry? location with
  | some .directory => true
  | _ => false

def pathLimit : Nat := 4095

def nameLimit : Nat := 255

def isPath (path : String) : Bool :=
  path ≠ "" && path.utf8ByteSize ≤ pathLimit && !path.toList.contains '\x00'

/-- Where the names of a path are looked up first. -/
def start (v : Volume) (path : String) : Location := if Path.isAbsolute path then [] else v.home

/-- Why a path leads nowhere: nothing has its name, or its name cannot be looked up. -/
inductive Obstacle where
  | missing | refused
deriving DecidableEq

/-- The location one name further. An empty name and a dot stay where they are, two dots go back up;
there must be something, and it can only be below a directory. -/
def descend (v : Volume) (here : Location) (name : String) : Except Obstacle Location :=
  if !v.isDirectory here || nameLimit < name.utf8ByteSize then .error .refused
  else if name = "" ∨ name = "." then .ok here
  else if name = ".." then .ok here.dropLast
  else if (v.entry? (here ++ [name])).isSome then .ok (here ++ [name])
  else .error .missing

/-- The location that names lead to from another. -/
def follow (v : Volume) (here : Location) (names : List String) : Except Obstacle Location :=
  names.foldlM v.descend here

def locate? (v : Volume) (path : String) : Option Location :=
  if isPath path then (v.follow (v.start path) (Path.names path)).toOption else none

def find? (v : Volume) (path : String) : Option Entry := (v.locate? path).bind v.entry?

/-- The names directly below a location. -/
def namesBelow (v : Volume) (location : Location) : List String :=
  v.entries.filterMap fun e =>
    match e.1.getLast? with
    | some name => if e.1.dropLast = location then some name else none
    | none => none

/-- Makes a directory at a path. Slashes at its end do not count; a dot or two dots there lead to
something that is there already. -/
def makeDirectory (v : Volume) (path : String) : Making × Volume :=
  let names := ((Path.names path).reverse.dropWhile (· = "")).reverse
  if path = "" then (.missing, v)
  else if !isPath path then (.refused, v)
  else match v.follow (v.start path) names.dropLast with
    | .error .missing => (.missing, v)
    | .error .refused => (.refused, v)
    | .ok here =>
      match names.getLast? with
      | none => (.present, v)
      | some name =>
        match v.descend here name with
        | .ok _ => (.present, v)
        | .error .missing => (.made, v.put (here ++ [name]) .directory)
        | .error .refused => (.refused, v)

/-- Where a file at a path would be: below a directory that is there, and not in the place of one.
-/
def place? (v : Volume) (path : String) : Option Location := do
  let names := Path.names path
  let name ← names.getLast?
  let here ← if isPath path then (v.follow (v.start path) names.dropLast).toOption else none
  if v.isDirectory here && name ≠ "" && name ≠ "." && name ≠ ".."
      && name.utf8ByteSize ≤ nameLimit && !v.isDirectory (here ++ [name])
  then some (here ++ [name]) else none

/-- The volume with a file written at a path. -/
def write? (v : Volume) (path : String) (content : ByteArray) : Option Volume :=
  (v.place? path).map fun location => v.put location (.file content)

/-- The volume without what stands at a path and all below it. -/
def remove (v : Volume) (path : String) : Volume :=
  match v.locate? path with
  | some location => { v with entries := v.entries.filter fun e => !location.isPrefixOf e.1 }
  | none => v

/-- A location as an absolute path. -/
def pathOf (location : Location) : String := "/" ++ "/".intercalate location

end Volume

instance : Files (StateM Volume) where
  kind? path := return ((← get).find? path).map Entry.kind
  readText? path := do
    match (← get).find? path with
    | some (.file content) => return String.fromUTF8? content
    | _ => return none
  names? path := do
    let v ← get
    match v.locate? path with
    | some location => return if v.isDirectory location then some (v.namesBelow location) else none
    | none => return none
  makeDirectory path := modifyGet (·.makeDirectory path)
  writeText path text := modifyGet fun v =>
    match v.write? path text.toUTF8 with
    | some next => (true, next)
    | none => (false, v)
  absolute? path := return ((← get).locate? path).map Volume.pathOf

end Estate.Storage
