/-! Paths as text. Nothing is normalised: a path is what its text says, and joining two of them is
concatenation with at most one slash put between. -/
namespace Estate.Path

def isAbsolute (path : String) : Bool := path.toList.head? == some '/'

/-- Whether something can be appended to a path as it stands. -/
def isOpen (path : String) : Bool := path == "" || path.toList.getLast? == some '/'

/-- The second path seen from the first. One that is absolute stands for itself; appending nothing
leaves a slash at the end. -/
def join (base path : String) : String :=
  if isAbsolute path then path
  else if isOpen base then base ++ path
  else base ++ "/" ++ path

theorem join_absolute {base path : String} (absolute : isAbsolute path = true) :
    join base path = path := by
  simp [join, absolute]

/-- The parts of a text between slashes, after the part read already in reverse. -/
def partsFrom (read : List Char) : List Char → List String
  | [] => [String.ofList read.reverse]
  | c :: cs =>
    if c = '/' then String.ofList read.reverse :: partsFrom [] cs else partsFrom (c :: read) cs

/-- The names of a path. A slash at either end and doubled slashes leave empty names. -/
def names (path : String) : List String := partsFrom [] path.toList

/-- The paths above a path, the nearest first. Empty names and dots do not count. -/
def above (path : String) : List String :=
  let names := (names path).filter fun name => name ≠ "" && name ≠ "."
  let top := if isAbsolute path then "/" else ""
  (List.range names.length).reverse.map fun n => top ++ "/".intercalate (names.take n)

/-- Stem and extension of a file name: what stands before and after the last dot. A name that starts
with its only dot has no extension. -/
def splitExtension (name : String) : String × Option String :=
  let reversed := name.toList.reverse
  let extension := reversed.takeWhile (· ≠ '.')
  match reversed.drop extension.length with
  | '.' :: stem =>
    if stem.isEmpty then (name, none)
    else (String.ofList stem.reverse, some (String.ofList extension.reverse))
  | _ => (name, none)

/-- The extension of the last name of a path. -/
def extension? (path : String) : Option String :=
  ((names path).getLast?).bind fun name => (splitExtension name).2

end Estate.Path
