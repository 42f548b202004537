import Estate.Storage.Path

/-! The files that a program works on: what stands at a path, the text of a file, the names in a
directory, making directories and writing files. -/
namespace Estate.Storage

/-- What a path leads to. Devices and the like are neither files nor directories. -/
inductive Kind where
  | file | directory | other
deriving DecidableEq

/-- What came of making a directory: it was made, something stood there already, nothing stood on
the way there, or it was refused for another reason. -/
inductive Making where
  | made | present | missing | refused
deriving DecidableEq

/-- The operations on files. None or false stands for a refusal, whatever its reason. -/
class Files (m : Type → Type) where
  /-- What stands at a path. -/
  kind? : String → m (Option Kind)
  /-- The content of a file, if it is text. -/
  readText? : String → m (Option String)
  /-- The names in a directory, in any order. -/
  names? : String → m (Option (List String))
  /-- Makes a directory below one that is there. -/
  makeDirectory : String → m Making
  /-- Writes a file, whatever was in it before. -/
  writeText : String → String → m Bool
  /-- The absolute path of what stands at a path. -/
  absolute? : String → m (Option String)

variable {m : Type → Type} [Monad m] [Files m]

/-- Makes the directory at a path, where need be after those above it, and says whether there is one
in the end. A dot at the end of a path names no directory that could be made. -/
def ensureDirectory : (path : String) → (above : List String) → m Bool
  | path, above => do
    match ← Files.makeDirectory path, above with
    | .made, _ => return true
    | .present, _ => return (← Files.kind? path) == some .directory
    | .missing, parent :: rest =>
      if ← ensureDirectory parent rest then
        match ← Files.makeDirectory path with
        | .made => return true
        | .present => return (← Files.kind? path) == some .directory
        | _ => return false
      else return false
    | _, _ => return false
termination_by structural _ above => above

/-- Makes a directory and those above it where they are missing. The empty path needs none. -/
def createDirectories (path : String) : m Bool :=
  if path = "" then return true else ensureDirectory path (Path.above path)

end Estate.Storage
