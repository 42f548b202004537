import Estate.Json.Reader
import Estate.Policy.Library
import Estate.Storage.Error
import Estate.Storage.Files
import Estate.Yaml.Printer
import Estate.Yaml.Reader

/-! The store of topologies: a directory with one file for each snapshot, named for its id. -/
namespace Estate.Storage
open Document Policy

variable {m : Type → Type} [Monad m] [Files m]

/-- Reads a document from a file: as JSON if that is the extension of its path, and as YAML
otherwise. -/
def readDocument {α : Type} (schema : Schema α) (path : String) : m (Except StoreError α) := do
  match ← Files.readText? path with
  | none => return .error (.unreadable path)
  | some text =>
    if (Path.extension? path) = some "json" then
      return ((Json.read? text).bind (schema.read .json)).elim (.error (.malformedJson path)) .ok
    else
      return ((Yaml.read? text).bind (schema.read .yaml)).elim (.error (.malformedYaml path)) .ok

/-- Reads a library. Where nothing stands at the path the library is empty. -/
def readLibrary (path : String) : m (Except StoreError Library) := do
  match ← Files.kind? path with
  | none => return .ok default
  | some _ => readDocument Library.schema path

structure Store where
  directory : String
deriving DecidableEq

namespace Store

/-- The extensions of snapshot files, in the order in which they are looked for. -/
def extensions : List String := ["yaml", "yml", "json"]

/-- Whether an id can name a file in the directory. -/
def isValidId (id : String) : Bool :=
  id ≠ "" && id ≠ "." && id ≠ ".." && id.toList.all fun c => c ≠ '/' && c ≠ '\\' && c ≠ '\x00'

def pathOf (s : Store) (id extension : String) : String :=
  Path.join s.directory (id ++ "." ++ extension)

/-- The first file that there is of those that a list of extensions gives. -/
def findFile? (s : Store) (id : String) : List String → m (Option String)
  | [] => return none
  | extension :: rest => do
    if (← Files.kind? (s.pathOf id extension)) = some .file then
      return some (s.pathOf id extension)
    else s.findFile? id rest

/-- The snapshot of the requested id, given one read from a file: it must be declared under that id,
or under none. -/
def claim (requested path : String) (snapshot : Snapshot) : Except StoreError Snapshot :=
  if snapshot.topologyId = "" then .ok { snapshot with topologyId := requested }
  else if snapshot.topologyId = requested then .ok snapshot
  else .error (.idMismatch path snapshot.topologyId requested)

/-- Reads the snapshot of an id without checking it. -/
def readSnapshot (s : Store) (id : String) : m (Except StoreError Snapshot) := do
  if isValidId id then
    match ← s.findFile? id extensions with
    | none => return .error (.notFound id s.directory)
    | some path =>
      match ← readDocument Snapshot.schema path with
      | .error fault => return .error fault
      | .ok snapshot => return claim id path snapshot
  else return .error (.invalidId id)

def readTopology (s : Store) (id : String) : m (Except StoreError Topology) := do
  match ← s.readSnapshot id with
  | .error fault => return .error fault
  | .ok snapshot =>
    match snapshot.validate with
    | .error fault => return .error (.invalid fault)
    | .ok topology => return .ok topology

/-- Writes a snapshot into the file of its id, and returns the path of that. -/
def save (s : Store) (snapshot : Snapshot) : m (Except StoreError String) := do
  if isValidId snapshot.topologyId then
    if ← createDirectories s.directory then
      let path := s.pathOf snapshot.topologyId "yaml"
      if ← Files.writeText path (Yaml.print (Snapshot.schema.write snapshot)) then return .ok path
      else return .error (.unreadable path)
    else return .error (.unreadable s.directory)
  else return .error (.invalidId snapshot.topologyId)

/-- The id that a name in the directory stands for. -/
def idOfName? (name : String) : Option String :=
  match Path.splitExtension name with
  | (stem, some extension) => if extensions.contains extension then some stem else none
  | (_, none) => none

/-- The ids of all files, in order. There are none where nothing stands at the directory's path. -/
def list (s : Store) : m (Except StoreError (List String)) := do
  match ← Files.kind? s.directory with
  | none => return .ok []
  | some _ =>
    match ← Files.names? s.directory with
    | none => return .error (.unreadable s.directory)
    | some names => return .ok (StringSet.ofList (names.filterMap idOfName?)).toList

end Store
end Estate.Storage
