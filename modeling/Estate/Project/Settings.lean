import Estate.Document.Schema
import Estate.Storage.Path

/-! Where a project keeps its documents: a standard layout below the project's root, which a
settings document may change. -/
namespace Estate.Project
open Document

inductive OutputFormat where
  | table | json
deriving DecidableEq

namespace OutputFormat

instance : Inhabited OutputFormat := ⟨table⟩

def vocabulary : Vocabulary OutputFormat where
  members := [table, json]
  word
    | table => "table"
    | json => "json"
  complete a := by cases a <;> decide
  distinct a b := by cases a <;> cases b <;> decide

end OutputFormat

/-- The settings of a project. Paths that are not given are the standard ones. -/
structure Settings where
  topologiesDirectory : Option String
  libraryPath : Option String
  format : OutputFormat
deriving DecidableEq

namespace Settings

instance : Inhabited Settings := ⟨⟨none, none, default⟩⟩

def pathsSchema : Schema (Option String × Option String × Unit) :=
  .object <|
    .field "topologies_dir" (.implied none) (.optional .text) <|
    .field "library" (.implied none) (.optional .text) .done

def displaySchema : Schema (OutputFormat × Unit) :=
  .object <| .field "format" (.defaulted default) (.word OutputFormat.vocabulary) .done

def schema : Schema Settings :=
  .via (.object <|
    .field "paths" (.defaulted (none, none, ())) pathsSchema <|
    .field "display" (.defaulted (default, ())) displaySchema .done)
  (fun ((topologiesDirectory, libraryPath, _), (format, _), _) =>
    ⟨topologiesDirectory, libraryPath, format⟩)
  (fun s => ((s.topologiesDirectory, s.libraryPath, ()), (s.format, ()), ()))
  (fun _ => rfl)

end Settings

/-- Where the documents of a project are. -/
structure Config where
  root : String
  topologiesDirectory : String
  libraryPath : String
  format : OutputFormat
deriving DecidableEq

namespace Config

def schema : Schema Config :=
  .via (.object <|
    .field "project_root" .required .text <|
    .field "topologies_dir" .required .text <|
    .field "library_path" .required .text <|
    .field "format" .required (.word OutputFormat.vocabulary) .done)
  (fun (root, topologiesDirectory, libraryPath, format, _) =>
    ⟨root, topologiesDirectory, libraryPath, format⟩)
  (fun c => (c.root, c.topologiesDirectory, c.libraryPath, c.format, ()))
  (fun _ => rfl)

/-- The directory below the root that holds everything by default. -/
def home (root : String) : String := Path.join root ".tp"

/-- The standard layout. -/
def standard (root : String) : Config :=
  ⟨root, Path.join (home root) "topologies", Path.join (home root) "library.yaml", default⟩

def settingsPath (root : String) : String := Path.join (home root) "engine.toml"

/-- The configuration under settings. Their paths are seen from the root. -/
def apply (c : Config) (s : Settings) : Config :=
  { c with
    topologiesDirectory := s.topologiesDirectory.elim c.topologiesDirectory (Path.join c.root)
    libraryPath := s.libraryPath.elim c.libraryPath (Path.join c.root)
    format := s.format }

end Config
end Estate.Project
