import Estate.Topology.Snapshot

/-! Why stored documents cannot be had. -/
namespace Estate.Storage

/-- Why a document cannot be read, found or written. -/
inductive StoreError where
  | invalidId (id : String)
  | notFound (id directory : String)
  | idMismatch (path declared requested : String)
  | unreadable (path : String)
  | malformedYaml (path : String)
  | malformedJson (path : String)
  | invalid (fault : SnapshotError)
deriving DecidableEq

def StoreError.message : StoreError → String
  | invalidId id => s!"invalid topology id '{id}'"
  | notFound id directory => s!"topology '{id}' not found in {directory}"
  | idMismatch path declared requested =>
    s!"snapshot at {path} declares topology '{declared}', expected '{requested}'"
  | unreadable path => s!"I/O error at {path}: the files refuse it"
  | malformedYaml path => s!"failed to parse YAML at {path}: not such a document"
  | malformedJson path => s!"failed to parse JSON at {path}: not such a document"
  | invalid fault => fault.message

end Estate.Storage
