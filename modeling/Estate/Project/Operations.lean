import Estate.Deployment.Preview
import Estate.Project.Error
import Estate.Project.Settings
import Estate.Resolution.Walk
import Estate.Storage.Store
import Estate.Toml.Reader

/-! What can be done with a project: every operation reads the documents it needs afresh, and
nothing is written. -/
namespace Estate.Project
open Storage Policy

variable {m : Type → Type} [Monad m] [Files m]

/-- A step whose failures belong to a layer. -/
def inLayer {ε α : Type} (layer : ε → ProjectError) (step : m (Except ε α)) :
    ExceptT ProjectError m α :=
  ExceptT.mk do return (← step).mapError layer

def Settings.ofText? (text : String) : Option Settings :=
  (Toml.read? text).bind (Settings.schema.read .toml)

namespace Config

/-- The configuration of the project at a root: the standard layout under its settings, if it has
any. -/
def load (root : String) : ExceptT ProjectError m Config := do
  let path := settingsPath root
  match ← liftM (Files.kind? path : m _) with
  | none => return standard root
  | some _ =>
    match ← liftM (Files.readText? path : m _) with
    | none => throw (.unreadableSettings path)
    | some text =>
      match Settings.ofText? text with
      | none => throw (.malformedSettings path)
      | some settings => return (standard root).apply settings

def store (c : Config) : Store := ⟨c.topologiesDirectory⟩

def listTopologies (c : Config) : ExceptT ProjectError m (List String) :=
  inLayer .topology c.store.list

def readTopology (c : Config) (id : String) : ExceptT ProjectError m Topology :=
  inLayer .topology (c.store.readTopology id)

def readIndex (c : Config) : ExceptT ProjectError m Index := do
  let library ← inLayer .topology (readLibrary c.libraryPath)
  inLayer .policy (pure ((Index.build library).mapError .duplicatePolicy))

/-- The policies in effect in a compartment, with the steps that led to them. The topology is read
before the library, and both before the compartment is looked up. -/
def trace (c : Config) (topologyId compartmentId : String) :
    ExceptT ProjectError m Resolution.Trace := do
  let topology ← c.readTopology topologyId
  let index ← c.readIndex
  inLayer .policy (pure (Resolution.traceById index topology.forest compartmentId))

def resolve (c : Config) (topologyId compartmentId : String) :
    ExceptT ProjectError m (List Resolution.ResolvedPolicy) := do
  return (← c.trace topologyId compartmentId).policies

def preview (c : Config) (topologyId : String) : ExceptT ProjectError m Deployment.Preview := do
  let topology ← c.readTopology topologyId
  inLayer .deployment (pure topology.preview)

end Config
end Estate.Project
