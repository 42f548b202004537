import Estate.Command.Arguments
import Estate.Command.Report
import Estate.Project.Operations

/-! Running a command: what it prints, and the code with which it ends. -/
namespace Estate.Command
open Document Storage Project

/-- What a run of the program leaves: its exit code and its two outputs. -/
structure Output where
  code : Nat
  stdout : String
  stderr : String
deriving DecidableEq

def versionText : String := "tp 0.1.0\n"

def usageText : String :=
  unlines
    ["Usage: tp [--project-root DIR] [--json] COMMAND", "",
     "  topology list                          the stored topologies",
     "  topology validate TOPOLOGY             whether a topology is well-formed",
     "  topology tree TOPOLOGY                 the hierarchy of compartments",
     "  policies TOPOLOGY COMPARTMENT [--trace]  the policies in effect",
     "  preview TOPOLOGY                       the order and parameters of a deployment"]

/-- Text inside an indented paragraph. -/
def indent (s : String) : String :=
  String.ofList ("    ".toList ++ s.toList.flatMap fun c =>
    if c = '\n' then '\n' :: "    ".toList else [c])

/-- The output of a failure: its wording, and that of its cause. -/
def failure (message : String) (cause : Option String) : Output :=
  let causes := cause.elim "" fun cause => "\nCaused by:\n" ++ indent cause ++ "\n"
  ⟨1, "", "Error: " ++ message ++ "\n" ++ causes⟩

/-- A result in the format of the configuration. -/
def present (config : Config) (node : Node) (lines : List String) : String :=
  match config.format with
  | .json => Json.pretty node ++ "\n"
  | .table => unlines lines

def success (text : String) : Output := ⟨0, text, ""⟩

/-- The output of a preview. It fails if anything required is missing, so that a deployment can
depend on it. -/
def previewOutput (config : Config) (p : Deployment.Preview) : Output :=
  let text := present config (Deployment.Preview.schema.write p) (previewLines p)
  if p.allComplete then success text
  else
    let blocked := p.blockingReasons.map ("blocked: " ++ ·)
    let verdict :=
      s!"Error: deployment blocked: {p.totalUnresolved} required parameter(s) unresolved"
    ⟨1, text, unlines (blocked ++ [verdict])⟩

variable {m : Type → Type} [Monad m] [Files m]

def perform (config : Config) : Action → ExceptT ProjectError m Output
  | .listTopologies => do
    let ids ← config.listTopologies
    return success (present config (textsNode ids) (topologyLines config.store.directory ids))
  | .validate id => do
    let topology ← config.readTopology id
    let index ← config.readIndex
    return success
      (present config (validationNode topology index) (validationLines topology index))
  | .tree id => do
    let topology ← config.readTopology id
    let nodes := topology.forest.roots.map (treeNode topology.forest)
    return success (present config (.list nodes) (treeLines topology))
  | .policies topologyId compartmentId withSteps => do
    let trace ← config.trace topologyId compartmentId
    return success (present config (traceNode trace withSteps) (traceLines trace withSteps))
  | .preview id => do
    return previewOutput config (← config.preview id)

/-- Where a project is: the absolute path of its root, or the path as given if nothing is there. -/
def locate (root : String) : m String := do return (← Files.absolute? root).getD root

def invoke (invocation : Invocation) : m Output := do
  let outcome : Except ProjectError Output ← ExceptT.run do
    let config ← Config.load (← liftM (locate invocation.root : m _))
    let config := if invocation.wantsJson then { config with format := .json } else config
    perform config invocation.action
  match outcome with
  | .ok output => return output
  | .error fault => return failure fault.message fault.cause?

def run (arguments : List String) : m Output :=
  match parse arguments with
  | .ok invocation => invoke invocation
  | .error .version => return success versionText
  | .error .help => return success usageText
  | .error .usage => return ⟨2, "", usageText⟩

end Estate.Command
