import Estate.Command.Layout
import Estate.Deployment.Preview
import Estate.Json.Printer
import Estate.Resolution.Walk

/-! Reports: what is shown of topologies, policies and previews, as lines of text and as JSON. -/
namespace Estate.Command
open Document Policy Resolution Deployment

def textsNode (items : List String) : Node := (Schema.list .text).write items

def countNode (n : Nat) : Node := Schema.count.write n

def topologyLines (directory : String) (ids : List String) : List String :=
  if ids.isEmpty then [s!"No topologies found in {directory}"] else ids

/-- The size of a topology and of the library, as a document. -/
def validationNode (topology : Topology) (index : Index) : Node :=
  .record
    [("topology_id", .text topology.id), ("name", .text topology.name),
     ("compartments", countNode topology.forest.size),
     ("blueprints", countNode topology.blueprints.length),
     ("stacks", countNode topology.allStacks.length),
     ("policy_library_size", countNode index.size)]

def validationLines (topology : Topology) (index : Index) : List String :=
  let compartments := topology.forest.size
  let blueprints := topology.blueprints.length
  let stackCount := topology.allStacks.length
  [s!"Topology '{topology.id}' is valid: {compartments} compartment(s), " ++
    s!"{blueprints} blueprint(s), {stackCount} stack(s).",
   s!"Policy library: {index.size} policies."]

/-- A compartment with all below it as a document. -/
def treeNode (f : Forest) (c : Compartment) : Node :=
  .record
    [("id", .text c.id), ("label", .text c.label), ("policies", countNode c.policies.length),
     ("suppressed", countNode c.suppressed.size),
     ("children", .list ((f.children c.id).attach.map fun ⟨child, _⟩ => treeNode f child))]
termination_by f.size + 1 - (f.chain c.id).length
decreasing_by exact Forest.length_chain_lt ‹_›

/-- The line of a compartment at a depth: its label or id, its id, and how much is attached to it.
-/
def compartmentLine (depth : Nat) (c : Compartment) : String :=
  let notes :=
    (if c.policies.isEmpty then [] else [s!"{c.policies.length} policies"])
      ++ if c.suppressed.isEmpty then [] else [s!"{c.suppressed.size} suppressed"]
  let suffix := if notes.isEmpty then "" else "  (" ++ ", ".intercalate notes ++ ")"
  let label := if c.label = "" then c.id else c.label
  String.ofList (List.replicate (2 * depth) ' ') ++ s!"{label} [{c.id}]" ++ suffix

/-- The lines of the compartment with an id and of all below it. -/
def nodeLines (f : Forest) (id : String) (depth : Nat) : List String :=
  match f.get? id with
  | none => []
  | some c =>
    compartmentLine depth c ::
      (f.children id).attach.flatMap fun ⟨child, _⟩ => nodeLines f child.id (depth + 1)
termination_by f.size + 1 - (f.chain id).length
decreasing_by exact Forest.length_chain_lt ‹_›

def treeLines (topology : Topology) : List String :=
  if topology.forest.size = 0 then [s!"Topology '{topology.id}' has no compartments."]
  else topology.forest.roots.flatMap fun root => nodeLines topology.forest root.id 0

def policyLine (p : ResolvedPolicy) : String :=
  row [(28, p.name), (18, Source.vocabulary.word p.source),
    (10, Severity.vocabulary.word p.severity), (16, p.attachedAt)] (toString p.statements.length)

/-- What became of an attachment, in words. -/
def outcomeText : Outcome → String
  | .included => "included"
  | .unknownLibraryPolicy => "included (unknown library policy)"
  | .skippedNotInheritable => "skipped: not inheritable"
  | .blocked cause => s!"blocked by non-inheritable at '{cause}'"
  | .suppressed => "suppressed by target"
  | .shadowed cause => s!"shadowed by '{cause}'"

/-- The lines of a step: the attachment, and each override that was ignored. -/
def stepLines (s : Step) : List String :=
  row [(6, toString s.distance), (16, s.compartmentId), (32, s.attachment)] (outcomeText s.outcome)
    :: s.ignoredOverrides.map fun o =>
      row [(6, ""), (16, ""), (32, "")] s!"  override '{o.variableName}' ignored: {o.reason}"

/-- The policies in effect in a compartment, and the steps that led to them if they are asked for.
-/
def traceLines (t : Trace) (withSteps : Bool) : List String :=
  let chain := " -> ".intercalate t.chain
  let policies :=
    if t.policies.isEmpty then ["No policies in effect."]
    else
      row [(28, "POLICY"), (18, "SOURCE"), (10, "SEVERITY"), (16, "ATTACHED AT")] "STATEMENTS"
        :: rule :: t.policies.map policyLine
  let steps :=
    row [(6, "DIST"), (16, "COMPARTMENT"), (32, "ATTACHMENT")] "OUTCOME"
      :: rule :: t.steps.flatMap stepLines
  [s!"Compartment '{t.compartmentId}' (chain: {chain})", ""] ++ policies
    ++ if withSteps then "" :: steps else []

/-- The policies in effect as a document, or the whole trace. -/
def traceNode (t : Trace) (withSteps : Bool) : Node :=
  if withSteps then Trace.schema.write t else (Schema.list ResolvedPolicy.schema).write t.policies

def parameterLine (p : ResolvedParameter) : String :=
  "  " ++ row [(20, p.displayName), (24, p.value.getD "-"),
    (20, ParameterSource.vocabulary.word p.source), (9, if p.isRequired then "yes" else "no")]
    (p.detail.getD "")

def stackLines (s : StackResolution) : List String :=
  let status := if s.isComplete then "complete" else s!"{s.unresolvedCount} unresolved"
  let parameters :=
    if s.parameters.isEmpty then ["  (no parameters)"]
    else
      ("  " ++ row [(20, "PARAMETER"), (24, "VALUE"), (20, "SOURCE"), (9, "REQUIRED")] "FROM")
        :: s.parameters.map parameterLine
  ["", s!"Stack {s.stackLabel} ({s.stackId}): {status}"] ++ parameters

def waveLines (o : Order) : List String :=
  if o.waves.isEmpty then ["  (no stacks)"]
  else o.waves.zipIdx.map fun (wave, i) => s!"  wave {i + 1}: " ++ ", ".intercalate wave

/-- A preview: the waves, the stacks, and whether anything required is missing. -/
def previewLines (p : Preview) : List String :=
  let verdict :=
    if p.allComplete then "All stacks complete."
    else s!"{p.totalUnresolved} required parameter(s) unresolved."
  "Deployment order:" :: waveLines p.deploymentOrder ++ p.resolutions.flatMap stackLines
    ++ ["", verdict]

end Estate.Command
