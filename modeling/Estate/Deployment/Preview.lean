import Estate.Deployment.Binding
import Estate.Deployment.Order
import Estate.Topology.Snapshot

/-! Previews of a deployment: the order of the stacks, the parameters of each, and whether anything
required is missing. -/
namespace Estate.Deployment
open Document

/-- A preview, with one entry for every stack in the order of the document. -/
structure Preview where
  deploymentOrder : Order
  resolutions : List StackResolution
  allComplete : Bool
  totalUnresolved : Nat
deriving DecidableEq

namespace Preview

def schema : Schema Preview :=
  .via (.object <|
    .field "deployment_order" .required Order.schema <|
    .field "stacks" .required (.list StackResolution.schema) <|
    .field "all_complete" .required .flag <|
    .field "total_unresolved" .required .count .done)
  (fun (deploymentOrder, resolutions, allComplete, totalUnresolved, _) =>
    ⟨deploymentOrder, resolutions, allComplete, totalUnresolved⟩)
  (fun p => (p.deploymentOrder, p.resolutions, p.allComplete, p.totalUnresolved, ()))
  (fun _ => rfl)

/-- Why the deployment has to wait: one reason for each stack that is not complete. -/
def blockingReasons (p : Preview) : List String :=
  (p.resolutions.filter fun s => !s.isComplete).map fun s =>
    s!"stack '{s.stackId}' is missing required parameter(s): " ++ ", ".intercalate s.missing

end Preview

/-- The preview of stacks, given the parameters of blueprints and the compartments by their ids. A
blueprint or compartment that is not found counts as none. -/
def assemble (ss : List Stack) (parametersOf : String → Option (List Parameter))
    (compartmentOf : String → Option Compartment) : Except OrderError Preview :=
  match order ss with
  | .error fault => .error fault
  | .ok deploymentOrder =>
    let resolutions := ss.map fun s =>
      resolveParameters s ((parametersOf s.blueprintId).getD [])
        (s.compartmentId.bind compartmentOf)
    .ok
      { deploymentOrder
        resolutions
        allComplete := resolutions.all (·.isComplete)
        totalUnresolved := resolutions.foldr (fun s n => s.unresolvedCount + n) 0 }

end Estate.Deployment

namespace Estate.Topology

def preview (t : Topology) : Except Deployment.OrderError Deployment.Preview :=
  Deployment.assemble t.allStacks (fun id => (t.blueprint? id).map (·.parameters)) t.compartment?

end Estate.Topology
