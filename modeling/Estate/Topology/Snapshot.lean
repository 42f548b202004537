import Estate.Compartment.Forest
import Estate.Deployment.Stack

/-! Topologies: a hierarchy of compartments with blueprints and stacks. A snapshot is the document
as it is stored; a topology is a snapshot whose ids are distinct and whose compartments form a
forest. -/
namespace Estate
open Document Deployment

/-- A topology as it is stored, not yet checked. -/
structure Snapshot where
  topologyId : String
  name : String
  compartments : List Compartment
  blueprints : List Blueprint
  allStacks : List Stack
deriving DecidableEq

namespace Snapshot

instance : Inhabited Snapshot := ⟨⟨"", "", [], [], []⟩⟩

def schema : Schema Snapshot :=
  .via (.object <|
    .field "topology_id" (.defaulted "") .text <|
    .field "name" (.defaulted "") .text <|
    .field "compartments" (.defaulted []) (.list Compartment.schema) <|
    .field "blueprints" (.defaulted []) (.list Blueprint.schema) <|
    .field "stacks" (.defaulted []) (.list Stack.schema) .done)
  (fun (topologyId, name, compartments, blueprints, allStacks, _) =>
    ⟨topologyId, name, compartments, blueprints, allStacks⟩)
  (fun s => (s.topologyId, s.name, s.compartments, s.blueprints, s.allStacks, ()))
  (fun _ => rfl)

end Snapshot

/-- Why a snapshot is no topology. -/
inductive SnapshotError where
  | duplicateStack (id : String)
  | duplicateBlueprint (id : String)
  | forest (fault : ForestError)
deriving DecidableEq

def SnapshotError.message : SnapshotError → String
  | duplicateStack id => s!"duplicate stack id '{id}'"
  | duplicateBlueprint id => s!"duplicate blueprint id '{id}'"
  | forest fault => fault.message

/-- A checked topology. Stacks and blueprints keep the order of the document. -/
structure Topology where
  id : String
  name : String
  forest : Forest
  blueprints : List Blueprint
  allStacks : List Stack
  distinctBlueprints : (blueprints.map (·.id)).Nodup
  distinctStacks : (allStacks.map (·.id)).Nodup

/-- The topology of a snapshot, or its first fault: stacks are looked at before blueprints, and
these before compartments. Stacks may depend on unknown ones; that is found when they are ordered.
-/
def Snapshot.validate (s : Snapshot) : Except SnapshotError Topology :=
  match freshStacks : firstRepeated? (s.allStacks.map (·.id)) with
  | some id => .error (.duplicateStack id)
  | none =>
    match freshBlueprints : firstRepeated? (s.blueprints.map (·.id)) with
    | some id => .error (.duplicateBlueprint id)
    | none =>
      match Forest.build s.compartments with
      | .error fault => .error (.forest fault)
      | .ok forest =>
        .ok ⟨s.topologyId, s.name, forest, s.blueprints, s.allStacks,
          firstRepeated?_eq_none_iff.mp freshBlueprints, firstRepeated?_eq_none_iff.mp freshStacks⟩

namespace Topology

def compartment? (t : Topology) (id : String) : Option Compartment := t.forest.get? id

def blueprint? (t : Topology) (id : String) : Option Blueprint := t.blueprints.find? (·.id == id)

def stack? (t : Topology) (id : String) : Option Stack := t.allStacks.find? (·.id == id)

/-- The ids of the blueprints in order of the ids. -/
def blueprintIds (t : Topology) : List String := (StringSet.ofList (t.blueprints.map (·.id))).toList

end Topology
end Estate
