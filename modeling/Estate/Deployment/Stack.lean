import Estate.Document.Schema

/-! Stacks, and the blueprints that they are instances of. -/
namespace Estate.Deployment
open Document

/-- A deployable instance of a blueprint. An override without a value counts as none. -/
structure Stack where
  id : String
  blueprintId : String
  label : String
  compartmentId : Option String
  parameterOverrides : StringMap (Option String)
  dependsOn : List String
  tags : StringMap String
deriving DecidableEq

namespace Stack

/-- A stack of a blueprint with nothing set, labelled by its id. -/
def bare (id blueprintId : String) : Stack := ⟨id, blueprintId, id, none, .empty, [], .empty⟩

def schema : Schema Stack :=
  .via (.object <|
    .field "id" .required .text <|
    .field "blueprint_id" .required .text <|
    .field "label" (.defaulted "") .text <|
    .field "compartment_id" (.defaulted none) (.optional .text) <|
    .field "parameter_overrides" (.defaulted .empty) (.map (.optional .text)) <|
    .field "depends_on" (.defaulted []) (.list .text) <|
    .field "tags" (.defaulted .empty) (.map .text) .done)
  (fun (id, blueprintId, label, compartmentId, parameterOverrides, dependsOn, tags, _) =>
    ⟨id, blueprintId, label, compartmentId, parameterOverrides, dependsOn, tags⟩)
  (fun s => (s.id, s.blueprintId, s.label, s.compartmentId, s.parameterOverrides, s.dependsOn,
    s.tags, ()))
  (fun _ => rfl)

/-- The value that the stack itself gives to a parameter. -/
def overrideFor (s : Stack) (name : String) : Option String := (s.parameterOverrides.get? name).join

end Stack

structure Parameter where
  name : String
  displayName : String
  defaultValue : Option String
  isRequired : Bool
  tagKey : Option String
deriving DecidableEq

namespace Parameter

/-- An optional parameter without default, shown under its name. -/
def bare (name : String) : Parameter := ⟨name, name, none, false, none⟩

def schema : Schema Parameter :=
  .via (.object <|
    .field "name" .required .text <|
    .field "display_name" (.defaulted "") .text <|
    .field "default" (.defaulted none) (.optional .text) <|
    .field "is_required" (.defaulted false) .flag <|
    .field "tag_key" (.defaulted none) (.optional .text) .done)
  (fun (name, displayName, defaultValue, isRequired, tagKey, _) =>
    ⟨name, displayName, defaultValue, isRequired, tagKey⟩)
  (fun p => (p.name, p.displayName, p.defaultValue, p.isRequired, p.tagKey, ()))
  (fun _ => rfl)

end Parameter

structure Blueprint where
  id : String
  name : String
  parameters : List Parameter
deriving DecidableEq

def Blueprint.schema : Schema Blueprint :=
  .via (.object <|
    .field "id" .required .text <|
    .field "name" (.defaulted "") .text <|
    .field "parameters" (.defaulted []) (.list Parameter.schema) .done)
  (fun (id, name, parameters, _) => ⟨id, name, parameters⟩)
  (fun b => (b.id, b.name, b.parameters, ()))
  (fun _ => rfl)

end Estate.Deployment
