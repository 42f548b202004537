import Estate.Compartment.Basic
import Estate.Deployment.Stack

/-! Bindings: which value each parameter of a stack gets, and from where. There are four tiers that
may find a value, and the first that does wins. -/
namespace Estate.Deployment
open Document

inductive ParameterSource where
  | explicit | tagRef | compartmentDefault | blueprintDefault | unresolved
deriving DecidableEq

def ParameterSource.vocabulary : Vocabulary ParameterSource where
  members := [explicit, tagRef, compartmentDefault, blueprintDefault, unresolved]
  word
    | explicit => "explicit"
    | tagRef => "tag_ref"
    | compartmentDefault => "compartment_default"
    | blueprintDefault => "blueprint_default"
    | unresolved => "unresolved"
  complete a := by cases a <;> decide
  distinct a b := by cases a <;> cases b <;> decide

/-- A parameter with its value. The detail names the tag or compartment that the value comes from.
-/
structure ResolvedParameter where
  name : String
  displayName : String
  value : Option String
  source : ParameterSource
  isRequired : Bool
  tagKey : Option String
  detail : Option String
deriving DecidableEq

namespace ResolvedParameter

def schema : Schema ResolvedParameter :=
  .via (.object <|
    .field "name" .required .text <|
    .field "display_name" .required .text <|
    .field "value" (.implied none) (.optional .text) <|
    .field "source" .required (.word ParameterSource.vocabulary) <|
    .field "is_required" .required .flag <|
    .field "tag_key" (.implied none) (.optional .text) <|
    .field "detail" .unlessNone (.optional .text) .done)
  (fun (name, displayName, value, source, isRequired, tagKey, detail, _) =>
    ⟨name, displayName, value, source, isRequired, tagKey, detail⟩)
  (fun p => (p.name, p.displayName, p.value, p.source, p.isRequired, p.tagKey, p.detail, ()))
  (fun _ => rfl)

def isMissing (p : ResolvedParameter) : Bool := p.isRequired && p.source == .unresolved

end ResolvedParameter

/-- The parameters of a stack. Optional parameters without value do not count as unresolved. -/
structure StackResolution where
  stackId : String
  stackLabel : String
  parameters : List ResolvedParameter
  isComplete : Bool
  unresolvedCount : Nat
deriving DecidableEq

namespace StackResolution

def schema : Schema StackResolution :=
  .via (.object <|
    .field "stack_id" .required .text <|
    .field "stack_label" .required .text <|
    .field "parameters" .required (.list ResolvedParameter.schema) <|
    .field "is_complete" .required .flag <|
    .field "unresolved_count" .required .count .done)
  (fun (stackId, stackLabel, parameters, isComplete, unresolvedCount, _) =>
    ⟨stackId, stackLabel, parameters, isComplete, unresolvedCount⟩)
  (fun s => (s.stackId, s.stackLabel, s.parameters, s.isComplete, s.unresolvedCount, ()))
  (fun _ => rfl)

def missing (s : StackResolution) : List String :=
  (s.parameters.filter (·.isMissing)).map (·.name)

end StackResolution

/-- A value that a tier found for a parameter, and the words for where it was. -/
structure Found where
  value : String
  detail : Option String
deriving DecidableEq

/-- Where a value for a parameter of a stack in a compartment may be found. -/
abbrev Tier : Type := Stack → Option Compartment → Parameter → Option Found

namespace Tier

def explicit : Tier := fun stack _ parameter =>
  (stack.overrideFor parameter.name).map (⟨·, none⟩)

/-- The tag that the parameter refers to: that of the stack, or else that of the compartment. -/
def tagRef : Tier := fun stack compartment parameter => do
  let key ← parameter.tagKey
  match stack.tags.get? key with
  | some value => return ⟨value, some s!"stack tag '{key}'"⟩
  | none =>
    let c ← compartment
    let value ← c.tags.get? key
    return ⟨value, some s!"compartment '{c.id}' tag '{key}'"⟩

def compartmentDefault : Tier := fun _ compartment parameter => do
  let c ← compartment
  let value ← c.defaults.get? parameter.name
  return ⟨value, some s!"compartment '{c.id}'"⟩

def blueprintDefault : Tier := fun _ _ parameter => parameter.defaultValue.map (⟨·, none⟩)

/-- The tiers with what they say of themselves as a source, the first to ask first. -/
def all : List (ParameterSource × Tier) :=
  [(.explicit, explicit), (.tagRef, tagRef), (.compartmentDefault, compartmentDefault),
   (.blueprintDefault, blueprintDefault)]

/-- What the first tier finds that finds anything. -/
def find? (stack : Stack) (compartment : Option Compartment) (parameter : Parameter) :
    Option (ParameterSource × Found) :=
  all.findSome? fun (source, tier) => (tier stack compartment parameter).map (source, ·)

end Tier

/-- A parameter with the value that it gets. It is shown under its name if it has no other. -/
def resolveParameter (stack : Stack) (parameter : Parameter) (compartment : Option Compartment) :
    ResolvedParameter :=
  let found := Tier.find? stack compartment parameter
  { name := parameter.name
    displayName := if parameter.displayName = "" then parameter.name else parameter.displayName
    value := found.map (·.2.value)
    source := found.elim .unresolved (·.1)
    isRequired := parameter.isRequired
    tagKey := parameter.tagKey
    detail := found.bind (·.2.detail) }

/-- All parameters of a stack. It is shown under its id if it has no label. -/
def resolveParameters (stack : Stack) (parameters : List Parameter)
    (compartment : Option Compartment) : StackResolution :=
  let resolved := parameters.map fun parameter => resolveParameter stack parameter compartment
  let count := resolved.countP (·.isMissing)
  { stackId := stack.id
    stackLabel := if stack.label = "" then stack.id else stack.label
    parameters := resolved
    isComplete := count == 0
    unresolvedCount := count }

end Estate.Deployment
