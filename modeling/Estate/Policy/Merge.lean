import Estate.Policy.Library

/-! Variable overrides: an attachment's values replace the defaults of the policy's variables where
they are accepted. The others are ignored and reported. -/
namespace Estate.Policy
open Document

structure IgnoredOverride where
  variableName : String
  reason : String
deriving DecidableEq

def IgnoredOverride.schema : Schema IgnoredOverride :=
  .via (.object <| .field "variable" .required .text <| .field "reason" .required .text .done)
  (fun (variableName, reason, _) => ⟨variableName, reason⟩)
  (fun o => (o.variableName, o.reason, ()))
  (fun _ => rfl)

/-- The word for the kind of a value. -/
def kindWord (v : Value) : String :=
  match v.node with
  | .null | .unreadable => "null"
  | .flag _ => "boolean"
  | .number _ => "number"
  | .text _ | .plain _ => "string"
  | .list _ => "list"
  | .object _ => "object"

/-- Why an override is ignored. -/
inductive Rejection where
  | undeclared (policyId name : String)
  | unexpected (expected : VariableType) (value : Value)
  | null
deriving DecidableEq

def Rejection.message : Rejection → String
  | undeclared policyId name => s!"policy '{policyId}' declares no variable '{name}'"
  | unexpected expected value =>
    s!"expected {VariableType.vocabulary.word expected}, got {kindWord value}"
  | null => "null is not a valid override"

namespace Definition

/-- Why the policy refuses a value for a variable, if it does. -/
def rejection? (d : Definition) (name : String) (value : Value) : Option Rejection :=
  match d.declared.get? name with
  | none => some (.undeclared d.id name)
  | some declared =>
    if declared.accepts value then none
    else match declared.expectedType with
      | some expected => some (.unexpected expected value)
      | none => some .null

/-- The values of the policy's variables under overrides. -/
def mergedVariables (d : Definition) (overrides : StringMap Value) : StringMap Value :=
  overrides.entries.foldl
    (fun merged e => if (d.rejection? e.1 e.2).isNone then merged.insert e.1 e.2 else merged)
    d.defaultVariables

/-- The overrides that the policy refuses, in order of their names. -/
def ignoredOverrides (d : Definition) (overrides : StringMap Value) : List IgnoredOverride :=
  overrides.entries.filterMap fun e =>
    (d.rejection? e.1 e.2).map fun rejection => ⟨e.1, rejection.message⟩

end Definition
end Estate.Policy
