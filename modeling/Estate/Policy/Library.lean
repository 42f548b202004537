import Estate.Policy.Statement

/-! Library policies: named sets of statements with typed variables. -/
namespace Estate.Policy
open Document

/-- The type of value that a variable accepts. -/
inductive VariableType where
  | string | number | boolean | list
deriving DecidableEq

namespace VariableType

def vocabulary : Vocabulary VariableType where
  members := [string, number, boolean, list]
  word
    | string => "string"
    | number => "number"
    | boolean => "boolean"
    | list => "list"
  complete a := by cases a <;> decide
  distinct a b := by cases a <;> cases b <;> decide

/-- The type of a value. Null and objects have none. -/
def of? (v : Value) : Option VariableType :=
  match v.node with
  | .text _ => some string
  | .number _ => some number
  | .flag _ => some boolean
  | .list _ => some list
  | _ => none

end VariableType

/-- A variable that a policy declares. -/
structure Variable where
  defaultValue : Value
  description : String
  type : Option VariableType
deriving DecidableEq

namespace Variable

instance : Inhabited Variable := ⟨⟨.null, "", none⟩⟩

def schema : Schema Variable :=
  .via (.object <|
    .field "default" (.defaulted .null) .any <|
    .field "description" (.defaulted "") .text <|
    .field "type" .unlessNone (.optional (.word VariableType.vocabulary)) .done)
  (fun (defaultValue, description, type, _) => ⟨defaultValue, description, type⟩)
  (fun v => (v.defaultValue, v.description, v.type, ()))
  (fun _ => rfl)

/-- The type that overrides must have: the declared one or else that of the default value. -/
def expectedType (v : Variable) : Option VariableType := v.type <|> VariableType.of? v.defaultValue

/-- Whether a value may override the default: it has the expected type, or is not null where no type
is expected. -/
def accepts (v : Variable) (value : Value) : Bool :=
  match v.expectedType with
  | some expected => VariableType.of? value == some expected
  | none => !value.isNull

end Variable

/-- A reusable policy of the library. -/
structure Definition where
  id : String
  displayName : String
  category : String
  severity : Severity
  statements : List Statement
  declared : StringMap Variable
deriving DecidableEq

namespace Definition

def schema : Schema Definition :=
  .via (.object <|
    .field "id" .required .text <|
    .field "display_name" (.defaulted "") .text <|
    .field "category" (.defaulted "") .text <|
    .field "severity" (.defaulted default) (.word Severity.vocabulary) <|
    .field "statements" (.defaulted []) (.list Statement.schema) <|
    .field "variables" (.defaulted .empty) (.map Variable.schema) .done)
  (fun (id, displayName, category, severity, statements, declared, _) =>
    ⟨id, displayName, category, severity, statements, declared⟩)
  (fun d => (d.id, d.displayName, d.category, d.severity, d.statements, d.declared, ()))
  (fun _ => rfl)

/-- The name under which the policy is shown and suppressed: its display name, or its id without
one. -/
def effectiveName (d : Definition) : String := if d.displayName = "" then d.id else d.displayName

def defaultVariables (d : Definition) : StringMap Value := d.declared.map (·.defaultValue)

end Definition

structure Library where
  policies : List Definition
deriving DecidableEq

namespace Library

instance : Inhabited Library := ⟨⟨[]⟩⟩

def schema : Schema Library :=
  .via (.object <| .field "policies" (.defaulted []) (.list Definition.schema) .done)
  (fun (policies, _) => ⟨policies⟩)
  (fun l => (l.policies, ()))
  (fun _ => rfl)

end Library
end Estate.Policy
