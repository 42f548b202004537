import Estate.Policy.Statement

/-! Compartments, the nodes of an estate's hierarchy, and the policies attached to them. -/
namespace Estate
open Document Policy

structure LibraryAttachment where
  policyId : String
  variableOverrides : StringMap Value
  inherit : Bool
deriving DecidableEq

/-- A policy defined where it is attached. -/
structure InlineAttachment where
  name : String
  statements : List Statement
  severity : Severity
  inherit : Bool
deriving DecidableEq

inductive Attachment where
  | library (reference : LibraryAttachment)
  | inline (policy : InlineAttachment)
deriving DecidableEq

namespace LibraryAttachment

/-- The fields of a reference. It is inherited unless it says otherwise. -/
def fields : Fields (String × StringMap Value × Bool × Unit) :=
  .field "policy_id" .required .text <|
  .field "variable_overrides" .unlessEmpty (.map .any) <|
  .field "inherit" (.defaulted true) .flag .done

def make : String × StringMap Value × Bool × Unit → LibraryAttachment
  | (policyId, variableOverrides, inherit, _) => ⟨policyId, variableOverrides, inherit⟩

def parts (a : LibraryAttachment) : String × StringMap Value × Bool × Unit :=
  (a.policyId, a.variableOverrides, a.inherit, ())

def schema : Schema LibraryAttachment := .via (.object fields) make parts fun _ => rfl

end LibraryAttachment

namespace InlineAttachment

/-- The fields of an inline policy. It is inherited unless it says otherwise. -/
def fields : Fields (String × List Statement × Severity × Bool × Unit) :=
  .field "name" .required .text <|
  .field "statements" (.defaulted []) (.list Statement.schema) <|
  .field "severity" (.defaulted default) (.word Severity.vocabulary) <|
  .field "inherit" (.defaulted true) .flag .done

def make : String × List Statement × Severity × Bool × Unit → InlineAttachment
  | (name, statements, severity, inherit, _) => ⟨name, statements, severity, inherit⟩

def parts (a : InlineAttachment) : String × List Statement × Severity × Bool × Unit :=
  (a.name, a.statements, a.severity, a.inherit, ())

def schema : Schema InlineAttachment := .via (.object fields) make parts fun _ => rfl

end InlineAttachment

namespace Attachment

/-- Whether the attachment reaches descendant compartments. -/
def inherit : Attachment → Bool
  | library reference => reference.inherit
  | inline policy => policy.inherit

/-- The attachment's label in traces. -/
def label : Attachment → String
  | library reference => "library:" ++ reference.policyId
  | inline policy => "inline:" ++ policy.name

/-- Attachments as documents: the kind stands beside the fields, and every scalar below has its own
type before it is read. -/
def schema : Schema Attachment :=
  .settled <| .via (.object <| .choice "kind" false
    (.case "library" LibraryAttachment.fields <|
      .case "inline" InlineAttachment.fields .none) .done)
  (fun
    | (.inl reference, _) => .library (.make reference)
    | (.inr (.inl policy), _) => .inline (.make policy))
  (fun
    | .library reference => (.inl reference.parts, ())
    | .inline policy => (.inr (.inl policy.parts), ()))
  (by rintro (_ | _) <;> rfl)

end Attachment

/-- A compartment with what is attached to it, suppressed in it and offered by it to stacks. -/
structure Compartment where
  id : String
  label : String
  parentId : Option String
  description : Option String
  policies : List Attachment
  suppressed : StringSet
  defaults : StringMap String
  tags : StringMap String
deriving DecidableEq

namespace Compartment

/-- A compartment with nothing attached, labelled by its id. -/
def bare (id : String) (parentId : Option String) : Compartment :=
  ⟨id, id, parentId, none, [], .empty, .empty, .empty⟩

def schema : Schema Compartment :=
  .via (.object <|
    .field "id" .required .text <|
    .field "label" (.defaulted "") .text <|
    .field "parent_id" (.defaulted none) (.optional .text) <|
    .field "description" .unlessNone (.optional .text) <|
    .field "policies" (.defaulted []) (.list Attachment.schema) <|
    .field "suppressed" (.defaulted .empty) .set <|
    .field "defaults" (.defaulted .empty) (.map .text) <|
    .field "tags" (.defaulted .empty) (.map .text) .done)
  (fun (id, label, parentId, description, policies, suppressed, defaults, tags, _) =>
    ⟨id, label, parentId, description, policies, suppressed, defaults, tags⟩)
  (fun c => (c.id, c.label, c.parentId, c.description, c.policies, c.suppressed, c.defaults,
    c.tags, ()))
  (fun _ => rfl)

def isRoot (c : Compartment) : Bool := c.parentId.isNone

/-- Whether the compartment refuses policies of a name. -/
def suppresses (c : Compartment) (name : String) : Bool := c.suppressed.contains name

end Compartment
end Estate
