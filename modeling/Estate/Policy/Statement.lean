import Estate.Document.Schema

/-! Severities, effects and statements of policies. -/
namespace Estate.Policy
open Document

inductive Severity where
  | low | medium | high | critical
deriving DecidableEq

namespace Severity

instance : Inhabited Severity := ⟨medium⟩

/-- The words for severities, from the least severe. -/
def vocabulary : Vocabulary Severity where
  members := [low, medium, high, critical]
  word
    | low => "low"
    | medium => "medium"
    | high => "high"
    | critical => "critical"
  complete a := by cases a <;> decide
  distinct a b := by cases a <;> cases b <;> decide

/-- The place of a severity in the order from the least severe. -/
def rank : Severity → Nat
  | low => 0
  | medium => 1
  | high => 2
  | critical => 3

instance : Ord Severity := ⟨fun a b => compare a.rank b.rank⟩

end Severity

/-- Whether a statement grants or denies its actions. -/
inductive Effect where
  | allow | deny
deriving DecidableEq

namespace Effect

instance : Inhabited Effect := ⟨deny⟩

def vocabulary : Vocabulary Effect where
  members := [allow, deny]
  word
    | allow => "allow"
    | deny => "deny"
  complete a := by cases a <;> decide
  distinct a b := by cases a <;> cases b <;> decide

end Effect

/-- A single access or compliance statement. Its texts may hold placeholders. -/
structure Statement where
  sid : Option String
  effect : Effect
  actions : List String
  resources : List String
  conditions : StringMap String
deriving DecidableEq

namespace Statement

def schema : Schema Statement :=
  .via (.object <|
    .field "sid" .unlessNone (.optional .text) <|
    .field "effect" (.defaulted default) (.word Effect.vocabulary) <|
    .field "actions" (.defaulted []) (.list .text) <|
    .field "resources" (.defaulted []) (.list .text) <|
    .field "conditions" .unlessEmpty (.map .text) .done)
  (fun (sid, effect, actions, resources, conditions, _) =>
    ⟨sid, effect, actions, resources, conditions⟩)
  (fun s => (s.sid, s.effect, s.actions, s.resources, s.conditions, ()))
  (fun _ => rfl)

instance : Inhabited Statement := ⟨⟨none, default, [], [], .empty⟩⟩

end Statement
end Estate.Policy
