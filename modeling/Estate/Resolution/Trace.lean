import Estate.Compartment.Basic
import Estate.Policy.Merge

/-! What policy resolution reports: the policies in effect, and for every attachment that was looked
at a step with its outcome. -/
namespace Estate.Resolution
open Document Policy

/-- How a policy came to a compartment: by an attachment of its own, or of one above it. -/
inductive Source where
  | explicit | inheritedLibrary | inheritedInline
deriving DecidableEq

def Source.vocabulary : Vocabulary Source where
  members := [explicit, inheritedLibrary, inheritedInline]
  word
    | explicit => "explicit"
    | inheritedLibrary => "inherited_library"
    | inheritedInline => "inherited_inline"
  complete a := by cases a <;> decide
  distinct a b := by cases a <;> cases b <;> decide

structure ResolvedPolicy where
  policyId : String
  name : String
  source : Source
  severity : Severity
  statements : List Statement
  attachedAt : String
  distance : Nat
  values : StringMap Value
deriving DecidableEq

def ResolvedPolicy.schema : Schema ResolvedPolicy :=
  .via (.object <|
    .field "policy_id" .required .text <|
    .field "name" .required .text <|
    .field "source" .required (.word Source.vocabulary) <|
    .field "severity" .required (.word Severity.vocabulary) <|
    .field "statements" .required (.list Statement.schema) <|
    .field "attached_at" .required .text <|
    .field "distance" .required .count <|
    .field "variables" .unlessEmpty (.map .any) .done)
  (fun (policyId, name, source, severity, statements, attachedAt, distance, values, _) =>
    ⟨policyId, name, source, severity, statements, attachedAt, distance, values⟩)
  (fun p => (p.policyId, p.name, p.source, p.severity, p.statements, p.attachedAt, p.distance,
    p.values, ()))
  (fun _ => rfl)

/-- What became of an attachment. Where a compartment is the cause it is named. -/
inductive Outcome where
  | included
  | unknownLibraryPolicy
  | skippedNotInheritable
  | blocked (cause : String)
  | suppressed
  | shadowed (cause : String)
deriving DecidableEq

namespace Outcome

/-- The fields of an outcome with a cause. -/
def causeFields : Fields (String × Unit) := .field "by" .required .text .done

abbrev Shape : Type :=
  Unit ⊕ Unit ⊕ Unit ⊕ (String × Unit) ⊕ Unit ⊕ (String × Unit) ⊕ Empty

def cases : Cases Shape :=
  .case "included" .done <|
  .case "unknown_library_policy" .done <|
  .case "skipped_not_inheritable" .done <|
  .case "blocked" causeFields <|
  .case "suppressed" .done <|
  .case "shadowed" causeFields .none

def make : Shape → Outcome
  | .inl _ => included
  | .inr (.inl _) => unknownLibraryPolicy
  | .inr (.inr (.inl _)) => skippedNotInheritable
  | .inr (.inr (.inr (.inl (cause, _)))) => blocked cause
  | .inr (.inr (.inr (.inr (.inl _)))) => suppressed
  | .inr (.inr (.inr (.inr (.inr (.inl (cause, _)))))) => shadowed cause

def shape : Outcome → Shape
  | included => .inl ()
  | unknownLibraryPolicy => .inr (.inl ())
  | skippedNotInheritable => .inr (.inr (.inl ()))
  | blocked cause => .inr (.inr (.inr (.inl (cause, ()))))
  | suppressed => .inr (.inr (.inr (.inr (.inl ()))))
  | shadowed cause => .inr (.inr (.inr (.inr (.inr (.inl (cause, ()))))))

theorem make_shape (o : Outcome) : make o.shape = o := by cases o <;> rfl

def schema : Schema Outcome :=
  .via (.object <| .choice "outcome" false cases .done) (fun (s, _) => make s)
    (fun o => (o.shape, ())) make_shape

def isEmission : Outcome → Bool
  | included | unknownLibraryPolicy => true
  | _ => false

end Outcome

/-- One step of a walk: an attachment with its outcome and the overrides that its policy refused. -/
structure Step where
  compartmentId : String
  distance : Nat
  attachment : String
  outcome : Outcome
  ignoredOverrides : List IgnoredOverride
deriving DecidableEq

/-- Steps as documents; the fields of the outcome stand among the others. -/
def Step.schema : Schema Step :=
  .via (.object <|
    .field "compartment_id" .required .text <|
    .field "distance" .required .count <|
    .field "attachment" .required .text <|
    .choice "outcome" true Outcome.cases <|
    .field "ignored_overrides" .unlessNil (.list IgnoredOverride.schema) .done)
  (fun (compartmentId, distance, attachment, outcome, ignoredOverrides, _) =>
    ⟨compartmentId, distance, attachment, .make outcome, ignoredOverrides⟩)
  (fun s => (s.compartmentId, s.distance, s.attachment, s.outcome.shape, s.ignoredOverrides, ()))
  (fun s => by simp only [Outcome.make_shape])

/-- The policies in effect in a compartment and the steps that led to them. -/
structure Trace where
  compartmentId : String
  chain : List String
  policies : List ResolvedPolicy
  steps : List Step
deriving DecidableEq

def Trace.schema : Schema Trace :=
  .via (.object <|
    .field "compartment_id" .required .text <|
    .field "chain" .required (.list .text) <|
    .field "policies" .required (.list ResolvedPolicy.schema) <|
    .field "steps" .required (.list Step.schema) .done)
  (fun (compartmentId, chain, policies, steps, _) => ⟨compartmentId, chain, policies, steps⟩)
  (fun t => (t.compartmentId, t.chain, t.policies, t.steps, ()))
  (fun _ => rfl)

end Estate.Resolution
