import Estate.Compartment.Forest
import Estate.Policy.Index
import Estate.Policy.Placeholder
import Estate.Resolution.Trace

/-! Policy resolution: a walk from a compartment up to its root, over all attachments on the way.
The first attachment of a policy wins; one above the target that is not inherited keeps its policy
from coming from there or further up; and the target may suppress policies by name. -/
namespace Estate.Resolution
open Document Policy

/-- What makes two attachments attachments of the same policy. Library and inline policies never
are. -/
inductive Identity where
  | library (policyId : String)
  | inline (name : String)
deriving DecidableEq

def identity : Attachment → Identity
  | .library reference => .library reference.policyId
  | .inline policy => .inline policy.name

/-- The name under which an attachment's policy is shown and suppressed. -/
def effectiveName (index : Index) : Attachment → String
  | .library reference =>
    ((index.get? reference.policyId).map Definition.effectiveName).getD reference.policyId
  | .inline policy => policy.name

/-- An attachment on the way up: where it is attached, and how far that is from the target. -/
structure Visit where
  compartmentId : String
  distance : Nat
  attachment : Attachment
deriving DecidableEq

/-- The target and the compartments above it. The target itself need not be in the forest. -/
def chain (forest : Forest) (target : Compartment) : List Compartment :=
  target :: (target.parentId.map forest.chain).getD []

/-- The attachments of compartments at increasing distances, the first of them at `distance`. -/
def visitsFrom (distance : Nat) : List Compartment → List Visit
  | [] => []
  | c :: above => c.policies.map (⟨c.id, distance, ·⟩) ++ visitsFrom (distance + 1) above

/-- All attachments on the way up, in the order in which they are looked at. -/
def visits (forest : Forest) (target : Compartment) : List Visit :=
  visitsFrom 0 (chain forest target)

/-- What the attachments looked at so far have decided: for each policy in effect and each one that
cannot come into effect any more, the compartment that is the cause. -/
structure Standing where
  winners : List (Identity × String)
  blockers : List (Identity × String)

def Standing.initial : Standing := ⟨[], []⟩

/-- What becomes of an attachment. -/
def judge (index : Index) (target : Compartment) (standing : Standing) (visit : Visit) : Outcome :=
  match standing.blockers.lookup (identity visit.attachment) with
  | some cause => .blocked cause
  | none =>
    if 0 < visit.distance ∧ visit.attachment.inherit = false then .skippedNotInheritable
    else if target.suppresses (effectiveName index visit.attachment) then .suppressed
    else match standing.winners.lookup (identity visit.attachment) with
      | some cause => .shadowed cause
      | none => match visit.attachment with
        | .library reference =>
          if (index.get? reference.policyId).isSome then .included else .unknownLibraryPolicy
        | .inline _ => .included

/-- The standing after an attachment. One that is not inherited blocks its policy unless that is in
effect already. -/
def Standing.after (standing : Standing) (visit : Visit) : Outcome → Standing
  | .included | .unknownLibraryPolicy =>
    { standing with
      winners := (identity visit.attachment, visit.compartmentId) :: standing.winners }
  | .skippedNotInheritable =>
    if (standing.winners.lookup (identity visit.attachment)).isSome then standing
    else
      { standing with
        blockers := (identity visit.attachment, visit.compartmentId) :: standing.blockers }
  | .blocked _ | .suppressed | .shadowed _ => standing

/-- The outcomes of attachments, one after the other. -/
def walk (index : Index) (target : Compartment) : Standing → List Visit → List (Visit × Outcome)
  | _, [] => []
  | standing, visit :: rest =>
    let outcome := judge index target standing visit
    (visit, outcome) :: walk index target (standing.after visit outcome) rest

/-- How the policy of an attachment came to the target. -/
def source (visit : Visit) : Source :=
  if visit.distance = 0 then .explicit
  else match visit.attachment with
    | .library _ => .inheritedLibrary
    | .inline _ => .inheritedInline

/-- The policy that an attachment brings into effect. An id that the library does not know gives a
policy without content. -/
def emission (index : Index) (visit : Visit) : ResolvedPolicy :=
  let name := effectiveName index visit.attachment
  match visit.attachment with
  | .inline policy =>
    ⟨visit.attachment.label, name, source visit, policy.severity, policy.statements,
      visit.compartmentId, visit.distance, .empty⟩
  | .library reference =>
    match index.get? reference.policyId with
    | none =>
      ⟨reference.policyId, name, source visit, default, [], visit.compartmentId, visit.distance,
        .empty⟩
    | some definition =>
      let values := definition.mergedVariables reference.variableOverrides
      ⟨definition.id, name, source visit, definition.severity,
        instantiate values definition.statements, visit.compartmentId, visit.distance,
        values⟩

/-- The overrides that the policy of an attachment refuses. -/
def ignoredOverrides (index : Index) : Attachment → List IgnoredOverride
  | .library reference =>
    ((index.get? reference.policyId).map
      (·.ignoredOverrides reference.variableOverrides)).getD []
  | .inline _ => []

/-- The report of an attachment and its outcome. -/
def step (index : Index) (visit : Visit) (outcome : Outcome) : Step :=
  ⟨visit.compartmentId, visit.distance, visit.attachment.label, outcome,
    if outcome.isEmission then ignoredOverrides index visit.attachment else []⟩

/-- The outcomes of all attachments on the way up from a target. -/
def verdicts (index : Index) (forest : Forest) (target : Compartment) : List (Visit × Outcome) :=
  walk index target .initial (visits forest target)

/-- The policies in effect in a target, by distance and then by the order of attachment. -/
def resolve (index : Index) (forest : Forest) (target : Compartment) : List ResolvedPolicy :=
  (verdicts index forest target).filterMap fun (visit, outcome) =>
    if outcome.isEmission then some (emission index visit) else none

/-- The policies in effect in a target with the steps that led to them. -/
def trace (index : Index) (forest : Forest) (target : Compartment) : Trace :=
  ⟨target.id, (chain forest target).map (·.id), resolve index forest target,
    (verdicts index forest target).map fun (visit, outcome) => step index visit outcome⟩

def traceById (index : Index) (forest : Forest) (id : String) : Except PolicyError Trace :=
  match forest.get? id with
  | some target => .ok (trace index forest target)
  | none => .error (.unknownCompartment id)

end Estate.Resolution
