import Mathlib.Data.List.FinRange
import Mathlib.Data.List.Forall2
import Estate.Proofs.Compartment.Ascent
import Estate.Proofs.Resolution.Standing

/-! What policy resolution returns, without a walk that remembers: of all attachments on the way
up, those that are the first of their policy, count for the target and are not suppressed. -/
namespace Estate.Resolution
open Policy

open scoped Classical

variable {index : Index} {target : Compartment}

/-- Two attachments are of the same policy: of one library policy, or inline with one name. -/
def SamePolicy : Attachment → Attachment → Prop
  | .library a, .library b => a.policyId = b.policyId
  | .inline a, .inline b => a.name = b.name
  | _, _ => False

/-- The name of an attachment's policy: its display name in the library or, where that is empty or
the policy unknown, its id; an inline policy has its own. -/
inductive ShownAs (index : Index) : Attachment → String → Prop where
  | display {reference : LibraryAttachment} {definition : Definition} :
      index.get? reference.policyId = some definition → definition.displayName ≠ "" →
      ShownAs index (.library reference) definition.displayName
  | nameless {reference : LibraryAttachment} {definition : Definition} :
      index.get? reference.policyId = some definition → definition.displayName = "" →
      ShownAs index (.library reference) reference.policyId
  | unknown {reference : LibraryAttachment} : index.get? reference.policyId = none →
      ShownAs index (.library reference) reference.policyId
  | inline {policy : InlineAttachment} : ShownAs index (.inline policy) policy.name

/-- All attachments of compartments on a way up, by distance and then in order of attachment. -/
def attachmentsOn (way : List Compartment) : List Visit :=
  way.zipIdx.flatMap fun (c, distance) => c.policies.map (⟨c.id, distance, ·⟩)

/-- An attachment brings its policy into effect: it is the first of the policy, it is the target's
own or inherited, and the target does not suppress the policy's name. -/
structure Elected (index : Index) (target : Compartment) (walk : List Visit)
    (i : Fin walk.length) : Prop where
  first : ∀ j < i, ¬ SamePolicy (walk.get j).attachment (walk.get i).attachment
  reaches : (walk.get i).distance = 0 ∨ (walk.get i).attachment.inherit = true
  shown : ∀ name, ShownAs index (walk.get i).attachment name → target.suppresses name = false

/-- The attachments that bring their policies into effect, in order. -/
noncomputable def elected (index : Index) (target : Compartment) (walk : List Visit) :
    List Visit :=
  ((List.finRange walk.length).filter fun i => Elected index target walk i).map walk.get

/-- A policy in effect carries what its attachment and the library say. -/
structure Carries (index : Index) (visit : Visit) (p : ResolvedPolicy) : Prop where
  attachedAt : p.attachedAt = visit.compartmentId
  distance : p.distance = visit.distance
  name : ShownAs index visit.attachment p.name
  explicit : p.source = .explicit ↔ visit.distance = 0
  library : ∀ reference, visit.attachment = .library reference →
    p.policyId = reference.policyId ∧ (0 < visit.distance → p.source = .inheritedLibrary)
  known : ∀ reference definition, visit.attachment = .library reference →
    index.get? reference.policyId = some definition →
    p.severity = definition.severity ∧
    p.values = definition.mergedVariables reference.variableOverrides ∧
    p.statements = instantiate p.values definition.statements
  unknown : ∀ reference, visit.attachment = .library reference →
    index.get? reference.policyId = none →
    p.severity = .medium ∧ p.values = .empty ∧ p.statements = []
  inline : ∀ policy, visit.attachment = .inline policy →
    p.policyId = "inline:" ++ policy.name ∧ (0 < visit.distance → p.source = .inheritedInline) ∧
    p.severity = policy.severity ∧ p.values = .empty ∧ p.statements = policy.statements

theorem identity_eq_iff {a b : Attachment} : identity a = identity b ↔ SamePolicy a b := by
  cases a <;> cases b <;> simp [identity, SamePolicy]

theorem id_of_get? {id : String} {definition : Definition}
    (known : index.get? id = some definition) : definition.id = id := by
  simpa using List.find?_some known

theorem shownAs_iff {attachment : Attachment} {name : String} :
    ShownAs index attachment name ↔ effectiveName index attachment = name := by
  constructor
  · intro shown
    cases shown with
    | display known named => simp [effectiveName, known, Definition.effectiveName, named]
    | nameless known blank =>
      simp [effectiveName, known, Definition.effectiveName, blank, id_of_get? known]
    | unknown missing => simp [effectiveName, missing]
    | inline => rfl
  · rintro rfl
    cases attachment with
    | inline policy => exact .inline
    | library reference =>
      cases known : index.get? reference.policyId with
      | none => simpa [effectiveName, known] using ShownAs.unknown known
      | some definition =>
        by_cases blank : definition.displayName = ""
        · simpa [effectiveName, known, Definition.effectiveName, blank, id_of_get? known] using
            ShownAs.nameless known blank
        · simpa [effectiveName, known, Definition.effectiveName, blank] using
            ShownAs.display known blank

theorem visitsFrom_eq (distance : Nat) (way : List Compartment) :
    visitsFrom distance way = (way.zipIdx distance).flatMap fun (c, distance) =>
      c.policies.map (⟨c.id, distance, ·⟩) := by
  induction way generalizing distance with
  | nil => rfl
  | cons c above ih => simp [visitsFrom, ih, List.zipIdx_cons]

/-- The chain of a target is its whole way up, whether or not the forest holds the target. -/
theorem ascent_chain (forest : Forest) (target : Compartment) :
    Ascent forest.compartments target (chain forest target) := by
  cases named : target.parentId with
  | none =>
    have top : parentIn forest.compartments target = none := by simp [parentIn, named]
    simpa [chain, named] using Ascent.top top
  | some id =>
    cases found : forest.get? id with
    | none =>
      have top : parentIn forest.compartments target = none := by
        rw [forest.parentIn_eq_bind, named, Option.bind_some, found]
      simpa [chain, named, Forest.chain, found] using Ascent.top top
    | some p =>
      have above : parentIn forest.compartments target = some p := by
        rw [forest.parentIn_eq_bind, named, Option.bind_some, found]
      have member : p ∈ forest.compartments := (parentIn_eq_some above).1
      simpa [chain, named, Forest.chain, found, Forest.size] using
        Ascent.up above (ascent_climb (forest.rooted p member))

theorem isEmission_verdict_take_iff {walk : List Visit} {i : Fin walk.length} :
    (verdict index target (walk.take i) (walk.get i)).isEmission = true ↔
      Elected index target walk i := by
  have fresh : firstVisit? (walk.take i) (identity (walk.get i).attachment) = none ↔
      ∀ j < i, ¬ SamePolicy (walk.get j).attachment (walk.get i).attachment := by
    simp only [firstVisit?, List.find?_eq_none, decide_eq_true_eq, identity_eq_iff]
    constructor
    · intro fresh j before
      exact fresh _ (List.mem_take_iff_getElem.mpr ⟨j, by simp; omega, rfl⟩)
    · intro fresh visit member
      obtain ⟨j, bound, rfl⟩ := List.mem_take_iff_getElem.mp member
      exact fresh ⟨j, by omega⟩ (by simp [Fin.lt_def]; omega)
  rw [isEmission_verdict_iff, fresh]
  constructor
  · rintro ⟨first, reaches, shown⟩
    exact ⟨first, reaches, fun name same => shownAs_iff.mp same ▸ shown⟩
  · rintro ⟨first, reaches, shown⟩
    exact ⟨first, reaches, shown _ (shownAs_iff.mpr rfl)⟩

theorem resolve_eq_map (index : Index) (forest : Forest) (target : Compartment) :
    resolve index forest target =
      (elected index target (visits forest target)).map (emission index) := by
  rw [resolve, verdicts_eq, elected, List.filterMap_map, List.map_map, ← List.filterMap_eq_map,
    List.filterMap_filter]
  refine List.filterMap_congr fun i _ => ?_
  by_cases brought : Elected index target (visits forest target) i
  · simpa [brought] using isEmission_verdict_take_iff.mpr brought
  · simpa [brought] using mt isEmission_verdict_take_iff.mp brought

theorem emission_common (index : Index) (visit : Visit) :
    (emission index visit).attachedAt = visit.compartmentId ∧
      (emission index visit).distance = visit.distance ∧
      (emission index visit).name = effectiveName index visit.attachment ∧
      (emission index visit).source = source visit := by
  unfold emission
  split
  · exact ⟨rfl, rfl, rfl, rfl⟩
  · split <;> exact ⟨rfl, rfl, rfl, rfl⟩

theorem source_eq_explicit_iff {visit : Visit} :
    source visit = .explicit ↔ visit.distance = 0 := by
  unfold source
  split
  · simpa
  · split <;> simpa

theorem carries_emission (visit : Visit) : Carries index visit (emission index visit) := by
  obtain ⟨attachedAt, distance, named, sourced⟩ := emission_common index visit
  refine ⟨attachedAt, distance, shownAs_iff.mpr named.symm, sourced ▸ source_eq_explicit_iff,
    ?library, ?known, ?unknown, ?inline⟩
  case library =>
    intro reference attached
    refine ⟨?_, fun above => ?_⟩
    · cases found : index.get? reference.policyId with
      | none => simp [emission, attached, found]
      | some definition => simpa [emission, attached, found] using id_of_get? found
    · simp [sourced, source, attached, Nat.pos_iff_ne_zero.mp above]
  case known =>
    intro reference definition attached found
    simp [emission, attached, found]
  case unknown =>
    intro reference attached missing
    have medium : (default : Severity) = .medium := rfl
    simp [emission, attached, missing, medium]
  case inline =>
    intro policy attached
    refine ⟨?_, fun above => ?_, ?_⟩
    · simp [emission, attached, Attachment.label]
    · simp [sourced, source, attached, Nat.pos_iff_ne_zero.mp above]
    · simp [emission, attached]

/-- Resolution returns one entry for every attachment on the way up that brings its policy into
effect, in their order, and nothing else. -/
theorem resolve_elected (index : Index) (forest : Forest) (target : Compartment) :
    ∃ way, Ascent forest.compartments target way ∧
      List.Forall₂ (Carries index) (elected index target (attachmentsOn way))
        (resolve index forest target) := by
  refine ⟨chain forest target, ascent_chain forest target, ?_⟩
  rw [resolve_eq_map, visits, visitsFrom_eq]
  exact List.forall₂_map_right_iff.mpr (List.forall₂_same.mpr fun visit _ => carries_emission visit)

end Estate.Resolution
