import Estate.Proofs.Policy.Merging
import Estate.Proofs.Resolution.Course

/-! The account that a trace gives. Every attachment on the way up has its step, every step by which
a policy came into effect has its policy, and every override of such a policy is in effect or was
reported; nothing is left out or told twice, and what comes from nearer comes first. -/
namespace Estate.Resolution
open Policy

/-- The attachment is of a library policy that the library does not have. -/
def IsUnknown (index : Index) (attachment : Attachment) : Prop :=
  ∃ reference, attachment = .library reference ∧ index.get? reference.policyId = none

/-- A step tells of an attachment where it was met. If its policy came into effect, the outcome says
whether the library knows it. Overrides are reported of known policies alone. -/
structure Reports (index : Index) (visit : Visit) (s : Step) : Prop where
  compartmentId : s.compartmentId = visit.compartmentId
  distance : s.distance = visit.distance
  label : s.attachment = visit.attachment.label
  unknown : s.outcome.isEmission = true →
    (s.outcome = .unknownLibraryPolicy ↔ IsUnknown index visit.attachment)
  ignored : s.ignoredOverrides ≠ [] → s.outcome = .included

/-- The policy that came into effect by a step, in a trace with this chain. -/
structure Yields (chain : List String) (s : Step) (p : ResolvedPolicy) : Prop where
  attachedAt : p.attachedAt = s.compartmentId
  distance : p.distance = s.distance
  place : chain[p.distance]? = some p.attachedAt

/-- Every override of the attachment is in effect, unless its step reports it. -/
def Settled (visit : Visit) (s : Step) (p : ResolvedPolicy) : Prop :=
  ∀ reference, visit.attachment = .library reference → s.outcome = .included →
    ∀ name value, reference.variableOverrides.get? name = some value →
      p.values.get? name = some value ∨
        ∃ ignored ∈ s.ignoredOverrides, ignored.variableName = name

/-- A trace accounts for all that is attached on a way up. -/
structure Accounts (index : Index) (way : List Compartment) (t : Trace) : Prop where
  chain : t.chain = way.map (·.id)
  steps : List.Forall₂ (Reports index) (attachmentsOn way) t.steps
  policies : List.Forall₂ (Yields t.chain) (t.steps.filter (·.outcome.isEmission)) t.policies
  overrides : List.Forall₂ (fun (visit, s) p => Settled visit s p)
    (((attachmentsOn way).zip t.steps).filter (·.2.outcome.isEmission)) t.policies
  nearestFirst : t.policies.Pairwise (·.distance ≤ ·.distance)

variable {index : Index} {forest : Forest} {target : Compartment} {visit : Visit}
  {outcome : Outcome} {way : List Compartment}

theorem eq_granted_of_isEmission (judged : (visit, outcome) ∈ verdicts index forest target)
    (emits : outcome.isEmission = true) : outcome = granted index visit.attachment := by
  obtain ⟨seen, rfl⟩ := exists_verdict_of_mem_verdicts judged
  obtain ⟨unseen, reaches, shown⟩ := (isEmission_verdict_iff index target seen visit).mp emits
  rw [verdict_of_unseen shown unseen, if_pos reaches]

theorem granted_eq_unknown_iff {attachment : Attachment} :
    granted index attachment = .unknownLibraryPolicy ↔ IsUnknown index attachment := by
  cases attachment with
  | inline policy => simp [granted, IsUnknown]
  | library reference =>
    cases known : index.get? reference.policyId <;> simp [granted, IsUnknown, known]

theorem ignoredOverrides_of_isUnknown {attachment : Attachment}
    (unknown : IsUnknown index attachment) : ignoredOverrides index attachment = [] := by
  obtain ⟨reference, rfl, missing⟩ := unknown
  rw [ignoredOverrides, missing]
  rfl

theorem reports_step (judged : (visit, outcome) ∈ verdicts index forest target) :
    Reports index visit (step index visit outcome) where
  compartmentId := rfl
  distance := rfl
  label := rfl
  unknown emits := by
    rw [eq_granted_of_isEmission judged emits]
    exact granted_eq_unknown_iff
  ignored told := by
    have emits : outcome.isEmission = true := by
      by_contra silent
      exact told (if_neg silent)
    rcases isEmission_iff.mp emits with included | missing
    · exact included
    · have unknown : IsUnknown index visit.attachment :=
        granted_eq_unknown_iff.mp ((eq_granted_of_isEmission judged emits).symm.trans missing)
      exact absurd ((if_pos emits).trans (ignoredOverrides_of_isUnknown unknown)) told

theorem place_of_mem_attachmentsOn (member : visit ∈ attachmentsOn way) :
    (way.map (·.id))[visit.distance]? = some visit.compartmentId := by
  obtain ⟨⟨c, distance⟩, onWay, held⟩ := List.mem_flatMap.mp member
  obtain ⟨attachment, _, rfl⟩ := List.mem_map.mp held
  rw [List.getElem?_map, List.mk_mem_zipIdx_iff_getElem?.mp onWay, Option.map_some]

theorem settled_step (judged : (visit, outcome) ∈ verdicts index forest target) :
    Settled visit (step index visit outcome) (emission index visit) := by
  intro reference attached included name value given
  have emits : outcome.isEmission = true := isEmission_iff.mpr (.inl included)
  cases known : index.get? reference.policyId with
  | none =>
    have missing := granted_eq_unknown_iff.mpr ⟨reference, attached, known⟩
    rw [← eq_granted_of_isEmission judged emits] at missing
    exact absurd (included.symm.trans missing) nofun
  | some definition =>
    have values : (emission index visit).values =
        definition.mergedVariables reference.variableOverrides :=
      ((carries_emission visit).known reference definition attached known).2.1
    have reported : (step index visit outcome).ignoredOverrides =
        definition.ignoredOverrides reference.variableOverrides := by
      simp [step, emits, ignoredOverrides, attached, known]
    rw [values, reported]
    exact Definition.override_cases given

theorem winners_sublist (index : Index) (forest : Forest) (target : Compartment) :
    (winners index forest target).Sublist (visits forest target) := by
  rw [← map_fst_verdicts index, winners]
  exact List.filter_sublist.map _

theorem pairwise_distance_visitsFrom (distance : Nat) (way : List Compartment) :
    (visitsFrom distance way).Pairwise (·.distance ≤ ·.distance) := by
  induction way generalizing distance with
  | nil => exact .nil
  | cons c above ih =>
    refine List.pairwise_append.mpr ⟨?_, ih (distance + 1), ?_⟩
    · rw [List.pairwise_map]
      exact List.pairwise_of_forall fun _ _ => Nat.le_refl distance
    · intro own member later beyond
      obtain ⟨attachment, _, rfl⟩ := List.mem_map.mp member
      have := distance_of_mem_visitsFrom beyond
      change distance ≤ later.distance
      omega

theorem pairwise_distance_resolve (index : Index) (forest : Forest) (target : Compartment) :
    (resolve index forest target).Pairwise (·.distance ≤ ·.distance) := by
  have ordered := (pairwise_distance_visitsFrom 0 (chain forest target)).sublist
    (winners_sublist index forest target)
  rw [resolve_eq_map_winners, List.pairwise_map]
  apply ordered.imp
  intro near far le
  rwa [(emission_common index near).2.1, (emission_common index far).2.1]

/-- The trace of a target accounts for all that is attached on its way up. -/
theorem trace_accounts (index : Index) (forest : Forest) (target : Compartment) :
    ∃ way, Ascent forest.compartments target way ∧
      Accounts index way (trace index forest target) := by
  refine ⟨chain forest target, ascent_chain forest target, rfl, ?steps, ?policies, ?overrides,
    pairwise_distance_resolve index forest target⟩
  case steps =>
    rw [attachmentsOn_chain, ← map_fst_verdicts index, trace, List.forall₂_map_left_iff,
      List.forall₂_map_right_iff, List.forall₂_same]
    intro p judged
    exact reports_step judged
  case policies =>
    rw [trace, List.filter_map, resolve_eq_map_winners, winners, List.map_map,
      List.forall₂_map_left_iff, List.forall₂_map_right_iff]
    apply List.forall₂_same.mpr
    intro p emitted
    obtain ⟨judged, _⟩ := List.mem_filter.mp emitted
    obtain ⟨attachedAt, distance, _⟩ := emission_common index p.1
    have member : p.1 ∈ attachmentsOn (chain forest target) := by
      rw [attachmentsOn_chain, ← map_fst_verdicts index]
      exact List.mem_map_of_mem judged
    refine ⟨attachedAt, distance, ?_⟩
    rw [Function.comp_apply, attachedAt, distance]
    exact place_of_mem_attachmentsOn member
  case overrides =>
    rw [attachmentsOn_chain, ← map_fst_verdicts index, trace, List.zip_map', List.filter_map,
      resolve_eq_map_winners, winners, List.map_map, List.forall₂_map_left_iff,
      List.forall₂_map_right_iff]
    apply List.forall₂_same.mpr
    intro p emitted
    exact settled_step (List.mem_filter.mp emitted).1

end Estate.Resolution
