import Estate.Deployment.Preview

/-! When a deployment is complete. A parameter gets a value exactly when one of the places that may
give one does; a preview counts and names the required parameters that get none, stack by stack. -/
namespace Estate

namespace Deployment

variable {stack : Stack} {compartment : Option Compartment} {parameter : Parameter} {found : Found}
  {parameters : List Parameter}

namespace Tier

theorem isSome_explicit_iff : (explicit stack compartment parameter).isSome = true ↔
    ∃ value, stack.parameterOverrides.get? parameter.name = some (some value) := by
  simp [explicit, Stack.overrideFor, Option.isSome_iff_exists, Option.join_eq_some_iff]

theorem isSome_tagRef_iff : (tagRef stack compartment parameter).isSome = true ↔
    ∃ key value, parameter.tagKey = some key ∧ (stack.tags.get? key = some value ∨
      ∃ c, compartment = some c ∧ c.tags.get? key = some value) := by
  cases keyed : parameter.tagKey with
  | none => simp [tagRef, keyed]
  | some key =>
    cases tagged : stack.tags.get? key with
    | some value => simp [tagRef, keyed, tagged]
    | none =>
      cases compartment with
      | none => simp [tagRef, keyed, tagged]
      | some c => cases inside : c.tags.get? key <;> simp [tagRef, keyed, tagged, inside]

theorem isSome_compartmentDefault_iff :
    (compartmentDefault stack compartment parameter).isSome = true ↔
      ∃ c value, compartment = some c ∧ c.defaults.get? parameter.name = some value := by
  cases compartment with
  | none => simp [compartmentDefault]
  | some c => cases inside : c.defaults.get? parameter.name <;> simp [compartmentDefault, inside]

theorem isSome_blueprintDefault_iff :
    (blueprintDefault stack compartment parameter).isSome = true ↔
      ∃ value, parameter.defaultValue = some value := by
  simp [blueprintDefault, Option.isSome_iff_exists]

end Tier

/-- Something gives the parameter a value: the stack itself, a tag of the stack or of its
compartment under the parameter's key, a default of the compartment, or the blueprint. -/
inductive Supplied (stack : Stack) (compartment : Option Compartment) (parameter : Parameter) :
    Prop where
  | override {value : String} :
      stack.parameterOverrides.get? parameter.name = some (some value) →
      Supplied stack compartment parameter
  | stackTag {key value : String} : parameter.tagKey = some key →
      stack.tags.get? key = some value → Supplied stack compartment parameter
  | compartmentTag {key value : String} {c : Compartment} : parameter.tagKey = some key →
      compartment = some c → c.tags.get? key = some value → Supplied stack compartment parameter
  | compartmentDefault {value : String} {c : Compartment} : compartment = some c →
      c.defaults.get? parameter.name = some value → Supplied stack compartment parameter
  | blueprintDefault {value : String} : parameter.defaultValue = some value →
      Supplied stack compartment parameter

theorem Supplied.exists_tier (supplied : Supplied stack compartment parameter) :
    ∃ source tier, (source, tier) ∈ Tier.all ∧
      (tier stack compartment parameter).isSome = true := by
  cases supplied with
  | override given =>
    exact ⟨.explicit, Tier.explicit, by simp [Tier.all],
      Tier.isSome_explicit_iff.mpr ⟨_, given⟩⟩
  | stackTag key given =>
    exact ⟨.tagRef, Tier.tagRef, by simp [Tier.all],
      Tier.isSome_tagRef_iff.mpr ⟨_, _, key, .inl given⟩⟩
  | compartmentTag key inside given =>
    exact ⟨.tagRef, Tier.tagRef, by simp [Tier.all],
      Tier.isSome_tagRef_iff.mpr ⟨_, _, key, .inr ⟨_, inside, given⟩⟩⟩
  | compartmentDefault inside given =>
    exact ⟨.compartmentDefault, Tier.compartmentDefault, by simp [Tier.all],
      Tier.isSome_compartmentDefault_iff.mpr ⟨_, _, inside, given⟩⟩
  | blueprintDefault given =>
    exact ⟨.blueprintDefault, Tier.blueprintDefault, by simp [Tier.all],
      Tier.isSome_blueprintDefault_iff.mpr ⟨_, given⟩⟩

/-- A tier that finds something was supplied with it, and has a source of its own. -/
theorem supplied_of_isSome {source : ParameterSource} {tier : Tier}
    (listed : (source, tier) ∈ Tier.all)
    (finds : (tier stack compartment parameter).isSome = true) :
    Supplied stack compartment parameter ∧ source ≠ .unresolved := by
  simp only [Tier.all, List.mem_cons, List.not_mem_nil, or_false, Prod.mk.injEq] at listed
  rcases listed with ⟨rfl, rfl⟩ | ⟨rfl, rfl⟩ | ⟨rfl, rfl⟩ | ⟨rfl, rfl⟩
  · obtain ⟨_, given⟩ := Tier.isSome_explicit_iff.mp finds
    exact ⟨.override given, nofun⟩
  · obtain ⟨_, _, key, tagged | ⟨_, inside, given⟩⟩ := Tier.isSome_tagRef_iff.mp finds
    · exact ⟨.stackTag key tagged, nofun⟩
    · exact ⟨.compartmentTag key inside given, nofun⟩
  · obtain ⟨_, _, inside, given⟩ := Tier.isSome_compartmentDefault_iff.mp finds
    exact ⟨.compartmentDefault inside given, nofun⟩
  · obtain ⟨_, given⟩ := Tier.isSome_blueprintDefault_iff.mp finds
    exact ⟨.blueprintDefault given, nofun⟩

/-- What is found was supplied, and says from where. -/
theorem supplied_of_find?_eq_some {source : ParameterSource}
    (search : Tier.find? stack compartment parameter = some (source, found)) :
    Supplied stack compartment parameter ∧ source ≠ .unresolved := by
  obtain ⟨⟨_, tier⟩, listed, gives⟩ := List.exists_of_findSome?_eq_some search
  obtain ⟨_, finds, told⟩ := Option.map_eq_some_iff.mp gives
  obtain ⟨rfl, rfl⟩ := Prod.mk.inj told
  exact supplied_of_isSome listed (Option.isSome_of_eq_some finds)

theorem find?_isSome_iff :
    (Tier.find? stack compartment parameter).isSome = true ↔
      Supplied stack compartment parameter := by
  constructor
  · intro search
    obtain ⟨_, search⟩ := Option.isSome_iff_exists.mp search
    exact (supplied_of_find?_eq_some search).1
  · intro supplied
    obtain ⟨source, tier, listed, finds⟩ := supplied.exists_tier
    exact List.findSome?_isSome_iff.mpr ⟨(source, tier), listed, by rwa [Option.isSome_map]⟩

instance : Decidable (Supplied stack compartment parameter) :=
  decidable_of_iff _ find?_isSome_iff

/-- A parameter is missing exactly when it is required and nothing supplies it. -/
theorem isMissing_resolveParameter_iff :
    (resolveParameter stack parameter compartment).isMissing = true ↔
      parameter.isRequired = true ∧ ¬ Supplied stack compartment parameter := by
  cases search : Tier.find? stack compartment parameter with
  | none =>
    have absent : ¬ Supplied stack compartment parameter := by
      rw [← find?_isSome_iff, search]
      decide
    simp [resolveParameter, ResolvedParameter.isMissing, search, absent]
  | some found =>
    obtain ⟨supplied, sourced⟩ := supplied_of_find?_eq_some search
    simp [resolveParameter, ResolvedParameter.isMissing, search, supplied, sourced]

/-- The parameters that are required and that nothing supplies, in the order of their
declaration. -/
def lacking (stack : Stack) (parameters : List Parameter) (compartment : Option Compartment) :
    List Parameter :=
  parameters.filter fun parameter =>
    parameter.isRequired = true ∧ ¬ Supplied stack compartment parameter

theorem lacking_eq_nil_iff : lacking stack parameters compartment = [] ↔
    ∀ parameter ∈ parameters, parameter.isRequired = true →
      Supplied stack compartment parameter := by
  simp [lacking, List.filter_eq_nil_iff]

theorem isMissing_comp_resolveParameter :
    (ResolvedParameter.isMissing ∘ fun parameter => resolveParameter stack parameter compartment) =
      fun parameter =>
        decide (parameter.isRequired = true ∧ ¬ Supplied stack compartment parameter) := by
  funext parameter
  rw [Bool.eq_iff_iff, decide_eq_true_iff]
  exact isMissing_resolveParameter_iff

theorem missing_resolveParameters :
    (resolveParameters stack parameters compartment).missing =
      (lacking stack parameters compartment).map (·.name) := by
  rw [StackResolution.missing, resolveParameters, List.filter_map,
    isMissing_comp_resolveParameter, List.map_map]
  rfl

theorem unresolvedCount_resolveParameters :
    (resolveParameters stack parameters compartment).unresolvedCount =
      (lacking stack parameters compartment).length := by
  rw [resolveParameters, List.countP_map, isMissing_comp_resolveParameter,
    List.countP_eq_length_filter]
  rfl

theorem isComplete_resolveParameters_iff :
    (resolveParameters stack parameters compartment).isComplete = true ↔
      lacking stack parameters compartment = [] := by
  rw [← List.length_eq_zero_iff, ← unresolvedCount_resolveParameters]
  exact beq_iff_eq

/-- A preview has the order and the parameters of all stacks. -/
theorem assemble_eq_ok {ss : List Stack} {parametersOf : String → Option (List Parameter)}
    {compartmentOf : String → Option Compartment} {preview : Preview}
    (assembled : assemble ss parametersOf compartmentOf = .ok preview) :
    order ss = .ok preview.deploymentOrder ∧
      preview.resolutions = ss.map (fun s => resolveParameters s
        ((parametersOf s.blueprintId).getD []) (s.compartmentId.bind compartmentOf)) ∧
      preview.allComplete = preview.resolutions.all (·.isComplete) ∧
      preview.totalUnresolved =
        preview.resolutions.foldr (fun r n => r.unresolvedCount + n) 0 := by
  rw [assemble] at assembled
  cases ordered : order ss with
  | error fault => rw [ordered] at assembled; contradiction
  | ok deploymentOrder =>
    rw [ordered] at assembled
    obtain rfl := Except.ok.inj assembled
    exact ⟨rfl, rfl, rfl, rfl⟩

end Deployment

namespace Topology
open Deployment

variable {t : Topology} {p : Preview} {s : Stack}

/-- The parameters of the blueprint of a stack, none if there is no such blueprint. -/
def declared (t : Topology) (s : Stack) : List Parameter :=
  ((t.blueprint? s.blueprintId).map (·.parameters)).getD []

/-- The compartment that a stack is in. -/
def containing (t : Topology) (s : Stack) : Option Compartment :=
  s.compartmentId.bind t.compartment?

/-- The required parameters of a stack that nothing supplies. -/
def lacking (t : Topology) (s : Stack) : List Parameter :=
  Deployment.lacking s (t.declared s) (t.containing s)

/-- Everything required is supplied. -/
def Fulfilled (t : Topology) : Prop :=
  ∀ s ∈ t.allStacks, ∀ parameter ∈ t.declared s, parameter.isRequired = true →
    Supplied s (t.containing s) parameter

/-- All stacks, each with every required parameter that nothing supplies. -/
def gaps (t : Topology) : List (Stack × Parameter) :=
  t.allStacks.flatMap fun s => (t.lacking s).map (s, ·)

/-- What is said of a stack that has to wait. -/
def reason (t : Topology) (s : Stack) : String :=
  s!"stack '{s.id}' is missing required parameter(s): " ++
    ", ".intercalate ((t.lacking s).map (·.name))

theorem fulfilled_iff : t.Fulfilled ↔ ∀ s ∈ t.allStacks, t.lacking s = [] := by
  simp only [Fulfilled, lacking, lacking_eq_nil_iff]

theorem gaps_eq_nil_iff : t.gaps = [] ↔ t.Fulfilled := by
  simp [gaps, fulfilled_iff, List.flatMap_eq_nil_iff]

theorem preview_eq_error_iff {fault : OrderError} :
    t.preview = .error fault ↔ order t.allStacks = .error fault := by
  rw [preview, assemble]
  cases order t.allStacks <;> simp

theorem preview_eq_ok (previewed : t.preview = .ok p) :
    order t.allStacks = .ok p.deploymentOrder ∧
      p.resolutions =
        t.allStacks.map (fun s => resolveParameters s (t.declared s) (t.containing s)) ∧
      p.allComplete = p.resolutions.all (·.isComplete) ∧
      p.totalUnresolved = p.resolutions.foldr (fun s n => s.unresolvedCount + n) 0 :=
  assemble_eq_ok previewed

/-- The summaries of a preview, told from what is supplied. -/
structure Summarizes (t : Topology) (p : Preview) : Prop where
  complete : p.allComplete = true ↔ t.Fulfilled
  total : p.totalUnresolved = t.gaps.length
  reasons : p.blockingReasons = (t.allStacks.filter fun s => t.lacking s ≠ []).map t.reason

theorem summarizes_preview (previewed : t.preview = .ok p) : t.Summarizes p := by
  obtain ⟨_, resolutions, complete, total⟩ := preview_eq_ok previewed
  refine ⟨?complete, ?total, ?reasons⟩
  case complete =>
    simp only [complete, resolutions, List.all_map, List.all_eq_true, Function.comp_apply,
      isComplete_resolveParameters_iff, fulfilled_iff, lacking]
  case total =>
    rw [total, resolutions, gaps]
    induction t.allStacks with
    | nil => rfl
    | cons s rest ih =>
      rw [List.map_cons, List.foldr_cons, ih, List.flatMap_cons, List.length_append,
        List.length_map, unresolvedCount_resolveParameters, lacking]
  case reasons =>
    have waits (s : Stack) :
        (!(resolveParameters s (t.declared s) (t.containing s)).isComplete) =
          decide (t.lacking s ≠ []) := by
      rw [Bool.eq_iff_iff, Bool.not_eq_true', ← Bool.not_eq_true,
        isComplete_resolveParameters_iff, decide_eq_true_iff, lacking]
    simp only [Preview.blockingReasons, resolutions, List.filter_map, List.map_map,
      Function.comp_def, waits, missing_resolveParameters]
    rfl

end Topology
end Estate
