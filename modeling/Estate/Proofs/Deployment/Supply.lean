import Mathlib.Data.List.Forall2
import Estate.Proofs.Deployment.Dependency
import Estate.Proofs.Deployment.Precedence

/-! What more values do to a preview. The order of stacks depends on their ids and dependencies
only, and a value that stands at a place is still there when others are added. So nothing that was
supplied goes missing, and no stack waits for more than before. -/
namespace Estate

/-- The compartment with further tags and defaults. -/
structure Compartment.ExtendedBy (c c' : Compartment) : Prop where
  tags : ∀ key value, c.tags.get? key = some value → c'.tags.get? key = some value
  defaults : ∀ name value, c.defaults.get? name = some value → c'.defaults.get? name = some value

namespace Deployment

section Order

variable {ss ss' : List Stack} {id : String} {m n : Nat}

/-- The stacks have the same ids and dependencies, one after the other. -/
def SameEdges (ss ss' : List Stack) : Prop :=
  List.Forall₂ (fun s s' => s'.id = s.id ∧ s'.dependsOn = s.dependsOn) ss ss'

/-- What comes of ordering positions that have names. -/
def namedLayers (g : Graph n) (names : Fin n → String) : Except OrderError Order :=
  match layers g with
  | .ok waves => .ok ⟨waves.map (·.map names)⟩
  | .error stuck => .error (.cycle (stuck.map names))

theorem namedLayers_cast (same : m = n) {g : Graph m} {g' : Graph n} {names : Fin m → String}
    {names' : Fin n → String}
    (edges : ∀ i, g'.dependencies (i.cast same) = (g.dependencies i).map (Fin.cast same))
    (named : ∀ i, names' (i.cast same) = names i) :
    namedLayers g' names' = namedLayers g names := by
  subst same
  have graphs : g' = g := by
    cases g with
    | mk dependencies distinct =>
      cases g' with
      | mk dependencies' distinct' =>
        obtain rfl : dependencies' = dependencies := funext fun i => by simpa using edges i
        rfl
  rw [graphs, show names' = names from funext named]

namespace SameEdges

variable (same : SameEdges ss ss')
include same

theorem get (i : Fin ss.length) : (ss'.get (i.cast same.length_eq)).id = (ss.get i).id ∧
    (ss'.get (i.cast same.length_eq)).dependsOn = (ss.get i).dependsOn :=
  List.Forall₂.get same i.isLt (i.cast same.length_eq).isLt

theorem position?_eq (id : String) :
    position? ss' id = (position? ss id).map (Fin.cast same.length_eq) := by
  ext j
  rw [position?_eq_some_iff, Option.map_eq_some_iff]
  constructor
  · rintro ⟨named, first⟩
    refine ⟨j.cast same.length_eq.symm, position?_eq_some_iff.mpr ⟨?_, fun k less => ?_⟩, rfl⟩
    · exact (same.get _).1.symm.trans named
    · exact fun other => first (k.cast same.length_eq) less ((same.get k).1.trans other)
  · rintro ⟨i, found, rfl⟩
    obtain ⟨named, first⟩ := position?_eq_some_iff.mp found
    refine ⟨(same.get i).1.trans named, fun k less other => ?_⟩
    exact first (k.cast same.length_eq.symm) less ((same.get _).1.symm.trans other)

theorem dangling?_eq : dangling? ss' = dangling? ss := by
  have unknown (id : String) : (position? ss' id).isNone = (position? ss id).isNone := by
    rw [same.position?_eq, Option.isNone_map]
  unfold dangling?
  simp only [unknown]
  -- What is known stays that of the whole lists while these are gone through.
  clear unknown
  generalize (fun id => (position? ss id).isNone) = loose
  induction same with
  | nil => rfl
  | cons first _ ih => rw [List.findSome?_cons, List.findSome?_cons, first.1, first.2, ih]

theorem dependencies_eq (i : Fin ss.length) :
    (Graph.ofStacks ss').dependencies (i.cast same.length_eq) =
      ((Graph.ofStacks ss).dependencies i).map (Fin.cast same.length_eq) := by
  have injective (j k : Fin ss.length) (equal : j.cast same.length_eq = k.cast same.length_eq) :
      j = k := Fin.cast_injective _ equal
  rw [dependencies_ofStacks, dependencies_ofStacks, (same.get i).2, ← eraseDups_map injective,
    List.map_filterMap]
  simp only [same.position?_eq]

/-- Stacks are ordered by their ids and dependencies only. -/
theorem order_eq : order ss' = order ss := by
  have named (l : List Stack) : order l = (dangling? l).elim
      (namedLayers (.ofStacks l) fun i => (l.get i).id)
      fun loose => .error (.danglingDependency loose.1 loose.2) := by
    unfold order namedLayers
    cases dangling? l with
    | some loose => rfl
    | none => cases layers (Graph.ofStacks l) <;> rfl
  rw [named, named, same.dangling?_eq,
    namedLayers_cast same.length_eq same.dependencies_eq fun i => (same.get i).1]

end SameEdges

end Order

/-- The stack with more values: further overrides and tags, and values for overrides that have
none. -/
structure Stack.ExtendedBy (s s' : Stack) : Prop where
  rest : s' = { s with parameterOverrides := s'.parameterOverrides, tags := s'.tags }
  overrides : ∀ name value, s.overrideFor name = some value → s'.overrideFor name = some value
  tags : ∀ key value, s.tags.get? key = some value → s'.tags.get? key = some value

/-- The parameter, with a default if it has none. -/
structure Parameter.ExtendedBy (p p' : Parameter) : Prop where
  rest : p' = { p with defaultValue := p'.defaultValue }
  default : ∀ value, p.defaultValue = some value → p'.defaultValue = some value

variable {ss ss' : List Stack} {s s' : Stack} {c c' : Option Compartment} {p p' : Parameter}
  {ps ps' : List Parameter} {parametersOf parametersOf' : String → Option (List Parameter)}
  {compartmentOf compartmentOf' : String → Option Compartment}

/-- Stacks, parameters and compartments with more values. -/
structure Supplements (ss ss' : List Stack)
    (parametersOf parametersOf' : String → Option (List Parameter))
    (compartmentOf compartmentOf' : String → Option Compartment) : Prop where
  members : List.Forall₂ Stack.ExtendedBy ss ss'
  parameters : ∀ id,
    Option.Rel (List.Forall₂ Parameter.ExtendedBy) (parametersOf id) (parametersOf' id)
  compartments : ∀ id, Option.Rel Compartment.ExtendedBy (compartmentOf id) (compartmentOf' id)

section Values

variable (stack : s.ExtendedBy s') (compartment : Option.Rel Compartment.ExtendedBy c c')

include stack compartment in
/-- A value that stands at a place still stands there. -/
theorem Parameter.ExtendedBy.valueAt (parameter : p.ExtendedBy p') {place : Place} {value : String}
    (has : valueAt s c p place = some value) : Deployment.valueAt s' c' p' place = some value := by
  obtain ⟨rest, default⟩ := parameter
  rw [rest]
  cases place with
  | override => exact stack.overrides _ _ has
  | stackTag =>
    obtain ⟨key, keyed, tagged⟩ := Option.bind_eq_some_iff.mp has
    exact Option.bind_eq_some_iff.mpr ⟨key, keyed, stack.tags _ _ tagged⟩
  | compartmentTag =>
    obtain ⟨key, keyed, there⟩ := Option.bind_eq_some_iff.mp has
    obtain ⟨held, inside, tagged⟩ := Option.bind_eq_some_iff.mp there
    subst inside
    cases compartment with
    | some extended =>
      exact Option.bind_eq_some_iff.mpr ⟨key, keyed, extended.tags _ _ tagged⟩
  | compartmentDefault =>
    obtain ⟨held, inside, set⟩ := Option.bind_eq_some_iff.mp has
    subst inside
    cases compartment with
    | some extended => exact extended.defaults _ _ set
  | blueprintDefault => exact default _ has

/-- A parameter has not lost its value, and is not missing if it was not. -/
structure ResolvedParameter.ImprovedBy (r r' : ResolvedParameter) : Prop where
  name : r'.name = r.name
  value : r.value ≠ none → r'.value ≠ none
  missing : r'.isMissing = true → r.isMissing = true

include stack compartment in
theorem improvedBy_resolveParameter (parameter : p.ExtendedBy p') :
    (resolveParameter s p c).ImprovedBy (resolveParameter s' p' c') := by
  have keeps (bare : ∀ place, valueAt s' c' p' place = none) (place : Place) :
      valueAt s c p place = none := by
    refine Option.eq_none_iff_forall_ne_some.mpr fun value has => ?_
    cases (bare place).symm.trans (parameter.valueAt stack compartment has)
  have required : p'.isRequired = p.isRequired := by rw [parameter.rest]
  refine ⟨?name, ?value, ?missing⟩
  case name => exact (congrArg Parameter.name parameter.rest :)
  case value => exact mt fun lost => value_eq_none_iff.mpr (keeps (value_eq_none_iff.mp lost))
  case missing =>
    intro missing
    obtain ⟨needed, unresolved⟩ := Bool.and_eq_true_iff.mp missing
    have bare := source_eq_unresolved_iff.mp (eq_of_beq unresolved)
    refine Bool.and_eq_true_iff.mpr ⟨required.symm.trans needed, beq_iff_eq.mpr ?_⟩
    exact source_eq_unresolved_iff.mpr (keeps bare)

/-- No parameter of a stack has lost its value, and the stack does not wait for more. -/
structure StackResolution.ImprovedBy (r r' : StackResolution) : Prop where
  stackId : r'.stackId = r.stackId
  parameters : List.Forall₂ ResolvedParameter.ImprovedBy r.parameters r'.parameters
  unresolved : r'.unresolvedCount ≤ r.unresolvedCount
  complete : r.isComplete = true → r'.isComplete = true

theorem countP_isMissing_le {rs rs' : List ResolvedParameter}
    (improved : List.Forall₂ ResolvedParameter.ImprovedBy rs rs') :
    rs'.countP (·.isMissing) ≤ rs.countP (·.isMissing) := by
  induction improved with
  | nil => exact Nat.le_refl _
  | @cons r r' rs rs' first _ ih =>
    rw [List.countP_cons, List.countP_cons]
    by_cases missing : r'.isMissing = true
    · rw [if_pos missing, if_pos (first.missing missing)]
      exact Nat.add_le_add_right ih 1
    · rw [if_neg missing]
      omega

include stack compartment in
theorem improvedBy_resolveParameters (parameters : List.Forall₂ Parameter.ExtendedBy ps ps') :
    (resolveParameters s ps c).ImprovedBy (resolveParameters s' ps' c') := by
  have improved : List.Forall₂ ResolvedParameter.ImprovedBy (resolveParameters s ps c).parameters
      (resolveParameters s' ps' c').parameters := by
    refine List.forall₂_map_left_iff.mpr (List.forall₂_map_right_iff.mpr ?_)
    exact parameters.imp fun _ _ extended => improvedBy_resolveParameter stack compartment extended
  have fewer : (resolveParameters s' ps' c').unresolvedCount ≤
      (resolveParameters s ps c).unresolvedCount := countP_isMissing_le improved
  refine ⟨?stackId, improved, fewer, fun complete => ?complete⟩
  case stackId => exact (congrArg Stack.id stack.rest :)
  case complete =>
    have none : (resolveParameters s ps c).unresolvedCount = 0 := eq_of_beq complete
    exact beq_iff_eq.mpr (Nat.le_zero.mp (none ▸ fewer))

end Values

theorem sum_unresolvedCount_le {rs rs' : List StackResolution}
    (improved : List.Forall₂ StackResolution.ImprovedBy rs rs') :
    rs'.foldr (fun r n => r.unresolvedCount + n) 0 ≤
      rs.foldr (fun r n => r.unresolvedCount + n) 0 := by
  induction improved with
  | nil => exact Nat.le_refl _
  | cons first _ ih => exact Nat.add_le_add first.unresolved ih

theorem all_isComplete {rs rs' : List StackResolution}
    (improved : List.Forall₂ StackResolution.ImprovedBy rs rs')
    (complete : rs.all (·.isComplete) = true) : rs'.all (·.isComplete) = true := by
  induction improved with
  | nil => rfl
  | cons first _ ih =>
    rw [List.all_cons, Bool.and_eq_true] at complete ⊢
    exact ⟨first.complete complete.1, ih complete.2⟩

namespace Supplements

variable (more : Supplements ss ss' parametersOf parametersOf' compartmentOf compartmentOf')
include more

theorem sameEdges : SameEdges ss ss' := more.members.imp fun _ _ extended =>
  ⟨(congrArg Stack.id extended.rest :), (congrArg Stack.dependsOn extended.rest :)⟩

/-- A stack is resolved with the parameters and the compartment that it had. -/
theorem improvedBy (extended : s.ExtendedBy s') :
    (resolveParameters s ((parametersOf s.blueprintId).getD [])
      (s.compartmentId.bind compartmentOf)).ImprovedBy
    (resolveParameters s' ((parametersOf' s'.blueprintId).getD [])
      (s'.compartmentId.bind compartmentOf')) := by
  have blueprint : s'.blueprintId = s.blueprintId := (congrArg Stack.blueprintId extended.rest :)
  have inside : s'.compartmentId = s.compartmentId := (congrArg Stack.compartmentId extended.rest :)
  have compartment : Option.Rel Compartment.ExtendedBy (s.compartmentId.bind compartmentOf)
      (s.compartmentId.bind compartmentOf') := by
    cases s.compartmentId with
    | none => exact .none
    | some id => exact more.compartments id
  have parameters : List.Forall₂ Parameter.ExtendedBy ((parametersOf s.blueprintId).getD [])
      ((parametersOf' s.blueprintId).getD []) := by
    have declared := more.parameters s.blueprintId
    generalize parametersOf s.blueprintId = listed,
      parametersOf' s.blueprintId = listed' at declared
    cases declared with
    | none => exact .nil
    | some extended => exact extended
  rw [blueprint, inside]
  exact improvedBy_resolveParameters extended compartment parameters

end Supplements

theorem exists_assemble_eq_ok (parametersOf : String → Option (List Parameter))
    (compartmentOf : String → Option Compartment) {o : Order} (ordered : order ss = .ok o) :
    ∃ preview, assemble ss parametersOf compartmentOf = .ok preview := by
  rw [assemble, ordered]
  exact ⟨_, rfl⟩

/-- The order is the same, no parameter of any stack has lost its value, and nothing waits for
more. -/
structure Preview.ImprovedBy (preview preview' : Preview) : Prop where
  order : preview'.deploymentOrder = preview.deploymentOrder
  resolutions : List.Forall₂ StackResolution.ImprovedBy preview.resolutions preview'.resolutions
  total : preview'.totalUnresolved ≤ preview.totalUnresolved
  complete : preview.allComplete = true → preview'.allComplete = true

/-- Whatever values are added to stacks, compartments and parameters that have a preview, they still
have one, which is no worse in anything. -/
theorem assemble_supplemented {preview : Preview}
    (assembled : assemble ss parametersOf compartmentOf = .ok preview)
    (more : Supplements ss ss' parametersOf parametersOf' compartmentOf compartmentOf') :
    ∃ preview', assemble ss' parametersOf' compartmentOf' = .ok preview' ∧
      preview.ImprovedBy preview' := by
  obtain ⟨ordered, resolutions, complete, total⟩ := assemble_eq_ok assembled
  have ordered' : order ss' = .ok preview.deploymentOrder := more.sameEdges.order_eq.trans ordered
  obtain ⟨preview', assembled'⟩ := exists_assemble_eq_ok parametersOf' compartmentOf' ordered'
  obtain ⟨again, resolutions', complete', total'⟩ := assemble_eq_ok assembled'
  have improved :
      List.Forall₂ StackResolution.ImprovedBy preview.resolutions preview'.resolutions := by
    rw [resolutions, resolutions', List.forall₂_map_left_iff, List.forall₂_map_right_iff]
    exact more.members.imp fun _ _ extended => more.improvedBy extended
  refine ⟨preview', assembled', Except.ok.inj (again.symm.trans ordered'), improved, ?_, ?_⟩
  · rw [total, total']
    exact sum_unresolvedCount_le improved
  · rw [complete, complete']
    exact all_isComplete improved

/-- An override gets its value, the compartment a tag that is asked for before its default, and a
parameter a default that does not count yet. -/
theorem assemble_supplemented_shop :
    let region : Parameter := ⟨"region", "", none, true, some "zone"⟩
    let size : Parameter := ⟨"size", "", none, true, none⟩
    let prod : Compartment := { Compartment.bare "prod" none with
      defaults := .ofList [("region", "eu-west-1")] }
    let net : Stack := { Stack.bare "net" "site" with
      compartmentId := some "prod", parameterOverrides := .ofList [("size", none)] }
    let web : Stack := { net with id := "web", dependsOn := ["net"] }
    let net' : Stack := { net with parameterOverrides := .ofList [("size", some "small")] }
    let prod' : Compartment := { prod with tags := .ofList [("zone", "eu-north-1")] }
    ∃ preview preview',
      assemble [web, net] (fun _ => some [region, size]) (fun _ => some prod) = .ok preview ∧
      preview.totalUnresolved = 2 ∧
      Supplements [web, net] [web, net'] (fun _ => some [region, size])
        (fun _ => some [{ region with defaultValue := some "us-east-1" }, size])
        (fun _ => some prod) (fun _ => some prod') ∧
      assemble [web, net'] (fun _ => some [{ region with defaultValue := some "us-east-1" }, size])
        (fun _ => some prod') = .ok preview' ∧
      preview.ImprovedBy preview' := by
  intro region size prod net web net' prod'
  have same : web.ExtendedBy web := ⟨rfl, fun _ _ has => has, fun _ _ has => has⟩
  have valued : net.ExtendedBy net' := by
    refine ⟨rfl, fun name value has => ?_, fun _ _ has => has⟩
    have none : net.overrideFor name = none := by
      by_cases own : name = "size" <;>
        simp [net, Stack.overrideFor, StringMap.ofList, StringMap.get?_insert, own]
    cases none.symm.trans has
  have tagged : prod.ExtendedBy prod' :=
    ⟨fun _ _ has => absurd has (by simp [prod, Compartment.bare]), fun _ _ has => has⟩
  have preset : List.Forall₂ Parameter.ExtendedBy [region, size]
      [{ region with defaultValue := some "us-east-1" }, size] :=
    .cons ⟨rfl, fun _ has => absurd has (by simp [region])⟩
      (.cons ⟨rfl, fun _ has => absurd has (by simp [size])⟩ .nil)
  have more : Supplements [web, net] [web, net'] (fun _ => some [region, size])
      (fun _ => some [{ region with defaultValue := some "us-east-1" }, size])
      (fun _ => some prod) (fun _ => some prod') :=
    ⟨.cons same (.cons valued .nil), fun _ => .some preset, fun _ => .some tagged⟩
  have ordered : order [web, net] = .ok ⟨[["net"], ["web"]]⟩ := by decide +kernel
  obtain ⟨preview, assembled⟩ :=
    exists_assemble_eq_ok (fun _ => some [region, size]) (fun _ => some prod) ordered
  obtain ⟨preview', assembled', improved⟩ := assemble_supplemented assembled more
  refine ⟨preview, preview', assembled, ?_, more, assembled', improved⟩
  have total : (assemble [web, net] (fun _ => some [region, size])
      fun _ => some prod).map (·.totalUnresolved) = .ok 2 := by decide +kernel
  rw [assembled] at total
  exact Except.ok.inj total

end Deployment
end Estate
