import Mathlib.Tactic.TFAE
import Estate.Proofs.Deployment.Completeness

/-! Which of the places that may give a parameter its value does so. The first one that has
something wins, and neither what later places have nor anything else has an influence. -/
namespace Estate.Deployment

/-- A place that may have a value for a parameter. -/
inductive Place where
  | override | stackTag | compartmentTag | compartmentDefault | blueprintDefault
deriving DecidableEq

namespace Place

/-- The number of places that are asked before. -/
def rank : Place → Nat
  | override => 0
  | stackTag => 1
  | compartmentTag => 2
  | compartmentDefault => 3
  | blueprintDefault => 4

/-- All places, the first to ask first. -/
def all : List Place := [override, stackTag, compartmentTag, compartmentDefault, blueprintDefault]

theorem mem_all (place : Place) : place ∈ all := by cases place <;> decide

theorem pairwise_all : all.Pairwise fun earlier later => earlier.rank < later.rank := by decide

/-- The source that a value from a place is said to have. -/
def source : Place → ParameterSource
  | override => .explicit
  | stackTag | compartmentTag => .tagRef
  | compartmentDefault => .compartmentDefault
  | blueprintDefault => .blueprintDefault

end Place

variable {stack stack' : Stack} {compartment compartment' : Option Compartment}
  {parameter : Parameter} {place : Place} {value : String} {told : ParameterSource × Found}

/-- The value that stands at a place. Nothing stands where a tag key or a compartment is needed and
there is none, and an override without a value counts as nothing. -/
def valueAt (stack : Stack) (compartment : Option Compartment) (parameter : Parameter) :
    Place → Option String
  | .override => (stack.parameterOverrides.get? parameter.name).join
  | .stackTag => parameter.tagKey.bind fun key => stack.tags.get? key
  | .compartmentTag => parameter.tagKey.bind fun key => compartment.bind (·.tags.get? key)
  | .compartmentDefault => compartment.bind (·.defaults.get? parameter.name)
  | .blueprintDefault => parameter.defaultValue

/-- How the origin of a value from a place is told: by the tag or the compartment that has it. -/
def origin (compartment : Option Compartment) (parameter : Parameter) : Place → Option String
  | .stackTag => parameter.tagKey.map fun key => s!"stack tag '{key}'"
  | .compartmentTag => parameter.tagKey.bind fun key =>
    compartment.map fun c => s!"compartment '{c.id}' tag '{key}'"
  | .compartmentDefault => compartment.map fun c => s!"compartment '{c.id}'"
  | .override | .blueprintDefault => none

/-- A place is the first to have something. -/
structure First (stack : Stack) (compartment : Option Compartment) (parameter : Parameter)
    (place : Place) (value : String) : Prop where
  has : valueAt stack compartment parameter place = some value
  before : ∀ earlier : Place, earlier.rank < place.rank →
    valueAt stack compartment parameter earlier = none

/-- What asking at a place finds. -/
def Place.ask (stack : Stack) (compartment : Option Compartment) (parameter : Parameter)
    (place : Place) : Option (ParameterSource × Found) :=
  (valueAt stack compartment parameter place).map
    fun value => (place.source, ⟨value, origin compartment parameter place⟩)

/-- A tag is looked for at two places. -/
theorem map_tagRef : (Tier.tagRef stack compartment parameter).map (ParameterSource.tagRef, ·) =
    (Place.ask stack compartment parameter .stackTag).or
      (Place.ask stack compartment parameter .compartmentTag) := by
  cases keyed : parameter.tagKey with
  | none => simp [Tier.tagRef, Place.ask, valueAt, keyed]
  | some key =>
    cases tagged : stack.tags.get? key with
    | some value => simp [Tier.tagRef, Place.ask, valueAt, origin, Place.source, keyed, tagged]
    | none =>
      cases compartment with
      | none => simp [Tier.tagRef, Place.ask, valueAt, keyed, tagged]
      | some c =>
        cases inside : c.tags.get? key <;>
          simp [Tier.tagRef, Place.ask, valueAt, origin, Place.source, keyed, tagged, inside]

theorem map_compartmentDefault :
    (Tier.compartmentDefault stack compartment parameter).map
      (ParameterSource.compartmentDefault, ·) =
        Place.ask stack compartment parameter .compartmentDefault := by
  cases compartment with
  | none => rfl
  | some c =>
    cases set : c.defaults.get? parameter.name <;>
      simp [Tier.compartmentDefault, Place.ask, valueAt, origin, Place.source, set]

/-- The tiers ask at the places, one after the other. -/
theorem find?_eq_findSome? : Tier.find? stack compartment parameter =
    Place.all.findSome? (Place.ask stack compartment parameter) := by
  have override : (Tier.explicit stack compartment parameter).map (ParameterSource.explicit, ·) =
      Place.ask stack compartment parameter .override := Option.map_map ..
  have blueprintDefault : (Tier.blueprintDefault stack compartment parameter).map
      (ParameterSource.blueprintDefault, ·) =
        Place.ask stack compartment parameter .blueprintDefault := Option.map_map ..
  simp only [Tier.find?, Tier.all, Place.all, List.findSome?_cons, List.findSome?_nil, override,
    map_tagRef, map_compartmentDefault, blueprintDefault]
  cases Place.ask stack compartment parameter .override <;>
    cases Place.ask stack compartment parameter .stackTag <;> rfl

/-- Before a place in the order of asking are exactly the places of lower rank. -/
theorem Place.mem_before_iff {before after : List Place} {earlier : Place}
    (parted : Place.all = before ++ place :: after) :
    earlier ∈ before ↔ earlier.rank < place.rank := by
  have ordered := Place.pairwise_all
  rw [parted, List.pairwise_append, List.pairwise_cons] at ordered
  obtain ⟨_, ⟨above, _⟩, below⟩ := ordered
  constructor
  · intro member
    exact below earlier member place List.mem_cons_self
  · intro less
    have listed := Place.mem_all earlier
    rw [parted, List.mem_append, List.mem_cons] at listed
    rcases listed with member | rfl | later
    · exact member
    · omega
    · have := above earlier later
      omega

/-- What is found comes from the first place that has something. -/
theorem find?_eq_some_iff_first : Tier.find? stack compartment parameter = some told ↔
    ∃ place value, First stack compartment parameter place value ∧
      told = (place.source, ⟨value, origin compartment parameter place⟩) := by
  rw [find?_eq_findSome?, List.findSome?_eq_some_iff]
  constructor
  · rintro ⟨before, place, after, parted, gives, silent⟩
    obtain ⟨value, has, rfl⟩ := Option.map_eq_some_iff.mp gives
    refine ⟨place, value, ⟨has, fun earlier less => ?_⟩, rfl⟩
    exact Option.map_eq_none_iff.mp (silent earlier ((Place.mem_before_iff parted).mpr less))
  · rintro ⟨place, value, first, rfl⟩
    obtain ⟨before, after, parted⟩ := List.append_of_mem (Place.mem_all place)
    refine ⟨before, place, after, parted, Option.map_eq_some_iff.mpr ⟨value, first.has, rfl⟩, ?_⟩
    intro earlier member
    have less := (Place.mem_before_iff parted).mp member
    exact Option.map_eq_none_iff.mpr (first.before earlier less)

theorem find?_eq_none_iff : Tier.find? stack compartment parameter = none ↔
    ∀ place, valueAt stack compartment parameter place = none := by
  simp [find?_eq_findSome?, List.findSome?_eq_none_iff, Place.ask, Place.mem_all]

/-- Where anything stands at all, some place is the first to have something. -/
theorem first_or_bare (stack : Stack) (compartment : Option Compartment) (parameter : Parameter) :
    (∃ place value, First stack compartment parameter place value) ∨
      ∀ place, valueAt stack compartment parameter place = none := by
  cases search : Tier.find? stack compartment parameter with
  | none => exact .inr (find?_eq_none_iff.mp search)
  | some found =>
    obtain ⟨place, value, first, _⟩ := find?_eq_some_iff_first.mp search
    exact .inl ⟨place, value, first⟩

theorem First.resolveParameter (first : First stack compartment parameter place value) :
    (resolveParameter stack parameter compartment).value = some value ∧
      (resolveParameter stack parameter compartment).source = place.source ∧
      (resolveParameter stack parameter compartment).detail =
        origin compartment parameter place := by
  have search := find?_eq_some_iff_first.mpr ⟨place, value, first, rfl⟩
  simp [Deployment.resolveParameter, search]

theorem value_eq_none_iff : (resolveParameter stack parameter compartment).value = none ↔
    ∀ place, valueAt stack compartment parameter place = none := by
  rw [← find?_eq_none_iff]
  exact Option.map_eq_none_iff

theorem source_eq_unresolved_iff :
    (resolveParameter stack parameter compartment).source = .unresolved ↔
      ∀ place, valueAt stack compartment parameter place = none := by
  rw [← find?_eq_none_iff]
  cases search : Tier.find? stack compartment parameter with
  | none => simp [resolveParameter, search]
  | some found => simp [resolveParameter, search, (supplied_of_find?_eq_some search).2]

/-- The same stands at all places up to the first that has something. -/
def AgreeToFirst (stack stack' : Stack) (compartment compartment' : Option Compartment)
    (parameter parameter' : Parameter) : Prop :=
  ∀ place : Place,
    (∀ earlier : Place, earlier.rank < place.rank →
      valueAt stack compartment parameter earlier = none) →
    valueAt stack' compartment' parameter' place = valueAt stack compartment parameter place

section Insulation

variable {parameter' : Parameter}
  (agree : AgreeToFirst stack stack' compartment compartment' parameter parameter')
include agree

theorem AgreeToFirst.first (first : First stack compartment parameter place value) :
    First stack' compartment' parameter' place value where
  has := (agree place first.before).trans first.has
  before earlier less :=
    (agree earlier fun sooner lesser => first.before sooner (Nat.lt_trans lesser less)).trans
      (first.before earlier less)

theorem AgreeToFirst.bare (bare : ∀ place, valueAt stack compartment parameter place = none)
    (place : Place) : valueAt stack' compartment' parameter' place = none :=
  (agree place fun earlier _ => bare earlier).trans (bare place)

end Insulation

/-- Values of compartments with one id, under one tag key, are told alike. -/
theorem origin_congr {parameter' : Parameter} {value' : String}
    (has : valueAt stack compartment parameter place = some value)
    (has' : valueAt stack' compartment' parameter' place = some value')
    (ids : ∀ c ∈ compartment, ∀ c' ∈ compartment', c.id = c'.id)
    (key : parameter'.tagKey = parameter.tagKey) :
    origin compartment' parameter' place = origin compartment parameter place := by
  cases place with
  | override | blueprintDefault => rfl
  | stackTag => simp only [origin, key]
  | compartmentTag =>
    obtain ⟨_, _, there⟩ := Option.bind_eq_some_iff.mp has
    obtain ⟨c, rfl, _⟩ := Option.bind_eq_some_iff.mp there
    obtain ⟨_, _, there'⟩ := Option.bind_eq_some_iff.mp has'
    obtain ⟨c', rfl, _⟩ := Option.bind_eq_some_iff.mp there'
    simp only [origin, key, Option.map_some, ids c rfl c' rfl]
  | compartmentDefault =>
    obtain ⟨c, rfl, _⟩ := Option.bind_eq_some_iff.mp has
    obtain ⟨c', rfl, _⟩ := Option.bind_eq_some_iff.mp has'
    simp only [origin, Option.map_some, ids c rfl c' rfl]

theorem AgreeToFirst.find?_eq {parameter' : Parameter}
    (agree : AgreeToFirst stack stack' compartment compartment' parameter parameter')
    (ids : ∀ c ∈ compartment, ∀ c' ∈ compartment', c.id = c'.id)
    (key : parameter'.tagKey = parameter.tagKey) :
    Tier.find? stack' compartment' parameter' = Tier.find? stack compartment parameter := by
  obtain ⟨place, value, first⟩ | bare := first_or_bare stack compartment parameter
  · have first' := agree.first first
    rw [find?_eq_some_iff_first.mpr ⟨place, value, first, rfl⟩,
      find?_eq_some_iff_first.mpr ⟨place, value, first', rfl⟩,
      origin_congr first.has first'.has ids key]
  · rw [find?_eq_none_iff.mpr bare, find?_eq_none_iff.mpr (agree.bare bare)]

/-- A parameter gets the value from the first place that has one, with the source and the origin of
that place; it is unresolved exactly when it has no value, that is, when no place has anything. What
stands at later places, and all else that the stack and the compartment have, is of no influence:
if the same stands at all places up to the first that has something, the same comes out. -/
theorem first_place_wins (stack : Stack) (compartment : Option Compartment)
    (parameter : Parameter) :
    (∀ place value, First stack compartment parameter place value →
      (resolveParameter stack parameter compartment).value = some value ∧
      (resolveParameter stack parameter compartment).source = place.source ∧
      (resolveParameter stack parameter compartment).detail =
        origin compartment parameter place) ∧
    [(resolveParameter stack parameter compartment).value = none,
      (resolveParameter stack parameter compartment).source = .unresolved,
      ∀ place, valueAt stack compartment parameter place = none].TFAE ∧
    ∀ stack' compartment' defaultValue,
      (∀ c ∈ compartment, ∀ c' ∈ compartment', c.id = c'.id) →
      AgreeToFirst stack stack' compartment compartment' parameter { parameter with defaultValue } →
      resolveParameter stack' { parameter with defaultValue } compartment' =
        resolveParameter stack parameter compartment := by
  refine ⟨fun _ _ first => first.resolveParameter, ?unresolved, ?insulated⟩
  case unresolved =>
    tfae_have 1 ↔ 3 := value_eq_none_iff
    tfae_have 2 ↔ 3 := source_eq_unresolved_iff
    tfae_finish
  case insulated =>
    intro stack' compartment' defaultValue ids agree
    simp only [resolveParameter, agree.find?_eq ids rfl]

/-- The override has no value and the stack has no tag of the key, so that the tag of the
compartment counts; what stands behind it, and the rest of the stack, is different in the end. -/
theorem first_place_wins_compartment_tag :
    let parameter : Parameter := ⟨"region", "", some "us-east-1", true, some "zone"⟩
    let web : Stack := { Stack.bare "web" "site" with
      parameterOverrides := .ofList [("region", none)] }
    let prod : Compartment := { Compartment.bare "prod" none with
      tags := .ofList [("zone", "eu-north-1")], defaults := .ofList [("region", "eu-west-1")] }
    let api : Stack := { Stack.bare "api" "service" with tags := .ofList [("region", "ap")] }
    let bare : Compartment := { prod with defaults := .empty }
    First web (some prod) parameter .compartmentTag "eu-north-1" ∧
      resolveParameter web parameter (some prod) = ⟨"region", "region", some "eu-north-1", .tagRef,
        true, some "zone", some "compartment 'prod' tag 'zone'"⟩ ∧
      resolveParameter api { parameter with defaultValue := none } (some bare) =
        resolveParameter web parameter (some prod) := by
  intro parameter web prod api bare
  have first : First web (some prod) parameter .compartmentTag "eu-north-1" := by
    refine ⟨by decide +kernel, fun earlier less => ?_⟩
    cases earlier with
    | override | stackTag => decide +kernel
    | compartmentTag | compartmentDefault | blueprintDefault => exact absurd less (by decide)
  have agree : AgreeToFirst web api (some prod) (some bare) parameter
      { parameter with defaultValue := none } := by
    intro place silent
    cases place with
    | override | stackTag | compartmentTag => decide +kernel
    | compartmentDefault | blueprintDefault =>
      cases first.has.symm.trans (silent .compartmentTag (by decide))
  obtain ⟨wins, _, insulated⟩ := first_place_wins web (some prod) parameter
  obtain ⟨value, source, detail⟩ := wins _ _ first
  refine ⟨first, ?_, insulated api (some bare) none (by simp [bare]) agree⟩
  rw [ResolvedParameter.mk.injEq]
  exact ⟨rfl, by decide, value, source, rfl, rfl, detail⟩

end Estate.Deployment
