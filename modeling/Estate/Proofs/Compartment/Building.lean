import Estate.Proofs.Compartment.Ascent

/-! Which lists of compartments are forests. A list is accepted exactly when its ids are distinct,
its parents known and its ways up all end at roots; otherwise the fault reported is its first one
in the order in which faults are looked for. -/
namespace Estate

open scoped Classical

variable {cs : List Compartment}

/-- Every parent that some of the compartments name is in the list. -/
def ParentsKnown (cs members : List Compartment) : Prop :=
  ∀ c ∈ members, ∀ parent, c.parentId = some parent → parent ∈ cs.map (·.id)

/-- What makes a list of compartments a forest. -/
structure Orderly (cs : List Compartment) : Prop where
  distinct : (cs.map (·.id)).Nodup
  known : ParentsKnown cs cs
  rooted : ∀ c ∈ cs, Rooted cs c

/-- The faults of a list of compartments that is no forest. Each rules out those looked for
before it. -/
inductive ForestFault (cs : List Compartment) : ForestError → Prop where
  | duplicate {id : String} : FirstRepeat (cs.map (·.id)) id →
      ForestFault cs (.duplicateCompartment id)
  | orphan {before after : List Compartment} {c : Compartment} {parent : String} :
      (cs.map (·.id)).Nodup → cs = before ++ c :: after → ParentsKnown cs before →
      c.parentId = some parent → parent ∉ cs.map (·.id) →
      ForestFault cs (.unknownParent c.id parent)
  | cycle : (cs.map (·.id)).Nodup → ParentsKnown cs cs → (∃ c ∈ cs, ¬ Rooted cs c) →
      ForestFault cs (.parentCycle ((cs.filter fun c => ¬ Rooted cs c).map (·.id)))

theorem findCompartment_isSome_iff {id : String} :
    (findCompartment cs id).isSome = true ↔ id ∈ cs.map (·.id) := by
  simp [findCompartment, List.find?_isSome]

namespace Arena

theorem missingParent?_eq_some_iff {c : Compartment} {id p : String} :
    missingParent? cs c = some (id, p) ↔
      c.id = id ∧ c.parentId = some p ∧ p ∉ cs.map (·.id) := by
  cases named : c.parentId with
  | none => simp [missingParent?, named]
  | some q =>
    simp only [missingParent?, named, Option.bind_some, Option.some.injEq]
    constructor
    · intro missing
      split at missing
      · contradiction
      · next unknown =>
        obtain ⟨same, rfl⟩ := Prod.mk.inj (Option.some.inj missing)
        exact ⟨same, rfl, unknown⟩
    · rintro ⟨rfl, rfl, unknown⟩
      rw [if_neg unknown]

theorem orphan?_eq_none_iff : orphan? cs = none ↔ ParentsKnown cs cs := by
  simp only [orphan?, List.findSome?_eq_none_iff, missingParent?_eq_none_iff, ParentsKnown]

theorem orphan?_eq_some_iff {id p : String} :
    orphan? cs = some (id, p) ↔ ∃ before c after, cs = before ++ c :: after ∧
      (c.id = id ∧ c.parentId = some p ∧ p ∉ cs.map (·.id)) ∧ ParentsKnown cs before := by
  simp only [orphan?, List.findSome?_eq_some_iff, missingParent?_eq_some_iff,
    missingParent?_eq_none_iff, ParentsKnown]

end Arena

namespace Forest

open Arena

/-- The compartments that are not met are those whose way up does not end at a root. -/
theorem lost_eq_filter {a : Arena cs} (linked : a.Linked) (distinct : (cs.map (·.id)).Nodup) :
    ((List.finRange cs.length).filter fun i => !a.reached.contains i).map (fun i => (cs.get i).id) =
      (cs.filter fun c => ¬ Rooted cs c).map (·.id) := by
  rw [← map_get_filter, List.map_map]
  congr 1
  refine List.filter_congr fun i _ => ?_
  simp only [List.contains_eq_mem, linked.mem_reached_iff distinct, decide_not]

/-- A forest keeps the list that it is built from, in its order. -/
theorem build_eq_ok {f : Forest} (built : build cs = .ok f) : f.compartments = cs ∧ Orderly cs := by
  unfold build at built
  split at built
  · contradiction
  · next a linking =>
    obtain ⟨distinct, placed, linked⟩ := linked_of_link linking
    dsimp only at built
    split at built
    · next whole =>
      cases Except.ok.inj built
      exact ⟨rfl, distinct, orphan?_eq_none_iff.mp placed,
        (linked.length_reached_eq_iff distinct).mp whole⟩
    · contradiction

theorem build_eq_error {e : ForestError} (refused : build cs = .error e) : ForestFault cs e := by
  have cases := link_cases cs
  unfold build at refused
  split at refused
  · next fault linking =>
    cases Except.error.inj refused
    rw [linking] at cases
    split at cases
    · next id again =>
      cases Except.error.inj cases
      exact .duplicate (firstRepeated?_eq_some_iff.mp again)
    · next once =>
      split at cases
      · next id parent orphaned =>
        cases Except.error.inj cases
        obtain ⟨before, c, after, split, ⟨rfl, named, missing⟩, known⟩ :=
          orphan?_eq_some_iff.mp orphaned
        exact .orphan (firstRepeated?_eq_none_iff.mp once) split known named missing
      · obtain ⟨_, links, _⟩ := cases
        contradiction
  · next a linking =>
    obtain ⟨distinct, placed, linked⟩ := linked_of_link linking
    dsimp only at refused
    split at refused
    · contradiction
    · next partly =>
      cases Except.error.inj refused
      rw [lost_eq_filter linked distinct]
      refine .cycle distinct (orphan?_eq_none_iff.mp placed) ?_
      simpa [linked.length_reached_eq_iff distinct] using partly

theorem build_of_link_eq_error {fault : ForestError} (refused : link cs = .error fault) :
    build cs = .error fault := by
  unfold build
  split <;> simp_all

theorem build_of_cycle {a : Arena cs} (linking : link cs = .ok a)
    (partly : a.reached.length ≠ cs.length) :
    build cs = .error (.parentCycle
      (((List.finRange cs.length).filter fun i => !a.reached.contains i).map
        fun i => (cs.get i).id)) := by
  unfold build
  split <;> simp_all

/-- Exactly the orderly lists are forests. -/
theorem build_isOk_iff : (∃ f, build cs = .ok f) ↔ Orderly cs := by
  constructor
  · rintro ⟨f, built⟩
    exact (build_eq_ok built).2
  · intro orderly
    cases built : build cs with
    | ok f => exact ⟨f, rfl⟩
    | error e =>
      exfalso
      cases build_eq_error built with
      | duplicate first => exact first.not_nodup orderly.distinct
      | orphan _ split _ named missing =>
        exact missing (orderly.known _ (split ▸ by simp) _ named)
      | cycle _ _ lost =>
        obtain ⟨c, member, lost⟩ := lost
        exact lost (orderly.rooted c member)

theorem build_eq_error_iff {e : ForestError} : build cs = .error e ↔ ForestFault cs e := by
  refine ⟨build_eq_error, fun fault => ?_⟩
  have cases := link_cases cs
  cases fault with
  | duplicate first =>
    rw [firstRepeated?_eq_some_iff.mpr first] at cases
    exact build_of_link_eq_error cases
  | orphan distinct split known named missing =>
    have orphaned := orphan?_eq_some_iff.mpr ⟨_, _, _, split, ⟨rfl, named, missing⟩, known⟩
    rw [firstRepeated?_eq_none_iff.mpr distinct, orphaned] at cases
    exact build_of_link_eq_error cases
  | cycle distinct known lost =>
    obtain ⟨a, linking, linked⟩ := link_isOk distinct known
    rw [← lost_eq_filter linked distinct]
    refine build_of_cycle linking ?_
    rw [Ne, linked.length_reached_eq_iff distinct]
    simpa using lost

end Forest
end Estate
