import Estate.Proofs.Compartment.Building
import Estate.Topology.Snapshot

/-! Which snapshots are topologies. A snapshot is accepted exactly when it is well formed, its
first fault is reported otherwise, and an accepted one keeps all that is in it under its id. -/
namespace Estate

/-- What makes a snapshot a topology. Dependencies between stacks are no part of it. -/
structure WellFormed (s : Snapshot) : Prop where
  distinctStacks : (s.allStacks.map (·.id)).Nodup
  distinctBlueprints : (s.blueprints.map (·.id)).Nodup
  orderly : Orderly s.compartments

/-- The faults of a snapshot that is no topology. Each rules out those looked for before it. -/
inductive SnapshotFault (s : Snapshot) : SnapshotError → Prop where
  | stack {id : String} : FirstRepeat (s.allStacks.map (·.id)) id →
      SnapshotFault s (.duplicateStack id)
  | blueprint {id : String} : (s.allStacks.map (·.id)).Nodup →
      FirstRepeat (s.blueprints.map (·.id)) id → SnapshotFault s (.duplicateBlueprint id)
  | forest {fault : ForestError} : (s.allStacks.map (·.id)).Nodup →
      (s.blueprints.map (·.id)).Nodup → ForestFault s.compartments fault →
      SnapshotFault s (.forest fault)

/-- The topology holds what is in the snapshot: the same texts and lists, and under every id what
has that id and nothing else. -/
structure Holds (t : Topology) (s : Snapshot) : Prop where
  id : t.id = s.topologyId
  name : t.name = s.name
  compartments : t.forest.compartments = s.compartments
  blueprints : t.blueprints = s.blueprints
  allStacks : t.allStacks = s.allStacks
  compartment? : ∀ id c, t.compartment? id = some c ↔ c ∈ s.compartments ∧ c.id = id
  blueprint? : ∀ id b, t.blueprint? id = some b ↔ b ∈ s.blueprints ∧ b.id = id
  stack? : ∀ id k, t.stack? id = some k ↔ k ∈ s.allStacks ∧ k.id = id

namespace Snapshot

variable {s : Snapshot}

theorem validate_eq_ok {t : Topology} (valid : s.validate = .ok t) : WellFormed s ∧ Holds t s := by
  unfold validate at valid
  split at valid
  · contradiction
  · next freshStacks =>
    have distinctStacks := firstRepeated?_eq_none_iff.mp freshStacks
    split at valid
    · contradiction
    · next freshBlueprints =>
      have distinctBlueprints := firstRepeated?_eq_none_iff.mp freshBlueprints
      split at valid
      · contradiction
      · next forest built =>
        obtain ⟨same, orderly⟩ := Forest.build_eq_ok built
        cases Except.ok.inj valid
        refine ⟨⟨distinctStacks, distinctBlueprints, orderly⟩, rfl, rfl, same, rfl, rfl, ?_, ?_, ?_⟩
        · intro id c
          rw [← same]
          exact Forest.get?_eq_some_iff
        · exact fun id b => find?_key_eq_some_iff distinctBlueprints
        · exact fun id k => find?_key_eq_some_iff distinctStacks

theorem validate_eq_error {e : SnapshotError} (refused : s.validate = .error e) :
    SnapshotFault s e := by
  unfold validate at refused
  split at refused
  · next id repeated =>
    cases Except.error.inj refused
    exact .stack (firstRepeated?_eq_some_iff.mp repeated)
  · next freshStacks =>
    have distinctStacks := firstRepeated?_eq_none_iff.mp freshStacks
    split at refused
    · next id repeated =>
      cases Except.error.inj refused
      exact .blueprint distinctStacks (firstRepeated?_eq_some_iff.mp repeated)
    · next freshBlueprints =>
      have distinctBlueprints := firstRepeated?_eq_none_iff.mp freshBlueprints
      split at refused
      · next fault broken =>
        cases Except.error.inj refused
        exact .forest distinctStacks distinctBlueprints (Forest.build_eq_error broken)
      · contradiction

theorem validate_isOk_iff : (∃ t, s.validate = .ok t) ↔ WellFormed s := by
  constructor
  · rintro ⟨t, valid⟩
    exact (validate_eq_ok valid).1
  · intro good
    cases outcome : s.validate with
    | ok t => exact ⟨t, rfl⟩
    | error e =>
      exfalso
      cases validate_eq_error outcome with
      | stack first => exact first.not_nodup good.distinctStacks
      | blueprint _ first => exact first.not_nodup good.distinctBlueprints
      | forest _ _ fault =>
        obtain ⟨f, built⟩ := Forest.build_isOk_iff.mpr good.orderly
        simp [Forest.build_eq_error_iff.mpr fault] at built

theorem validate_eq_error_iff {e : SnapshotError} : s.validate = .error e ↔ SnapshotFault s e := by
  refine ⟨validate_eq_error, fun fault => ?_⟩
  unfold validate
  cases fault with
  | stack first =>
    have repeated := firstRepeated?_eq_some_iff.mpr first
    split <;> simp_all
  | blueprint distinctStacks first =>
    have fresh := firstRepeated?_eq_none_iff.mpr distinctStacks
    have repeated := firstRepeated?_eq_some_iff.mpr first
    split
    · simp_all
    · split <;> simp_all
  | forest distinctStacks distinctBlueprints fault =>
    have freshStacks := firstRepeated?_eq_none_iff.mpr distinctStacks
    have freshBlueprints := firstRepeated?_eq_none_iff.mpr distinctBlueprints
    have broken := Forest.build_eq_error_iff.mpr fault
    split
    · simp_all
    · split
      · simp_all
      · split <;> simp_all

/-- Validation accepts exactly the well-formed snapshots, keeps all that is in them, and reports
of any other snapshot its first fault. -/
theorem validate_exact (s : Snapshot) :
    ((∃ t, s.validate = .ok t) ↔ WellFormed s) ∧ (∀ t, s.validate = .ok t → Holds t s) ∧
      ∀ e, s.validate = .error e ↔ SnapshotFault s e :=
  ⟨validate_isOk_iff, fun _ valid => (validate_eq_ok valid).2, fun _ => validate_eq_error_iff⟩

end Snapshot
end Estate
