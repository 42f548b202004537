import Estate.Proofs.Compartment.Rearrangement
import Estate.Proofs.Deployment.Completeness
import Estate.Proofs.Deployment.Naming
import Estate.Proofs.Topology.Validation

/-! Snapshots in another order. Neither the order of compartments, blueprints and stacks nor that
of a stack's dependencies has a part in whether a snapshot is a topology, or in its preview: the
same stacks are in the same waves with the same values, and what is refused is refused alike. -/
namespace Estate
open Deployment

open scoped Classical

/-- The kinds of faults of a snapshot, whatever they name. -/
inductive SnapshotError.Kind where
  | duplicateStack | duplicateBlueprint | duplicateCompartment | unknownParent | parentCycle
deriving DecidableEq

/-- The kind of a fault. -/
def SnapshotError.kind : SnapshotError → Kind
  | duplicateStack _ => .duplicateStack
  | duplicateBlueprint _ => .duplicateBlueprint
  | forest (.duplicateCompartment _) => .duplicateCompartment
  | forest (.unknownParent _ _) => .unknownParent
  | forest (.parentCycle _) => .parentCycle

/-- The second stack is the first one with its dependencies in any order, repeated or not. -/
structure SameStack (s s' : Stack) : Prop where
  others : s' = { s with dependsOn := s'.dependsOn }
  dependsOn : ∀ id, id ∈ s.dependsOn ↔ id ∈ s'.dependsOn

/-- The stacks in any order, each with its dependencies in any order. -/
def SameStacks (ss ss' : List Stack) : Prop :=
  ∃ listed, List.Forall₂ SameStack ss listed ∧ listed.Perm ss'

/-- The second snapshot has the compartments, blueprints and stacks of the first one in any
order. -/
structure Reordered (s s' : Snapshot) : Prop where
  compartments : s.compartments.Perm s'.compartments
  blueprints : s.blueprints.Perm s'.blueprints
  allStacks : SameStacks s.allStacks s'.allStacks

/-- Previews with the same waves up to the order in each, and the same in all else but the order of
the stacks. -/
structure Deployment.Preview.Alike (p p' : Preview) : Prop where
  deploymentOrder : p.deploymentOrder.Alike p'.deploymentOrder
  resolutions : p.resolutions.Perm p'.resolutions
  resolution : ∀ id, p.resolutions.find? (·.stackId == id) =
    p'.resolutions.find? (·.stackId == id)
  allComplete : p.allComplete = p'.allComplete
  totalUnresolved : p.totalUnresolved = p'.totalUnresolved

section Stacks

variable {ss ss' listed : List Stack}

theorem map_eq_of_pairs {α : Type} {f : Stack → α} (pairs : List.Forall₂ SameStack ss listed)
    (blind : ∀ s dependsOn, f { s with dependsOn } = f s) : ss.map f = listed.map f := by
  induction pairs with
  | nil => rfl
  | @cons s s' _ _ one _ ih =>
    have equal : f s' = f s := (congrArg f one.others).trans (blind s s'.dependsOn)
    rw [List.map_cons, List.map_cons, equal, ih]

theorem names_iff_of_pairs (pairs : List.Forall₂ SameStack ss listed) (id other : String) :
    Names ss id other ↔ Names listed id other := by
  induction pairs with
  | nil => rfl
  | @cons s s' _ _ one _ ih =>
    have named : s'.id = s.id := by rw [one.others]
    simp only [Names, List.exists_mem_cons_iff, named, one.dependsOn] at ih ⊢
    rw [ih]

namespace SameStacks

variable (same : SameStacks ss ss')
include same

/-- What does not look at dependencies is the same for the stacks in any order. -/
theorem map_perm {α : Type} (f : Stack → α) (blind : ∀ s dependsOn, f { s with dependsOn } = f s) :
    (ss.map f).Perm (ss'.map f) := by
  obtain ⟨listed, pairs, perm⟩ := same
  exact map_eq_of_pairs pairs blind ▸ perm.map f

theorem ids : (ss.map (·.id)).Perm (ss'.map (·.id)) := same.map_perm _ fun _ _ => rfl

theorem sameNames : SameNames ss ss' where
  ids := same.ids
  names id other := by
    obtain ⟨listed, pairs, perm⟩ := same
    rw [names_iff_of_pairs pairs]
    exact exists_congr fun s => and_congr_left fun _ => perm.mem_iff

end SameStacks

end Stacks

section Kinds

variable {s s' : Snapshot} {e e' : SnapshotError}

/-- The first kind of fault that a snapshot has, if it has any. -/
noncomputable def Snapshot.faultKind (s : Snapshot) : SnapshotError.Kind :=
  if ¬ (s.allStacks.map (·.id)).Nodup then .duplicateStack
  else if ¬ (s.blueprints.map (·.id)).Nodup then .duplicateBlueprint
  else if ¬ (s.compartments.map (·.id)).Nodup then .duplicateCompartment
  else if ¬ ParentsKnown s.compartments s.compartments then .unknownParent
  else .parentCycle

theorem SnapshotFault.kind_eq (fault : SnapshotFault s e) : e.kind = s.faultKind := by
  cases fault with
  | stack first => rw [Snapshot.faultKind, if_pos first.not_nodup]; rfl
  | blueprint distinctStacks first =>
    rw [Snapshot.faultKind, if_neg (not_not.mpr distinctStacks), if_pos first.not_nodup]
    rfl
  | forest distinctStacks distinctBlueprints fault =>
    rw [Snapshot.faultKind, if_neg (not_not.mpr distinctStacks),
      if_neg (not_not.mpr distinctBlueprints)]
    cases fault with
    | duplicate first => rw [if_pos first.not_nodup]; rfl
    | @orphan before after c parent distinct split _ named missing =>
      have unknown : ¬ ParentsKnown s.compartments s.compartments := fun known =>
        missing (known c (split ▸ by simp) parent named)
      rw [if_neg (not_not.mpr distinct), if_pos unknown]
      rfl
    | cycle distinct known _ =>
      rw [if_neg (not_not.mpr distinct), if_neg (not_not.mpr known)]
      rfl

end Kinds

theorem Topology.nodup_stackIds {t : Topology} {p : Preview} (previewed : t.preview = .ok p) :
    (p.resolutions.map (·.stackId)).Nodup := by
  obtain ⟨_, resolutions, _, _⟩ := preview_eq_ok previewed
  rw [resolutions, List.map_map]
  exact t.distinctStacks

namespace Reordered

variable {s s' : Snapshot} (reordered : Reordered s s')
include reordered

theorem faultKind_eq : s.faultKind = s'.faultKind := by
  have known : ParentsKnown s.compartments s.compartments ↔
      ParentsKnown s'.compartments s'.compartments := by
    simp only [ParentsKnown, reordered.compartments.mem_iff,
      (reordered.compartments.map (·.id)).mem_iff]
  simp only [Snapshot.faultKind, reordered.allStacks.ids.nodup_iff,
    (reordered.blueprints.map (·.id)).nodup_iff, (reordered.compartments.map (·.id)).nodup_iff,
    known]

theorem wellFormed_iff : WellFormed s ↔ WellFormed s' := by
  have moved : Rearranged id s.compartments s'.compartments :=
    ⟨fun _ => rfl, fun _ => rfl, by simpa using reordered.compartments.symm⟩
  have moved' : Rearranged id s'.compartments s.compartments :=
    ⟨fun _ => rfl, fun _ => rfl, by simpa using reordered.compartments⟩
  have orderly : Orderly s.compartments ↔ Orderly s'.compartments := ⟨moved.orderly, moved'.orderly⟩
  have distinctStacks := reordered.allStacks.ids.nodup_iff
  have distinctBlueprints := (reordered.blueprints.map (·.id)).nodup_iff
  constructor
  · intro good
    exact ⟨distinctStacks.mp good.distinctStacks, distinctBlueprints.mp good.distinctBlueprints,
      orderly.mp good.orderly⟩
  · intro good
    exact ⟨distinctStacks.mpr good.distinctStacks, distinctBlueprints.mpr good.distinctBlueprints,
      orderly.mpr good.orderly⟩

theorem validate_corresponds : Corresponds (fun t t' => Holds t s ∧ Holds t' s')
    (fun e e' => e.kind = e'.kind) s.validate s'.validate := by
  cases valid : s.validate with
  | ok t =>
    obtain ⟨good, holds⟩ := Snapshot.validate_eq_ok valid
    obtain ⟨t', valid'⟩ := Snapshot.validate_isOk_iff.mpr (reordered.wellFormed_iff.mp good)
    rw [valid']
    exact .ok ⟨holds, (Snapshot.validate_eq_ok valid').2⟩
  | error e =>
    have fault := Snapshot.validate_eq_error valid
    cases valid' : s'.validate with
    | ok t' =>
      have good' := (Snapshot.validate_eq_ok valid').1
      obtain ⟨t, valid''⟩ := Snapshot.validate_isOk_iff.mpr (reordered.wellFormed_iff.mpr good')
      rw [valid] at valid''
      contradiction
    | error e' =>
      refine .error ?_
      rw [fault.kind_eq, (Snapshot.validate_eq_error valid').kind_eq, reordered.faultKind_eq]

section Topologies

variable {t t' : Topology} (holds : Holds t s) (holds' : Holds t' s')
include holds holds'

theorem compartment?_eq : t.compartment? = t'.compartment? := by
  funext id
  ext c
  rw [holds.compartment?, holds'.compartment?, reordered.compartments.mem_iff]

theorem blueprint?_eq : t.blueprint? = t'.blueprint? := by
  funext id
  ext b
  rw [holds.blueprint?, holds'.blueprint?, reordered.blueprints.mem_iff]

/-- The values of a stack's parameters are the same in both. -/
theorem resolveParameters_eq (k : Stack) :
    resolveParameters k (t.declared k) (t.containing k) =
      resolveParameters k (t'.declared k) (t'.containing k) := by
  rw [Topology.declared, Topology.declared, Topology.containing, Topology.containing,
    reordered.blueprint?_eq holds holds', reordered.compartment?_eq holds holds']

theorem resolutions_perm {p p' : Preview} (previewed : t.preview = .ok p)
    (previewed' : t'.preview = .ok p') : p.resolutions.Perm p'.resolutions := by
  obtain ⟨_, resolutions, _, _⟩ := Topology.preview_eq_ok previewed
  obtain ⟨_, resolutions', _, _⟩ := Topology.preview_eq_ok previewed'
  rw [resolutions, resolutions', holds.allStacks, holds'.allStacks]
  simp only [reordered.resolveParameters_eq holds holds']
  exact reordered.allStacks.map_perm _ fun _ _ => rfl

/-- Previews are alike if their orders are. -/
theorem alike_of_order {p p' : Preview} (previewed : t.preview = .ok p)
    (previewed' : t'.preview = .ok p') (ordered : p.deploymentOrder.Alike p'.deploymentOrder) :
    p.Alike p' := by
  obtain ⟨_, _, complete, total⟩ := Topology.preview_eq_ok previewed
  obtain ⟨_, _, complete', total'⟩ := Topology.preview_eq_ok previewed'
  have perm := reordered.resolutions_perm holds holds' previewed previewed'
  refine ⟨ordered, perm, ?resolution, ?allComplete, ?totalUnresolved⟩
  case resolution =>
    intro id
    ext r
    rw [find?_key_eq_some_iff (Topology.nodup_stackIds previewed),
      find?_key_eq_some_iff (Topology.nodup_stackIds previewed'), perm.mem_iff]
  case allComplete =>
    rw [complete, complete', perm.all_eq]
  case totalUnresolved =>
    have commutes : LeftCommutative fun (r : StackResolution) n => r.unresolvedCount + n :=
      ⟨fun r r' n => Nat.add_left_comm r.unresolvedCount r'.unresolvedCount n⟩
    rw [total, total', perm.foldr_eq]

theorem preview_corresponds :
    Corresponds Preview.Alike OrderError.Alike t.preview t'.preview := by
  have ordered : Corresponds Order.Alike OrderError.Alike (order t.allStacks)
      (order t'.allStacks) := by
    rw [holds.allStacks, holds'.allStacks]
    exact reordered.allStacks.sameNames.order_corresponds (holds.allStacks ▸ t.distinctStacks)
  cases previewed : t.preview with
  | error fault =>
    rw [Topology.preview_eq_error_iff.mp previewed] at ordered
    cases previewed' : t'.preview with
    | error fault' =>
      rw [Topology.preview_eq_error_iff.mp previewed'] at ordered
      cases ordered with
      | error alike => exact .error alike
    | ok p' =>
      rw [(Topology.preview_eq_ok previewed').1] at ordered
      nomatch ordered
  | ok p =>
    rw [(Topology.preview_eq_ok previewed).1] at ordered
    cases previewed' : t'.preview with
    | error fault' =>
      rw [Topology.preview_eq_error_iff.mp previewed'] at ordered
      nomatch ordered
    | ok p' =>
      rw [(Topology.preview_eq_ok previewed').1] at ordered
      cases ordered with
      | ok alike => exact .ok (reordered.alike_of_order holds holds' previewed previewed' alike)

end Topologies

end Reordered

theorem Corresponds.imp {α β ε δ : Type} {values values' : α → β → Prop} {errors : ε → δ → Prop}
    {a : Except ε α} {b : Except δ β} (corresponds : Corresponds values errors a b)
    (weaker : ∀ a b, values a b → values' a b) : Corresponds values' errors a b := by
  cases corresponds with
  | ok related => exact .ok (weaker _ _ related)
  | error related => exact .error related

/-- Of two snapshots that differ in order only, both are topologies, or both have the same kind of
fault. If they are topologies they have the same preview up to order, or their stacks cannot be
ordered for the same reason. -/
theorem preview_reordered {s s' : Snapshot} (reordered : Reordered s s') :
    Corresponds (fun t t' => Corresponds Preview.Alike OrderError.Alike t.preview t'.preview)
      (fun e e' => e.kind = e'.kind) s.validate s'.validate :=
  reordered.validate_corresponds.imp fun _ _ ⟨holds, holds'⟩ =>
    reordered.preview_corresponds holds holds'

/-- All lists are reversed, and a dependency is listed twice. -/
theorem preview_reordered_reversed :
    let org := Compartment.bare "org" none
    let app := Compartment.bare "app" (some "org")
    let web := Stack.depending "web" ["db", "net"]
    let rest : List Stack := [.depending "db" ["net"], .depending "dns" [], .depending "net" []]
    let s : Snapshot := ⟨"shop", "", [org, app], [⟨"web", "", []⟩, ⟨"db", "", []⟩], web :: rest⟩
    let s' : Snapshot := ⟨"shop", "", [app, org], [⟨"db", "", []⟩, ⟨"web", "", []⟩],
      (.depending "web" ["net", "db", "net"] :: rest).reverse⟩
    Reordered s s' ∧ (∃ t, s.validate = .ok t) ∧
      order s.allStacks = .ok ⟨[["dns", "net"], ["db"], ["web"]]⟩ ∧
      order s'.allStacks = .ok ⟨[["net", "dns"], ["db"], ["web"]]⟩ ∧
      Corresponds (fun t t' => Corresponds Preview.Alike OrderError.Alike t.preview t'.preview)
        (fun e e' => e.kind = e'.kind) s.validate s'.validate := by
  intro org app web rest s s'
  have unchanged (k : Stack) : SameStack k k := ⟨rfl, fun _ => Iff.rfl⟩
  have repeated : SameStack web (.depending "web" ["net", "db", "net"]) := by
    refine ⟨rfl, fun id => ?_⟩
    simp only [web, Stack.depending, List.mem_cons, List.not_mem_nil, or_false]
    tauto
  have allStacks : SameStacks s.allStacks s'.allStacks :=
    ⟨.depending "web" ["net", "db", "net"] :: rest,
      .cons repeated (List.forall₂_same.mpr fun k _ => unchanged k), (List.reverse_perm _).symm⟩
  have reordered : Reordered s s' := ⟨List.Perm.swap .., List.Perm.swap .., allStacks⟩
  have orderly : Orderly s.compartments :=
    Forest.orderly ⟨[org, app], by decide +kernel, by decide +kernel⟩
  have valid := Snapshot.validate_isOk_iff.mpr ⟨by decide, by decide, orderly⟩
  exact ⟨reordered, valid, by decide +kernel, by decide +kernel, preview_reordered reordered⟩

end Estate
