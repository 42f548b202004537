import Mathlib.Data.List.Forall2
import Estate.Proofs.Deployment.Refusal

/-! Dependencies between ids. Where ids are distinct and no dependency dangles, paths between
positions are paths between ids, which know nothing of the order of stacks. So stacks in another
order, with their dependencies in another order, have the same waves up to the order within each,
or are refused alike. -/
namespace Estate

/-- Both are values that are related so, or both are errors that are related so. -/
inductive Corresponds {α β ε δ : Type} (values : α → β → Prop) (errors : ε → δ → Prop) :
    Except ε α → Except δ β → Prop where
  | ok {a : α} {b : β} : values a b → Corresponds values errors (.ok a) (.ok b)
  | error {e : ε} {f : δ} : errors e f → Corresponds values errors (.error e) (.error f)

namespace Deployment

open scoped Classical

variable {ss ss' : List Stack} {id other : String} {length : Nat}

/-- A stack with one id lists another id among its dependencies. -/
def Names (ss : List Stack) (id other : String) : Prop :=
  ∃ s ∈ ss, s.id = id ∧ other ∈ s.dependsOn

theorem closed_iff_names : Closed ss ↔ ∀ id other, Names ss id other → Known ss other := by
  constructor
  · rintro closed id other ⟨s, member, rfl, listed⟩
    exact closed s member other listed
  · intro known s member other listed
    exact known s.id other ⟨s, member, rfl, listed⟩

theorem known_get (i : Fin ss.length) : Known ss (ss.get i).id :=
  List.mem_map_of_mem (List.get_mem ss i)

theorem names_of_dependsOn {i j : Fin ss.length} (edge : DependsOn ss i j) :
    Names ss (ss.get i).id (ss.get j).id := by
  obtain ⟨id, listed, first⟩ := edge
  exact ⟨ss.get i, List.get_mem ss i, rfl, first.1 ▸ listed⟩

section Distinct

variable (distinct : (ss.map (·.id)).Nodup) (closed : Closed ss)
include distinct closed

theorem exists_dependsOn_of_names {i : Fin ss.length} (names : Names ss (ss.get i).id other) :
    ∃ j, DependsOn ss i j ∧ (ss.get j).id = other := by
  obtain ⟨s, member, same, listed⟩ := names
  obtain ⟨k, rfl⟩ := List.mem_iff_get.mp member
  obtain rfl := id_injective distinct same
  obtain ⟨j, first⟩ := (closed _ member other listed).exists_firstAt
  exact ⟨j, ⟨other, listed, first⟩, first.1⟩

/-- Paths start at a position exactly when they start at its id. -/
theorem path_dependsOn_iff {i : Fin ss.length} :
    Path (DependsOn ss) i length ↔ Path (Names ss) (ss.get i).id length := by
  induction length generalizing i with
  | zero => exact ⟨fun _ => .stop, fun _ => .stop⟩
  | succ length ih =>
    rw [path_succ_iff, path_succ_iff]
    constructor
    · rintro ⟨j, edge, rest⟩
      exact ⟨(ss.get j).id, names_of_dependsOn edge, ih.mp rest⟩
    · rintro ⟨other, names, rest⟩
      obtain ⟨j, edge, rfl⟩ := exists_dependsOn_of_names distinct closed names
      exact ⟨j, edge, ih.mpr rest⟩

theorem longest_dependsOn_iff {i : Fin ss.length} :
    Longest (DependsOn ss) i length ↔ Longest (Names ss) (ss.get i).id length := by
  rw [Longest, Longest, path_dependsOn_iff distinct closed, path_dependsOn_iff distinct closed]

theorem reachesCycle_dependsOn_iff {i : Fin ss.length} :
    ReachesCycle (DependsOn ss) i ↔ Endless (Names ss) (ss.get i).id := by
  rw [← endless_iff_reachesCycle]
  exact forall_congr' fun length => path_dependsOn_iff distinct closed

end Distinct

/-- The ids of the positions with a property, in order. -/
noncomputable def idsWhere (ss : List Stack) (property : Fin ss.length → Prop) : List String :=
  ((List.finRange ss.length).filter fun i => property i).map fun i => (ss.get i).id

variable {property : Fin ss.length → Prop} {told : String → Prop}

theorem nodup_idsWhere (distinct : (ss.map (·.id)).Nodup) : (idsWhere ss property).Nodup :=
  ((List.nodup_finRange _).filter _).map fun _ _ same => id_injective distinct same

/-- Where ids tell whether a position has the property, they are those that tell so. -/
theorem mem_idsWhere_iff (agree : ∀ i, property i ↔ told (ss.get i).id) :
    id ∈ idsWhere ss property ↔ Known ss id ∧ told id := by
  simp only [idsWhere, List.mem_map, List.mem_filter, List.mem_finRange, true_and,
    decide_eq_true_eq]
  constructor
  · rintro ⟨i, has, rfl⟩
    exact ⟨known_get i, (agree i).mp has⟩
  · rintro ⟨known, tells⟩
    obtain ⟨i, first⟩ := known.exists_firstAt
    rw [← first.1] at tells
    exact ⟨i, (agree i).mpr tells, first.1⟩

/-- The same ids list the same ids among their dependencies. -/
structure SameNames (ss ss' : List Stack) : Prop where
  ids : (ss.map (·.id)).Perm (ss'.map (·.id))
  names : ∀ id other, Names ss id other ↔ Names ss' id other

namespace SameNames

variable (same : SameNames ss ss')
include same

theorem symm : SameNames ss' ss := ⟨same.ids.symm, fun id other => (same.names id other).symm⟩

theorem known_iff : Known ss id ↔ Known ss' id := same.ids.mem_iff

theorem closed_iff : Closed ss ↔ Closed ss' := by
  simp only [closed_iff_names, same.names, same.known_iff]

theorem names_eq : Names ss = Names ss' := by
  funext id other
  exact propext (same.names id other)

theorem distinct_iff : (ss.map (·.id)).Nodup ↔ (ss'.map (·.id)).Nodup := same.ids.nodup_iff

section Distinct

variable (distinct : (ss.map (·.id)).Nodup) (closed : Closed ss)
include distinct closed

omit closed in
/-- What ids tell of positions chooses the same ids of both. -/
theorem idsWhere_perm (told : String → Prop) {property' : Fin ss'.length → Prop}
    (agree : ∀ i, property i ↔ told (ss.get i).id)
    (agree' : ∀ i, property' i ↔ told (ss'.get i).id) :
    (idsWhere ss property).Perm (idsWhere ss' property') := by
  refine (List.perm_ext_iff_of_nodup (nodup_idsWhere distinct)
    (nodup_idsWhere (same.distinct_iff.mp distinct))).mpr fun id => ?_
  rw [mem_idsWhere_iff agree, mem_idsWhere_iff agree', same.known_iff]

/-- The stacks of a wave are the same by their ids. -/
theorem wave_perm (length : Nat) : ((layer (DependsOn ss) length).map fun i => (ss.get i).id).Perm
    ((layer (DependsOn ss') length).map fun i => (ss'.get i).id) := by
  have distinct' := same.distinct_iff.mp distinct
  have closed' := same.closed_iff.mp closed
  have agree (i : Fin ss'.length) :
      Longest (DependsOn ss') i length ↔ Longest (Names ss) (ss'.get i).id length := by
    rw [same.names_eq, longest_dependsOn_iff distinct' closed']
  exact same.idsWhere_perm distinct (Longest (Names ss) · length)
    (fun _ => longest_dependsOn_iff distinct closed) agree

/-- The stacks that a cycle can be reached from are the same by their ids. -/
theorem entangled_perm : ((entangled ss).map fun i => (ss.get i).id).Perm
    ((entangled ss').map fun i => (ss'.get i).id) := by
  have distinct' := same.distinct_iff.mp distinct
  have closed' := same.closed_iff.mp closed
  have agree (i : Fin ss'.length) :
      ReachesCycle (DependsOn ss') i ↔ Endless (Names ss) (ss'.get i).id := by
    rw [same.names_eq, reachesCycle_dependsOn_iff distinct' closed']
  exact same.idsWhere_perm distinct (Endless (Names ss))
    (fun _ => reachesCycle_dependsOn_iff distinct closed) agree

/-- There are no more waves than paths of the other stacks are long. -/
theorem count_le {count count' : Nat}
    (inhabited : ∀ wave ∈ (List.range count).map (layer (DependsOn ss)), wave ≠ [])
    (short : ∀ i, ¬ Path (DependsOn ss') i count') : count ≤ count' := by
  by_contra more
  have wave : layer (DependsOn ss) count' ≠ [] :=
    inhabited _ (List.mem_map_of_mem (List.mem_range.mpr (by omega)))
  obtain ⟨i, placed⟩ := List.exists_mem_of_ne_nil _ wave
  have placed' := (same.wave_perm distinct closed count').mem_iff.mp (List.mem_map_of_mem placed)
  obtain ⟨j, long, _⟩ := List.mem_map.mp placed'
  exact short j (mem_layer_iff.mp long).1

end Distinct

end SameNames

/-- The same waves, each in any order. -/
def Order.Alike (o o' : Order) : Prop := List.Forall₂ List.Perm o.waves o'.waves

/-- Refusals of the same kind, and of the same stacks if it is for a cycle. -/
inductive OrderError.Alike : OrderError → OrderError → Prop where
  | dangling {s d s' d' : String} : Alike (.danglingDependency s d) (.danglingDependency s' d')
  | cycle {ids ids' : List String} : ids.Perm ids' → Alike (.cycle ids) (.cycle ids')

theorem exists_dangling_of_not_closed (loose : ¬ Closed ss) :
    ∃ s d, order ss = .error (.danglingDependency s d) := by
  obtain ⟨s, d, first⟩ := exists_firstDangling_iff.mpr loose
  exact ⟨s, d, order_eq_dangling_iff.mpr first⟩

namespace SameNames

variable (same : SameNames ss ss') (distinct : (ss.map (·.id)).Nodup)
include same distinct

theorem order_ok {o o' : Order} (ordered : order ss = .ok o) (ordered' : order ss' = .ok o') :
    o.Alike o' := by
  have distinct' := same.distinct_iff.mp distinct
  obtain ⟨closed, count, waves, short, inhabited⟩ := order_eq_ok ordered
  obtain ⟨closed', count', waves', short', inhabited'⟩ := order_eq_ok ordered'
  have equal : count = count' := Nat.le_antisymm
    (same.count_le distinct closed inhabited short')
    (same.symm.count_le distinct' closed' inhabited' short)
  rw [Order.Alike, waves, waves', ← equal, List.map_map, List.map_map,
    List.forall₂_map_left_iff, List.forall₂_map_right_iff, List.forall₂_same]
  exact fun length _ => same.wave_perm distinct closed length

theorem order_cycle {o : Order} {ids : List String} (cyclic : order ss = .error (.cycle ids)) :
    order ss' ≠ .ok o := by
  intro ordered
  obtain ⟨closed, _, some⟩ := order_eq_cycle cyclic
  obtain ⟨i, stuck⟩ := List.exists_mem_of_ne_nil _ some
  have stuck' := (same.entangled_perm distinct closed).mem_iff.mp (List.mem_map_of_mem stuck)
  obtain ⟨j, stuck', _⟩ := List.mem_map.mp stuck'
  have reaches : ReachesCycle (DependsOn ss') j := by simpa [entangled] using stuck'
  obtain ⟨_, count, _, short, _⟩ := order_eq_ok ordered
  exact short j (reaches.endless count)

/-- Stacks whose ids list the same ids are ordered alike, whatever the order in which they and
their dependencies stand. -/
theorem order_corresponds : Corresponds Order.Alike OrderError.Alike (order ss) (order ss') := by
  have distinct' := same.distinct_iff.mp distinct
  by_cases closed : Closed ss
  · have closed' := same.closed_iff.mp closed
    obtain ⟨o, ordered⟩ | ⟨ids, cyclic⟩ := order_of_closed closed
    · obtain ⟨o', ordered'⟩ | ⟨ids', cyclic'⟩ := order_of_closed closed'
      · rw [ordered, ordered']
        exact .ok (same.order_ok distinct ordered ordered')
      · exact absurd ordered (same.symm.order_cycle distinct' cyclic')
    · obtain ⟨o', ordered'⟩ | ⟨ids', cyclic'⟩ := order_of_closed closed'
      · exact absurd ordered' (same.order_cycle distinct cyclic)
      · rw [cyclic, cyclic', (order_eq_cycle cyclic).2.1, (order_eq_cycle cyclic').2.1]
        exact .error (.cycle (same.entangled_perm distinct closed))
  · obtain ⟨s, d, refused⟩ := exists_dangling_of_not_closed closed
    obtain ⟨s', d', refused'⟩ := exists_dangling_of_not_closed (mt same.closed_iff.mpr closed)
    rw [refused, refused']
    exact .error .dangling

end SameNames

end Deployment
end Estate
