import Estate.Proofs.Deployment.Layering

/-! When stacks cannot be ordered: first of all when a dependency dangles, and otherwise exactly
when the dependencies have a cycle. The stacks named then are those that a cycle can be reached
from. -/
namespace Estate.Deployment
open Relation

open scoped Classical

variable {ss : List Stack}

/-- The positions that a cycle can be reached from, in order. -/
noncomputable def entangled (ss : List Stack) : List (Fin ss.length) :=
  (List.finRange ss.length).filter fun i => ReachesCycle (DependsOn ss) i

theorem entangled_ne_nil_iff : entangled ss ≠ [] ↔ Cyclic ss := by
  rw [Ne, entangled, List.filter_eq_nil_iff]
  simp only [List.mem_finRange, decide_eq_true_eq, true_implies, not_forall, not_not]
  constructor
  · rintro ⟨_, j, _, cycle⟩
    exact ⟨j, cycle⟩
  · rintro ⟨j, cycle⟩
    exact ⟨j, j, .refl, cycle⟩

theorem order_eq_dangling_iff {stackId dependencyId : String} :
    order ss = .error (.danglingDependency stackId dependencyId) ↔
      FirstDangling ss stackId dependencyId := by
  rw [← dangling?_eq_some_iff]
  unfold order
  split
  · next found => simp [found]
  · next none => split <;> simp [none]

theorem order_eq_cycle {ids : List String} (cyclic : order ss = .error (.cycle ids)) :
    Closed ss ∧ ids = (entangled ss).map (fun i => (ss.get i).id) ∧ entangled ss ≠ [] := by
  unfold order at cyclic
  split at cyclic
  · cases Except.error.inj cyclic
  · next none =>
    split at cyclic
    · contradiction
    · next stuck found =>
      cases Except.error.inj cyclic
      obtain ⟨same, some⟩ := layers_eq_error found
      simp only [depends_ofStacks, endless_iff_reachesCycle] at same
      rw [← entangled] at same
      exact ⟨dangling?_eq_none_iff.mp none, by rw [same], same ▸ some⟩

theorem not_cyclic_of_order_eq_ok {o : Order} (ordered : order ss = .ok o) : ¬ Cyclic ss := by
  rintro ⟨i, cycle⟩
  obtain ⟨_, count, _, short, _⟩ := order_eq_ok ordered
  exact short i (endless_of_transGen_cycle cycle cycle count)

theorem order_of_closed (closed : Closed ss) :
    (∃ o, order ss = .ok o) ∨ ∃ ids, order ss = .error (.cycle ids) := by
  cases outcome : order ss with
  | ok o => exact .inl ⟨o, rfl⟩
  | error e =>
    cases e with
    | danglingDependency stackId dependencyId =>
      exact absurd closed (order_eq_dangling_iff.mp outcome).not_closed
    | cycle ids => exact .inr ⟨ids, rfl⟩

/-- Stacks cannot be ordered exactly when a dependency dangles, which is reported first, or there
is a cycle; the cycle is reported with the stacks that it can be reached from. -/
theorem order_refusal (ss : List Stack) :
    ((∃ stackId dependencyId, order ss = .error (.danglingDependency stackId dependencyId)) ↔
      ¬ Closed ss) ∧
    (∀ stackId dependencyId, order ss = .error (.danglingDependency stackId dependencyId) ↔
      FirstDangling ss stackId dependencyId) ∧
    (∀ ids, order ss = .error (.cycle ids) ↔
      Closed ss ∧ Cyclic ss ∧ ids = (entangled ss).map fun i => (ss.get i).id) ∧
    ((∃ o, order ss = .ok o) ↔ Closed ss ∧ ¬ Cyclic ss) := by
  refine ⟨?_, fun _ _ => order_eq_dangling_iff, fun ids => ⟨?_, ?_⟩, ?_, ?_⟩
  · simp only [order_eq_dangling_iff, exists_firstDangling_iff]
  · intro cyclic
    obtain ⟨closed, named, some⟩ := order_eq_cycle cyclic
    exact ⟨closed, entangled_ne_nil_iff.mp some, named⟩
  · rintro ⟨closed, cyclic, rfl⟩
    obtain ⟨o, ordered⟩ | ⟨ids, refused⟩ := order_of_closed closed
    · exact absurd cyclic (not_cyclic_of_order_eq_ok ordered)
    · rw [refused, (order_eq_cycle refused).2.1]
  · rintro ⟨o, ordered⟩
    exact ⟨(order_eq_ok ordered).1, not_cyclic_of_order_eq_ok ordered⟩
  · rintro ⟨closed, acyclic⟩
    obtain ordered | ⟨ids, refused⟩ := order_of_closed closed
    · exact ordered
    · exact absurd (entangled_ne_nil_iff.mp (order_eq_cycle refused).2.2) acyclic

example : order [.depending "web" ["app"], .depending "app" ["db"], .depending "net" [],
    .depending "db" ["net", "app"]] = .error (.cycle ["web", "app", "db"]) := by
  decide +kernel

end Estate.Deployment
