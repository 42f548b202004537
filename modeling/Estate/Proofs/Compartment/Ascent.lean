import Mathlib.Data.List.Nodup
import Estate.Compartment.Forest

/-! Ways up without a bound on their length. The compartments met on the ways down from the roots
are those whose way up ends at a root, and the bounded climb of a forest is a whole way up. -/
namespace Estate

variable {cs : List Compartment} {c p : Compartment}

/-- The way up from a compartment ends at one without parent. -/
inductive Rooted (cs : List Compartment) : Compartment → Prop where
  | root {c : Compartment} : c.parentId = none → Rooted cs c
  | under {c p : Compartment} : parentIn cs c = some p → Rooted cs p → Rooted cs c

/-- The compartments on the way up from one: each is the parent of the one before, and the last
has none in the list. -/
inductive Ascent (cs : List Compartment) : Compartment → List Compartment → Prop where
  | top {c : Compartment} : parentIn cs c = none → Ascent cs c [c]
  | up {c p : Compartment} {above : List Compartment} :
      parentIn cs c = some p → Ascent cs p above → Ascent cs c (c :: above)

theorem rooted_of_reachesRoot {steps : Nat} (reaches : reachesRoot cs steps c = true) :
    Rooted cs c := by
  induction steps generalizing c with
  | zero => exact .root (by simpa [reachesRoot, Compartment.isRoot] using reaches)
  | succ steps ih =>
    rcases reachesRoot_succ_iff.mp reaches with root | ⟨p, above, reaches⟩
    · exact .root root
    · exact .under above (ih reaches)

namespace Arena

variable {a : Arena cs} {i p : Fin cs.length} {unmet waiting : List (Fin cs.length)}

theorem mem_descend_of_mem_waiting (waits : i ∈ waiting) (member : i ∈ unmet) :
    i ∈ a.descend unmet waiting := by
  fun_induction a.descend unmet waiting with
  | case1 unmet => contradiction
  | case2 unmet j waiting present ih =>
    by_cases same : i = j
    · exact same ▸ List.mem_cons_self
    · have later := (List.mem_cons.mp waits).resolve_left same
      exact List.mem_cons_of_mem _
        (ih (List.mem_append_right _ later) ((List.mem_erase_of_ne same).mpr member))
  | case3 unmet j waiting absent ih =>
    rcases List.mem_cons.mp waits with rfl | later
    · exact absurd member absent
    · exact ih later member

/-- The children of a position that is met are met too. -/
theorem mem_descend_of_child (met : p ∈ a.descend unmet waiting) (child : i ∈ a.children.get p)
    (member : i ∈ unmet) : i ∈ a.descend unmet waiting := by
  fun_induction a.descend unmet waiting with
  | case1 unmet => contradiction
  | case2 unmet j waiting present ih =>
    by_cases same : i = j
    · exact same ▸ List.mem_cons_self
    · have left : i ∈ unmet.erase j := (List.mem_erase_of_ne same).mpr member
      apply List.mem_cons_of_mem
      rcases List.mem_cons.mp met with rfl | met
      · exact mem_descend_of_mem_waiting
          (List.mem_append_left _ (List.mem_reverse.mpr child)) left
      · exact ih met left
  | case3 unmet j waiting absent ih => exact ih met member

variable (linked : a.Linked)
include linked

theorem Linked.mem_reached_of_rooted (rooted : Rooted cs c) (here : cs.get i = c) :
    i ∈ a.reached := by
  induction rooted generalizing i with
  | root alone =>
    have waits := linked.mem_roots_iff.mpr (here ▸ alone)
    exact mem_descend_of_mem_waiting (List.mem_reverse.mpr waits) (List.mem_finRange i)
  | under above _ ih =>
    obtain ⟨inside, named⟩ := parentIn_eq_some above
    obtain ⟨p, rfl⟩ := List.mem_iff_get.mp inside
    have child := linked.mem_children_iff.mpr (here ▸ named)
    exact mem_descend_of_child (ih rfl) child (List.mem_finRange i)

/-- The ways down from the roots meet exactly the compartments whose way up ends at a root. -/
theorem Linked.mem_reached_iff (distinct : (cs.map (·.id)).Nodup) :
    i ∈ a.reached ↔ Rooted cs (cs.get i) :=
  ⟨fun met => rooted_of_reachesRoot (linked.reachesRoot_of_mem_reached distinct met),
    fun rooted => linked.mem_reached_of_rooted rooted rfl⟩

/-- As many compartments are met as there are exactly when every way up ends at a root. -/
theorem Linked.length_reached_eq_iff (distinct : (cs.map (·.id)).Nodup) :
    a.reached.length = cs.length ↔ ∀ c ∈ cs, Rooted cs c := by
  constructor
  · intro whole c member
    exact rooted_of_reachesRoot (linked.reachesRoot_of_length_eq distinct whole c member)
  · intro rooted
    obtain ⟨rest, same⟩ := a.reached_perm
    have once : (a.reached ++ rest).Nodup := same.nodup_iff.mpr (List.nodup_finRange _)
    have none : rest = [] := by
      refine List.eq_nil_iff_forall_not_mem.mpr fun i left => ?_
      have met := linked.mem_reached_of_rooted (rooted _ (List.get_mem cs i)) rfl
      exact (List.nodup_append.mp once).2.2 i met i left rfl
    simpa [none] using same.length_eq

end Arena

theorem ascent_climb {steps : Nat} (reaches : reachesRoot cs steps c = true) :
    Ascent cs c (climb cs steps c) := by
  induction steps generalizing c with
  | zero =>
    have root : c.parentId = none := by simpa [reachesRoot, Compartment.isRoot] using reaches
    exact .top (by simp [parentIn, root])
  | succ steps ih =>
    rcases reachesRoot_succ_iff.mp reaches with root | ⟨p, above, reaches⟩
    · have top : parentIn cs c = none := by simp [parentIn, root]
      simpa [climb, top] using Ascent.top top
    · simpa [climb, above] using Ascent.up above (ih reaches)

/-- There is one way up only. -/
theorem Ascent.unique {way other : List Compartment} (first : Ascent cs c way)
    (second : Ascent cs c other) : way = other := by
  induction first generalizing other with
  | top none =>
    cases second with
    | top _ => rfl
    | up above _ => exact absurd above (by simp [none])
  | up above _ ih =>
    cases second with
    | top none => exact absurd above (by simp [none])
    | up other rest =>
      obtain rfl := Option.some.inj (above.symm.trans other)
      rw [ih rest]

namespace Ascent

variable {way above : List Compartment}

theorem subset (ascent : Ascent cs c way) (member : c ∈ cs) : ∀ q ∈ way, q ∈ cs := by
  induction ascent with
  | top _ => simpa using member
  | up above _ ih =>
    intro q onWay
    rcases List.mem_cons.mp onWay with rfl | onWay
    · exact member
    · exact ih (parentIn_eq_some above).1 q onWay

/-- From every compartment on a way up the rest of that way is its own way up. -/
theorem exists_suffix (ascent : Ascent cs c way) (member : p ∈ way) :
    ∃ rest, rest <:+ way ∧ Ascent cs p rest := by
  induction ascent with
  | @top c none =>
    obtain rfl := List.mem_singleton.mp member
    exact ⟨[p], List.suffix_refl _, .top none⟩
  | @up c q way above rest ih =>
    rcases List.mem_cons.mp member with rfl | later
    · exact ⟨p :: way, List.suffix_refl _, .up above rest⟩
    · obtain ⟨own, inside, ascent⟩ := ih later
      exact ⟨own, inside.trans (List.suffix_cons c way), ascent⟩

/-- No way up comes back to where it began. -/
theorem not_mem_above (ascent : Ascent cs c (c :: above)) : c ∉ above := by
  cases ascent with
  | top _ => exact List.not_mem_nil
  | up named rest =>
    intro again
    obtain ⟨own, inside, ascent⟩ := rest.exists_suffix again
    -- There is one way up from it, but this one would be shorter than itself.
    obtain rfl := ascent.unique (.up named rest)
    have := inside.length_le
    simp only [List.length_cons] at this
    omega

/-- A way up that meets a compartment without parent ends there. -/
theorem getLast?_eq (ascent : Ascent cs c way) (onWay : p ∈ way)
    (alone : p.parentId = none) : way.getLast? = some p := by
  induction ascent with
  | top _ =>
    obtain rfl := List.mem_singleton.mp onWay
    rfl
  | up above rest ih =>
    rcases List.mem_cons.mp onWay with rfl | later
    · rw [parentIn, alone] at above
      contradiction
    · have last := ih later
      rw [List.getLast?_cons, last]
      rfl

end Ascent
end Estate
