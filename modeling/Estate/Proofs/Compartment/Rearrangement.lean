import Estate.Proofs.Compartment.Building

/-! Forests under rearrangement. The order of a list of compartments, and what is in them beside
their ids and parents, has no part in whether the list is a forest or in its ways up; and a way up
is the same wherever the compartments on it are. -/
namespace Estate

variable {cs cs' : List Compartment} {edit : Compartment → Compartment} {c : Compartment}
  {way : List Compartment}

/-- The chain of a compartment in a forest is its whole way up. -/
theorem Forest.ascent_chain {forest : Forest} {id : String} (found : forest.get? id = some c) :
    Ascent forest.compartments c (forest.chain id) := by
  have member : c ∈ forest.compartments := (get?_eq_some_iff.mp found).1
  simpa [chain, found, size] using ascent_climb (forest.rooted c member)

theorem Forest.orderly (forest : Forest) : Orderly forest.compartments where
  distinct := forest.distinct
  known c member _ := parent_mem_of_reachesRoot (forest.rooted c member)
  rooted c member := rooted_of_reachesRoot (forest.rooted c member)

/-- Every forest is the one that its compartments make. -/
theorem Forest.build_compartments (forest : Forest) : build forest.compartments = .ok forest := by
  obtain ⟨same, built⟩ := build_isOk_iff.mpr forest.orderly
  obtain ⟨kept, _⟩ := build_eq_ok built
  cases same
  cases forest
  cases kept
  exact built

theorem Ascent.mem_self (ascent : Ascent cs c way) : c ∈ way := by
  cases ascent with
  | top _ => exact List.mem_singleton_self c
  | up _ _ => exact List.mem_cons_self

/-- A way up to a root is one wherever all compartments on it are. -/
theorem Ascent.within (ascent : Ascent cs c way) (rooted : Rooted cs c)
    (distinct : (cs'.map (·.id)).Nodup) (kept : ∀ p ∈ way, p ∈ cs') : Ascent cs' c way := by
  -- Without a root at its end the way up might go on in the other list.
  induction ascent with
  | top none =>
    cases rooted with
    | root alone => exact .top (by rw [parentIn, alone]; rfl)
    | under above _ => rw [none] at above; contradiction
  | @up c p way above rest ih =>
    obtain ⟨_, named⟩ := parentIn_eq_some above
    have inside : p ∈ cs' := kept p (List.mem_cons_of_mem _ rest.mem_self)
    have above' : parentIn cs' c = some p := by
      rw [parentIn, named, Option.bind_some, findCompartment_eq_some_iff distinct]
      exact ⟨inside, rfl⟩
    cases rooted with
    | root alone => rw [alone] at named; contradiction
    | under other rooted =>
      obtain rfl := Option.some.inj (above.symm.trans other)
      exact .up above' (ih rooted fun q member => kept q (List.mem_cons_of_mem _ member))

/-- A way up is the same in every forest that has all compartments on it. -/
theorem Forest.chain_eq_of_subset {forest forest' : Forest} {id : String}
    (known : forest.get? id = some c)
    (kept : ∀ p ∈ forest.chain id, p ∈ forest'.compartments) :
    forest'.get? id = some c ∧ forest'.chain id = forest.chain id := by
  have ascent := ascent_chain known
  obtain ⟨member, named⟩ := get?_eq_some_iff.mp known
  have known' : forest'.get? id = some c :=
    get?_eq_some_iff.mpr ⟨kept c ascent.mem_self, named⟩
  have rooted := rooted_of_reachesRoot (forest.rooted c member)
  exact ⟨known', (ascent_chain known').unique (ascent.within rooted forest'.distinct kept)⟩

/-- The second list has the compartments of the first one in any order, each rewritten but left
below its parent. -/
structure Rearranged (edit : Compartment → Compartment) (cs cs' : List Compartment) : Prop where
  id : ∀ c, (edit c).id = c.id
  parentId : ∀ c, (edit c).parentId = c.parentId
  perm : cs'.Perm (cs.map edit)

namespace Rearranged

variable (moved : Rearranged edit cs cs') (distinct : (cs.map (·.id)).Nodup)
include moved

theorem ids : (cs'.map (·.id)).Perm (cs.map (·.id)) := by
  have same : (cs.map edit).map (·.id) = cs.map (·.id) := by simp [moved.id]
  exact same ▸ moved.perm.map (·.id)

include distinct

theorem findCompartment_eq (id : String) :
    findCompartment cs' id = (findCompartment cs id).map edit := by
  have distinct' : (cs'.map (·.id)).Nodup := moved.ids.nodup_iff.mpr distinct
  ext c'
  rw [findCompartment_eq_some_iff distinct', moved.perm.mem_iff, List.mem_map,
    Option.map_eq_some_iff]
  constructor
  · rintro ⟨⟨c, member, rfl⟩, named⟩
    rw [moved.id] at named
    exact ⟨c, (findCompartment_eq_some_iff distinct).mpr ⟨member, named⟩, rfl⟩
  · rintro ⟨c, found, rfl⟩
    obtain ⟨member, named⟩ := (findCompartment_eq_some_iff distinct).mp found
    exact ⟨⟨c, member, rfl⟩, (moved.id c).trans named⟩

theorem parentIn_eq (c : Compartment) : parentIn cs' (edit c) = (parentIn cs c).map edit := by
  cases named : c.parentId with
  | none => simp [parentIn, moved.parentId, named]
  | some id => simpa [parentIn, moved.parentId, named] using moved.findCompartment_eq distinct id

theorem rooted (rooted : Rooted cs c) : Rooted cs' (edit c) := by
  induction rooted with
  | root none => exact .root ((moved.parentId _).trans none)
  | @under c p above _ ih =>
    have above' : parentIn cs' (edit c) = some (edit p) := by
      rw [moved.parentIn_eq distinct, above, Option.map_some]
    exact .under above' ih

theorem ascent (ascent : Ascent cs c way) : Ascent cs' (edit c) (way.map edit) := by
  induction ascent with
  | @top c none =>
    have none' : parentIn cs' (edit c) = .none := by
      rw [moved.parentIn_eq distinct, none, Option.map_none]
    exact .top none'
  | @up c p way above _ ih =>
    have above' : parentIn cs' (edit c) = some (edit p) := by
      rw [moved.parentIn_eq distinct, above, Option.map_some]
    exact .up above' ih

omit distinct in
theorem orderly (orderly : Orderly cs) : Orderly cs' := by
  refine ⟨moved.ids.nodup_iff.mpr orderly.distinct, ?known, ?rooted⟩
  case known =>
    intro c' member parent named
    obtain ⟨c, inside, rfl⟩ := List.mem_map.mp (moved.perm.mem_iff.mp member)
    rw [moved.parentId] at named
    exact moved.ids.mem_iff.mpr (orderly.known c inside parent named)
  case rooted =>
    intro c' member
    obtain ⟨c, inside, rfl⟩ := List.mem_map.mp (moved.perm.mem_iff.mp member)
    exact moved.rooted orderly.distinct (orderly.rooted c inside)

omit distinct in
/-- A rearranged forest is a forest, with the compartments and the ways up rewritten. -/
theorem build_eq_ok {forest : Forest} (built : Forest.build cs = .ok forest) :
    ∃ forest', Forest.build cs' = .ok forest' ∧ ∀ id,
      forest'.get? id = (forest.get? id).map edit ∧
        forest'.chain id = (forest.chain id).map edit := by
  obtain ⟨rfl, orderly⟩ := Forest.build_eq_ok built
  obtain ⟨forest', built'⟩ := Forest.build_isOk_iff.mpr (moved.orderly orderly)
  obtain ⟨rfl, _⟩ := Forest.build_eq_ok built'
  refine ⟨forest', built', fun id => ?_⟩
  have found : forest'.get? id = (forest.get? id).map edit := by
    rw [Forest.get?_eq, Forest.get?_eq, moved.findCompartment_eq forest.distinct]
  refine ⟨found, ?_⟩
  cases present : forest.get? id with
  | none => simp [Forest.chain, found, present]
  | some c =>
    have present' : forest'.get? id = some (edit c) := by rw [found, present, Option.map_some]
    have way := moved.ascent forest.distinct (Forest.ascent_chain present)
    exact (Forest.ascent_chain present').unique way

end Rearranged
end Estate
