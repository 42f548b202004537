import Estate.Proofs.Compartment.Rearrangement

/-! A new level on top. When a root is put below a compartment that is new, the ways up that ended
at the root go on by one step, to the new compartment, and all others stay as they are; so what
comes of a forest is a forest. -/
namespace Estate

variable {cs cs' : List Compartment} {root top c p : Compartment} {way : List Compartment}
  {forest : Forest} {id : String}

/-- A compartment after the root was put below the new one. -/
def hung (root top c : Compartment) : Compartment :=
  if c = root then { c with parentId := some top.id } else c

/-- The second list has what is in the first one, with one of the roots put below a compartment
without parent and with a new id, in any order. -/
structure Raised (root top : Compartment) (cs cs' : List Compartment) : Prop where
  member : root ∈ cs
  isRoot : root.parentId = none
  isTop : top.parentId = none
  fresh : top.id ∉ cs.map (·.id)
  perm : cs'.Perm (top :: cs.map (hung root top))

theorem hung_root (root top : Compartment) :
    hung root top root = { root with parentId := some top.id } := if_pos rfl

theorem hung_of_ne (other : c ≠ root) : hung root top c = c := if_neg other

theorem hung_id (root top c : Compartment) : (hung root top c).id = c.id := by
  unfold hung
  split <;> rfl

theorem hung_policies (root top c : Compartment) : (hung root top c).policies = c.policies := by
  unfold hung
  split <;> rfl

theorem hung_suppressed (root top c : Compartment) :
    (hung root top c).suppressed = c.suppressed := by
  unfold hung
  split <;> rfl

namespace Raised

variable (raised : Raised root top cs cs')
include raised

theorem ids : (cs'.map (·.id)).Perm (top.id :: cs.map (·.id)) := by
  have same : (cs.map (hung root top)).map (·.id) = cs.map (·.id) := by simp [hung_id]
  have moved := raised.perm.map (·.id)
  rwa [List.map_cons, same] at moved

theorem top_mem : top ∈ cs' := raised.perm.mem_iff.mpr List.mem_cons_self

theorem hung_mem (member : c ∈ cs) : hung root top c ∈ cs' :=
  raised.perm.mem_iff.mpr (List.mem_cons_of_mem _ (List.mem_map_of_mem member))

variable (distinct : (cs.map (·.id)).Nodup)
include distinct

theorem nodup : (cs'.map (·.id)).Nodup :=
  raised.ids.nodup_iff.mpr (List.nodup_cons.mpr ⟨raised.fresh, distinct⟩)

theorem findCompartment_eq (other : id ≠ top.id) :
    findCompartment cs' id = (findCompartment cs id).map (hung root top) := by
  ext c'
  rw [findCompartment_eq_some_iff (raised.nodup distinct), raised.perm.mem_iff, List.mem_cons,
    List.mem_map, Option.map_eq_some_iff]
  constructor
  · rintro ⟨rfl | ⟨c, member, rfl⟩, named⟩
    · exact absurd named.symm other
    · rw [hung_id] at named
      exact ⟨c, (findCompartment_eq_some_iff distinct).mpr ⟨member, named⟩, rfl⟩
  · rintro ⟨c, found, rfl⟩
    obtain ⟨member, named⟩ := (findCompartment_eq_some_iff distinct).mp found
    exact ⟨.inr ⟨c, member, rfl⟩, (hung_id ..).trans named⟩

theorem parentIn_root : parentIn cs' (hung root top root) = some top := by
  rw [hung_root, parentIn, Option.bind_some,
    findCompartment_eq_some_iff (raised.nodup distinct)]
  exact ⟨raised.top_mem, rfl⟩

theorem parentIn_eq (above : parentIn cs c = some p) :
    parentIn cs' (hung root top c) = some (hung root top p) := by
  obtain ⟨member, named⟩ := parentIn_eq_some above
  have other : c ≠ root := by
    rintro rfl
    rw [raised.isRoot] at named
    contradiction
  have old : p.id ≠ top.id := fun same => raised.fresh (same ▸ List.mem_map_of_mem member)
  have found : findCompartment cs p.id = some p :=
    (findCompartment_eq_some_iff distinct).mpr ⟨member, rfl⟩
  rw [hung_of_ne other, parentIn, named, Option.bind_some, raised.findCompartment_eq distinct old,
    found, Option.map_some]

theorem rooted (rooted : Rooted cs c) : Rooted cs' (hung root top c) := by
  induction rooted with
  | @root c alone =>
    by_cases own : c = root
    · subst own
      exact .under (raised.parentIn_root distinct) (.root raised.isTop)
    · rw [hung_of_ne own]
      exact .root alone
  | under above _ ih => exact .under (raised.parentIn_eq distinct above) ih

/-- The way up to the root goes on to the new compartment. -/
theorem ascent (ascent : Ascent cs c way) (last : way.getLast? = some root) :
    Ascent cs' (hung root top c) (way.map (hung root top) ++ [top]) := by
  induction ascent with
  | top _ =>
    obtain rfl : _ = root := Option.some.inj last
    have alone : parentIn cs' top = none := by rw [parentIn, raised.isTop]; rfl
    exact .up (raised.parentIn_root distinct) (.top alone)
  | @up c p way above rest ih =>
    have last' : way.getLast? = some root := by
      cases rest <;> exact last
    exact .up (raised.parentIn_eq distinct above) (ih last')

omit distinct in
theorem orderly (orderly : Orderly cs) : Orderly cs' := by
  refine ⟨raised.nodup orderly.distinct, ?known, ?rooted⟩
  case known =>
    intro c' member parent named
    apply raised.ids.mem_iff.mpr
    rcases List.mem_cons.mp (raised.perm.mem_iff.mp member) with rfl | old
    · rw [raised.isTop] at named
      contradiction
    · obtain ⟨c, inside, rfl⟩ := List.mem_map.mp old
      by_cases own : c = root
      · subst own
        rw [hung_root] at named
        obtain rfl := Option.some.inj named
        exact List.mem_cons_self
      · rw [hung_of_ne own] at named
        exact List.mem_cons_of_mem _ (orderly.known c inside parent named)
  case rooted =>
    intro c' member
    rcases List.mem_cons.mp (raised.perm.mem_iff.mp member) with rfl | old
    · exact .root raised.isTop
    · obtain ⟨c, inside, rfl⟩ := List.mem_map.mp old
      exact raised.rooted orderly.distinct (orderly.rooted c inside)

omit distinct in
theorem exists_build_eq_ok (built : Forest.build cs = .ok forest) :
    ∃ forest', Forest.build cs' = .ok forest' := by
  obtain ⟨rfl, orderly⟩ := Forest.build_eq_ok built
  exact Forest.build_isOk_iff.mpr (raised.orderly orderly)

end Raised

section Chain

variable {forest' : Forest} (raised : Raised root top forest.compartments forest'.compartments)
include raised

theorem Raised.get?_eq (other : id ≠ top.id) :
    forest'.get? id = (forest.get? id).map (hung root top) := by
  rw [Forest.get?_eq, Forest.get?_eq, raised.findCompartment_eq forest.distinct other]

theorem Raised.ne_top (found : forest.get? id = some c) : id ≠ top.id := by
  obtain ⟨member, named⟩ := Forest.get?_eq_some_iff.mp found
  rintro rfl
  exact raised.fresh (named ▸ List.mem_map_of_mem member)

theorem Raised.chain_eq_append (found : forest.get? id = some c)
    (last : (forest.chain id).getLast? = some root) :
    forest'.chain id = (forest.chain id).map (hung root top) ++ [top] := by
  have found' : forest'.get? id = some (hung root top c) := by
    rw [raised.get?_eq (raised.ne_top found), found, Option.map_some]
  have way := raised.ascent forest.distinct (Forest.ascent_chain found) last
  exact (Forest.ascent_chain found').unique way

theorem Raised.chain_eq (found : forest.get? id = some c)
    (last : (forest.chain id).getLast? ≠ some root) :
    forest'.get? id = some c ∧ forest'.chain id = forest.chain id := by
  apply Forest.chain_eq_of_subset found
  intro p onWay
  have ascent := Forest.ascent_chain found
  have member := ascent.subset (Forest.get?_eq_some_iff.mp found).1 p onWay
  have other : p ≠ root := by
    rintro rfl
    exact last (ascent.getLast?_eq onWay raised.isRoot)
  have same : hung root top p = p := hung_of_ne other
  exact same ▸ raised.hung_mem member

end Chain
end Estate
