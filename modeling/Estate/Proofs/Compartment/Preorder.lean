import Estate.Proofs.Compartment.Chain

/-! A forest from its roots downwards. What the arena has below a compartment is what has it as its
parent, so the ways down are the ways up reversed: going down ends, and in preorder every
compartment stands once, as deep as its way up is long. -/
namespace Estate

variable {cs : List Compartment} {c p q x : Compartment} {way : List Compartment}

/-- The way up goes on alike from compartments with the same parent, so there is only one of them
on it. -/
theorem Ascent.eq_of_parentIn_eq (ascent : Ascent cs x way) (first : p ∈ way) (second : q ∈ way)
    (same : parentIn cs p = parentIn cs q) : p = q := by
  obtain ⟨rest, inside, up⟩ := ascent.exists_suffix first
  obtain ⟨rest', inside', up'⟩ := ascent.exists_suffix second
  have length : rest.length = rest'.length := by
    cases up with
    | top none =>
      cases up' with
      | top _ => rfl
      | up above _ => rw [← same, none] at above; contradiction
    | up above further =>
      cases up' with
      | top none => rw [same, none] at above; contradiction
      | up above' further' =>
        obtain rfl := Option.some.inj (above.symm.trans (same.trans above'))
        rw [further.unique further', List.length_cons, List.length_cons]
  have nested := List.suffix_of_suffix_length_le inside inside' (Nat.le_of_eq length)
  obtain rfl := nested.eq_of_length length
  exact Option.some.inj (up.head?_eq.symm.trans up'.head?_eq)

/-- Below a compartment that is on a way up but not its beginning there is one of its children. -/
theorem Ascent.exists_child (ascent : Ascent cs x way) (onWay : p ∈ way) (further : x ≠ p) :
    ∃ q ∈ way, parentIn cs q = some p := by
  induction ascent with
  | top _ => exact absurd (List.mem_singleton.mp onWay).symm further
  | @up x next way above _ ih =>
    have later := (List.mem_cons.mp onWay).resolve_left (Ne.symm further)
    by_cases same : next = p
    · exact ⟨x, List.mem_cons_self, same ▸ above⟩
    · obtain ⟨q, member, child⟩ := ih later same
      exact ⟨q, List.mem_cons_of_mem _ member, child⟩

/-- Where a compartment stands in a forest: how many levels down, and directly below which. -/
structure Spot where
  compartment : Compartment
  level : Nat
  above : Option Compartment
deriving DecidableEq

namespace Forest

variable {f : Forest} {id : String} {level : Nat} {above : Option Compartment} {spot : Spot}

/-- A compartment and all below it in preorder. -/
def preorder (f : Forest) (level : Nat) (above : Option Compartment) (c : Compartment) :
    List Spot :=
  ⟨c, level, above⟩ ::
    (f.children c.id).attach.flatMap fun ⟨child, _⟩ => f.preorder (level + 1) (some c) child
termination_by f.size + 1 - (f.chain c.id).length
decreasing_by exact length_chain_lt ‹_›

/-- All compartments in preorder. -/
def spots (f : Forest) : List Spot := f.roots.flatMap (f.preorder 0 none)

theorem preorder_eq (f : Forest) (level : Nat) (above : Option Compartment) (c : Compartment) :
    f.preorder level above c =
      ⟨c, level, above⟩ :: (f.children c.id).flatMap (f.preorder (level + 1) (some c)) := by
  rw [preorder, List.flatMap_subtype fun _ _ => rfl, List.unattach_attach]

/-- Going down through what is below a compartment ends. -/
theorem wellFounded_below (f : Forest) :
    WellFounded fun child c : Compartment => child ∈ f.children c.id :=
  Subrelation.wf length_chain_lt
    (InvImage.wf (fun c : Compartment => f.size + 1 - (f.chain c.id).length) Nat.lt_wfRel.wf)

/-- The compartments that have a compartment as their parent, or none, in order. -/
def siblings (f : Forest) (above : Option Compartment) : List Compartment :=
  f.compartments.filter fun c => f.parent? c.id = above

theorem mem_siblings_iff : c ∈ f.siblings above ↔ c ∈ f.compartments ∧ f.parent? c.id = above := by
  simp [siblings]

theorem roots_eq_siblings (f : Forest) : f.roots = f.siblings none := by
  rw [roots_eq_filter]
  refine List.filter_congr fun c member => ?_
  rw [Bool.eq_iff_iff, decide_eq_true_iff, decide_eq_true_iff,
    parent?_eq_none_iff (get?_of_mem member)]

theorem parent?_eq_some_iff (inside : c ∈ f.compartments) :
    f.parent? c.id = some p ↔ p ∈ f.compartments ∧ c.parentId = some p.id := by
  rw [parent?_eq (get?_of_mem inside)]
  constructor
  · exact parentIn_eq_some
  · rintro ⟨member, named⟩
    rw [parentIn_eq_bind, named, Option.bind_some]
    exact get?_of_mem member

/-- What names a compartment as its parent has it as its parent. -/
theorem children_eq_siblings (member : p ∈ f.compartments) :
    f.children p.id = f.siblings (some p) := by
  rw [children_eq_filter]
  refine List.filter_congr fun c inside => ?_
  rw [Bool.eq_iff_iff, decide_eq_true_iff, decide_eq_true_iff, parent?_eq_some_iff inside]
  exact (and_iff_right member).symm

/-- Nothing is below an id that no compartment has. -/
theorem children_eq_nil (unknown : id ∉ f.compartments.map (·.id)) : f.children id = [] := by
  refine List.eq_nil_iff_forall_not_mem.mpr fun c below => unknown ?_
  obtain ⟨member, named⟩ := mem_children_iff.mp below
  exact f.orderly.known c member id named

theorem nodup_compartments (f : Forest) : f.compartments.Nodup := .of_map _ f.distinct

theorem nodup_siblings (f : Forest) (above : Option Compartment) : (f.siblings above).Nodup :=
  f.nodup_compartments.filter _

theorem mem_of_mem_siblings (member : c ∈ f.siblings above) : c ∈ f.compartments :=
  (mem_siblings_iff.mp member).1

theorem ascent_chain_of_mem (member : c ∈ f.compartments) :
    Ascent f.compartments c (f.chain c.id) := ascent_chain (get?_of_mem member)

theorem parentIn_of_mem_siblings (member : c ∈ f.siblings above) :
    parentIn f.compartments c = above := by
  obtain ⟨inside, parent⟩ := mem_siblings_iff.mp member
  rw [← parent, parent?_eq (get?_of_mem inside)]

theorem mem_chain_self (member : c ∈ f.compartments) : c ∈ f.chain c.id :=
  (ascent_chain_of_mem member).mem_self

/-- The way up to a compartment from any other goes through one of its children. -/
theorem exists_child_of_mem_chain (held : x ∈ f.compartments) (onWay : c ∈ f.chain x.id)
    (further : x ≠ c) : ∃ q ∈ f.children c.id, q ∈ f.chain x.id := by
  have ascent := ascent_chain_of_mem held
  obtain ⟨q, onWay', parent⟩ := ascent.exists_child onWay further
  have inside := ascent.subset held q onWay'
  exact ⟨q, mem_children_iff.mpr ⟨inside, (parentIn_eq_some parent).2⟩, onWay'⟩

/-- The spot is that of a compartment at its depth and below its parent. -/
structure Placed (f : Forest) (spot : Spot) : Prop where
  member : spot.compartment ∈ f.compartments
  depth : f.depth? spot.compartment.id = some spot.level
  parent : f.parent? spot.compartment.id = spot.above

/-- How deep the compartments below one are that is so deep, or those below none. -/
def LevelBelow (f : Forest) (level : Nat) : Option Compartment → Prop
  | none => level = 0
  | some p => ∃ above, f.depth? p.id = some above ∧ level = above + 1

theorem levelBelow_none : f.LevelBelow 0 none := rfl

theorem depth?_of_mem_siblings (below : f.LevelBelow level above) (member : c ∈ f.siblings above) :
    f.depth? c.id = some level := by
  obtain ⟨inside, parent⟩ := mem_siblings_iff.mp member
  have known := get?_of_mem inside
  rcases depth?_cases known with ⟨alone, depth⟩ | ⟨p, depth, parent', depth', succ⟩
  · rw [(parent?_eq_none_iff known).mpr alone] at parent
    subst parent
    rw [depth, show level = 0 from below]
  · rw [parent'] at parent
    subst parent
    obtain ⟨_, found, rfl⟩ := below
    rw [succ, Option.some.inj (depth'.symm.trans found)]

/-- Every spot below a compartment is where its own compartment belongs. -/
theorem placed_of_mem_preorder (below : f.LevelBelow level above) (member : c ∈ f.siblings above)
    (inside : spot ∈ f.preorder level above c) :
    f.Placed spot ∧ c ∈ f.chain spot.compartment.id := by
  induction c using f.wellFounded_below.induction generalizing level above with
  | _ c ih =>
    obtain ⟨held, parent⟩ := mem_siblings_iff.mp member
    have depth := depth?_of_mem_siblings below member
    rw [preorder_eq] at inside
    rcases List.mem_cons.mp inside with rfl | inside
    · exact ⟨⟨held, depth, parent⟩, mem_chain_self held⟩
    · obtain ⟨q, child, inside⟩ := List.mem_flatMap.mp inside
      have below' : f.LevelBelow (level + 1) (some c) := ⟨level, depth, rfl⟩
      have sibling := children_eq_siblings held ▸ child
      obtain ⟨placed, onWay⟩ := ih q child below' sibling inside
      refine ⟨placed, ?_⟩
      -- What is below the child is below its parent: the chain goes through both.
      obtain ⟨rest, suffix, up⟩ := (ascent_chain_of_mem placed.member).exists_suffix onWay
      have own := up.unique (ascent_chain_of_mem (mem_of_mem_siblings sibling))
      rw [chain_of_mem_children child] at own
      exact suffix.subset (own ▸ List.mem_cons_of_mem _ (mem_chain_self held))

/-- There is a spot for everything below a compartment. -/
theorem exists_spot_of_mem_chain (held : x ∈ f.compartments) (onWay : c ∈ f.chain x.id) :
    ∃ spot ∈ f.preorder level above c, spot.compartment = x := by
  induction c using f.wellFounded_below.induction generalizing level above with
  | _ c ih =>
    rw [preorder_eq]
    by_cases same : x = c
    · exact ⟨_, List.mem_cons_self, same.symm⟩
    · obtain ⟨q, child, onWay⟩ := exists_child_of_mem_chain held onWay same
      obtain ⟨spot, found, rfl⟩ := ih q child onWay
      exact ⟨spot, List.mem_cons_of_mem _ (List.mem_flatMap.mpr ⟨q, child, found⟩), rfl⟩

/-- Siblings have nothing below them in common, so all below them stands once if it stands once
below each of them. -/
theorem nodup_flatMap_siblings (below : f.LevelBelow level above)
    (each : ∀ c ∈ f.siblings above, ((f.preorder level above c).map (·.compartment)).Nodup) :
    (((f.siblings above).flatMap (f.preorder level above)).map (·.compartment)).Nodup := by
  rw [List.map_flatMap, List.nodup_flatMap]
  refine ⟨each, (f.nodup_siblings above).imp_of_mem ?_⟩
  intro c c' member member' different x first second
  obtain ⟨spot, inside, rfl⟩ := List.mem_map.mp first
  obtain ⟨spot', inside', same⟩ := List.mem_map.mp second
  obtain ⟨placed, onWay⟩ := placed_of_mem_preorder below member inside
  obtain ⟨_, onWay'⟩ := placed_of_mem_preorder below member' inside'
  rw [same] at onWay'
  have alike : parentIn f.compartments c = parentIn f.compartments c' :=
    (parentIn_of_mem_siblings member).trans (parentIn_of_mem_siblings member').symm
  exact different ((ascent_chain_of_mem placed.member).eq_of_parentIn_eq onWay onWay' alike)

theorem nodup_preorder (below : f.LevelBelow level above) (member : c ∈ f.siblings above) :
    ((f.preorder level above c).map (·.compartment)).Nodup := by
  induction c using f.wellFounded_below.induction generalizing level above with
  | _ c ih =>
    have held := mem_of_mem_siblings member
    have below' : f.LevelBelow (level + 1) (some c) :=
      ⟨level, depth?_of_mem_siblings below member, rfl⟩
    have sibling := children_eq_siblings held
    rw [preorder_eq, sibling, List.map_cons, List.nodup_cons]
    refine ⟨?_, nodup_flatMap_siblings below' fun q child => ih q (sibling ▸ child) below' child⟩
    intro again
    obtain ⟨spot, inside, same⟩ := List.mem_map.mp again
    obtain ⟨q, child, inside⟩ := List.mem_flatMap.mp inside
    obtain ⟨_, onWay⟩ := placed_of_mem_preorder below' child inside
    have ascent := ascent_chain_of_mem (mem_of_mem_siblings child)
    rw [chain_of_mem_children (sibling ▸ child)] at ascent
    have same' : spot.compartment = c := same
    exact ascent.not_mem_above (same' ▸ onWay)

theorem spots_eq (f : Forest) : f.spots = (f.siblings none).flatMap (f.preorder 0 none) := by
  rw [spots, roots_eq_siblings]

theorem placed_of_mem_spots (inside : spot ∈ f.spots) : f.Placed spot := by
  rw [spots_eq] at inside
  obtain ⟨root, member, inside⟩ := List.mem_flatMap.mp inside
  exact (placed_of_mem_preorder levelBelow_none member inside).1

/-- In preorder a forest has every compartment once. -/
theorem spots_perm (f : Forest) : (f.spots.map (·.compartment)).Perm f.compartments := by
  have once : (f.spots.map (·.compartment)).Nodup := by
    rw [spots_eq]
    exact nodup_flatMap_siblings levelBelow_none fun c member =>
      nodup_preorder levelBelow_none member
  refine (List.perm_ext_iff_of_nodup once f.nodup_compartments).mpr fun x => ?_
  constructor
  · intro inside
    obtain ⟨spot, found, rfl⟩ := List.mem_map.mp inside
    exact (placed_of_mem_spots found).member
  · intro held
    have ascent := ascent_chain_of_mem held
    obtain ⟨root, ends, alone⟩ := ascent.exists_getLast?_eq
    have onWay := List.mem_of_getLast? ends
    have inside := ascent.subset held root onWay
    have isRoot := mem_siblings_iff.mpr ⟨inside, (parent?_eq (get?_of_mem inside)).trans alone⟩
    obtain ⟨spot, found, rfl⟩ := exists_spot_of_mem_chain held onWay
    rw [spots_eq]
    exact List.mem_map_of_mem (List.mem_flatMap.mpr ⟨root, isRoot, found⟩)

end Forest
end Estate
