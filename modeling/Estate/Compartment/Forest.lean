import Estate.Compartment.Arena

/-! The hierarchy of compartments. A forest is a list of compartments with distinct ids in which
every way up ends at a root; a list that is none is refused with the first fault in a fixed order.
What is above and below a compartment is looked up in the arena of the list. -/
namespace Estate

/-- Compartments with distinct ids, each below a root. No way up is longer than the list. -/
@[ext] structure Forest where
  compartments : List Compartment
  distinct : (compartments.map (·.id)).Nodup
  rooted : ∀ c ∈ compartments, reachesRoot compartments compartments.length c = true

namespace Forest

instance : Inhabited Forest := ⟨⟨[], List.Pairwise.nil, nofun⟩⟩

/-- The forest of a list of compartments. Repeated ids are found first, then missing parents, then
compartments that no root is above: fewer are met on the ways down from the roots than there
are. -/
def build (cs : List Compartment) : Except ForestError Forest :=
  match linking : Arena.link cs with
  | .error fault => .error fault
  | .ok a =>
    let met := a.reached
    if whole : met.length = cs.length then
      have agrees := Arena.linked_of_link linking
      .ok ⟨cs, agrees.1, agrees.2.2.reachesRoot_of_length_eq agrees.1 whole⟩
    else
      let lost := (List.finRange cs.length).filter fun i => !met.contains i
      .error (.parentCycle (lost.map fun i => (cs.get i).id))

theorem exists_link (f : Forest) : ∃ a, Arena.link f.compartments = .ok a ∧ a.Linked :=
  Arena.link_isOk f.distinct fun c member _ => parent_mem_of_reachesRoot (f.rooted c member)

/-- The arena of the compartments. -/
def arena (f : Forest) : Arena f.compartments :=
  match linking : Arena.link f.compartments with
  | .ok a => a
  | .error _ => False.elim (by
      obtain ⟨_, links, _⟩ := f.exists_link
      rw [links] at linking
      contradiction)

def get? (f : Forest) (id : String) : Option Compartment :=
  (f.arena.index.get? id).map f.compartments.get

def contains (f : Forest) (id : String) : Bool := f.arena.index.contains id

def size (f : Forest) : Nat := f.compartments.length

/-- The compartments without parent, in order. -/
def roots (f : Forest) : List Compartment := f.arena.roots.map f.compartments.get

def parent? (f : Forest) (id : String) : Option Compartment :=
  (f.get? id).bind fun c => c.parentId.bind f.get?

/-- The compartments directly below an id, in order. -/
def children (f : Forest) (id : String) : List Compartment :=
  (f.arena.index.get? id).elim [] fun p => (f.arena.children.get p).map f.compartments.get

/-- The compartment with an id and those above it, up to its root. -/
def chain (f : Forest) (id : String) : List Compartment :=
  (f.get? id).elim [] (climb f.compartments f.size)

/-- The number of compartments above the one with an id. -/
def depth? (f : Forest) (id : String) : Option Nat :=
  match f.chain id with
  | [] => none
  | _ :: above => some above.length

variable {f : Forest} {id : String} {c child : Compartment}

theorem linked_arena (f : Forest) : f.arena.Linked := by
  unfold arena
  split
  · next linking => exact (Arena.linked_of_link linking).2.2
  · next linking =>
    obtain ⟨_, links, _⟩ := f.exists_link
    rw [links] at linking
    contradiction

/-- The index finds what a search through the list finds. -/
theorem get?_eq (f : Forest) (id : String) : f.get? id = findCompartment f.compartments id := by
  ext c
  rw [get?, Option.map_eq_some_iff, findCompartment_eq_some_iff f.distinct]
  constructor
  · rintro ⟨i, found, rfl⟩
    exact ⟨List.get_mem _ i, (f.linked_arena.index id i).mp found⟩
  · rintro ⟨member, named⟩
    obtain ⟨i, rfl⟩ := List.mem_iff_get.mp member
    exact ⟨i, (f.linked_arena.index id i).mpr named, rfl⟩

theorem get?_eq_some_iff : f.get? id = some c ↔ c ∈ f.compartments ∧ c.id = id := by
  rw [get?_eq, findCompartment_eq_some_iff f.distinct]

theorem parentIn_eq_bind (f : Forest) (c : Compartment) :
    parentIn f.compartments c = c.parentId.bind f.get? :=
  congrArg c.parentId.bind (funext f.get?_eq).symm

/-- The roots are those that a search for missing parents finds. -/
theorem roots_eq_filter (f : Forest) : f.roots = f.compartments.filter (·.parentId = none) := by
  rw [roots, f.linked_arena.roots]
  exact Arena.map_get_filter (·.parentId = none)

/-- The children of a compartment are those that a search for its id as a parent finds. -/
theorem children_eq_filter (f : Forest) (id : String) :
    f.children id = f.compartments.filter (·.parentId = some id) := by
  unfold children
  cases found : f.arena.index.get? id with
  | none =>
    refine (List.filter_eq_nil_iff.mpr fun c member named => ?_).symm
    have known := parent_mem_of_reachesRoot (f.rooted c member) (of_decide_eq_true named)
    obtain ⟨_, member, same⟩ := List.mem_map.mp known
    obtain ⟨i, rfl⟩ := List.mem_iff_get.mp member
    rw [(f.linked_arena.index id i).mpr same] at found
    contradiction
  | some p =>
    obtain rfl := (f.linked_arena.index id p).mp found
    rw [Option.elim_some, f.linked_arena.children]
    exact Arena.map_get_filter (·.parentId = some _)

theorem mem_children_iff :
    child ∈ f.children id ↔ child ∈ f.compartments ∧ child.parentId = some id := by
  rw [children_eq_filter, List.mem_filter, decide_eq_true_iff]

theorem length_chain_le_succ (f : Forest) (id : String) : (f.chain id).length ≤ f.size + 1 := by
  unfold chain
  cases f.get? id with
  | none => simp
  | some c => exact length_climb_le ..

/-- The chain of a child goes on with that of its parent. -/
theorem chain_of_mem_children (below : child ∈ f.children id) :
    f.chain child.id = child :: f.chain id := by
  obtain ⟨member, named⟩ := mem_children_iff.mp below
  have found : f.get? child.id = some child := get?_eq_some_iff.mpr ⟨member, rfl⟩
  have above : parentIn f.compartments child = f.get? id := by
    rw [parentIn_eq_bind, named, Option.bind_some]
  have reaches := f.rooted child member
  rw [chain, chain, found, Option.elim_some, size]
  cases steps : f.compartments.length with
  | zero => exact absurd (List.length_eq_zero_iff.mp steps ▸ member) List.not_mem_nil
  | succ steps =>
    rw [steps] at reaches
    rw [climb, above]
    rcases reachesRoot_succ_iff.mp reaches with root | ⟨p, parent, reaches⟩
    · rw [root] at named
      contradiction
    · rw [← above, parent, Option.elim_some, Option.elim_some, climb_succ_of_reachesRoot reaches]

/-- Going down cannot go on for long, since the way back up gets longer. -/
theorem length_chain_lt (below : child ∈ f.children id) :
    f.size + 1 - (f.chain child.id).length < f.size + 1 - (f.chain id).length := by
  have bound := f.length_chain_le_succ child.id
  have longer := congrArg List.length (chain_of_mem_children below)
  rw [List.length_cons] at longer
  omega

end Forest
end Estate
