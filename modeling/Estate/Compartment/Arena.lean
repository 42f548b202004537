import Estate.StringMap
import Estate.Compartment.Lineage

/-! Compartments in an arena: the ids, the roots and what is directly below each compartment, by
positions in a list. The links are made once, in two passes over the list, and nothing on the way
down from the roots is met twice. -/
namespace Estate

/-- Why a list of compartments is no forest. -/
inductive ForestError where
  | duplicateCompartment (id : String)
  | unknownParent (id parentId : String)
  | parentCycle (ids : List String)
deriving DecidableEq

def ForestError.message : ForestError → String
  | duplicateCompartment id => s!"duplicate compartment id '{id}'"
  | unknownParent id parentId => s!"compartment '{id}' references unknown parent '{parentId}'"
  | parentCycle ids => "compartment parent chain is cyclic: " ++ ", ".intercalate ids

/-- The links between the compartments of a list, each of them told by its position. -/
structure Arena (cs : List Compartment) where
  index : StringMap (Fin cs.length)
  children : Vector (List (Fin cs.length)) cs.length
  roots : List (Fin cs.length)

namespace Arena

variable {cs : List Compartment}

def empty : Arena cs := ⟨.empty, .replicate _ [], []⟩

/-- Enters the id of the compartment at a position, which has to be new. -/
def number (a : Arena cs) (i : Fin cs.length) : Except ForestError (Arena cs) :=
  if a.index.contains (cs.get i).id then .error (.duplicateCompartment (cs.get i).id)
  else .ok { a with index := a.index.insert (cs.get i).id i }

/-- Puts a position last among the roots, or last among the children of the parent that the
compartment there names. -/
def hang (a : Arena cs) (i : Fin cs.length) : Except ForestError (Arena cs) :=
  match (cs.get i).parentId with
  | none => .ok { a with roots := a.roots ++ [i] }
  | some parentId =>
    match a.index.get? parentId with
    | none => .error (.unknownParent (cs.get i).id parentId)
    | some p => .ok { a with children := a.children.set p (a.children.get p ++ [i]) p.isLt }

/-- The arena of a list. All ids are entered first, since a child may come before its parent. -/
def link (cs : List Compartment) : Except ForestError (Arena cs) := do
  let numbered ← (List.finRange cs.length).foldlM number empty
  (List.finRange cs.length).foldlM hang numbered

/-- The positions met on the way down from those that wait. Each is met once, as long as it is
among the unmet; its children then wait too, and whichever came last is looked at first. -/
def descend (a : Arena cs) (unmet : List (Fin cs.length)) :
    (waiting : List (Fin cs.length)) → List (Fin cs.length)
  | [] => []
  | i :: waiting =>
    if i ∈ unmet then i :: a.descend (unmet.erase i) ((a.children.get i).reverse ++ waiting)
    else a.descend unmet waiting
termination_by waiting => (unmet.length, waiting.length)
decreasing_by
  · next member =>
    have := List.length_erase_of_mem member
    have := List.length_pos_of_mem member
    exact Prod.Lex.left _ _ (by omega)
  · exact Prod.Lex.right _ (by simp)

/-- The positions that some root is above, and those of the roots. -/
def reached (a : Arena cs) : List (Fin cs.length) :=
  a.descend (List.finRange cs.length) a.roots.reverse

variable {a b : Arena cs} {i p : Fin cs.length} {l : List (Fin cs.length)} {fault : ForestError}

section Numbering

/-- The index has the ids at some positions, and no others. -/
def Numbers (a : Arena cs) (l : List (Fin cs.length)) : Prop :=
  ∀ id i, a.index.get? id = some i ↔ i ∈ l ∧ (cs.get i).id = id

theorem Numbers.mem_ids_iff (numbers : a.Numbers l) {id : String} :
    id ∈ l.map (fun i => (cs.get i).id) ↔ ∃ i, a.index.get? id = some i := by
  simp only [List.mem_map, numbers id]

theorem Numbers.contains_iff (numbers : a.Numbers l) {id : String} :
    a.index.contains id = true ↔ id ∈ l.map fun i => (cs.get i).id := by
  rw [numbers.mem_ids_iff, StringMap.contains, Option.isSome_iff_exists]

theorem Numbers.number (numbers : a.Numbers l)
    (fresh : (cs.get i).id ∉ l.map fun i => (cs.get i).id) :
    ({ a with index := a.index.insert (cs.get i).id i } : Arena cs).Numbers (l ++ [i]) := by
  intro id j
  rw [StringMap.get?_insert, List.mem_append, List.mem_singleton]
  split
  · next same =>
    subst same
    constructor
    · intro found
      obtain rfl := Option.some.inj found
      exact ⟨.inr rfl, rfl⟩
    · rintro ⟨member | rfl, same⟩
      · exact absurd (List.mem_map.mpr ⟨j, member, same⟩) fresh
      · rfl
  · next other =>
    rw [numbers id j]
    constructor
    · exact fun ⟨member, same⟩ => ⟨.inl member, same⟩
    · rintro ⟨member | rfl, same⟩
      · exact ⟨member, same⟩
      · exact absurd same.symm other

/-- Numbering goes on until an id comes again. -/
theorem foldlM_number (numbers : a.Numbers l) {seen : List String}
    (entered : ∀ id, id ∈ seen ↔ id ∈ l.map fun i => (cs.get i).id) (rest : List (Fin cs.length)) :
    match firstSeen? seen (rest.map fun i => (cs.get i).id) with
    | some id => rest.foldlM number a = .error (.duplicateCompartment id)
    | none => ∃ b, rest.foldlM number a = .ok b ∧ b.Numbers (l ++ rest) ∧
        b.children = a.children ∧ b.roots = a.roots := by
  induction rest generalizing a l seen with
  | nil => exact ⟨a, rfl, by rwa [List.append_nil], rfl, rfl⟩
  | cons i rest ih =>
    rw [List.map_cons, firstSeen?, List.foldlM_cons]
    by_cases known : (cs.get i).id ∈ seen
    · have again := numbers.contains_iff.mpr ((entered _).mp known)
      rw [if_pos known, number, if_pos again]
      rfl
    · have fresh := fun again => known ((entered _).mpr again)
      have new : ¬ a.index.contains (cs.get i).id = true := fun again =>
        fresh (numbers.contains_iff.mp again)
      rw [if_neg known, number, if_neg new]
      have entered' (id : String) : id ∈ (cs.get i).id :: seen ↔
          id ∈ (l ++ [i]).map fun i => (cs.get i).id := by
        rw [List.mem_cons, entered, List.map_append, List.mem_append, List.map_singleton,
          List.mem_singleton, or_comm]
      have further := ih (numbers.number fresh) entered'
      rwa [List.append_assoc] at further

end Numbering

section Hanging

/-- What was added to an arena when some positions were hung, in their order. -/
structure Hung (a b : Arena cs) (l : List (Fin cs.length)) : Prop where
  index : b.index = a.index
  roots : b.roots = a.roots ++ l.filter fun i => (cs.get i).parentId = none
  children (p : Fin cs.length) : b.children.get p =
    a.children.get p ++ l.filter fun i => (cs.get i).parentId = some (cs.get p).id

theorem Hung.refl (a : Arena cs) : Hung a a [] :=
  ⟨rfl, (List.append_nil _).symm, fun _ => (List.append_nil _).symm⟩

theorem Hung.trans {c : Arena cs} {l' : List (Fin cs.length)} (first : Hung a b l)
    (second : Hung b c l') : Hung a c (l ++ l') where
  index := second.index.trans first.index
  roots := by rw [second.roots, first.roots, List.filter_append, List.append_assoc]
  children p := by rw [second.children, first.children, List.filter_append, List.append_assoc]

theorem get_set {α : Type} {n : Nat} (xs : Vector α n) (i j : Fin n) (x : α) :
    (xs.set i x i.isLt).get j = if i = j then x else xs.get j := by
  simp only [← Fin.val_inj]
  exact Vector.getElem_set i.isLt j.isLt

theorem map_get_finRange (cs : List Compartment) : (List.finRange cs.length).map cs.get = cs := by
  rw [List.finRange, List.map_ofFn]
  exact List.ofFn_getElem

theorem map_id_finRange (cs : List Compartment) :
    (List.finRange cs.length).map (fun i => (cs.get i).id) = cs.map (·.id) := by
  rw [← Function.comp_def (·.id) cs.get, ← List.map_map, map_get_finRange]

theorem map_get_filter (chosen : Compartment → Bool) :
    ((List.finRange cs.length).filter fun i => chosen (cs.get i)).map cs.get =
      cs.filter chosen := by
  rw [← Function.comp_def chosen cs.get, ← List.filter_map, map_get_finRange]

/-- The id of a compartment and its parent's if the parent is missing. -/
def missingParent? (cs : List Compartment) (c : Compartment) : Option (String × String) :=
  c.parentId.bind fun p => if p ∈ cs.map (·.id) then none else some (c.id, p)

theorem hang_of_root (root : (cs.get i).parentId = none) :
    a.hang i = .ok { a with roots := a.roots ++ [i] } := by
  rw [hang, root]

theorem hang_of_missing {parent : String} (named : (cs.get i).parentId = some parent)
    (missing : a.index.get? parent = none) :
    a.hang i = .error (.unknownParent (cs.get i).id parent) := by
  rw [hang, named]
  dsimp only
  rw [missing]

theorem hang_of_known {parent : String} (named : (cs.get i).parentId = some parent)
    (found : a.index.get? parent = some p) :
    a.hang i = .ok { a with children := a.children.set p (a.children.get p ++ [i]) p.isLt } := by
  rw [hang, named]
  dsimp only
  rw [found]

theorem hang_cases (numbers : a.Numbers (List.finRange cs.length)) (i : Fin cs.length) :
    match missingParent? cs (cs.get i) with
    | some (id, parent) => a.hang i = .error (.unknownParent id parent)
    | none => ∃ b, a.hang i = .ok b ∧ Hung a b [i] := by
  unfold missingParent?
  cases named : (cs.get i).parentId with
  | none =>
    refine ⟨_, hang_of_root named, rfl, ?_, fun p => ?_⟩
    · rw [List.filter_cons_of_pos (by simpa using named), List.filter_nil]
    · rw [List.filter_cons_of_neg (by simp [named, -List.get_eq_getElem]), List.filter_nil,
        List.append_nil]
  | some parent =>
    rw [Option.bind_some]
    split
    · next id parent' missing =>
      split at missing
      · contradiction
      · next unknown =>
        obtain ⟨rfl, rfl⟩ := Prod.mk.inj (Option.some.inj missing)
        refine hang_of_missing named (Option.eq_none_iff_forall_ne_some.mpr fun j found => ?_)
        exact unknown (map_id_finRange cs ▸ numbers.mem_ids_iff.mpr ⟨j, found⟩)
    · next known =>
      have known : parent ∈ cs.map (·.id) := by simpa using known
      rw [← map_id_finRange] at known
      obtain ⟨p, found⟩ := numbers.mem_ids_iff.mp known
      refine ⟨_, hang_of_known named found, rfl, ?_, fun q => ?_⟩
      · rw [List.filter_cons_of_neg (by simp [named, -List.get_eq_getElem]), List.filter_nil,
          List.append_nil]
      · obtain ⟨_, rfl⟩ := (numbers parent p).mp found
        by_cases here : p = q
        · subst here
          simp [named, get_set, -List.get_eq_getElem]
        · have other : (cs.get p).id ≠ (cs.get q).id := fun same =>
            here (Option.some.inj (found.symm.trans
              ((numbers _ q).mpr ⟨List.mem_finRange q, same.symm⟩)))
          simp [named, other, here, get_set, -List.get_eq_getElem]

/-- Hanging goes on until a parent is missing. -/
theorem foldlM_hang (numbers : a.Numbers (List.finRange cs.length)) (l : List (Fin cs.length)) :
    match l.findSome? fun i => missingParent? cs (cs.get i) with
    | some (id, parent) => l.foldlM hang a = .error (.unknownParent id parent)
    | none => ∃ b, l.foldlM hang a = .ok b ∧ Hung a b l := by
  induction l generalizing a with
  | nil => exact ⟨a, rfl, .refl a⟩
  | cons i rest ih =>
    have first := hang_cases numbers i
    rw [List.findSome?_cons, List.foldlM_cons]
    cases missing : missingParent? cs (cs.get i) with
    | some told =>
      rw [missing] at first
      dsimp only at first ⊢
      rw [first]
      rfl
    | none =>
      rw [missing] at first
      obtain ⟨b, hung, adds⟩ := first
      have further := ih (a := b) fun id j => by rw [adds.index]; exact numbers id j
      rw [hung]
      dsimp only
      split
      · next id parent orphaned =>
        rw [orphaned] at further
        exact further
      · next known =>
        rw [known] at further
        obtain ⟨c, hung', adds'⟩ := further
        exact ⟨c, hung', adds.trans adds'⟩

end Hanging

section Linking

def orphan? (cs : List Compartment) : Option (String × String) :=
  cs.findSome? (missingParent? cs)

/-- The links agree with what the compartments say of themselves: the index with their ids, and
roots and children with the parents that they name, in the order of the list. -/
structure Linked (a : Arena cs) : Prop where
  index (id : String) (i : Fin cs.length) : a.index.get? id = some i ↔ (cs.get i).id = id
  roots : a.roots = (List.finRange cs.length).filter fun i => (cs.get i).parentId = none
  children (p : Fin cs.length) : a.children.get p =
    (List.finRange cs.length).filter fun i => (cs.get i).parentId = some (cs.get p).id

theorem linked_of_hung (numbers : a.Numbers (List.finRange cs.length))
    (bare : a.roots = [] ∧ ∀ p : Fin cs.length, a.children.get p = [])
    (hung : Hung a b (List.finRange cs.length)) : b.Linked where
  index id i := by
    rw [hung.index, numbers id i]
    exact and_iff_right (List.mem_finRange i)
  roots := by rw [hung.roots, bare.1, List.nil_append]
  children p := by rw [hung.children, bare.2, List.nil_append]

/-- A list can be linked unless an id is repeated in it or a parent missing. -/
theorem link_cases (cs : List Compartment) :
    match firstRepeated? (cs.map (·.id)) with
    | some id => link cs = .error (.duplicateCompartment id)
    | none => match orphan? cs with
      | some (id, parent) => link cs = .error (.unknownParent id parent)
      | none => ∃ a, link cs = .ok a ∧ a.Linked := by
  have vacant : (empty : Arena cs).Numbers [] := fun id i => by simp [empty]
  have numbering := foldlM_number vacant (fun _ => Iff.rfl) (List.finRange cs.length)
  rw [map_id_finRange, List.map_nil, List.nil_append] at numbering
  rw [firstRepeated?, link]
  split
  · next id again =>
    rw [again] at numbering
    dsimp only at numbering
    rw [numbering]
    rfl
  · next once =>
    rw [once] at numbering
    obtain ⟨a, numbered, numbers, children, roots⟩ := numbering
    have hanging := foldlM_hang numbers (List.finRange cs.length)
    have orphans : (List.finRange cs.length).findSome? (fun i => missingParent? cs (cs.get i)) =
        orphan? cs := by
      rw [orphan?, ← Function.comp_def (missingParent? cs) cs.get, ← List.findSome?_map,
        map_get_finRange]
    rw [orphans] at hanging
    rw [numbered]
    split
    · next id parent orphaned =>
      rw [orphaned] at hanging
      exact hanging
    · next known =>
      rw [known] at hanging
      obtain ⟨b, hung, adds⟩ := hanging
      refine ⟨b, hung, linked_of_hung numbers ⟨roots, fun p => ?_⟩ adds⟩
      rw [children]
      exact Vector.getElem_replicate _

theorem missingParent?_eq_none_iff {c : Compartment} : missingParent? cs c = none ↔
    ∀ parent, c.parentId = some parent → parent ∈ cs.map (·.id) := by
  cases named : c.parentId with
  | none => simp [missingParent?, named]
  | some parent =>
    by_cases known : parent ∈ cs.map (·.id) <;>
      simp only [missingParent?, named, Option.bind_some, known, if_true, if_false,
        Option.some.injEq, forall_eq', reduceCtorEq]

theorem link_isOk (distinct : (cs.map (·.id)).Nodup)
    (known : ∀ c ∈ cs, ∀ parent, c.parentId = some parent → parent ∈ cs.map (·.id)) :
    ∃ a, link cs = .ok a ∧ a.Linked := by
  have cases := link_cases cs
  have placed : orphan? cs = none := List.findSome?_eq_none_iff.mpr fun c member =>
    missingParent?_eq_none_iff.mpr (known c member)
  rwa [firstRepeated?_eq_none_iff.mpr distinct, placed] at cases

theorem linked_of_link (linked : link cs = .ok a) :
    (cs.map (·.id)).Nodup ∧ orphan? cs = none ∧ a.Linked := by
  have cases := link_cases cs
  rw [linked] at cases
  split at cases
  · contradiction
  · next once =>
    split at cases
    · contradiction
    · next placed =>
      obtain ⟨_, same, agrees⟩ := cases
      obtain rfl := Except.ok.inj same
      exact ⟨firstRepeated?_eq_none_iff.mp once, placed, agrees⟩

end Linking

section Descending

variable {unmet waiting : List (Fin cs.length)}

/-- What is met, with the rest of the unmet, is what was unmet before. -/
theorem descend_perm (a : Arena cs) (unmet waiting : List (Fin cs.length)) :
    ∃ rest, (a.descend unmet waiting ++ rest).Perm unmet := by
  fun_induction a.descend unmet waiting with
  | case1 unmet => exact ⟨unmet, .refl _⟩
  | case2 unmet i waiting member ih =>
    obtain ⟨rest, same⟩ := ih
    exact ⟨rest, (same.cons i).trans (List.perm_cons_erase member).symm⟩
  | case3 unmet i waiting absent ih => exact ih

theorem reached_perm (a : Arena cs) :
    ∃ rest, (a.reached ++ rest).Perm (List.finRange cs.length) :=
  a.descend_perm _ _

variable (linked : a.Linked)
include linked

theorem Linked.mem_children_iff :
    i ∈ a.children.get p ↔ (cs.get i).parentId = some (cs.get p).id := by
  rw [linked.children, List.mem_filter, decide_eq_true_iff]
  exact and_iff_right (List.mem_finRange i)

theorem Linked.mem_roots_iff : i ∈ a.roots ↔ (cs.get i).parentId = none := by
  rw [linked.roots, List.mem_filter, decide_eq_true_iff]
  exact and_iff_right (List.mem_finRange i)

theorem Linked.parentIn_get (distinct : (cs.map (·.id)).Nodup) (below : i ∈ a.children.get p) :
    parentIn cs (cs.get i) = some (cs.get p) := by
  rw [parentIn, linked.mem_children_iff.mp below, Option.bind_some,
    findCompartment_eq_some_iff distinct]
  exact ⟨List.get_mem cs p, rfl⟩

/-- Met compartments are no further from a root than compartments were met. -/
theorem Linked.reachesRoot_of_mem_descend (distinct : (cs.map (·.id)).Nodup) (steps : Nat)
    (bound : steps + unmet.length ≤ cs.length)
    (reaches : ∀ j ∈ waiting, reachesRoot cs steps (cs.get j) = true)
    (met : i ∈ a.descend unmet waiting) : reachesRoot cs cs.length (cs.get i) = true := by
  -- Going down costs a step and takes a position from the unmet, so the bound is kept.
  fun_induction a.descend unmet waiting generalizing steps with
  | case1 unmet => contradiction
  | case2 unmet p waiting member ih =>
    have shorter := List.length_erase_of_mem member
    have positive := List.length_pos_of_mem member
    rcases List.mem_cons.mp met with rfl | met
    · exact reachesRoot_mono (by omega) (reaches i List.mem_cons_self)
    · refine ih (steps + 1) (by omega) (fun j later => ?_) met
      rcases List.mem_append.mp later with below | later
      · have above := linked.parentIn_get distinct (List.mem_reverse.mp below)
        exact reachesRoot_succ_iff.mpr (.inr ⟨_, above, reaches p List.mem_cons_self⟩)
      · exact reachesRoot_mono (Nat.le_succ steps) (reaches j (List.mem_cons_of_mem _ later))
  | case3 unmet p waiting absent ih =>
    exact ih steps bound (fun j later => reaches j (List.mem_cons_of_mem _ later)) met

theorem Linked.reachesRoot_of_mem_reached (distinct : (cs.map (·.id)).Nodup)
    (met : i ∈ a.reached) : reachesRoot cs cs.length (cs.get i) = true := by
  refine linked.reachesRoot_of_mem_descend distinct 0 (by simp) (fun j root => ?_) met
  have alone := linked.mem_roots_iff.mp (List.mem_reverse.mp root)
  simp only [reachesRoot, Compartment.isRoot, alone, Option.isNone_none]

omit linked in
/-- All positions are met when as many are met as there are. -/
theorem mem_reached_of_length_eq (whole : a.reached.length = cs.length) (i : Fin cs.length) :
    i ∈ a.reached := by
  obtain ⟨rest, same⟩ := a.reached_perm
  have none : rest = [] := by
    have := same.length_eq
    rw [List.length_append, whole, List.length_finRange] at this
    exact List.length_eq_zero_iff.mp (by omega)
  have member := same.mem_iff.mpr (List.mem_finRange i)
  rwa [none, List.append_nil] at member

theorem Linked.reachesRoot_of_length_eq (distinct : (cs.map (·.id)).Nodup)
    (whole : a.reached.length = cs.length) :
    ∀ c ∈ cs, reachesRoot cs cs.length c = true := by
  intro c member
  obtain ⟨i, rfl⟩ := List.mem_iff_get.mp member
  exact linked.reachesRoot_of_mem_reached distinct (mem_reached_of_length_eq whole i)

end Descending

end Arena
end Estate
