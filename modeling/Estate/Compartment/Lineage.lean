import Estate.Distinct
import Estate.Compartment.Basic

/-! Ways up between compartments in a list: from a compartment to the parent that it names, and on
until there is none. -/
namespace Estate

/-- The compartment with an id. -/
def findCompartment (cs : List Compartment) (id : String) : Option Compartment :=
  cs.find? (·.id == id)

def parentIn (cs : List Compartment) (c : Compartment) : Option Compartment :=
  c.parentId.bind (findCompartment cs)

/-- Whether the way up from a compartment ends at a root after at most so many steps. -/
def reachesRoot (cs : List Compartment) : (steps : Nat) → Compartment → Bool
  | 0, c => c.isRoot
  | steps + 1, c => c.isRoot || (parentIn cs c).any (reachesRoot cs steps)

/-- The compartment and those above it, at most so many. -/
def climb (cs : List Compartment) : (steps : Nat) → Compartment → List Compartment
  | 0, c => [c]
  | steps + 1, c => c :: (parentIn cs c).elim [] (climb cs steps)

variable {cs : List Compartment} {c p : Compartment} {id : String}

theorem findCompartment_eq_some_iff (distinct : (cs.map (·.id)).Nodup) :
    findCompartment cs id = some c ↔ c ∈ cs ∧ c.id = id :=
  find?_key_eq_some_iff distinct

theorem parentIn_eq_some (above : parentIn cs c = some p) : p ∈ cs ∧ c.parentId = some p.id := by
  obtain ⟨id, named, found⟩ := Option.bind_eq_some_iff.mp above
  have same : p.id = id := by simpa using List.find?_some found
  exact ⟨List.mem_of_find?_eq_some found, same ▸ named⟩

theorem reachesRoot_succ_iff {steps : Nat} : reachesRoot cs (steps + 1) c = true ↔
    c.parentId = none ∨ ∃ p, parentIn cs c = some p ∧ reachesRoot cs steps p = true := by
  simp [reachesRoot, Compartment.isRoot, Option.any_eq_true]

theorem parent_mem_of_reachesRoot {steps : Nat} {parent : String}
    (reaches : reachesRoot cs steps c = true) (named : c.parentId = some parent) :
    parent ∈ cs.map (·.id) := by
  cases steps with
  | zero => simp [reachesRoot, Compartment.isRoot, named] at reaches
  | succ steps =>
    rcases reachesRoot_succ_iff.mp reaches with root | ⟨p, above, _⟩
    · rw [root] at named
      contradiction
    · obtain ⟨member, named'⟩ := parentIn_eq_some above
      obtain rfl := Option.some.inj (named.symm.trans named')
      exact List.mem_map_of_mem member

theorem reachesRoot_mono {few many : Nat} (le : few ≤ many)
    (reaches : reachesRoot cs few c = true) : reachesRoot cs many c = true := by
  induction many generalizing few c with
  | zero =>
    obtain rfl : few = 0 := by omega
    exact reaches
  | succ many ih =>
    cases few with
    | zero =>
      have root : c.parentId = none := by simpa [reachesRoot, Compartment.isRoot] using reaches
      exact reachesRoot_succ_iff.mpr (.inl root)
    | succ few =>
      refine reachesRoot_succ_iff.mpr ((reachesRoot_succ_iff.mp reaches).imp_right ?_)
      rintro ⟨p, above, reaches⟩
      exact ⟨p, above, ih (by omega) reaches⟩

theorem length_climb_le (cs : List Compartment) (steps : Nat) (c : Compartment) :
    (climb cs steps c).length ≤ steps + 1 := by
  induction steps generalizing c with
  | zero => exact Nat.le_refl 1
  | succ steps ih =>
    rw [climb]
    cases parentIn cs c with
    | none => simp
    | some p => exact Nat.succ_le_succ (ih p)

/-- Once a climb has come to a root, it is the same with more steps. -/
theorem climb_succ_of_reachesRoot {steps : Nat} (reaches : reachesRoot cs steps c = true) :
    climb cs (steps + 1) c = climb cs steps c := by
  induction steps generalizing c with
  | zero =>
    have root : c.parentId = none := by simpa [reachesRoot, Compartment.isRoot] using reaches
    simp [climb, parentIn, root]
  | succ steps ih =>
    rw [climb, climb]
    rcases reachesRoot_succ_iff.mp reaches with root | ⟨p, above, reaches⟩
    · simp [parentIn, root]
    · rw [above, Option.elim_some, Option.elim_some, ih reaches]

end Estate
