import Mathlib.Data.List.Chain
import Mathlib.Data.List.Perm.Subperm
import Mathlib.Logic.Function.Iterate
import Estate.Proofs.Compartment.Rearrangement

/-! The way up in a forest, round by round. Nothing but the forest itself bounds the walk: since no
way up comes back to a compartment, the walk ends at a root after at most as many rounds as there
are compartments, and what it has visited by then is the chain with the distances counted. -/
namespace Estate

variable {cs : List Compartment} {c p : Compartment} {way : List Compartment}

namespace Ascent

theorem head?_eq (ascent : Ascent cs c way) : way.head? = some c := by
  cases ascent <;> rfl

theorem nodup (ascent : Ascent cs c way) : way.Nodup := by
  induction ascent with
  | top _ => exact List.nodup_singleton _
  | up above rest ih => exact List.nodup_cons.mpr ⟨(Ascent.up above rest).not_mem_above, ih⟩

/-- Every compartment on a way up is followed by its parent. -/
theorem isChain (ascent : Ascent cs c way) : way.IsChain fun a b => parentIn cs a = some b := by
  induction ascent with
  | top _ => exact .singleton _
  | up above rest ih =>
    refine List.isChain_cons.mpr ⟨fun b first => ?_, ih⟩
    rw [rest.head?_eq] at first
    exact Option.some.inj first ▸ above

/-- A way up ends at a compartment that has no parent in the list. -/
theorem exists_getLast?_eq (ascent : Ascent cs c way) :
    ∃ last, way.getLast? = some last ∧ parentIn cs last = none := by
  induction ascent with
  | top none => exact ⟨_, rfl, none⟩
  | up above rest ih =>
    obtain ⟨last, ends, none⟩ := ih
    refine ⟨last, ?_, none⟩
    rw [List.getLast?_cons, ends]
    rfl

theorem length_le (ascent : Ascent cs c way) (member : c ∈ cs) : way.length ≤ cs.length :=
  (List.subperm_of_subset ascent.nodup (ascent.subset member)).length_le

end Ascent

/-- A compartment has no parent in a list that has all parents exactly if it names none. -/
theorem parentIn_eq_none_iff (known : ParentsKnown cs cs) (member : c ∈ cs) :
    parentIn cs c = none ↔ c.parentId = none := by
  constructor
  · intro none
    cases named : c.parentId with
    | none => rfl
    | some parent =>
      have found := findCompartment_isSome_iff.mpr (known c member parent named)
      rw [parentIn, named, Option.bind_some] at none
      rw [none] at found
      contradiction
  · intro alone
    rw [parentIn, alone, Option.bind_none]

namespace Forest

variable {f : Forest} {id : String}

/-- How far a walk up has come: the compartments visited, each with its distance from the first,
and the one that comes next. -/
structure Walk where
  visited : List (Compartment × Nat)
  next : Option Compartment

/-- The walk before its first round. -/
def Walk.start (f : Forest) (id : String) : Walk := ⟨[], f.get? id⟩

/-- A round of the walk: the next compartment is visited, and its parent comes next. There are no
rounds left when nothing comes next. -/
def Walk.round (f : Forest) : Walk → Walk
  | ⟨visited, none⟩ => ⟨visited, none⟩
  | ⟨visited, some c⟩ => ⟨visited ++ [(c, visited.length)], c.parentId.bind f.get?⟩

theorem Walk.iterate_round_none (visited : List (Compartment × Nat)) (rounds : Nat) :
    (round f)^[rounds] ⟨visited, none⟩ = ⟨visited, none⟩ := Function.iterate_fixed rfl rounds

/-- After so many rounds so much of the way up has been visited. -/
theorem Walk.iterate_round (ascent : Ascent f.compartments c way)
    (visited : List (Compartment × Nat)) (rounds : Nat) :
    (round f)^[rounds] ⟨visited, some c⟩ =
      ⟨visited ++ (way.take rounds).zipIdx visited.length, way[rounds]?⟩ := by
  induction ascent generalizing visited rounds with
  | @top c none =>
    have first : round f ⟨visited, some c⟩ = ⟨visited ++ [(c, visited.length)], .none⟩ :=
      congrArg (Walk.mk _) (f.parentIn_eq_bind c ▸ none)
    cases rounds with
    | zero => simp
    | succ rounds =>
      rw [Function.iterate_succ_apply, first, iterate_round_none]
      simp
  | @up c p way above _ ih =>
    have first : round f ⟨visited, some c⟩ = ⟨visited ++ [(c, visited.length)], some p⟩ :=
      congrArg (Walk.mk _) (f.parentIn_eq_bind c ▸ above)
    cases rounds with
    | zero => simp
    | succ rounds =>
      rw [Function.iterate_succ_apply, first, ih]
      simp

theorem chain_eq_nil (unknown : f.get? id = none) : f.chain id = [] := by
  rw [chain, unknown]
  rfl

/-- The walk from an id visits what is on its chain, one compartment in every round. -/
theorem Walk.iterate_round_start (f : Forest) (id : String) (rounds : Nat) :
    (round f)^[rounds] (start f id) =
      ⟨((f.chain id).take rounds).zipIdx, (f.chain id)[rounds]?⟩ := by
  cases known : f.get? id with
  | none =>
    rw [start, known, iterate_round_none, chain_eq_nil known]
    simp
  | some c =>
    rw [start, known, iterate_round (ascent_chain known)]
    simp

theorem depth?_eq (known : f.get? id = some c) : f.depth? id = some ((f.chain id).length - 1) := by
  have ascent := ascent_chain known
  unfold depth?
  split
  · next empty => rw [empty] at ascent; cases ascent
  · next first above whole => rw [whole, List.length_cons, Nat.add_sub_cancel]

theorem parent?_eq (known : f.get? id = some c) : f.parent? id = parentIn f.compartments c := by
  rw [parent?, known, Option.bind_some, parentIn_eq_bind]

theorem get?_of_mem (member : c ∈ f.compartments) : f.get? c.id = some c :=
  get?_eq_some_iff.mpr ⟨member, rfl⟩

/-- The chain of a compartment goes on with that of its parent. -/
theorem chain_eq_cons (known : f.get? id = some c) (above : f.parent? id = some p) :
    f.chain id = c :: f.chain p.id := by
  rw [parent?_eq known] at above
  have rest := ascent_chain (get?_of_mem (parentIn_eq_some above).1)
  exact (ascent_chain known).unique (.up above rest)

theorem chain_eq_singleton (known : f.get? id = some c) (alone : f.parent? id = none) :
    f.chain id = [c] := by
  rw [parent?_eq known] at alone
  exact (ascent_chain known).unique (.top alone)

theorem parent?_eq_none_iff (known : f.get? id = some c) :
    f.parent? id = none ↔ c.parentId = none := by
  rw [parent?_eq known]
  exact parentIn_eq_none_iff f.orderly.known (get?_eq_some_iff.mp known).1

/-- A compartment is as deep as its distance from its root: a root is not deep at all, and every
other compartment is one level below its parent. -/
theorem depth?_cases (known : f.get? id = some c) :
    c.parentId = none ∧ f.depth? id = some 0 ∨
      ∃ p depth, f.parent? id = some p ∧ f.depth? p.id = some depth ∧
        f.depth? id = some (depth + 1) := by
  cases above : f.parent? id with
  | none =>
    left
    refine ⟨(parent?_eq_none_iff known).mp above, ?_⟩
    rw [depth?_eq known, chain_eq_singleton known above]
    rfl
  | some p =>
    right
    have found := above
    rw [parent?_eq known] at found
    have known' := get?_of_mem (parentIn_eq_some found).1
    refine ⟨p, _, rfl, depth?_eq known', ?_⟩
    have first := (ascent_chain known').head?_eq
    rw [depth?_eq known, chain_eq_cons known above, List.length_cons, Nat.add_sub_cancel]
    cases whole : f.chain p.id with
    | nil => rw [whole] at first; contradiction
    | cons _ above => rfl

/-- What the chain of a compartment is: its way up, without repetition, to a root. -/
structure LeadsUp (f : Forest) (c : Compartment) (chain : List Compartment) : Prop where
  first : chain.head? = some c
  linked : chain.IsChain fun a b => f.parent? a.id = some b
  last : ∃ root, chain.getLast? = some root ∧ root.parentId = none
  distinct : (chain.map (·.id)).Nodup
  bounded : chain.length ≤ f.size

theorem leadsUp_chain (known : f.get? id = some c) : f.LeadsUp c (f.chain id) := by
  have ascent := ascent_chain known
  have inside := ascent.subset (get?_eq_some_iff.mp known).1
  refine ⟨ascent.head?_eq, ?linked, ?last, ?distinct, ?bounded⟩
  case linked =>
    refine ascent.isChain.imp_of_mem_imp ?_
    intro a b onWay _ above
    rw [parent?_eq (get?_of_mem (inside a onWay)), above]
  case last =>
    obtain ⟨root, ends, none⟩ := ascent.exists_getLast?_eq
    have member := inside root (List.mem_of_getLast? ends)
    exact ⟨root, ends, (parentIn_eq_none_iff f.orderly.known member).mp none⟩
  case distinct =>
    refine ascent.nodup.map_on ?_
    intro a onWay b onWay' same
    exact List.inj_on_of_nodup_map f.distinct (inside a onWay) (inside b onWay') same
  case bounded => exact ascent.length_le (get?_eq_some_iff.mp known).1

/-- Walking up in a forest ends. From an unknown id there is nothing to visit; from a compartment
the walk leads, without repetition, to its root, and visits one compartment in every round, at
distances counted from zero. The last distance is the depth of the compartment, which is one more
than that of its parent. -/
theorem walk_ends (built : Forest.build cs = .ok f) (id : String) :
    ((Walk.round f)^[(f.chain id).length] (.start f id) = ⟨(f.chain id).zipIdx, none⟩ ∧
      ∀ rounds < (f.chain id).length, ((Walk.round f)^[rounds] (.start f id)).next ≠ none) ∧
    (id ∉ cs.map (·.id) → f.chain id = [] ∧ f.depth? id = none) ∧
    ∀ c ∈ cs, c.id = id → f.LeadsUp c (f.chain id) ∧ f.size = cs.length ∧
      f.depth? id = some ((f.chain id).length - 1) ∧
      (c.parentId = none ∧ f.depth? id = some 0 ∨
        ∃ p depth, f.parent? id = some p ∧ f.depth? p.id = some depth ∧
          f.depth? id = some (depth + 1)) := by
  obtain ⟨rfl, _⟩ := build_eq_ok built
  refine ⟨⟨?ends, ?goesOn⟩, ?unknown, ?known⟩
  case ends => simp [Walk.iterate_round_start]
  case goesOn =>
    intro rounds fewer
    simp [Walk.iterate_round_start, fewer]
  case unknown =>
    intro unknown
    have none : f.get? id = none := by
      rw [← findCompartment_isSome_iff, ← get?_eq] at unknown
      simpa using unknown
    have empty := chain_eq_nil none
    refine ⟨empty, ?_⟩
    rw [depth?, empty]
  case known =>
    rintro c member rfl
    have known := get?_of_mem member
    exact ⟨leadsUp_chain known, rfl, depth?_eq known, depth?_cases known⟩

/-- Three rounds lead from a compartment to its root, though those above it come later in the list.
-/
theorem walk_ends_child_first :
    let app := Compartment.bare "app" (some "unit")
    let lab := Compartment.bare "lab" none
    let org := Compartment.bare "org" none
    let unit := Compartment.bare "unit" (some "org")
    ∃ f, Forest.build [app, lab, org, unit] = .ok f ∧
      (Walk.round f)^[3] (.start f "app") = ⟨[(app, 0), (unit, 1), (org, 2)], none⟩ ∧
      f.LeadsUp app [app, unit, org] ∧ f.depth? "app" = some 2 ∧
      f.chain "db" = [] ∧ f.depth? "db" = none := by
  intro app lab org unit
  let forest : Forest := ⟨[app, lab, org, unit], by decide +kernel, by decide +kernel⟩
  have built : Forest.build [app, lab, org, unit] = .ok forest := forest.build_compartments
  have whole : forest.chain "app" = [app, unit, org] := by decide +kernel
  obtain ⟨⟨ends, _⟩, _, known⟩ := walk_ends built "app"
  obtain ⟨leads, _, depth, _⟩ := known app (by decide +kernel) rfl
  obtain ⟨none, deepless⟩ := (walk_ends built "db").2.1 (by decide +kernel)
  rw [whole] at ends leads depth
  exact ⟨forest, built, ends, leads, depth, none, deepless⟩

end Forest
end Estate
