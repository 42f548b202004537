import Mathlib.Data.Fintype.Pigeonhole
import Mathlib.Data.Fintype.Lattice
import Mathlib.Logic.Function.Iterate
import Mathlib.Logic.Relation

/-! Paths of dependencies, by their length. A member of a finite type has paths of every length
exactly when a cycle can be reached from it; the length of a longest path is a lower bound of
every level that grows against the dependencies. -/
namespace Estate.Deployment
open Relation

variable {α : Type} {depends : α → α → Prop} {a b : α} {length : Nat}

/-- A path of so many dependencies starts at a member. -/
inductive Path (depends : α → α → Prop) : α → Nat → Prop where
  | stop {a : α} : Path depends a 0
  | step {a b : α} {length : Nat} : depends a b → Path depends b length →
      Path depends a (length + 1)

/-- The longest path that starts at a member has this length. -/
def Longest (depends : α → α → Prop) (a : α) (length : Nat) : Prop :=
  Path depends a length ∧ ¬ Path depends a (length + 1)

/-- There is no bound to the paths that start at a member. -/
def Endless (depends : α → α → Prop) (a : α) : Prop := ∀ length, Path depends a length

/-- Some cycle can be reached from a member. -/
def ReachesCycle (depends : α → α → Prop) (a : α) : Prop :=
  ∃ b, ReflTransGen depends a b ∧ TransGen depends b b

theorem path_succ_iff : Path depends a (length + 1) ↔ ∃ b, depends a b ∧ Path depends b length := by
  constructor
  · rintro (_ | ⟨first, rest⟩)
    exact ⟨_, first, rest⟩
  · rintro ⟨b, first, rest⟩
    exact .step first rest

theorem Path.of_succ (path : Path depends a (length + 1)) : Path depends a length := by
  induction length generalizing a with
  | zero => exact .stop
  | succ length ih =>
    obtain ⟨b, first, rest⟩ := path_succ_iff.mp path
    exact .step first (ih rest)

theorem Path.of_le {longer : Nat} (le : length ≤ longer) (path : Path depends a longer) :
    Path depends a length := by
  induction longer, le using Nat.le_induction with
  | base => exact path
  | succ longer _ ih => exact ih path.of_succ

/-- A longest path is longest among all paths. -/
theorem Longest.le {other : Nat} (longest : Longest depends a length)
    (path : Path depends a other) : other ≤ length := by
  by_contra more
  exact longest.2 (path.of_le (by omega))

theorem Longest.unique {other : Nat} (first : Longest depends a length)
    (second : Longest depends a other) : length = other :=
  Nat.le_antisymm (second.le first.1) (first.le second.1)

theorem exists_longest (bound : Nat) (short : ¬ Path depends a bound) :
    ∃ length < bound, Longest depends a length := by
  induction bound with
  | zero => exact absurd .stop short
  | succ bound ih =>
    by_cases path : Path depends a bound
    · exact ⟨bound, by omega, path, short⟩
    · obtain ⟨length, less, longest⟩ := ih path
      exact ⟨length, by omega, longest⟩

theorem Longest.lt_of_depends {other : Nat} (longest : Longest depends a length)
    (edge : depends a b) (next : Longest depends b other) : other < length :=
  longest.le (.step edge next.1)

/-- When no path of some length is longest, all paths that are so long go on for ever. -/
theorem Path.endless (continues : ∀ b, ¬ Longest depends b length) (path : Path depends a length) :
    Endless depends a := by
  have more (extra : Nat) : ∀ b, Path depends b length → Path depends b (length + extra) := by
    induction extra with
    | zero => exact fun _ path => path
    | succ extra ih =>
      intro b path
      have longer : Path depends b (length + 1) := by
        by_contra short
        exact continues b ⟨path, short⟩
      obtain ⟨c, first, rest⟩ := path_succ_iff.mp longer
      exact .step first (ih c rest)
  exact fun other => (more other a path).of_le (Nat.le_add_left _ _)

/-- No level that falls along the dependencies is below the length of a path. -/
theorem Path.le_level {level : α → Nat} (falls : ∀ a b, depends a b → level b < level a)
    (path : Path depends a length) : length ≤ level a := by
  induction path with
  | stop => exact Nat.zero_le _
  | step edge _ ih => exact Nat.lt_of_le_of_lt ih (falls _ _ edge)

theorem endless_of_transGen_cycle (cycle : TransGen depends b b) (path : TransGen depends a b) :
    Endless depends a := by
  intro length
  induction length generalizing a with
  | zero => exact .stop
  | succ length ih =>
    obtain ⟨c, first, rest⟩ := TransGen.head'_iff.mp path
    exact .step first (ih (cycle.trans_right rest))

theorem ReachesCycle.endless (reaches : ReachesCycle depends a) : Endless depends a := by
  obtain ⟨b, path, cycle⟩ := reaches
  exact endless_of_transGen_cycle cycle (TransGen.trans_right path cycle)

theorem reflTransGen_walk {walk : Nat → α} (edges : ∀ k, depends (walk k) (walk (k + 1)))
    (base steps : Nat) : ReflTransGen depends (walk base) (walk (base + steps)) := by
  induction steps with
  | zero => exact .refl
  | succ steps ih => exact ih.tail (edges (base + steps))

section Finite

variable [Finite α]

/-- Where paths have no bound, they have none from some dependency on. -/
theorem Endless.exists_depends (endless : Endless depends a) :
    ∃ b, depends a b ∧ Endless depends b := by
  classical
  by_contra! bounded
  have short (b : α) : ∃ bound, depends a b → ¬ Path depends b bound := by
    by_cases edge : depends a b
    · obtain ⟨bound, short⟩ := not_forall.mp (bounded b edge)
      exact ⟨bound, fun _ => short⟩
    · exact ⟨0, fun edge' => absurd edge' edge⟩
  choose bound short using short
  have := Fintype.ofFinite α
  obtain ⟨b, edge, path⟩ := path_succ_iff.mp (endless (Finset.univ.sup bound + 1))
  exact short b edge (path.of_le (Finset.le_sup (Finset.mem_univ b)))

/-- A walk that never ends comes to some member twice. -/
theorem reachesCycle_of_walk (walk : Nat → α) (edges : ∀ k, depends (walk k) (walk (k + 1))) :
    ReachesCycle depends (walk 0) := by
  obtain ⟨first, second, less, same⟩ : ∃ first second, first < second ∧
      walk first = walk second := by
    obtain ⟨i, j, different, same⟩ := Finite.exists_ne_map_eq_of_infinite walk
    rcases Nat.lt_or_gt_of_ne different with less | less
    · exact ⟨i, j, less, same⟩
    · exact ⟨j, i, less, same.symm⟩
  refine ⟨walk first, by simpa using reflTransGen_walk edges 0 first, ?_⟩
  have around := reflTransGen_walk edges (first + 1) (second - (first + 1))
  rw [Nat.add_sub_cancel' less, ← same] at around
  exact TransGen.head' (edges first) around

/-- Paths have no bound exactly where a cycle can be reached. -/
theorem endless_iff_reachesCycle : Endless depends a ↔ ReachesCycle depends a := by
  refine ⟨fun endless => ?_, ReachesCycle.endless⟩
  choose! next edge remains using fun b (h : Endless depends b) => h.exists_depends
  have along (steps : Nat) : Endless depends (next^[steps] a) := by
    induction steps with
    | zero => exact endless
    | succ steps ih =>
      rw [Function.iterate_succ_apply']
      exact remains _ ih
  have edges (steps : Nat) : depends (next^[steps] a) (next^[steps + 1] a) := by
    rw [Function.iterate_succ_apply']
    exact edge _ (along steps)
  exact reachesCycle_of_walk (fun k => next^[k] a) edges

end Finite

end Estate.Deployment
