import Mathlib.Data.List.FinRange
import Estate.Deployment.Order
import Estate.Proofs.Deployment.Path

/-! What the rounds of the ordering keep. Positions wait for exactly those of their dependencies
that are in no wave, also in the middle of a round, and after so many rounds exactly the positions
with shorter paths are in a wave. So every wave holds the positions whose longest path has one
length, and the rounds go on until only endless paths are left. -/
namespace Estate.Deployment

open scoped Classical

variable {n : Nat} {g : Graph n} {i j k : Fin n}

/-- The positions whose longest path has a length, in order. -/
noncomputable def layer (depends : Fin n → Fin n → Prop) (length : Nat) : List (Fin n) :=
  (List.finRange n).filter fun i => Longest depends i length

namespace Graph

/-- One position depends on another. -/
def Depends (g : Graph n) (i j : Fin n) : Prop := j ∈ g.dependencies i

theorem mem_dependents_iff : j ∈ g.dependents i ↔ i ∈ g.dependencies j := by
  simp [dependents]

theorem nodup_dependents : (g.dependents i).Nodup := (List.nodup_finRange n).filter _

end Graph

/-- One member among distinct ones is one of those counted. -/
theorem countP_eq_countP_add {l : List (Fin n)} (distinct : l.Nodup) (f : Fin n → Bool)
    (counts : f i = true) :
    l.countP f = l.countP (fun j => !(decide (j = i) || !f j)) + if i ∈ l then 1 else 0 := by
  induction l with
  | nil => simp
  | cons j rest ih =>
    obtain ⟨fresh, distinct⟩ := List.nodup_cons.mp distinct
    rw [List.countP_cons, List.countP_cons, ih distinct]
    by_cases same : j = i
    · subst same
      simp [fresh, counts]
    · have different : ¬ i = j := fun equal => same equal.symm
      by_cases counted : f j
      · simp only [same, different, counted, List.mem_cons, false_or, decide_false, Bool.false_or,
          Bool.not_true, Bool.not_false, if_true]
        omega
      · simp [same, different, counted]

namespace Progress

variable {p : Progress n}

@[simp] theorem isScheduled_release : (p.release i).isScheduled k = p.isScheduled k := rfl

theorem waitsFor_release :
    (p.release i).waitsFor k = if k = i then p.waitsFor k - 1 else p.waitsFor k := by
  by_cases same : k = i
  · subst same
    simp [release, waitsFor]
  · have apart : (i : Nat) ≠ k := fun equal => same (Fin.ext equal.symm)
    simp [release, waitsFor, same, Vector.getElem_set_ne _ _ apart]

theorem isScheduled_foldl_release {positions : List (Fin n)} :
    (positions.foldl release p).isScheduled k = p.isScheduled k := by
  induction positions generalizing p with
  | nil => rfl
  | cons i rest ih => simp [ih]

theorem waitsFor_foldl_release {positions : List (Fin n)} (distinct : positions.Nodup) :
    (positions.foldl release p).waitsFor k =
      if k ∈ positions then p.waitsFor k - 1 else p.waitsFor k := by
  induction positions generalizing p with
  | nil => simp
  | cons i rest ih =>
    obtain ⟨fresh, distinct⟩ := List.nodup_cons.mp distinct
    rw [List.foldl_cons, ih distinct, waitsFor_release]
    by_cases same : k = i
    · subst same
      simp [fresh]
    · simp [same]

theorem isScheduled_schedule :
    (p.schedule g i).isScheduled k = (decide (k = i) || p.isScheduled k) := by
  rw [schedule, isScheduled_foldl_release]
  by_cases same : k = i
  · subst same
    simp [isScheduled]
  · have apart : (i : Nat) ≠ k := fun equal => same (Fin.ext equal.symm)
    simp [isScheduled, same, Vector.getElem_set_ne _ _ apart]

theorem waitsFor_schedule :
    (p.schedule g i).waitsFor k =
      if i ∈ g.dependencies k then p.waitsFor k - 1 else p.waitsFor k := by
  simp only [schedule, waitsFor_foldl_release g.nodup_dependents, Graph.mem_dependents_iff]
  rfl

/-- The number of dependencies of a position that are in no wave. -/
def pending (g : Graph n) (p : Progress n) (i : Fin n) : Nat :=
  (g.dependencies i).countP fun j => !p.isScheduled j

/-- Every position waits for its dependencies that are in no wave. -/
def Waits (g : Graph n) (p : Progress n) : Prop := ∀ i, p.waitsFor i = p.pending g i

theorem pending_schedule (free : p.isScheduled i = false) :
    p.pending g k = (p.schedule g i).pending g k + if i ∈ g.dependencies k then 1 else 0 := by
  simp only [pending, isScheduled_schedule]
  rw [countP_eq_countP_add (i := i) (g.distinct k) (fun j => !p.isScheduled j) (by simp [free])]
  simp only [Bool.not_not]

/-- Putting a position that is in no wave into one keeps all counts exact. -/
theorem Waits.schedule (waits : p.Waits g) (free : p.isScheduled i = false) :
    (p.schedule g i).Waits g := by
  intro k
  have before := pending_schedule (g := g) (k := k) free
  rw [waitsFor_schedule, waits k]
  split at before <;> simp_all

/-- A whole wave of positions that are in none keeps them exact. -/
theorem Waits.foldl_schedule {wave : List (Fin n)} (waits : p.Waits g) (distinct : wave.Nodup)
    (free : ∀ i ∈ wave, p.isScheduled i = false) :
    (wave.foldl (Progress.schedule g) p).Waits g := by
  induction wave generalizing p with
  | nil => exact waits
  | cons i rest ih =>
    obtain ⟨fresh, distinct⟩ := List.nodup_cons.mp distinct
    refine ih (waits.schedule (free i List.mem_cons_self)) distinct ?_
    intro j member
    have different : j ≠ i := fun same => fresh (same ▸ member)
    rw [isScheduled_schedule, free j (List.mem_cons_of_mem _ member)]
    simp [different]

theorem isScheduled_foldl_schedule {wave : List (Fin n)} :
    (wave.foldl (schedule g) p).isScheduled k = (decide (k ∈ wave) || p.isScheduled k) := by
  induction wave generalizing p with
  | nil => simp
  | cons i rest ih =>
    rw [List.foldl_cons, ih, isScheduled_schedule]
    by_cases same : k = i <;> by_cases later : k ∈ rest <;> simp [same, later]

theorem mem_ready_iff : i ∈ p.ready ↔ p.isScheduled i = false ∧ p.waitsFor i = 0 := by
  simp [ready]

theorem mem_unscheduled_iff : i ∈ p.unscheduled ↔ p.isScheduled i = false := by
  simp [unscheduled]

/-- What holds before every round: the counts are exact, the positions in waves are those whose
paths are shorter than the number of rounds, and the waves are the layers up to there. -/
structure Layered (g : Graph n) (p : Progress n) : Prop where
  waits : p.Waits g
  remaining : p.remaining = p.unscheduled.length
  scheduled : ∀ i : Fin n, p.isScheduled i = true ↔ ¬ Path g.Depends i p.waves.length
  waves : p.waves = (List.range p.waves.length).map (layer g.Depends)
  inhabited : ∀ wave ∈ p.waves, wave ≠ []

theorem isScheduled_initial : (initial g).isScheduled i = false := by
  simp [initial, isScheduled]

theorem waitsFor_initial : (initial g).waitsFor i = (g.dependencies i).length := by
  simp [initial, waitsFor]

theorem layered_initial : (initial g).Layered g where
  waits i := by simp [pending, waitsFor_initial, isScheduled_initial]
  remaining := by
    simp only [unscheduled, isScheduled_initial]
    simp [initial]
  scheduled i := by
    rw [isScheduled_initial]
    simp [initial, Path.stop]
  waves := rfl
  inhabited := nofun

/-- A position waits for nothing exactly when no path of one more dependency starts at it. -/
theorem Layered.waitsFor_eq_zero_iff (layered : p.Layered g) :
    p.waitsFor i = 0 ↔ ¬ Path g.Depends i (p.waves.length + 1) := by
  rw [layered.waits i, pending, List.countP_eq_zero, path_succ_iff]
  constructor
  · rintro none ⟨j, edge, path⟩
    have done : p.isScheduled j = true := by simpa using none j edge
    exact (layered.scheduled j).mp done path
  · intro none j edge
    have done := (layered.scheduled j).mpr fun path => none ⟨j, edge, path⟩
    simp [done]

/-- The positions of the next wave are those whose longest path has one length. -/
theorem Layered.ready_eq (layered : p.Layered g) :
    p.ready = layer g.Depends p.waves.length := by
  refine List.filter_congr fun i _ => ?_
  rw [Bool.eq_iff_iff]
  simp only [Bool.and_eq_true, Bool.not_eq_true', beq_iff_eq, layered.waitsFor_eq_zero_iff, Longest]
  have shorter := layered.scheduled i
  by_cases done : p.isScheduled i = true <;> simp_all

theorem isScheduled_advance {wave : List (Fin n)} :
    (p.advance g wave).isScheduled k = (decide (k ∈ wave) || p.isScheduled k) :=
  isScheduled_foldl_schedule

theorem length_unscheduled_advance :
    p.unscheduled.length = p.ready.length + (p.advance g p.ready).unscheduled.length := by
  rw [List.length_eq_length_filter_add (l := p.unscheduled) fun i => p.waitsFor i == 0]
  congr 2
  · simp only [unscheduled, ready, List.filter_filter, Bool.and_comm]
  · simp only [unscheduled, List.filter_filter]
    refine List.filter_congr fun i _ => ?_
    rw [isScheduled_advance, Bool.eq_iff_iff]
    have := mem_ready_iff (p := p) (i := i)
    by_cases done : p.isScheduled i = true <;> simp_all

/-- A round keeps it. -/
theorem Layered.advance (layered : p.Layered g) (more : p.ready ≠ []) :
    (p.advance g p.ready).Layered g where
  waits := by
    have distinct : p.ready.Nodup := (List.nodup_finRange n).filter _
    exact layered.waits.foldl_schedule distinct fun i member => (mem_ready_iff.mp member).1
  remaining := by
    have := length_unscheduled_advance (g := g) (p := p)
    have := layered.remaining
    simp only [Progress.advance] at *
    omega
  scheduled i := by
    have shorter := layered.scheduled i
    rw [isScheduled_advance, layered.ready_eq]
    simp only [Progress.advance, List.length_append, List.length_singleton]
    simp only [layer, List.mem_filter, List.mem_finRange, Longest]
    by_cases done : p.isScheduled i = true
    · have short := shorter.mp done
      simpa [done] using fun path => short (Path.of_succ path)
    · have path : Path g.Depends i p.waves.length := by simpa [done] using shorter
      simp [done, path]
  waves := by
    simp only [Progress.advance, List.length_append, List.length_singleton, List.range_succ,
      List.map_append, List.map_singleton, ← layered.ready_eq]
    rw [← layered.waves]
  inhabited wave member := by
    rcases List.mem_append.mp member with old | new
    · exact layered.inhabited wave old
    · exact List.mem_singleton.mp new ▸ more

theorem Layered.run (layered : p.Layered g) (rounds : Nat) :
    (Progress.run g rounds p).Layered g := by
  induction rounds generalizing p with
  | zero => exact layered
  | succ rounds ih =>
    simp only [Progress.run]
    split
    · exact layered
    · next i more ready =>
      have next := layered.advance (by simp [ready])
      rw [ready] at next
      exact ih next

/-- As many rounds as positions are left are enough. -/
theorem Layered.ready_run (layered : p.Layered g) {rounds : Nat} (enough : p.remaining ≤ rounds) :
    (Progress.run g rounds p).ready = [] := by
  induction rounds generalizing p with
  | zero =>
    have none : p.unscheduled = [] :=
      List.eq_nil_of_length_eq_zero (by have := layered.remaining; omega)
    refine List.eq_nil_iff_forall_not_mem.mpr fun i member => ?_
    have left : i ∈ p.unscheduled := mem_unscheduled_iff.mpr (mem_ready_iff.mp member).1
    simp [none] at left
  | succ rounds ih =>
    simp only [Progress.run]
    split
    · next ready => exact ready
    · next i more ready =>
      have next := layered.advance (by simp [ready])
      rw [ready] at next
      refine ih next ?_
      simp only [Progress.advance, List.length_cons]
      omega

/-- When no position is ready, those left over are those that endless paths start at. -/
theorem Layered.unscheduled_eq (layered : p.Layered g) (idle : p.ready = []) :
    p.unscheduled = (List.finRange n).filter fun i => Endless g.Depends i := by
  refine List.filter_congr fun i _ => ?_
  rw [layered.ready_eq] at idle
  have continues : ∀ j, ¬ Longest g.Depends j p.waves.length := by
    simpa [layer] using idle
  rw [Bool.eq_iff_iff, Bool.not_eq_true', decide_eq_true_eq, ← Bool.not_eq_true, layered.scheduled]
  constructor
  · exact fun path => (not_not.mp path).endless continues
  · exact fun endless short => short (endless _)

end Progress

theorem layers_eq_ok {waves : List (List (Fin n))} (ordered : layers g = .ok waves) :
    ∃ count, waves = (List.range count).map (layer g.Depends) ∧
      (∀ i, ¬ Path g.Depends i count) ∧ ∀ wave ∈ waves, wave ≠ [] := by
  have layered := Progress.layered_initial.run (g := g) n
  unfold layers at ordered
  dsimp only at ordered
  split at ordered
  · next none =>
    cases Except.ok.inj ordered
    refine ⟨_, layered.waves, fun i => (layered.scheduled i).mp ?_, layered.inhabited⟩
    have empty : (Progress.run g n (.initial g)).unscheduled = [] :=
      List.eq_nil_of_length_eq_zero (layered.remaining ▸ none)
    by_contra left
    have member := Progress.mem_unscheduled_iff.mpr (Bool.eq_false_iff.mpr left)
    simp [empty] at member
  · contradiction

theorem layers_eq_error {stuck : List (Fin n)} (cyclic : layers g = .error stuck) :
    stuck = ((List.finRange n).filter fun i => Endless g.Depends i) ∧ stuck ≠ [] := by
  have layered := Progress.layered_initial.run (g := g) n
  unfold layers at cyclic
  dsimp only at cyclic
  split at cyclic
  · contradiction
  · next some =>
    cases Except.error.inj cyclic
    refine ⟨layered.unscheduled_eq (Progress.layered_initial.ready_run (Nat.le_refl n)), ?_⟩
    intro empty
    exact some (by rw [layered.remaining, empty]; rfl)

end Estate.Deployment
