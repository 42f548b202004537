import Mathlib.Data.Fintype.Card
import Estate.Proofs.Deployment.Checked

/-! The ordering runs safely. On plain arrays with every index and every subtraction checked it
gets through, with what is meant to come of it, and its counters are exact before every round. -/
namespace Estate.Deployment

open Checked

section Building

variable {ss : List Stack}

theorem put?_ofFn {α : Type} {n : Nat} (f : Fin n → α) (i : Fin n) (x : α) :
    put? (.ofFn f) i x = some (.ofFn fun j => if j = i then x else f j) := by
  have inside : (i : Nat) < (Array.ofFn f).size := by simp
  rw [put?, dif_pos inside]
  congr 1
  apply Array.ext
  · simp
  · intro j first second
    simp [Array.getElem_set, Fin.ext_iff, eq_comm]

theorem foldlM_link? {n : Nat} {positions : List (Fin n)} (position : Nat) (f : Fin n → List Nat)
    (distinct : positions.Nodup) :
    (positions.map Fin.val).foldlM (link? position) (.ofFn f) =
      some (.ofFn fun i => if i ∈ positions then f i ++ [position] else f i) := by
  induction positions generalizing f with
  | nil => simp
  | cons i rest ih =>
    obtain ⟨fresh, distinct⟩ := List.nodup_cons.mp distinct
    have row : (Array.ofFn f)[(i : Nat)]? = some (f i) := by simp
    simp only [List.map_cons, List.foldlM_cons, link?, row, Option.bind_eq_bind, Option.bind_some,
      put?_ofFn]
    rw [ih _ distinct]
    congr 2
    funext j
    by_cases same : j = i
    · subst same
      simp [fresh]
    · simp [same]

theorem mapM_eq_filterMap {α β : Type} {f : α → Option β} {l : List α}
    (answered : ∀ a ∈ l, (f a).isSome = true) : l.mapM f = some (l.filterMap f) := by
  induction l with
  | nil => rfl
  | cons a rest ih =>
    obtain ⟨b, answer⟩ := Option.isSome_iff_exists.mp (answered a List.mem_cons_self)
    have later := ih fun c member => answered c (List.mem_cons_of_mem _ member)
    simp [List.mapM_cons, answer, later]

/-- What is entered after so many stacks. -/
def linksUpTo (ss : List Stack) (count : Nat) : Links where
  waiting := .ofFn fun i : Fin ss.length =>
    if i < count then ((Graph.ofStacks ss).dependencies i).length else 0
  dependents := .ofFn fun i : Fin ss.length =>
    (((List.finRange ss.length).take count).filter fun j =>
      ((Graph.ofStacks ss).dependencies j).contains i).map Fin.val

theorem mapM_findIdx? (closed : Closed ss) (i : Fin ss.length) :
    (ss.get i).dependsOn.mapM (fun id => ss.findIdx? (·.id == id)) =
      some (((ss.get i).dependsOn.filterMap (position? ss)).map Fin.val) := by
  have found (id : String) : ss.findIdx? (·.id == id) = (position? ss id).map Fin.val :=
    List.findIdx?_eq_map_findFinIdx?_val
  simp only [found]
  rw [mapM_eq_filterMap, List.map_filterMap]
  intro id member
  rw [Option.isSome_map, position?_isSome_iff]
  exact closed _ (List.get_mem _ _) id member

theorem enter?_eq (closed : Closed ss) (i : Fin ss.length) :
    enter? ss (linksUpTo ss i) (ss.get i, i) = some (linksUpTo ss (i + 1)) := by
  have distinct : (((ss.get i).dependsOn.filterMap (position? ss)).map Fin.val).eraseDups =
      ((Graph.ofStacks ss).dependencies i).map Fin.val := by
    rw [dependencies_ofStacks]
    exact eraseDups_map (fun _ _ => Fin.ext) _
  have entered := foldlM_link? i (fun j => (((List.finRange ss.length).take i).filter fun k =>
    ((Graph.ofStacks ss).dependencies k).contains j).map Fin.val) ((Graph.ofStacks ss).distinct i)
  simp only [enter?, mapM_findIdx? closed, distinct, Option.bind_eq_bind, Option.bind_some,
    List.length_map]
  simp only [linksUpTo, put?_ofFn, entered, Option.bind_some, Option.pure_def, Option.some.injEq,
    Links.mk.injEq]
  have here : (i : Nat) < (List.finRange ss.length).length := by simp
  constructor
  · congr 1
    funext j
    by_cases same : j = i
    · subst same
      simp
    · have different : (j : Nat) ≠ i := fun equal => same (Fin.ext equal)
      have later : (j : Nat) < i + 1 ↔ (j : Nat) < i := by omega
      simp [same, later]
  · congr 1
    funext j
    rw [List.take_succ_eq_append_getElem here, List.filter_append, List.map_append]
    by_cases dependent : j ∈ (Graph.ofStacks ss).dependencies i <;> simp [dependent]

/-- Steps that are taken for every member of a list in turn. -/
theorem foldlM_zipIdx {α β : Type} {step : β → α × Nat → Option β} {state : Nat → β} {l : List α}
    (steps : ∀ (k : Nat) (inside : k < l.length), step (state k) (l[k], k) = some (state (k + 1))) :
    l.zipIdx.foldlM step (state 0) = some (state l.length) := by
  have reach (k : Nat) (inside : k ≤ l.length) :
      (l.take k).zipIdx.foldlM step (state 0) = some (state k) := by
    induction k with
    | zero => rfl
    | succ k ih =>
      have size : (l.take k).length = k := by simp; omega
      rw [List.take_succ_eq_append_getElem (by omega), List.zipIdx_append, List.foldlM_append,
        ih (by omega), size]
      simp [steps k (by omega)]
  simpa using reach l.length (Nat.le_refl _)

theorem links?_eq (closed : Closed ss) : links? ss = some (linksUpTo ss ss.length) := by
  have start : linksUpTo ss 0 = ⟨.replicate ss.length 0, .replicate ss.length []⟩ := by
    simp only [linksUpTo, Links.mk.injEq]
    constructor <;> apply Array.ext <;> simp
  rw [links?, ← start]
  exact foldlM_zipIdx fun k inside => enter?_eq closed ⟨k, inside⟩

theorem order?_eq (closed : Closed ss) : order? ss = some (order ss) := by
  have rows : (linksUpTo ss ss.length).dependents = table (.ofStacks ss) := by
    simp [linksUpTo, table, Graph.dependents, List.take_of_length_le]
  have counters : tally ss (.initial (.ofStacks ss)) = ⟨(linksUpTo ss ss.length).waiting,
      .replicate ss.length false, ss.length, []⟩ := by
    simp [tally, Progress.initial, linksUpTo]
  have finished := run?_eq (g := .ofStacks ss) Progress.layered_initial (Nat.le_refl ss.length)
  rw [order?, links?_eq closed, Option.bind_eq_bind, Option.bind_some, rows, ← counters, finished,
    order_eq_report closed]

end Building

section Exact

open scoped Classical

variable {ss : List Stack}

/-- The counters say what they are meant to say: for every position in no wave the number of its
dependencies that are in none, nothing for those in waves, and how many are in none. -/
structure Progress.IsExact (ss : List Stack) (p : Progress ss.length) : Prop where
  waiting : ∀ i, p.isScheduled i = false → p.waitsFor i =
    (Finset.univ.filter fun j => DependsOn ss i j ∧ p.isScheduled j = false).card
  settled : ∀ i, p.isScheduled i = true → p.waitsFor i = 0
  remaining : p.remaining = (Finset.univ.filter fun i => p.isScheduled i = false).card

theorem Progress.pending_ofStacks {p : Progress ss.length} (i : Fin ss.length) :
    p.pending (.ofStacks ss) i =
      (Finset.univ.filter fun j => DependsOn ss i j ∧ p.isScheduled j = false).card := by
  have distinct := ((Graph.ofStacks ss).distinct i).filter fun j => !p.isScheduled j
  rw [Progress.pending, List.countP_eq_length_filter, ← List.toFinset_card_of_nodup distinct]
  congr 1
  ext j
  have edge : j ∈ (Graph.ofStacks ss).dependencies i ↔ DependsOn ss i j := by
    rw [← depends_ofStacks]
    rfl
  simp [edge]

theorem Progress.Layered.isExact {p : Progress ss.length} (layered : p.Layered (.ofStacks ss)) :
    p.IsExact ss where
  waiting i _ := by rw [layered.waits i, Progress.pending_ofStacks]
  settled i done := by
    rw [layered.waitsFor_eq_zero_iff]
    intro path
    exact (layered.scheduled i).mp done path.of_succ
  remaining := by
    have distinct : p.unscheduled.Nodup := (List.nodup_finRange _).filter _
    rw [layered.remaining, ← List.toFinset_card_of_nodup distinct]
    congr 1
    ext i
    simp [Progress.mem_unscheduled_iff]

/-- Where no dependency dangles, the counters are exact before every round. So the ordering never
takes more from a number than it is, never goes beyond the end of an array, and is done after one
round for each stack, with an order or a cycle. -/
theorem order_runs_safely (closed : Closed ss) :
    (∀ rounds, (Progress.run (.ofStacks ss) rounds (.initial (.ofStacks ss))).IsExact ss) ∧
    Checked.order? ss = some (order ss) ∧
    ((∃ o, order ss = .ok o) ∨ ∃ ids, order ss = .error (.cycle ids)) := by
  refine ⟨fun rounds => ?_, order?_eq closed, order_of_closed closed⟩
  exact (Progress.layered_initial.run rounds).isExact

/-- One stack depends on itself and lists a dependency twice, and two share an id. -/
theorem order_runs_safely_repeated :
    let ss := [.depending "app" ["app", "db", "db"], .depending "db" [], .depending "db" ["app"]]
    (∀ rounds, (Progress.run (.ofStacks ss) rounds (.initial (.ofStacks ss))).IsExact ss) ∧
    Checked.order? ss = some (order ss) ∧ order ss = .error (.cycle ["app", "db"]) := by
  intro ss
  have closed : Closed ss := dangling?_eq_none_iff.mp (by decide +kernel)
  obtain ⟨counts, checked, _⟩ := order_runs_safely closed
  exact ⟨counts, checked, by decide +kernel⟩

end Exact

end Estate.Deployment
