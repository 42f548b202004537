import Estate.Proofs.Deployment.Refusal

/-! The ordering on plain arrays of numbers, with every index and every subtraction checked. It
stops where an index is not inside an array, where a number would fall below zero, and after one
round for each stack. It never stops there: its counters are exact before every round. -/
namespace Estate.Deployment

namespace Checked

/-- The difference of two numbers, if it is one. -/
def subtract? (a b : Nat) : Option Nat := if b ≤ a then some (a - b) else none

/-- The array with a value in place of another, if there is one at the index. -/
def put? {α : Type} (xs : Array α) (i : Nat) (x : α) : Option (Array α) :=
  if inside : i < xs.size then some (xs.set i x) else none

/-- For every position how many others it depends on, and which others depend on it. -/
structure Links where
  waiting : Array Nat
  dependents : Array (List Nat)

/-- Enters a position among the dependents of another. -/
def link? (position : Nat) (dependents : Array (List Nat)) (i : Nat) :
    Option (Array (List Nat)) := do
  put? dependents i ((← dependents[i]?) ++ [position])

/-- Enters the dependencies of the stack at a position, all of which have to be known. -/
def enter? (ss : List Stack) (links : Links) (e : Stack × Nat) : Option Links := do
  let dependencies ← e.1.dependsOn.mapM fun id => ss.findIdx? (·.id == id)
  let waiting ← put? links.waiting e.2 dependencies.eraseDups.length
  let dependents ← dependencies.eraseDups.foldlM (link? e.2) links.dependents
  return ⟨waiting, dependents⟩

def links? (ss : List Stack) : Option Links :=
  ss.zipIdx.foldlM (enter? ss) ⟨.replicate ss.length 0, .replicate ss.length []⟩

/-- How far the ordering has come. -/
structure Tally where
  waiting : Array Nat
  scheduled : Array Bool
  remaining : Nat
  waves : List (List String)

def release? (waiting : Array Nat) (i : Nat) : Option (Array Nat) := do
  put? waiting i (← subtract? (← waiting[i]?) 1)

def schedule? (dependents : Array (List Nat)) (t : Tally) (i : Nat) : Option Tally := do
  let scheduled ← put? t.scheduled i true
  let waiting ← (← dependents[i]?).foldlM release? t.waiting
  return { t with scheduled, waiting }

def isReady? (t : Tally) (i : Nat) : Option Bool := do
  if ← t.scheduled[i]? then return false
  return (← t.waiting[i]?) == 0

def isLeft? (t : Tally) (i : Nat) : Option Bool := do
  return !(← t.scheduled[i]?)

def names? (ss : List Stack) (positions : List Nat) : Option (List String) :=
  positions.mapM fun i => ss[i]?.map (·.id)

def advance? (ss : List Stack) (dependents : Array (List Nat)) (t : Tally) (wave : List Nat) :
    Option Tally := do
  let next ← wave.foldlM (schedule? dependents) t
  let remaining ← subtract? t.remaining wave.length
  let names ← names? ss wave
  return { next with remaining, waves := t.waves ++ [names] }

/-- The rounds, of which there may be so many. -/
def run? (ss : List Stack) (dependents : Array (List Nat)) :
    (rounds : Nat) → Tally → Option (Except OrderError Order)
  | 0, t => if t.remaining = 0 then some (.ok ⟨t.waves⟩) else none
  | rounds + 1, t =>
    if t.remaining = 0 then some (.ok ⟨t.waves⟩)
    else do
      let wave ← (List.range ss.length).filterM (isReady? t)
      if wave.isEmpty then
        let stuck ← (List.range ss.length).filterM (isLeft? t)
        return .error (.cycle (← names? ss stuck))
      else
        run? ss dependents rounds (← advance? ss dependents t wave)

def order? (ss : List Stack) : Option (Except OrderError Order) := do
  let links ← links? ss
  run? ss links.dependents ss.length
    ⟨links.waiting, .replicate ss.length false, ss.length, []⟩

end Checked

section Lists

variable {α β : Type}

theorem filterAuxM_map {f : α → β} {p : β → Option Bool} {q : α → Bool} (l : List α)
    (kept : List β) (answered : ∀ a, p (f a) = some (q a)) :
    (l.map f).filterAuxM p kept = some (((l.filter q).map f).reverse ++ kept) := by
  induction l generalizing kept with
  | nil => rfl
  | cons a rest ih =>
    simp only [List.map_cons, List.filterAuxM, answered a, Option.bind_eq_bind, Option.bind_some]
    rw [ih]
    cases answer : q a <;> simp [answer]

theorem filterM_map {f : α → β} {p : β → Option Bool} {q : α → Bool} {l : List α}
    (answered : ∀ a, p (f a) = some (q a)) : (l.map f).filterM p = some ((l.filter q).map f) := by
  simp [List.filterM, filterAuxM_map l [] answered]

end Lists

namespace Checked

variable {ss : List Stack} {n : Nat} {g : Graph n} {p : Progress n} {i : Fin n}

theorem put?_toArray {α : Type} (xs : Vector α n) (x : α) :
    put? xs.toArray i x = some (xs.set i x i.isLt).toArray := by
  simp [put?]

theorem waiting_getElem? : p.waiting.toArray[(i : Nat)]? = some (p.waitsFor i) := by
  simp [Progress.waitsFor]

theorem scheduled_getElem? : p.scheduled.toArray[(i : Nat)]? = some (p.isScheduled i) := by
  simp [Progress.isScheduled]

theorem release?_eq (waits : 0 < p.waitsFor i) :
    release? p.waiting.toArray i = some (p.release i).waiting.toArray := by
  have enough : subtract? (p.waitsFor i) 1 = some (p.waitsFor i - 1) := if_pos waits
  simp only [release?, waiting_getElem?, enough, Option.bind_eq_bind, Option.bind_some]
  exact put?_toArray _ _

/-- Among different positions each one is released at its own count. -/
theorem foldlM_release? {positions : List (Fin n)} (distinct : positions.Nodup)
    (waits : ∀ i ∈ positions, 0 < p.waitsFor i) :
    (positions.map Fin.val).foldlM release? p.waiting.toArray =
      some (positions.foldl Progress.release p).waiting.toArray := by
  induction positions generalizing p with
  | nil => rfl
  | cons i rest ih =>
    obtain ⟨fresh, distinct⟩ := List.nodup_cons.mp distinct
    rw [List.map_cons, List.foldlM_cons, release?_eq (waits i List.mem_cons_self)]
    refine ih distinct fun j member => ?_
    have different : j ≠ i := fun same => fresh (same ▸ member)
    rw [Progress.waitsFor_release, if_neg different]
    exact waits j (List.mem_cons_of_mem _ member)

/-- The dependents of all positions. -/
def table (g : Graph n) : Array (List Nat) := .ofFn fun i => (g.dependents i).map Fin.val

/-- The counters of the ordering as plain arrays. -/
def tally (ss : List Stack) (p : Progress ss.length) : Tally :=
  ⟨p.waiting.toArray, p.scheduled.toArray, p.remaining,
    p.waves.map (·.map fun i => (ss.get i).id)⟩

theorem foldl_release_eq {positions : List (Fin n)} :
    positions.foldl Progress.release p =
      { p with waiting := (positions.foldl Progress.release p).waiting } := by
  induction positions generalizing p with
  | nil => rfl
  | cons i rest ih => exact ih

end Checked

open Checked

section Rounds

variable {ss : List Stack}
variable {g : Graph ss.length} {p : Progress ss.length} {i : Fin ss.length}

theorem Progress.Waits.pos_of_mem_dependents (waits : p.Waits g) (free : p.isScheduled i = false)
    {j : Fin ss.length} (dependent : j ∈ g.dependents i) : 0 < p.waitsFor j := by
  rw [waits j, Progress.pending, List.countP_pos_iff]
  exact ⟨i, Graph.mem_dependents_iff.mp dependent, by simp [free]⟩

theorem schedule?_eq (waits : p.Waits g) (free : p.isScheduled i = false) :
    schedule? (table g) (tally ss p) i = some (tally ss (p.schedule g i)) := by
  have row : (table g)[(i : Nat)]? = some ((g.dependents i).map Fin.val) := by simp [table]
  have released := foldlM_release? (p := { p with scheduled := p.scheduled.set i true i.isLt })
    g.nodup_dependents fun _ => waits.pos_of_mem_dependents free
  simp only [schedule?, tally, put?_toArray, row, Option.bind_eq_bind, Option.bind_some, released]
  rw [Progress.schedule, foldl_release_eq]
  rfl

theorem foldlM_schedule? {wave : List (Fin ss.length)} (waits : p.Waits g) (distinct : wave.Nodup)
    (free : ∀ i ∈ wave, p.isScheduled i = false) :
    (wave.map Fin.val).foldlM (schedule? (table g)) (tally ss p) =
      some (tally ss (wave.foldl (Progress.schedule g) p)) := by
  induction wave generalizing p with
  | nil => rfl
  | cons i rest ih =>
    obtain ⟨fresh, distinct⟩ := List.nodup_cons.mp distinct
    have first := free i List.mem_cons_self
    rw [List.map_cons, List.foldlM_cons, schedule?_eq waits first]
    refine ih (waits.schedule first) distinct fun j member => ?_
    have different : j ≠ i := fun same => fresh (same ▸ member)
    rw [Progress.isScheduled_schedule, free j (List.mem_cons_of_mem _ member)]
    simp [different]

theorem filterM_isReady? :
    (List.range ss.length).filterM (isReady? (tally ss p)) = some (p.ready.map Fin.val) := by
  rw [← List.map_coe_finRange_eq_range]
  refine filterM_map fun i => ?_
  simp only [isReady?, tally, scheduled_getElem?, waiting_getElem?, Option.bind_eq_bind,
    Option.bind_some]
  cases p.isScheduled i <;> rfl

theorem filterM_isLeft? :
    (List.range ss.length).filterM (isLeft? (tally ss p)) = some (p.unscheduled.map Fin.val) := by
  rw [← List.map_coe_finRange_eq_range]
  refine filterM_map fun i => ?_
  simp only [isLeft?, tally, scheduled_getElem?, Option.bind_eq_bind, Option.bind_some]
  rfl

theorem names?_eq (positions : List (Fin ss.length)) :
    names? ss (positions.map Fin.val) = some (positions.map fun i => (ss.get i).id) := by
  have named : (fun i : Nat => ss[i]?.map (·.id)) ∘ Fin.val = fun i => pure (ss.get i).id := by
    funext i
    simp
  rw [names?, List.mapM_map, named]
  exact List.mapM_pure

/-- A wave of positions is no longer than the list of those that are left. -/
theorem Progress.Layered.length_ready_le (layered : p.Layered g) :
    p.ready.length ≤ p.remaining := by
  have := Progress.length_unscheduled_advance (g := g) (p := p)
  have := layered.remaining
  omega

theorem advance?_eq (layered : p.Layered g) :
    advance? ss (table g) (tally ss p) (p.ready.map Fin.val) =
      some (tally ss (p.advance g p.ready)) := by
  have distinct : p.ready.Nodup := (List.nodup_finRange _).filter _
  have wave := foldlM_schedule? layered.waits distinct fun i member =>
    (Progress.mem_ready_iff.mp member).1
  have enough : subtract? p.remaining p.ready.length = some (p.remaining - p.ready.length) :=
    if_pos layered.length_ready_le
  simp only [advance?, wave, names?_eq, List.length_map, Option.bind_eq_bind, Option.bind_some]
  rw [show subtract? (tally ss p).remaining p.ready.length = _ from enough]
  simp [tally, Progress.advance]

/-- What the ordering has come to. -/
def Progress.report (p : Progress ss.length) : Except OrderError Order :=
  if p.remaining = 0 then .ok ⟨p.waves.map (·.map fun i => (ss.get i).id)⟩
  else .error (.cycle (p.unscheduled.map fun i => (ss.get i).id))

/-- No round stops, and there are rounds enough. -/
theorem run?_eq (layered : p.Layered g) {rounds : Nat} (enough : p.remaining ≤ rounds) :
    run? ss (table g) rounds (tally ss p) = some (Progress.run g rounds p).report := by
  have remaining : (tally ss p).remaining = p.remaining := rfl
  induction rounds generalizing p with
  | zero =>
    have none : p.remaining = 0 := by omega
    simp [run?, Progress.run, Progress.report, tally, none]
  | succ rounds ih =>
    have short := layered.length_ready_le
    simp only [run?, Progress.run, remaining]
    by_cases none : p.remaining = 0
    · have idle : p.ready = [] := List.eq_nil_of_length_eq_zero (by omega)
      simp [idle, none, Progress.report, tally]
    · rw [if_neg none, filterM_isReady?, Option.bind_eq_bind, Option.bind_some]
      cases ready : p.ready with
      | nil =>
        simp [filterM_isLeft?, names?_eq, Progress.report, none]
      | cons i more =>
        have next := layered.advance (by simp [ready])
        have counted := advance?_eq layered
        rw [ready] at next counted short
        rw [counted]
        refine ih next ?_ rfl
        simp only [Progress.advance, List.length_cons] at short ⊢
        omega

theorem order_eq_report (closed : Closed ss) :
    order ss = (Progress.run (.ofStacks ss) ss.length (.initial (.ofStacks ss))).report := by
  simp only [order, layers, dangling?_eq_none_iff.mpr closed, Progress.report]
  generalize Progress.run (.ofStacks ss) ss.length (.initial (.ofStacks ss)) = final
  by_cases none : final.remaining = 0 <;> simp [none]

end Rounds

end Estate.Deployment
