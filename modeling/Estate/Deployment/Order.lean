import Estate.Distinct
import Estate.Deployment.Stack

/-! The order of deployment: stacks in waves, each stack in the first wave after all those that it
depends on. Every round takes the stacks that wait for nothing as the next wave; stacks that are
left when no round can go on depend on a cycle. -/
namespace Estate.Deployment
open Document

/-- Stack ids in waves. The stacks of a wave may be deployed at the same time. -/
structure Order where
  waves : List (List String)
deriving DecidableEq

namespace Order

instance : Inhabited Order := ⟨⟨[]⟩⟩

def schema : Schema Order := .via (.list (.list .text)) mk waves fun _ => rfl

def size (o : Order) : Nat := o.waves.length

def waveOf (o : Order) (id : String) : Option Nat := o.waves.findIdx? (·.contains id)

def stackIds (o : Order) : List String := o.waves.flatten

end Order

inductive OrderError where
  | danglingDependency (stackId dependencyId : String)
  | cycle (stackIds : List String)
deriving DecidableEq

def OrderError.message : OrderError → String
  | danglingDependency stackId dependencyId =>
    s!"stack '{stackId}' depends on unknown stack '{dependencyId}'"
  | cycle stackIds => "dependency cycle among stacks: " ++ ", ".intercalate stackIds

/-- The position of the first stack with an id. -/
def position? (ss : List Stack) (id : String) : Option (Fin ss.length) :=
  ss.findFinIdx? (·.id == id)

/-- The first dependency on an unknown stack, with the stack that has it. -/
def dangling? (ss : List Stack) : Option (String × String) :=
  ss.findSome? fun s =>
    (s.dependsOn.find? fun id => (position? ss id).isNone).map (s.id, ·)

/-- Dependencies between positions: for each one those that it depends on, without repetition. -/
structure Graph (n : Nat) where
  dependencies : Fin n → List (Fin n)
  distinct : ∀ i, (dependencies i).Nodup

namespace Graph

/-- The dependencies between stacks, unknown ones left out. -/
def ofStacks (ss : List Stack) : Graph ss.length :=
  let table := Vector.ofFn fun i : Fin ss.length =>
    ((ss.get i).dependsOn.filterMap (position? ss)).eraseDups
  ⟨fun i => table[i], fun i => by simp [table, nodup_eraseDups]⟩

variable {n : Nat}

def dependents (g : Graph n) (i : Fin n) : List (Fin n) :=
  (List.finRange n).filter fun j => (g.dependencies j).contains i

end Graph

/-- How far the ordering has come: for every position the number of its dependencies that are not in
a wave yet and whether it is in one itself, the number of positions that are in none, and the waves
so far. -/
structure Progress (n : Nat) where
  waiting : Vector Nat n
  scheduled : Vector Bool n
  remaining : Nat
  waves : List (List (Fin n))

namespace Progress

variable {n : Nat}

def initial (g : Graph n) : Progress n :=
  ⟨.ofFn fun i => (g.dependencies i).length, .replicate n false, n, []⟩

def isScheduled (p : Progress n) (i : Fin n) : Bool := p.scheduled[i]

def waitsFor (p : Progress n) (i : Fin n) : Nat := p.waiting[i]

/-- The positions that wait for nothing, in order. -/
def ready (p : Progress n) : List (Fin n) :=
  (List.finRange n).filter fun i => !p.isScheduled i && p.waitsFor i == 0

/-- The positions that are in no wave, in order. -/
def unscheduled (p : Progress n) : List (Fin n) :=
  (List.finRange n).filter fun i => !p.isScheduled i

/-- A position waits for one dependency less. -/
def release (p : Progress n) (i : Fin n) : Progress n :=
  { p with waiting := p.waiting.set i (p.waitsFor i - 1) }

/-- Puts a position into a wave and releases those that depend on it. -/
def schedule (g : Graph n) (p : Progress n) (i : Fin n) : Progress n :=
  (g.dependents i).foldl release { p with scheduled := p.scheduled.set i true }

/-- The progress after one more wave. -/
def advance (g : Graph n) (p : Progress n) (wave : List (Fin n)) : Progress n :=
  let next := wave.foldl (schedule g) p
  { next with remaining := p.remaining - wave.length, waves := p.waves ++ [wave] }

/-- The progress after at most so many rounds; a round that has nothing to schedule is the last. -/
def run (g : Graph n) : (rounds : Nat) → Progress n → Progress n
  | 0, p => p
  | rounds + 1, p =>
    match p.ready with
    | [] => p
    | i :: more => run g rounds (p.advance g (i :: more))

end Progress

/-- The waves of positions, or those that depend on a cycle. Every round schedules a position, so
there are no more rounds than positions. -/
def layers {n : Nat} (g : Graph n) : Except (List (Fin n)) (List (List (Fin n))) :=
  let final := Progress.run g n (.initial g)
  if final.remaining = 0 then .ok final.waves else .error final.unscheduled

/-- The order of stacks. Unknown dependencies are found before cycles. -/
def order (ss : List Stack) : Except OrderError Order :=
  match dangling? ss with
  | some (stackId, dependencyId) => .error (.danglingDependency stackId dependencyId)
  | none =>
    match layers (.ofStacks ss) with
    | .ok waves => .ok ⟨waves.map (·.map fun i => (ss.get i).id)⟩
    | .error stuck => .error (.cycle (stuck.map fun i => (ss.get i).id))

end Estate.Deployment
