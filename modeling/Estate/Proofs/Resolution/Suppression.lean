import Estate.Proofs.Resolution.Noninterference

/-! Suppression by name. All attachments of a policy have its name, so a target that suppresses a
name decides about every other policy as if it suppressed nothing, and what is left out is never
replaced by something from further up. -/
namespace Estate.Resolution
open Policy

variable {index : Index} {forest forest' : Forest} {target target' c : Compartment}
  {names : StringSet} {id : String}

/-- The compartment suppressing these names and no others. -/
def suppressing (names : StringSet) (c : Compartment) : Compartment :=
  { c with suppressed := names }

theorem suppresses_suppressing_iff {name : String} :
    (suppressing names c).suppresses name = true ↔ name ∈ names.toList :=
  StringMap.contains_iff_mem_keys

/-- The attachments that count are those that would count if nothing were suppressed, less those of
the suppressed names. -/
theorem winners_suppressing (index : Index) (forest : Forest) (target : Compartment)
    (names : StringSet) :
    winners index forest (suppressing names target) =
      (winners index forest (suppressing .empty target)).filter fun visit =>
        effectiveName index visit.attachment ∉ names.toList := by
  have same : visits forest (suppressing names target) =
      visits forest (suppressing .empty target) := rfl
  rw [winners_eq_filter, winners_eq_filter, List.filter_filter, same]
  refine List.filter_congr fun visit _ => ?_
  have free :
      (suppressing .empty target).suppresses (effectiveName index visit.attachment) = false := rfl
  rw [← Bool.decide_and, decide_eq_decide, Visit.CountsFor, Visit.CountsFor, ← Bool.not_eq_true,
    suppresses_suppressing_iff, free]
  tauto

theorem resolve_suppressing_eq_filter (index : Index) (forest : Forest) (target : Compartment)
    (names : StringSet) :
    resolve index forest (suppressing names target) =
      (resolve index forest (suppressing .empty target)).filter fun p => p.name ∉ names.toList := by
  rw [resolve_eq_map_winners, resolve_eq_map_winners, winners_suppressing, List.filter_map]
  congr 1
  refine List.filter_congr fun visit _ => ?_
  rw [Function.comp_apply, (emission_common index visit).2.2.1]

/-- Of the target nothing counts beside its way up and what it suppresses. -/
theorem resolve_eq_of_visits (seen : visits forest target = visits forest' target')
    (suppressed : target.suppressed = target'.suppressed) :
    resolve index forest target = resolve index forest' target' := by
  simp only [resolve_eq_map_winners, winners_eq_filter, seen, countsFor_congr suppressed]

/-- The compartments, of which the one with an id suppresses these names and no others. -/
def suppressingAt (id : String) (names : StringSet) (cs : List Compartment) : List Compartment :=
  cs.map fun c => if c.id = id then suppressing names c else c

theorem rearranged_suppressingAt (id : String) (names : StringSet) (cs : List Compartment) :
    Rearranged (fun c => if c.id = id then suppressing names c else c) cs
      (suppressingAt id names cs) where
  id c := by split <;> rfl
  parentId c := by split <;> rfl
  perm := .refl _

/-- The same is in effect whether suppressions are changed in the forest or in the target alone. -/
theorem resolve_suppressingAt (found : forest.get? id = some target)
    (found' : forest'.get? id = some (suppressing names target))
    (way : forest'.chain id =
      (forest.chain id).map fun c => if c.id = id then suppressing names c else c) :
    resolve index forest' (suppressing names target) =
      resolve index forest (suppressing names target) := by
  obtain rfl := (Forest.get?_eq_some_iff.mp found).2
  have places : (forest'.chain target.id).map (fun c => (c.id, c.policies)) =
      (forest.chain target.id).map fun c => (c.id, c.policies) := by
    rw [way, List.map_map]
    refine List.map_congr_left fun c _ => ?_
    rw [Function.comp_apply]
    split <;> rfl
  have held : chain forest' (suppressing names target) = forest'.chain target.id := chain_eq found'
  have seen : visits forest' (suppressing names target) = visits forest target := by
    rw [visits, visits, held, chain_eq found, visitsFrom_congr places]
  exact resolve_eq_of_visits seen rfl

/-- Suppression takes the policies of the suppressed names out of what would be in effect if
nothing were suppressed, and changes nothing else: neither by letting another attachment win, nor
in what is left. The same holds when it is the compartment in the forest that is changed. -/
theorem suppression_filters (index : Index) (forest : Forest) (target : Compartment)
    (names : StringSet) :
    winners index forest (suppressing names target) =
      ((winners index forest (suppressing .empty target)).filter fun visit =>
        effectiveName index visit.attachment ∉ names.toList) ∧
    resolve index forest (suppressing names target) =
      ((resolve index forest (suppressing .empty target)).filter fun p => p.name ∉ names.toList) ∧
    (∀ p ∈ resolve index forest (suppressing names target), p.name ∉ names.toList) ∧
    ∀ id, ∃ restrained free,
      Forest.build (suppressingAt id names forest.compartments) = .ok restrained ∧
      Forest.build (suppressingAt id .empty forest.compartments) = .ok free ∧
      (traceById index restrained id).map (·.policies) = (traceById index free id).map fun trace =>
        trace.policies.filter fun p => p.name ∉ names.toList := by
  have filtered := resolve_suppressing_eq_filter index forest target names
  refine ⟨winners_suppressing index forest target names, filtered, ?absent, fun id => ?held⟩
  case absent =>
    intro p member
    rw [filtered] at member
    exact of_decide_eq_true (List.mem_filter.mp member).2
  case held =>
    obtain ⟨restrained, built, moves⟩ :=
      (rearranged_suppressingAt id names _).build_eq_ok forest.build_compartments
    obtain ⟨free, built', moves'⟩ :=
      (rearranged_suppressingAt id .empty _).build_eq_ok forest.build_compartments
    refine ⟨restrained, free, built, built', ?_⟩
    obtain ⟨kept, way⟩ := moves id
    obtain ⟨kept', way'⟩ := moves' id
    cases found : forest.get? id with
    | none =>
      rw [found, Option.map_none] at kept kept'
      rw [traceById, traceById, kept, kept']
      rfl
    | some target =>
      have named : target.id = id := (Forest.get?_eq_some_iff.mp found).2
      rw [found, Option.map_some, if_pos named] at kept kept'
      rw [traceById, traceById, kept, kept']
      refine congrArg Except.ok ?_
      rw [trace, trace, resolve_suppressingAt found kept way,
        resolve_suppressingAt found kept' way']
      exact resolve_suppressing_eq_filter index forest target names

/-- The root attaches a policy that is suppressed below under the same name; it does not come down
in place of the one that was attached nearer. -/
example :
    let attach (name : String) : Attachment := .inline ⟨name, [], .medium, true⟩
    let org := Compartment.attaching "org" none [attach "audit", attach "net"]
    let app := Compartment.attaching "app" (some "org") [attach "keys", attach "audit"]
    let forest : Forest := ⟨[org, app], by decide +kernel, by decide +kernel⟩
    (resolve default forest (suppressing (.ofList ["audit"]) app)).map (·.name) =
      ["keys", "net"] := by
  decide +kernel

end Estate.Resolution
