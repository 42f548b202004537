import Estate.Proofs.Compartment.Saving
import Estate.Proofs.Resolution.Noninterference
import Estate.Proofs.Topology.Validation

/-! Drafts: documents resolved against a forest that does not hold them, or holds another one under
their id. A draft has in effect what it will have once it is saved, wherever it hangs itself, as
long as what comes of saving it is a forest. -/
namespace Estate.Resolution
open Policy

variable {index : Index} {forest forest' : Forest} {draft : Compartment} {cs : List Compartment}

/-- Of the forest a trace shows nothing but the chain of its target. -/
theorem trace_eq_of_chain_eq (same : chain forest draft = chain forest' draft) :
    trace index forest draft = trace index forest' draft := by
  simp only [trace, resolve, verdicts, visits, same]

theorem chain_eq_of_saved (saves : forest'.compartments = saved draft forest.compartments) :
    chain forest draft = forest'.chain draft.id :=
  (ascent_chain forest draft).unique (ascent_of_saved saves)

theorem get?_of_saved (saves : forest'.compartments = saved draft forest.compartments) :
    forest'.get? draft.id = some draft := by
  have inside : draft ∈ forest'.compartments := saves ▸ mem_saved_self draft _
  exact Forest.get?_eq_some_iff.mpr ⟨inside, rfl⟩

theorem traceById_of_saved (saves : forest'.compartments = saved draft forest.compartments) :
    traceById index forest' draft.id = .ok (trace index forest draft) := by
  have found := get?_of_saved saves
  have same : chain forest' draft = chain forest draft :=
    (chain_eq found).trans (chain_eq_of_saved saves).symm
  rw [traceById_of_get? found, trace_eq_of_chain_eq same]

/-- A draft that makes a forest once it is saved has in that forest the chain and the trace that it
has beside it, also in a topology of those compartments, and the chain in its trace is that of the
forest by ids. A document that is in the forest already has the same trace as by its id, and its
chain is the forest's. -/
theorem draft_eq_saved (index : Index) (built : Forest.build cs = .ok forest)
    (built' : Forest.build (saved draft cs) = .ok forest') :
    chain forest draft = forest'.chain draft.id ∧
    (trace index forest draft).chain = (forest'.chain draft.id).map (·.id) ∧
    trace index forest draft = trace index forest' draft ∧
    traceById index forest' draft.id = .ok (trace index forest draft) ∧
    (∀ s t, s.compartments = saved draft cs → Snapshot.validate s = .ok t →
      traceById index t.forest draft.id = .ok (trace index forest draft)) ∧
    ∀ held, forest.get? held.id = some held → saved held cs = cs ∧
      chain forest held = forest.chain held.id ∧
      (trace index forest held).chain = (forest.chain held.id).map (·.id) ∧
      traceById index forest held.id = .ok (trace index forest held) := by
  obtain ⟨rfl, _⟩ := Forest.build_eq_ok built
  obtain ⟨saves, _⟩ := Forest.build_eq_ok built'
  have chained : chain forest draft = forest'.chain draft.id := chain_eq_of_saved saves
  refine ⟨chained, congrArg (List.map Compartment.id) chained, ?detached,
    traceById_of_saved saves, ?topology, ?held⟩
  case detached =>
    exact trace_eq_of_chain_eq (chained.trans (chain_eq (get?_of_saved saves)).symm)
  case topology =>
    intro s t holds valid
    have kept := (Snapshot.validate_eq_ok valid).2.compartments
    exact traceById_of_saved (kept.trans holds)
  case held =>
    intro held found
    have member := (Forest.get?_eq_some_iff.mp found).1
    exact ⟨saved_of_mem forest.distinct member, chain_eq found,
      congrArg (List.map Compartment.id) (chain_eq found), traceById_of_get? found⟩

/-- The draft moves its compartment from the root to the unit beside it, and gains what the unit
attaches. -/
theorem draft_eq_saved_moved :
    let attach (name : String) : Attachment := .inline ⟨name, [], .medium, true⟩
    let org := Compartment.attaching "org" none [attach "audit"]
    let unit := Compartment.attaching "unit" (some "org") [attach "keys"]
    let app := Compartment.attaching "app" (some "org") [attach "logs"]
    let draft := { app with parentId := some "unit" }
    let forest : Forest := ⟨[org, app, unit], by decide +kernel, by decide +kernel⟩
    let forest' : Forest := ⟨[org, draft, unit], by decide +kernel, by decide +kernel⟩
    Forest.build [org, app, unit] = .ok forest ∧
      Forest.build (saved draft [org, app, unit]) = .ok forest' ∧
      (resolve default forest app).map (·.name) = ["logs", "audit"] ∧
      (resolve default forest draft).map (·.name) = ["logs", "keys", "audit"] ∧
      traceById default forest' "app" = .ok (trace default forest draft) := by
  intro attach org unit app draft forest forest'
  have replaced : saved draft [org, app, unit] = [org, draft, unit] := by decide +kernel
  have built' : Forest.build (saved draft [org, app, unit]) = .ok forest' :=
    replaced ▸ forest'.build_compartments
  have same := draft_eq_saved default forest.build_compartments built'
  exact ⟨forest.build_compartments, built', by decide +kernel, by decide +kernel, same.2.2.2.1⟩

end Estate.Resolution
