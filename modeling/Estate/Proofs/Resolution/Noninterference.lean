import Estate.Proofs.Compartment.Rearrangement
import Estate.Proofs.Resolution.Inheritance

/-! What resolution does not look at. A walk sees the places and attachments on the way up, the
names that the target suppresses and what the library says about the policies attached on the way;
two walks that see the same are the same. -/
namespace Estate
open Policy

namespace Policy.Index

variable {library library' : Library} {index : Index}

theorem build_eq_ok (built : build library = .ok index) :
    index.definitions = library.policies := by
  unfold build at built
  split at built
  · contradiction
  · exact (congrArg Index.definitions (Except.ok.inj built)).symm

theorem exists_build_eq_ok (distinct : (library.policies.map (·.id)).Nodup) :
    ∃ index, build library = .ok index := by
  unfold build
  split
  · next repeated => exact absurd distinct (firstRepeated?_eq_some_iff.mp repeated).not_nodup
  · exact ⟨_, rfl⟩

/-- Every index is the one that its definitions make. -/
theorem build_definitions (index : Index) : build ⟨index.definitions⟩ = .ok index := by
  have distinct : ((Library.mk index.definitions).policies.map (·.id)).Nodup := index.distinct
  obtain ⟨same, built⟩ := exists_build_eq_ok distinct
  have kept := build_eq_ok built
  cases same
  cases index
  cases kept
  exact built

/-- The index of a library says the same whatever the order of its policies. -/
theorem build_perm (perm : library'.policies.Perm library.policies)
    (built : build library = .ok index) :
    ∃ index', build library' = .ok index' ∧ ∀ id, index'.get? id = index.get? id := by
  have kept := build_eq_ok built
  have perm : library'.policies.Perm index.definitions := kept ▸ perm
  obtain ⟨index', built'⟩ :=
    exists_build_eq_ok ((perm.map (·.id)).nodup_iff.mpr index.distinct)
  have kept' := build_eq_ok built'
  refine ⟨index', built', fun id => ?_⟩
  ext definition
  rw [get?, get?, find?_key_eq_some_iff index'.distinct, find?_key_eq_some_iff index.distinct,
    kept', perm.mem_iff]

end Policy.Index

namespace Resolution

variable {index index' : Index} {forest forest' : Forest} {target target' : Compartment}
  {attachment : Attachment} {visit : Visit}

/-- The libraries say the same about the policy of an attachment. -/
def AgreeOn (index index' : Index) (attachment : Attachment) : Prop :=
  ∀ reference, attachment = .library reference →
    index.get? reference.policyId = index'.get? reference.policyId

namespace AgreeOn

theorem effectiveName_eq (agree : AgreeOn index index' attachment) :
    effectiveName index attachment = effectiveName index' attachment := by
  cases attachment with
  | inline policy => rfl
  | library reference => simp only [effectiveName, agree reference rfl]

theorem emission_eq (agree : AgreeOn index index' visit.attachment) :
    emission index visit = emission index' visit := by
  obtain ⟨id, distance, attachment⟩ := visit
  cases attachment with
  | inline policy => rfl
  | library reference => simp only [emission, effectiveName, agree reference rfl]

theorem step_eq (agree : AgreeOn index index' visit.attachment) (outcome : Outcome) :
    step index visit outcome = step index' visit outcome := by
  obtain ⟨id, distance, attachment⟩ := visit
  cases attachment with
  | inline policy => rfl
  | library reference => simp only [step, ignoredOverrides, agree reference rfl]

theorem judge_eq (agree : AgreeOn index index' visit.attachment)
    (suppressed : target.suppressed = target'.suppressed) (standing : Standing) :
    judge index target standing visit = judge index' target' standing visit := by
  have vetoed : target.suppresses (effectiveName index visit.attachment) =
      target'.suppresses (effectiveName index' visit.attachment) := by
    rw [Compartment.suppresses, Compartment.suppresses, agree.effectiveName_eq, suppressed]
  rw [judge, judge, vetoed]
  cases held : visit.attachment with
  | inline policy => rfl
  | library reference => simp only [agree reference held]

end AgreeOn

/-- Walks over the same attachments come to the same outcomes. -/
theorem walk_eq {whole : List Visit}
    (agree : ∀ visit ∈ whole, AgreeOn index index' visit.attachment)
    (suppressed : target.suppressed = target'.suppressed) (standing : Standing) :
    walk index target standing whole = walk index' target' standing whole := by
  induction whole generalizing standing with
  | nil => rfl
  | cons visit rest ih =>
    obtain ⟨own, later⟩ := List.forall_mem_cons.mp agree
    rw [walk, walk, own.judge_eq suppressed, ih later]

theorem map_fst_walk (index : Index) (target : Compartment) (standing : Standing)
    (whole : List Visit) : (walk index target standing whole).map (·.1) = whole := by
  induction whole generalizing standing with
  | nil => rfl
  | cons visit rest ih => rw [walk, List.map_cons, ih]

/-- Every attachment on the way up has an outcome. -/
theorem map_fst_verdicts (index : Index) (forest : Forest) (target : Compartment) :
    (verdicts index forest target).map (·.1) = visits forest target :=
  map_fst_walk index target .initial (visits forest target)

theorem visitsFrom_congr {way way' : List Compartment}
    (places : way.map (fun c => (c.id, c.policies)) = way'.map fun c => (c.id, c.policies))
    (distance : Nat) : visitsFrom distance way = visitsFrom distance way' := by
  induction way generalizing way' distance with
  | nil =>
    cases way' with
    | nil => rfl
    | cons c' above' => contradiction
  | cons c above ih =>
    cases way' with
    | nil => contradiction
    | cons c' above' =>
      obtain ⟨same, rest⟩ := List.cons.inj places
      obtain ⟨id, policies⟩ := Prod.mk.inj same
      simp only [visitsFrom, id, policies, ih rest]

/-- In a forest, the chain of a resolution is the chain of its target. -/
theorem chain_eq (found : forest.get? target.id = some target) :
    chain forest target = forest.chain target.id :=
  (ascent_chain forest target).unique (Forest.ascent_chain found)

/-- What can be seen from the compartment with an id is the same on both sides: the places and
attachments on its way up, what it suppresses, and what the libraries say about the policies
attached on the way. -/
structure SameView (index index' : Index) (forest forest' : Forest) (id : String) : Prop where
  places : (forest.chain id).map (fun c => (c.id, c.policies)) =
    (forest'.chain id).map fun c => (c.id, c.policies)
  suppressed : (forest.get? id).map (·.suppressed) = (forest'.get? id).map (·.suppressed)
  known : ∀ c ∈ forest.chain id, ∀ attachment ∈ c.policies, AgreeOn index index' attachment

theorem mem_visitsFrom {distance : Nat} {way : List Compartment}
    (member : visit ∈ visitsFrom distance way) : ∃ c ∈ way, visit.attachment ∈ c.policies := by
  induction way generalizing distance with
  | nil => contradiction
  | cons c above ih =>
    rcases List.mem_append.mp member with own | later
    · obtain ⟨attachment, held, rfl⟩ := List.mem_map.mp own
      exact ⟨c, List.mem_cons_self, held⟩
    · obtain ⟨p, inside, held⟩ := ih later
      exact ⟨p, List.mem_cons_of_mem _ inside, held⟩

theorem exists_mem_visitsFrom {distance : Nat} {way : List Compartment} {c : Compartment}
    {attachment : Attachment} (onWay : c ∈ way) (held : attachment ∈ c.policies) :
    ∃ visit ∈ visitsFrom distance way, visit.attachment = attachment := by
  induction way generalizing distance with
  | nil => contradiction
  | cons own above ih =>
    rcases List.mem_cons.mp onWay with rfl | later
    · exact ⟨_, List.mem_append_left _ (List.mem_map_of_mem held), rfl⟩
    · obtain ⟨visit, member, same⟩ := ih later
      exact ⟨visit, List.mem_append_right _ member, same⟩

theorem trace_eq_of_sameView {id : String} (same : SameView index index' forest forest' id)
    (found : forest.get? id = some target) (found' : forest'.get? id = some target') :
    trace index forest target = trace index' forest' target' := by
  obtain rfl := (Forest.get?_eq_some_iff.mp found).2
  have named : target'.id = target.id := (Forest.get?_eq_some_iff.mp found').2
  have suppressed : target.suppressed = target'.suppressed := by
    simpa [found, found'] using same.suppressed
  have chained : chain forest target = forest.chain target.id := chain_eq found
  have chained' : chain forest' target' = forest'.chain target.id :=
    named ▸ chain_eq (named.symm ▸ found')
  have seen : visits forest target = visits forest' target' := by
    rw [visits, visits, chained, chained', visitsFrom_congr same.places]
  have agree : ∀ visit ∈ visits forest' target', AgreeOn index index' visit.attachment := by
    intro visit member
    rw [← seen, visits, chained] at member
    obtain ⟨c, inside, held⟩ := mem_visitsFrom member
    exact same.known c inside _ held
  have outcomes : verdicts index forest target = verdicts index' forest' target' := by
    rw [verdicts, verdicts, seen, walk_eq agree suppressed]
  have policies : resolve index forest target = resolve index' forest' target' := by
    rw [resolve_eq_map_winners, resolve_eq_map_winners, winners, outcomes, ← winners]
    apply List.map_congr_left
    intro visit wins
    exact (agree visit (mem_visits_of_mem_winners wins)).emission_eq
  have steps : (trace index forest target).steps = (trace index' forest' target').steps := by
    rw [trace, trace, outcomes]
    apply List.map_congr_left
    rintro ⟨visit, outcome⟩ judged
    have member : visit ∈ visits forest' target' := by
      rw [← map_fst_verdicts index']
      exact List.mem_map_of_mem judged
    exact (agree visit member).step_eq outcome
  have ids : (chain forest target).map (·.id) = (chain forest' target').map (·.id) := by
    rw [chained, chained']
    simpa [Function.comp_def] using congrArg (List.map Prod.fst) same.places
  exact (Trace.mk.injEq ..).mpr ⟨named.symm, ids, policies, steps⟩

theorem traceById_of_get? {id : String} (found : forest.get? id = some target) :
    traceById index forest id = .ok (trace index forest target) := by
  rw [traceById, found]

/-- Traces are the same where the views are, also when there is no such compartment. -/
theorem traceById_eq_of_sameView {id : String}
    (same : SameView index index' forest forest' id) :
    traceById index forest id = traceById index' forest' id := by
  have suppressed := same.suppressed
  unfold traceById
  cases found : forest.get? id with
  | none =>
    rw [found, Option.map_none, eq_comm, Option.map_eq_none_iff] at suppressed
    rw [suppressed]
  | some target =>
    rw [found, Option.map_some, eq_comm, Option.map_eq_some_iff] at suppressed
    obtain ⟨target', found', _⟩ := suppressed
    rw [found']
    exact congrArg Except.ok (trace_eq_of_sameView same found found')

/-- A compartment in its own forest and in another one that has all compartments above it. -/
theorem sameView_of_subset {id : String} (known : forest.get? id = some target)
    (kept : ∀ c ∈ forest.chain id, c ∈ forest'.compartments)
    (agree : ∀ c ∈ forest.chain id, ∀ attachment ∈ c.policies, AgreeOn index index' attachment) :
    SameView index index' forest forest' id := by
  obtain ⟨known', way⟩ := Forest.chain_eq_of_subset known kept
  exact ⟨by rw [way], by rw [known, known'], agree⟩

/-- A compartment before and after its forest was rearranged. -/
theorem sameView_of_map {id : String} {edit : Compartment → Compartment}
    (ids : ∀ c, (edit c).id = c.id) (policies : ∀ c, (edit c).policies = c.policies)
    (suppressed : ∀ c, forest.get? id = some c → (edit c).suppressed = c.suppressed)
    (moved : forest'.get? id = (forest.get? id).map edit ∧
      forest'.chain id = (forest.chain id).map edit)
    (said : ∀ id, index'.get? id = index.get? id) :
    SameView index index' forest forest' id := by
  refine ⟨?places, ?suppressed, fun c _ attachment _ reference _ => (said _).symm⟩
  case places =>
    rw [moved.2, List.map_map]
    exact List.map_congr_left fun c _ => by simp [ids, policies]
  case suppressed =>
    rw [moved.1, Option.map_map]
    exact Option.map_congr fun c found => (suppressed c found).symm

/-- Resolution sees nothing but the view. So other compartments beside the way up, other policies in
the library, the order of either, and all that the compartments above only suppress or offer leave
the trace as it is. -/
theorem traceById_noninterference :
    (∀ {index index' : Index} {forest forest' : Forest} {id : String},
      SameView index index' forest forest' id →
        traceById index forest id = traceById index' forest' id) ∧
    (∀ {index index' : Index} {forest forest' : Forest} {target : Compartment} {id : String},
      forest.get? id = some target → (∀ c ∈ forest.chain id, c ∈ forest'.compartments) →
      (∀ c ∈ forest.chain id, ∀ attachment ∈ c.policies, AgreeOn index index' attachment) →
        traceById index forest id = traceById index' forest' id) ∧
    ∀ {library library' : Library} {index : Index} {cs cs' : List Compartment} {forest : Forest}
      {edit : Compartment → Compartment}, Rearranged edit cs cs' →
      (∀ c, (edit c).policies = c.policies) → library'.policies.Perm library.policies →
      Forest.build cs = .ok forest → Index.build library = .ok index →
        ∃ forest' index', Forest.build cs' = .ok forest' ∧ Index.build library' = .ok index' ∧
          ∀ id, (∀ c, forest.get? id = some c → (edit c).suppressed = c.suppressed) →
            traceById index forest id = traceById index' forest' id := by
  refine ⟨?view, ?beside, ?rearranged⟩
  case view =>
    intro index index' forest forest' id same
    exact traceById_eq_of_sameView same
  case beside =>
    intro index index' forest forest' target id known kept agree
    exact traceById_eq_of_sameView (sameView_of_subset known kept agree)
  case rearranged =>
    intro library library' index cs cs' forest edit moved policies perm built indexed
    obtain ⟨forest', built', moves⟩ := moved.build_eq_ok built
    obtain ⟨index', indexed', said⟩ := Index.build_perm perm indexed
    refine ⟨forest', index', built', indexed', ?_⟩
    intro id suppressed
    exact traceById_eq_of_sameView
      (sameView_of_map moved.id policies suppressed (moves id) said)

/-- The root suppresses what it attaches, and one level below that is in effect all the same: with
less in the library and another root, and also when the root suppresses nothing any more and the
orders are reversed. -/
theorem traceById_noninterference_below_root :
    let attached : Attachment := .library ⟨"audit", .empty, true⟩
    let org := { Compartment.attaching "org" none [attached] with suppressed := .ofList ["audit"] }
    let app := Compartment.attaching "app" (some "org") []
    let forest : Forest := ⟨[org, app], by decide +kernel, by decide +kernel⟩
    let wider : Forest := ⟨[.bare "lab" none, app, org], by decide +kernel, by decide +kernel⟩
    let freed : Compartment → Compartment := fun c =>
      { c with label := "", suppressed := if c.id = "org" then .empty else c.suppressed }
    let define (id : String) : Definition := ⟨id, "", "", .medium, [], .empty⟩
    let index : Index := ⟨[define "audit", define "net"], by decide +kernel⟩
    let fewer : Index := ⟨[define "audit"], by decide +kernel⟩
    (resolve index forest app).map (·.name) = ["audit"] ∧
      SameView index fewer forest wider "app" ∧
      traceById index forest "app" = traceById fewer wider "app" ∧
      ∃ forest' index', Forest.build [freed app, freed org] = .ok forest' ∧
        Index.build ⟨[define "net", define "audit"]⟩ = .ok index' ∧
        traceById index forest "app" = traceById index' forest' "app" := by
  intro attached org app forest wider freed define index fewer
  have known : forest.get? "app" = some app := by decide +kernel
  have kept : ∀ c ∈ forest.chain "app", c ∈ wider.compartments := by decide +kernel
  have agree : ∀ c ∈ forest.chain "app", ∀ attachment ∈ c.policies,
      AgreeOn index fewer attachment := by
    intro c onWay attachment held reference rfl
    have only : ∀ c ∈ forest.chain "app", ∀ attachment ∈ c.policies, attachment = attached := by
      decide +kernel
    obtain rfl := Attachment.library.inj (only c onWay _ held)
    decide +kernel
  have same : SameView index fewer forest wider "app" := sameView_of_subset known kept agree
  have moved : Rearranged freed [org, app] [freed app, freed org] :=
    ⟨fun _ => rfl, fun _ => rfl, List.Perm.swap ..⟩
  have reversed : (Library.mk [define "net", define "audit"]).policies.Perm
      (Library.mk index.definitions).policies := List.Perm.swap ..
  obtain ⟨forest', index', built', indexed', traced⟩ :=
    traceById_noninterference.2.2 moved (fun _ => rfl) reversed forest.build_compartments
      index.build_definitions
  refine ⟨by decide +kernel, same, traceById_noninterference.1 same, forest', index', built',
    indexed', traced "app" ?_⟩
  intro c found
  obtain rfl := Option.some.inj (known.symm.trans found)
  rfl

end Resolution
end Estate
