import Estate.Proofs.Compartment.Elevation
import Estate.Proofs.Resolution.Noninterference

/-! Resolution below a new level on top. A walk decides about a visit by the visits before it only,
so that what is attached at the far end of a way up never changes what comes from nearer: what is
in effect below the new level is what was in effect, and then what comes down from it. -/
namespace Estate.Resolution
open Policy

variable {index : Index} {forest forest' : Forest} {target target' root top : Compartment}
  {visit : Visit} {id : String}

/-- A longer walk begins with the outcomes of the shorter one. -/
theorem exists_walk_append (index : Index) (target : Compartment) (standing : Standing)
    (seen rest : List Visit) : ∃ later, walk index target standing (seen ++ rest) =
      walk index target standing seen ++ walk index target later rest := by
  induction seen generalizing standing with
  | nil => exact ⟨standing, rfl⟩
  | cons visit seen ih =>
    obtain ⟨later, onward⟩ := ih (standing.after visit (judge index target standing visit))
    refine ⟨later, ?_⟩
    rw [List.cons_append, walk, onward]
    rfl

/-- The first attachments of the policies, in their order. -/
def firstAttachments : List Attachment → List Attachment
  | [] => []
  | attachment :: rest => attachment :: (firstAttachments rest).filter fun later =>
      identity later ≠ identity attachment

/-- An attachment at the end of a way up comes down to the target: it is passed on, nothing of its
policy is attached on the way, and the target does not suppress the policy by name. -/
def ComesDown (index : Index) (target : Compartment) (way : List Compartment)
    (attachment : Attachment) : Prop :=
  attachment.inherit = true ∧
    (∀ c ∈ way, ∀ own ∈ c.policies, identity own ≠ identity attachment) ∧
      target.suppresses (effectiveName index attachment) = false

instance {way : List Compartment} {attachment : Attachment} :
    Decidable (ComesDown index target way attachment) := inferInstanceAs (Decidable (_ ∧ _ ∧ _))

/-- What comes down to the target of what a compartment at the end of its way up attaches. -/
def descents (index : Index) (target : Compartment) (way : List Compartment) (top : Compartment) :
    List Attachment :=
  (firstAttachments top.policies).filter (ComesDown index target way)

theorem firstAttachments_sublist (policies : List Attachment) :
    (firstAttachments policies).Sublist policies := by
  induction policies with
  | nil => exact .slnil
  | cons attachment rest ih => exact (List.filter_sublist.trans ih).cons_cons attachment

theorem descents_sublist (index : Index) (target : Compartment) (way : List Compartment)
    (top : Compartment) : (descents index target way top).Sublist top.policies :=
  List.filter_sublist.trans (firstAttachments_sublist top.policies)

theorem firstVisits_attached (place : String) (distance : Nat) (policies : List Attachment) :
    firstVisits (policies.map (⟨place, distance, ·⟩)) =
      (firstAttachments policies).map (⟨place, distance, ·⟩) := by
  induction policies with
  | nil => rfl
  | cons attachment rest ih =>
    rw [List.map_cons, firstVisits, ih, firstAttachments, List.map_cons, List.filter_map]
    rfl

/-- Nothing of a policy was visited exactly when nothing of it is attached on the way. -/
theorem firstVisit?_visitsFrom_eq_none_iff {distance : Nat} {way : List Compartment}
    {policy : Identity} : firstVisit? (visitsFrom distance way) policy = none ↔
      ∀ c ∈ way, ∀ own ∈ c.policies, identity own ≠ policy := by
  rw [firstVisit?_eq_none_iff]
  constructor
  · intro fresh c onWay own held
    obtain ⟨visit, member, rfl⟩ := exists_mem_visitsFrom onWay held
    exact fresh visit member
  · intro fresh visit member
    obtain ⟨c, onWay, held⟩ := mem_visitsFrom member
    exact fresh c onWay _ held

/-- The trace of a target after a compartment came to the end of its way up: what was in effect is
in effect, then what comes down from there, and every step is as it was. -/
structure Extends (index : Index) (target : Compartment) (way : List Compartment)
    (top : Compartment) (distance : Nat) (trace trace' : Trace) : Prop where
  compartmentId : trace'.compartmentId = trace.compartmentId
  chain : trace'.chain = trace.chain ++ [top.id]
  policies : ∃ more, trace'.policies = trace.policies ++ more ∧
    List.Forall₂ (fun attachment p => Carries index ⟨top.id, distance, attachment⟩ p)
      (descents index target way top) more
  steps : ∃ more, trace'.steps = trace.steps ++ more ∧
    more.map (fun step => (step.compartmentId, step.distance, step.attachment)) =
      top.policies.map fun attachment => (top.id, distance, attachment.label)
  order : (descents index target way top).Sublist top.policies

section Longer

variable (index) {way : List Compartment} (chained : chain forest target = way)
  (chained' : chain forest' target' = way.map (hung root top) ++ [top])
  (kept : target' = hung root top target)
include chained'

theorem visits_eq_append_top : visits forest' target' =
    visitsFrom 0 way ++ top.policies.map (⟨top.id, way.length, ·⟩) := by
  have places : (way.map (hung root top)).map (fun c => (c.id, c.policies)) =
      way.map fun c => (c.id, c.policies) := by
    simp [hung_id, hung_policies]
  rw [visits, chained', visitsFrom_append, visitsFrom_congr places, visitsFrom, visitsFrom,
    List.append_nil, List.length_map, Nat.zero_add]

include chained kept

theorem exists_verdicts_append : ∃ later, verdicts index forest' target' =
    verdicts index forest target ++
      walk index target later (top.policies.map (⟨top.id, way.length, ·⟩)) := by
  have agree : ∀ visit ∈ visits forest' target', AgreeOn index index visit.attachment :=
    fun _ _ _ _ => rfl
  have suppressed : target'.suppressed = target.suppressed := kept ▸ hung_suppressed ..
  have shorter : visits forest target = visitsFrom 0 way := by rw [visits, chained]
  rw [verdicts, walk_eq agree suppressed, visits_eq_append_top chained', verdicts, shorter]
  exact exists_walk_append ..

theorem winners_eq_append_descents : winners index forest' target' =
    winners index forest target ++
      (descents index target way top).map (⟨top.id, way.length, ·⟩) := by
  have beyond : 0 < way.length := by rw [← chained]; exact Nat.succ_pos _
  have shorter : visits forest target = visitsFrom 0 way := by rw [visits, chained]
  have suppressed : target'.suppressed = target.suppressed := kept ▸ hung_suppressed ..
  have comes (attachment : Attachment) :
      (⟨top.id, way.length, attachment⟩ : Visit).CountsFor index target ∧
        firstVisit? (visitsFrom 0 way) (identity attachment) = none ↔
      ComesDown index target way attachment := by
    have passed : (⟨top.id, way.length, attachment⟩ : Visit).Reaches ↔
        attachment.inherit = true := by
      simp [Visit.Reaches, Nat.ne_of_gt beyond]
    rw [Visit.CountsFor, passed, firstVisit?_visitsFrom_eq_none_iff, ComesDown]
    tauto
  rw [winners_eq_filter, winners_eq_filter, visits_eq_append_top chained', shorter,
    firstVisits_append, List.filter_append, firstVisits_attached, descents]
  simp only [countsFor_congr suppressed, List.filter_map, List.filter_filter, ← Bool.decide_and,
    Function.comp_def, comes]

theorem extends_trace : Extends index target way top way.length (trace index forest target)
    (trace index forest' target') := by
  refine ⟨?compartmentId, ?chain, ?policies, ?steps, descents_sublist ..⟩
  case compartmentId =>
    rw [kept]
    exact hung_id ..
  case chain =>
    simp [trace, chained, chained', hung_id]
  case policies =>
    refine ⟨((descents index target way top).map (⟨top.id, way.length, ·⟩)).map (emission index),
      ?_, ?_⟩
    · rw [trace, trace, resolve_eq_map_winners, resolve_eq_map_winners,
        winners_eq_append_descents index chained chained' kept, List.map_append]
    · rw [List.map_map]
      apply List.forall₂_map_right_iff.mpr
      exact List.forall₂_same.mpr fun attachment _ => carries_emission _
  case steps =>
    obtain ⟨later, onward⟩ := exists_verdicts_append index chained chained' kept
    refine ⟨(walk index target later (top.policies.map (⟨top.id, way.length, ·⟩))).map
      fun judged => step index judged.1 judged.2, ?_, ?_⟩
    · rw [trace, trace, onward, List.map_append]
    · have visited := map_fst_walk index target later
        (top.policies.map (⟨top.id, way.length, ·⟩))
      have reports := congrArg
        (List.map fun visit => (visit.compartmentId, visit.distance, visit.attachment.label))
        visited
      rw [List.map_map, List.map_map] at reports
      rw [List.map_map]
      exact reports

end Longer

/-- A forest stays one when a root of it is put below a new compartment. What was in effect below
that root stays in effect and is followed by what comes down from the new compartment, one step
further away than the root; in every other compartment all is as it was. -/
theorem raised_extends (index : Index) {cs cs' : List Compartment}
    (raised : Raised root top cs cs') (built : Forest.build cs = .ok forest) :
    ∃ forest', Forest.build cs' = .ok forest' ∧ ∀ id,
      (∀ target, forest.get? id = some target → (forest.chain id).getLast? = some root →
        ∃ depth trace trace', forest.depth? id = some depth ∧
          traceById index forest id = .ok trace ∧ traceById index forest' id = .ok trace' ∧
          Extends index target (forest.chain id) top (depth + 1) trace trace') ∧
      (id ≠ top.id → (forest.chain id).getLast? ≠ some root →
        traceById index forest' id = traceById index forest id) := by
  obtain ⟨forest', built'⟩ := raised.exists_build_eq_ok built
  obtain ⟨rfl, _⟩ := Forest.build_eq_ok built
  obtain ⟨rfl, _⟩ := Forest.build_eq_ok built'
  refine ⟨forest', built', fun id => ⟨?below, ?beside⟩⟩
  case below =>
    intro target found last
    obtain rfl := (Forest.get?_eq_some_iff.mp found).2
    have found' : forest'.get? target.id = some (hung root top target) := by
      rw [raised.get?_eq (raised.ne_top found), found, Option.map_some]
    have chained := chain_eq found
    have chained' : chain forest' (hung root top target) =
        (forest.chain target.id).map (hung root top) ++ [top] := by
      have named : (hung root top target).id = target.id := hung_id ..
      rw [chain_eq (named.symm ▸ found'), named, raised.chain_eq_append found last]
    obtain ⟨above, held⟩ : ∃ above, forest.chain target.id = target :: above :=
      ⟨_, chained.symm⟩
    have depth : forest.depth? target.id = some above.length := by rw [Forest.depth?, held]
    have extended := extends_trace index chained chained' rfl
    refine ⟨above.length, trace index forest target, trace index forest' (hung root top target),
      depth, ?_, ?_, ?_⟩
    · exact traceById_of_get? found
    · exact traceById_of_get? found'
    · simpa only [held, List.length_cons] using extended
  case beside =>
    intro other last
    cases found : forest.get? id with
    | none =>
      rw [traceById, traceById, raised.get?_eq other, found]
      rfl
    | some target =>
      obtain ⟨found', way⟩ := raised.chain_eq found last
      refine traceById_eq_of_sameView ⟨by rw [way], by rw [found, found'], ?_⟩
      exact fun _ _ _ _ _ _ => rfl

/-- Of the new root's three policies one is attached below already and one is not passed on. The
third comes down to the compartment two levels below. -/
theorem raised_extends_two_levels :
    let attach (name : String) (inherit : Bool) : Attachment := .inline ⟨name, [], .medium, inherit⟩
    let org := Compartment.attaching "org" none [attach "audit" true]
    let app := Compartment.attaching "app" (some "org") [attach "keys" true]
    let lab := Compartment.bare "lab" none
    let corp := Compartment.attaching "corp" none
      [attach "keys" true, attach "backup" false, attach "logs" true]
    let forest : Forest := ⟨[org, app, lab], by decide +kernel, by decide +kernel⟩
    let later := [{ org with parentId := some "corp" }, app, lab, corp]
    Raised org corp [org, app, lab] later ∧ Forest.build [org, app, lab] = .ok forest ∧
      descents default app [app, org] corp = [attach "logs" true] ∧
      ∃ forest', Forest.build later = .ok forest' ∧
        (∃ trace trace', traceById default forest "app" = .ok trace ∧
          traceById default forest' "app" = .ok trace' ∧
          Extends default app [app, org] corp 2 trace trace') ∧
        traceById default forest' "lab" = traceById default forest "lab" := by
  intro attach org app lab corp forest later
  have built : Forest.build [org, app, lab] = .ok forest := forest.build_compartments
  have raised : Raised org corp [org, app, lab] later := by
    have moved : [org, app, lab].map (hung org corp) ++ [corp] = later := by decide +kernel
    refine ⟨List.mem_cons_self, rfl, rfl, by decide +kernel, ?_⟩
    rw [← moved]
    exact List.perm_append_singleton ..
  obtain ⟨forest', built', traces⟩ := raised_extends default raised built
  refine ⟨raised, built, by decide +kernel, forest', built', ?below, ?beside⟩
  case below =>
    have way : forest.chain "app" = [app, org] := by decide +kernel
    have depth : forest.depth? "app" = some 1 := by decide +kernel
    have found : forest.get? "app" = some app := by decide +kernel
    obtain ⟨steps, trace, trace', counted, before, after, extended⟩ :=
      (traces "app").1 app found (by rw [way]; rfl)
    obtain rfl := Option.some.inj (counted.symm.trans depth)
    rw [way] at extended
    exact ⟨trace, trace', before, after, extended⟩
  case beside =>
    exact (traces "lab").2 (by decide) (by decide +kernel)

end Estate.Resolution
