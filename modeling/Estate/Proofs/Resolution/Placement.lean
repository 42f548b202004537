import Estate.Proofs.Resolution.Reporting
import Estate.Proofs.Resolution.Noninterference

/-! What libraries and overrides cannot take away. Which policies come into effect, from where and
in which order, is decided by what is attached on the way up and by the names that the target
suppresses. What a library says, and what overrides ask for, shows in the content of a policy, and
beyond that only where a name is suppressed and another one is not. -/
namespace Estate
open Policy

/-- The attachment without overrides. -/
def Attachment.withoutOverrides : Attachment → Attachment
  | .library reference => .library { reference with variableOverrides := .empty }
  | .inline policy => .inline policy

def Compartment.withoutOverrides (c : Compartment) : Compartment :=
  { c with policies := c.policies.map Attachment.withoutOverrides }

namespace Resolution

/-- Where a policy in effect stands, whatever its content is. -/
structure Place where
  policyId : String
  source : Source
  attachedAt : String
  distance : Nat
deriving DecidableEq

def ResolvedPolicy.place (p : ResolvedPolicy) : Place :=
  ⟨p.policyId, p.source, p.attachedAt, p.distance⟩

/-- The forests are the same, and so are the targets, when overrides are left aside. -/
structure SameButOverrides (forest forest' : Forest) (target target' : Compartment) : Prop where
  compartments : forest.compartments.map Compartment.withoutOverrides =
    forest'.compartments.map Compartment.withoutOverrides
  target : target.withoutOverrides = target'.withoutOverrides

/-- The visits to policies that the target does not suppress under their names in this library. -/
def unsuppressed (index : Index) (target : Compartment) (visits : List Visit) : List Visit :=
  visits.filter fun visit => target.suppresses (effectiveName index visit.attachment) = false

def Visit.withoutOverrides (visit : Visit) : Visit :=
  { visit with attachment := visit.attachment.withoutOverrides }

/-- Where the policy of an attachment stands once it is in effect. -/
def Visit.place (visit : Visit) : Place :=
  ⟨(identity visit.attachment).reported, source visit, visit.compartmentId, visit.distance⟩

variable {index index' : Index} {forest forest' : Forest} {target target' : Compartment}
  {visit : Visit}

theorem place_emission (index : Index) (visit : Visit) :
    (emission index visit).place = visit.place := by
  obtain ⟨attachedAt, distance, _, sourced⟩ := emission_common index visit
  rw [ResolvedPolicy.place, policyId_emission, attachedAt, distance, sourced]
  rfl

theorem identity_withoutOverrides (attachment : Attachment) :
    identity attachment.withoutOverrides = identity attachment := by
  cases attachment <;> rfl

theorem effectiveName_withoutOverrides (index : Index) (attachment : Attachment) :
    effectiveName index attachment.withoutOverrides = effectiveName index attachment := by
  cases attachment <;> rfl

theorem inherit_withoutOverrides (attachment : Attachment) :
    attachment.withoutOverrides.inherit = attachment.inherit := by
  cases attachment <;> rfl

theorem place_withoutOverrides (visit : Visit) : visit.withoutOverrides.place = visit.place := by
  obtain ⟨id, distance, attachment⟩ := visit
  cases attachment <;> rfl

theorem countsFor_withoutOverrides_iff :
    visit.withoutOverrides.CountsFor index target ↔ visit.CountsFor index target := by
  rw [Visit.CountsFor, Visit.CountsFor, Visit.Reaches, Visit.Reaches, Visit.withoutOverrides,
    inherit_withoutOverrides, effectiveName_withoutOverrides]

theorem map_place_emission (index : Index) (visits : List Visit) :
    (visits.map (emission index)).map (·.place) =
      (visits.map Visit.withoutOverrides).map Visit.place := by
  rw [List.map_map, List.map_map]
  apply List.map_congr_left
  intro visit _
  exact (place_emission index visit).trans (place_withoutOverrides visit).symm

theorem unsuppressed_map_withoutOverrides (index : Index) (target : Compartment)
    (visits : List Visit) :
    (unsuppressed index target visits).map Visit.withoutOverrides =
      unsuppressed index target (visits.map Visit.withoutOverrides) := by
  simp only [unsuppressed, List.filter_map, Function.comp_def, Visit.withoutOverrides,
    effectiveName_withoutOverrides]

theorem visitsFrom_map_withoutOverrides (distance : Nat) (way : List Compartment) :
    visitsFrom distance (way.map Compartment.withoutOverrides) =
      (visitsFrom distance way).map Visit.withoutOverrides := by
  induction way generalizing distance with
  | nil => rfl
  | cons c above ih =>
    rw [List.map_cons, visitsFrom, visitsFrom, List.map_append, ih, Compartment.withoutOverrides,
      List.map_map, List.map_map]
    rfl

theorem rearranged_withoutOverrides (cs : List Compartment) :
    Rearranged Compartment.withoutOverrides cs (cs.map Compartment.withoutOverrides) where
  id _ := rfl
  parentId _ := rfl
  perm := .refl _

namespace SameButOverrides

variable (same : SameButOverrides forest forest' target target')
include same

theorem suppressed_eq : target.suppressed = target'.suppressed := by
  have kept := congrArg Compartment.suppressed same.target
  exact kept

theorem forest_chain_eq (id : String) : (forest.chain id).map Compartment.withoutOverrides =
    (forest'.chain id).map Compartment.withoutOverrides := by
  obtain ⟨plain, built, moves⟩ :=
    (rearranged_withoutOverrides _).build_eq_ok forest.build_compartments
  obtain ⟨plain', built', moves'⟩ :=
    (rearranged_withoutOverrides _).build_eq_ok forest'.build_compartments
  -- Without overrides the lists are one list, and a list makes one forest.
  rw [← same.compartments] at built'
  obtain rfl := Except.ok.inj (built.symm.trans built')
  exact (moves id).2.symm.trans (moves' id).2

theorem visits_eq : (visits forest target).map Visit.withoutOverrides =
    (visits forest' target').map Visit.withoutOverrides := by
  have parentId : target.parentId = target'.parentId := by
    have kept := congrArg Compartment.parentId same.target
    exact kept
  have chained : (chain forest target).map Compartment.withoutOverrides =
      (chain forest' target').map Compartment.withoutOverrides := by
    rw [chain, chain, List.map_cons, List.map_cons, same.target, parentId]
    cases target'.parentId with
    | none => rfl
    | some id => exact congrArg _ (same.forest_chain_eq id)
  rw [visits, visits, ← visitsFrom_map_withoutOverrides, ← visitsFrom_map_withoutOverrides,
    chained]

/-- Overrides have no part in which attachments win. -/
theorem winners_eq (index : Index) : (winners index forest target).map Visit.withoutOverrides =
    (winners index forest' target').map Visit.withoutOverrides := by
  have plain (forest : Forest) (target : Compartment) :
      (winners index forest target).map Visit.withoutOverrides =
        (firstVisits ((visits forest target).map Visit.withoutOverrides)).filter
          (·.CountsFor index target) := by
    rw [winners_eq_filter, firstVisits_map _ fun _ => identity_withoutOverrides _,
      List.filter_map]
    simp only [Function.comp_def, countsFor_withoutOverrides_iff]
  rw [plain, plain, same.visits_eq]
  simp only [countsFor_congr same.suppressed_eq]

end SameButOverrides

/-- What wins with one library and is not suppressed in the other is the same either way round. -/
theorem unsuppressed_winners (index index' : Index) (forest : Forest) (target : Compartment) :
    unsuppressed index' target (winners index forest target) =
      unsuppressed index target (winners index' forest target) := by
  rw [unsuppressed, unsuppressed, winners_eq_filter, winners_eq_filter, List.filter_filter,
    List.filter_filter]
  apply List.filter_congr
  intro visit _
  rw [← Bool.decide_and, ← Bool.decide_and, decide_eq_decide, Visit.CountsFor, Visit.CountsFor]
  constructor
  · rintro ⟨shown', reaches, shown⟩
    exact ⟨shown, reaches, shown'⟩
  · rintro ⟨shown, reaches, shown'⟩
    exact ⟨shown', reaches, shown⟩

theorem winners_eq_of_suppresses_eq
    (agree : ∀ c ∈ chain forest target, ∀ reference, .library reference ∈ c.policies →
      target.suppresses (effectiveName index (.library reference)) =
        target.suppresses (effectiveName index' (.library reference))) :
    winners index forest target = winners index' forest target := by
  rw [winners_eq_filter, winners_eq_filter]
  apply List.filter_congr
  intro visit first
  obtain ⟨c, onWay, held⟩ := mem_visitsFrom (mem_of_mem_firstVisits first)
  have shown : target.suppresses (effectiveName index visit.attachment) =
      target.suppresses (effectiveName index' visit.attachment) := by
    cases attached : visit.attachment with
    | library reference => exact agree c onWay reference (attached ▸ held)
    | inline policy => rfl
  rw [decide_eq_decide, Visit.CountsFor, Visit.CountsFor, shown]

/-- Two forests and targets that differ in overrides only, each with a library of its own. What is
in effect on one side and not suppressed under its name on the other is in effect there too, in the
same order and at the same places. That is all of it when the target suppresses the same library
attachments on its way up under both names, and so with one library for both sides. -/
theorem places_kept (index index' : Index)
    (same : SameButOverrides forest forest' target target') :
    resolve index forest target = (winners index forest target).map (emission index) ∧
    resolve index' forest' target' = (winners index' forest' target').map (emission index') ∧
    ((unsuppressed index' target (winners index forest target)).map (emission index)).map
        (·.place) =
      ((unsuppressed index target' (winners index' forest' target')).map (emission index')).map
        (·.place) ∧
    ((∀ c ∈ chain forest target, ∀ reference, .library reference ∈ c.policies →
        target.suppresses (effectiveName index (.library reference)) =
          target.suppresses (effectiveName index' (.library reference))) →
      (resolve index forest target).map (·.place) =
        (resolve index' forest' target').map (·.place)) ∧
    (resolve index forest target).map (·.place) =
      (resolve index forest' target').map (·.place) := by
  refine ⟨resolve_eq_map_winners .., resolve_eq_map_winners .., ?common, ?all, ?oneLibrary⟩
  case common =>
    have suppresses (name : String) : target.suppresses name = target'.suppresses name := by
      rw [Compartment.suppresses, Compartment.suppresses, same.suppressed_eq]
    have suppressed (visits : List Visit) :
        unsuppressed index target visits = unsuppressed index target' visits := by
      simp only [unsuppressed, suppresses]
    rw [map_place_emission, map_place_emission, unsuppressed_winners,
      unsuppressed_map_withoutOverrides, unsuppressed_map_withoutOverrides,
      same.winners_eq index', suppressed]
  case all =>
    intro agree
    rw [resolve_eq_map_winners, resolve_eq_map_winners, map_place_emission, map_place_emission,
      winners_eq_of_suppresses_eq agree, same.winners_eq index']
  case oneLibrary =>
    rw [resolve_eq_map_winners, resolve_eq_map_winners, map_place_emission, map_place_emission,
      same.winners_eq index]

/-- The library loses the definition and the attachment gains an override that is null: the policy
still comes down from the root, under another name. -/
theorem places_kept_unknown :
    let audit (overrides : StringMap Document.Value) : Attachment :=
      .library ⟨"audit", overrides, true⟩
    let org := Compartment.attaching "org" none [audit .empty]
    let org' := Compartment.attaching "org" none [audit (.ofList [("days", .null)])]
    let app := { Compartment.attaching "app" (some "org") [.inline ⟨"keys", [], .medium, true⟩] with
      suppressed := .ofList ["net"] }
    let forest : Forest := ⟨[org, app], by decide +kernel, by decide +kernel⟩
    let forest' : Forest := ⟨[org', app], by decide +kernel, by decide +kernel⟩
    let index : Index := ⟨[⟨"audit", "Audit log", "", .high, [], .empty⟩], by decide +kernel⟩
    SameButOverrides forest forest' app app ∧
      (resolve index forest app).map (·.name) = ["keys", "Audit log"] ∧
      (resolve default forest' app).map (·.name) = ["keys", "audit"] ∧
      (resolve index forest app).map (·.place) = (resolve default forest' app).map (·.place) := by
  intro audit org org' app forest forest' index
  have same : SameButOverrides forest forest' app app := ⟨by decide +kernel, rfl⟩
  have shown : ∀ c ∈ chain forest app, ∀ attachment ∈ c.policies,
      app.suppresses (effectiveName index attachment) =
        app.suppresses (effectiveName default attachment) := by
    decide +kernel
  obtain ⟨_, _, _, all, _⟩ := places_kept index default same
  refine ⟨same, by decide +kernel, by decide +kernel, all ?_⟩
  intro c onWay reference held
  exact shown c onWay _ held

end Resolution
end Estate
