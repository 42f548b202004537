import Estate.Proofs.Resolution.Winners

/-! What a compartment inherits. Its way up is its own attachments and then its parent's way up,
one step further away; so what comes to it from above is what its parent would have, without those
policies that it attaches itself or suppresses and those that are not passed on. A compartment on
the way that attaches a policy and does not pass it on ends the policy there. -/
namespace Estate
open Policy

/-- A compartment with attachments and nothing else set. -/
def Compartment.attaching (id : String) (parentId : Option String) (policies : List Attachment) :
    Compartment :=
  { bare id parentId with policies }

namespace Resolution

variable {index : Index} {forest : Forest} {target c parent : Compartment} {visit : Visit}
  {distance : Nat} {way nearer further : List Compartment}

/-- The visit as it is made from one level below. -/
def Visit.below (visit : Visit) : Visit := { visit with distance := visit.distance + 1 }

theorem visitsFrom_append (distance : Nat) (nearer further : List Compartment) :
    visitsFrom distance (nearer ++ further) =
      visitsFrom distance nearer ++ visitsFrom (distance + nearer.length) further := by
  induction nearer generalizing distance with
  | nil => rfl
  | cons c nearer ih =>
    simp only [List.cons_append, visitsFrom, ih, List.append_assoc, List.length_cons]
    congr 3
    omega

theorem visitsFrom_succ (distance : Nat) (way : List Compartment) :
    visitsFrom (distance + 1) way = (visitsFrom distance way).map Visit.below := by
  induction way generalizing distance with
  | nil => rfl
  | cons c above ih =>
    simp only [visitsFrom, List.map_append, List.map_map, ih]
    rfl

theorem distance_of_mem_visitsFrom (member : visit ∈ visitsFrom distance way) :
    distance ≤ visit.distance ∧ visit.distance < distance + way.length := by
  induction way generalizing distance with
  | nil => contradiction
  | cons c above ih =>
    rcases List.mem_append.mp member with own | later
    · obtain ⟨attachment, _, rfl⟩ := List.mem_map.mp own
      simp
    · have := ih later
      simp only [List.length_cons]
      omega

theorem chain_eq_cons (above : parentIn forest.compartments c = some parent) :
    chain forest c = c :: chain forest parent :=
  (ascent_chain forest c).unique (.up above (ascent_chain forest parent))

/-- The attachments on the way up from a compartment are its own and then those on the way up from
its parent, all one step further away. -/
theorem visits_eq_append (above : parentIn forest.compartments c = some parent) :
    visits forest c = c.policies.map (⟨c.id, 0, ·⟩) ++ (visits forest parent).map Visit.below := by
  rw [visits, chain_eq_cons above, visitsFrom, visitsFrom_succ, ← visits]

/-- The compartment on its own: without parent, and with nothing but its attachments and what it
suppresses. -/
def alone (c : Compartment) : Compartment :=
  { Compartment.attaching c.id none c.policies with suppressed := c.suppressed }

/-- The compartment suppressing nothing. -/
def unrestrained (c : Compartment) : Compartment := { c with suppressed := .empty }

/-- A policy comes down to a compartment: it is passed on, the compartment does not attach it
itself, and does not suppress it by name. -/
def Descends (index : Index) (c : Compartment) (visit : Visit) : Prop :=
  visit.attachment.inherit = true ∧
    (∀ own ∈ c.policies, identity own ≠ identity visit.attachment) ∧
      c.suppresses (emission index visit).name = false

instance : Decidable (Descends index c visit) := inferInstanceAs (Decidable (_ ∧ _ ∧ _))

/-- The policy in effect one level below. There it is inherited in any case. -/
def descended (index : Index) (visit : Visit) : ResolvedPolicy :=
  { emission index visit with
    distance := (emission index visit).distance + 1
    source := match visit.attachment with
      | .library _ => .inheritedLibrary
      | .inline _ => .inheritedInline }

theorem emission_below (index : Index) (visit : Visit) :
    emission index visit.below = descended index visit := by
  obtain ⟨id, distance, attachment⟩ := visit
  cases attachment with
  | inline policy => rfl
  | library reference =>
    cases found : index.get? reference.policyId with
    | none => simp [emission, descended, Visit.below, source, found]
    | some definition => simp [emission, descended, Visit.below, source, found]

theorem winners_alone (index : Index) (c : Compartment) : winners index default (alone c) =
    (firstVisits (c.policies.map (⟨c.id, 0, ·⟩))).filter (·.CountsFor index c) := by
  have own : visits default (alone c) = c.policies.map (⟨c.id, 0, ·⟩) := List.append_nil _
  rw [winners_eq_filter, own]
  rfl

/-- A visit counts one level below and is new there exactly when it counts where nothing is
suppressed and comes down. -/
theorem countsFor_below_iff (parent : Compartment) : visit.below.CountsFor index c ∧
      firstVisit? (c.policies.map (⟨c.id, 0, ·⟩)) (identity visit.below.attachment) = none ↔
    Descends index c visit ∧ visit.CountsFor index (unrestrained parent) := by
  have named : (emission index visit).name = effectiveName index visit.attachment :=
    (emission_common index visit).2.2.1
  have passed : visit.below.Reaches ↔ visit.attachment.inherit = true := by
    simp [Visit.Reaches, Visit.below]
  have fresh :
      firstVisit? (c.policies.map (⟨c.id, 0, ·⟩)) (identity visit.below.attachment) = none ↔
        ∀ own ∈ c.policies, identity own ≠ identity visit.attachment := by
    rw [firstVisit?_eq_none_iff, List.forall_mem_map]
    rfl
  have free : (unrestrained parent).suppresses (effectiveName index visit.attachment) = false := rfl
  rw [Visit.CountsFor, passed, fresh, Descends, named, Visit.CountsFor]
  constructor
  · rintro ⟨⟨inherits, shown⟩, new⟩
    exact ⟨⟨inherits, new, shown⟩, .inr inherits, free⟩
  · rintro ⟨⟨inherits, new, shown⟩, _, _⟩
    exact ⟨⟨inherits, shown⟩, new⟩

/-- The attachments that count for a compartment are those that count for it alone, and then those
that would count for its parent and come down. -/
theorem winners_eq_append (above : parentIn forest.compartments c = some parent) :
    winners index forest c = winners index default (alone c) ++
      ((winners index forest (unrestrained parent)).filter (Descends index c)).map Visit.below := by
  have kept : visits forest (unrestrained parent) = visits forest parent := rfl
  have moved : firstVisits ((visits forest parent).map Visit.below) =
      (firstVisits (visits forest parent)).map Visit.below :=
    firstVisits_map Visit.below (fun _ => rfl) _
  rw [winners_eq_filter, winners_alone, visits_eq_append above, firstVisits_append,
    List.filter_append, winners_eq_filter, kept, moved]
  simp only [List.filter_map, List.filter_filter, ← Bool.decide_and, Function.comp_apply,
    countsFor_below_iff parent]

theorem distance_of_mem_winners_alone (member : visit ∈ winners index default (alone c)) :
    visit.distance = 0 := by
  rw [winners_alone] at member
  have own := mem_of_mem_firstVisits (List.mem_of_mem_filter member)
  obtain ⟨attachment, _, rfl⟩ := List.mem_map.mp own
  rfl

/-- What a compartment has in effect, told from what its parent would have. -/
structure InheritsFrom (index : Index) (forest : Forest) (c parent : Compartment) : Prop where
  origins : resolve index forest (unrestrained parent) =
    (winners index forest (unrestrained parent)).map (emission index)
  inherited : (resolve index forest c).filter (fun p => 1 ≤ p.distance) =
    ((winners index forest (unrestrained parent)).filter (Descends index c)).map (descended index)
  own : (resolve index forest c).filter (fun p => p.distance = 0) = resolve index default (alone c)

/-- What comes to a compartment from above is what its parent would have if that suppressed nothing,
less what does not come down; what it has of its own it would have alone. -/
theorem inheritsFrom_parent (above : parentIn forest.compartments c = some parent) :
    InheritsFrom index forest c parent := by
  have parts : resolve index forest c = resolve index default (alone c) ++
      ((winners index forest (unrestrained parent)).filter (Descends index c)).map
        (descended index) := by
    simp only [resolve_eq_map_winners, winners_eq_append above, List.map_append, List.map_map]
    congr 2
    funext visit
    exact emission_below index visit
  -- The distance tells the two parts from each other.
  have near : ∀ p ∈ resolve index default (alone c), p.distance = 0 := by
    intro p member
    rw [resolve_eq_map_winners] at member
    obtain ⟨visit, wins, rfl⟩ := List.mem_map.mp member
    exact (emission_common index visit).2.1.trans (distance_of_mem_winners_alone wins)
  have far : ∀ p ∈ ((winners index forest (unrestrained parent)).filter (Descends index c)).map
      (descended index), 1 ≤ p.distance := by
    intro p member
    obtain ⟨visit, _, rfl⟩ := List.mem_map.mp member
    exact Nat.succ_pos _
  refine ⟨resolve_eq_map_winners .., ?inherited, ?own⟩
  case inherited =>
    have none : (resolve index default (alone c)).filter (fun p => 1 ≤ p.distance) = [] :=
      List.filter_eq_nil_iff.mpr fun p member => by simp [near p member]
    have all := List.filter_eq_self.mpr fun p member => decide_eq_true (far p member)
    rw [parts, List.filter_append, none, all, List.nil_append]
  case own =>
    have all : (resolve index default (alone c)).filter (fun p => p.distance = 0) =
        resolve index default (alone c) :=
      List.filter_eq_self.mpr fun p member => by simp [near p member]
    have none : (((winners index forest (unrestrained parent)).filter (Descends index c)).map
        (descended index)).filter (fun p => p.distance = 0) = [] :=
      List.filter_eq_nil_iff.mpr fun p member => by simpa using Nat.ne_of_gt (far p member)
    rw [parts, List.filter_append, all, none, List.append_nil]

/-- In the middle the logs are kept, and below it the audit is suppressed and the keys are attached
again; of all that is attached above only the backup comes down. -/
theorem inheritsFrom_parent_filtered :
    let attach (name : String) (inherit : Bool) : Attachment := .inline ⟨name, [], .medium, inherit⟩
    let org := Compartment.attaching "org" none
      [attach "audit" true, attach "backup" true, attach "logs" true]
    let unit := Compartment.attaching "unit" (some "org") [attach "keys" true, attach "logs" false]
    let app := { Compartment.attaching "app" (some "unit") [attach "keys" false] with
      suppressed := .ofList ["audit"] }
    let forest : Forest := ⟨[org, unit, app], by decide +kernel, by decide +kernel⟩
    parentIn forest.compartments app = some unit ∧ InheritsFrom default forest app unit ∧
      (resolve default forest app).map (fun p => (p.name, p.distance)) =
        [("keys", 0), ("backup", 2)] := by
  intro attach org unit app forest
  have above : parentIn forest.compartments app = some unit := by decide +kernel
  exact ⟨above, inheritsFrom_parent above, by decide +kernel⟩

theorem visits_eq_append_at (onWay : (chain forest target)[distance]? = some c) :
    ∃ nearer further, visits forest target = visitsFrom 0 nearer ++
        (c.policies.map (⟨c.id, distance, ·⟩) ++ visitsFrom (distance + 1) further) ∧
      nearer.length = distance := by
  obtain ⟨bound, rfl⟩ := List.getElem?_eq_some_iff.mp onWay
  have length : ((chain forest target).take distance).length = distance := by
    rw [List.length_take]
    omega
  refine ⟨(chain forest target).take distance, (chain forest target).drop (distance + 1), ?_,
    length⟩
  have split := visitsFrom_append 0 ((chain forest target).take distance)
    ((chain forest target).drop distance)
  rw [List.take_append_drop, length, Nat.zero_add, List.drop_eq_getElem_cons bound] at split
  exact split

/-- A first visit among the attachments of one compartment is to the first of them that is one of
its policy. -/
theorem mem_firstVisits_attached {id : String} {policies : List Attachment}
    (first : visit ∈ firstVisits (policies.map (⟨id, distance, ·⟩))) :
    visit.distance = distance ∧ ∃ before after, policies = before ++ visit.attachment :: after ∧
      ∀ earlier ∈ before, identity earlier ≠ identity visit.attachment := by
  obtain ⟨before, after, whole, fresh⟩ := mem_firstVisits_iff.mp first
  obtain ⟨before, rest, split, rfl, here⟩ := List.map_eq_append_iff.mp whole
  obtain ⟨attachment, after, rfl, rfl, _⟩ := List.map_eq_cons_iff.mp here
  refine ⟨rfl, before, after, split, ?_⟩
  intro earlier inside
  exact firstVisit?_eq_none_iff.mp fresh _ (List.mem_map_of_mem inside)

/-- What is in effect comes from nearer than a compartment on the way up, or from that compartment,
or is of a policy that the compartment does not attach. -/
theorem winner_cases (onWay : (chain forest target)[distance]? = some c)
    (wins : visit ∈ winners index forest target) :
    visit.distance < distance ∨ visit ∈ firstVisits (c.policies.map (⟨c.id, distance, ·⟩)) ∨
      ∀ own ∈ c.policies, identity own ≠ identity visit.attachment := by
  obtain ⟨nearer, further, split, length⟩ := visits_eq_append_at onWay
  rw [winners_eq_filter, split, firstVisits_append, firstVisits_append] at wins
  rcases List.mem_append.mp (List.mem_of_mem_filter wins) with near | far
  · have := distance_of_mem_visitsFrom (mem_of_mem_firstVisits near)
    exact .inl (by omega)
  · rcases List.mem_append.mp (List.mem_of_mem_filter far) with here | beyond
    · exact .inr (.inl here)
    · have fresh := of_decide_eq_true (List.mem_filter.mp beyond).2
      refine .inr (.inr fun own held => ?_)
      exact firstVisit?_eq_none_iff.mp fresh _ (List.mem_map_of_mem held)

theorem reaches_of_mem_winners (wins : visit ∈ winners index forest target) : visit.Reaches := by
  rw [winners_eq_filter] at wins
  exact (of_decide_eq_true (List.mem_filter.mp wins).2).1

/-- Where a compartment above the target attaches a policy and does not pass it on, the policy
comes into effect from nearer or not at all, unless the first attachment of it there is passed on
and stands before that one. -/
theorem propagation_ends {kept : Attachment} (onWay : (chain forest target)[distance]? = some c)
    (above : 0 < distance) (held : kept ∈ c.policies) (stays : kept.inherit = false) :
    resolve index forest target = (winners index forest target).map (emission index) ∧
      ∀ visit ∈ winners index forest target, identity visit.attachment = identity kept →
        visit.distance < distance ∨
        visit.distance = distance ∧ visit.attachment.inherit = true ∧
          ∃ before after, c.policies = before ++ visit.attachment :: after ∧ kept ∈ after ∧
            ∀ earlier ∈ before, identity earlier ≠ identity kept := by
  refine ⟨resolve_eq_map_winners .., ?_⟩
  intro visit wins same
  rcases winner_cases onWay wins with near | here | other
  · exact .inl near
  · obtain ⟨here, before, after, split, fresh⟩ := mem_firstVisits_attached here
    have inherits : visit.attachment.inherit = true :=
      (reaches_of_mem_winners wins).resolve_left (by omega)
    rw [same] at fresh
    -- The winner is the first of its policy there, so the one that is kept can only come later.
    have later : kept ∈ after := by
      rw [split, List.mem_append, List.mem_cons] at held
      rcases held with earlier | rfl | later
      · exact absurd rfl (fresh kept earlier)
      · rw [inherits] at stays
        contradiction
      · exact later
    exact .inr ⟨here, inherits, before, after, split, later, fresh⟩
  · exact absurd same.symm (other kept held)

/-- In the middle the policy is kept before it is passed on, so that nothing of it comes from there
or from the root. -/
theorem propagation_ends_in_the_middle :
    let audit (inherit : Bool) : Attachment := .inline ⟨"audit", [], .medium, inherit⟩
    let unit := Compartment.attaching "unit" (some "org") [audit false, audit true]
    let app := Compartment.attaching "app" (some "unit") []
    let forest : Forest := ⟨[.attaching "org" none [audit true], unit, app], by decide +kernel,
      by decide +kernel⟩
    (chain forest app)[1]? = some unit ∧ audit false ∈ unit.policies ∧
      resolve default forest app = (winners default forest app).map (emission default) ∧
      ∀ visit ∈ winners default forest app, identity visit.attachment = identity (audit false) →
        visit.distance < 1 ∨
        visit.distance = 1 ∧ visit.attachment.inherit = true ∧
          ∃ before after, unit.policies = before ++ visit.attachment :: after ∧
            audit false ∈ after ∧
            ∀ earlier ∈ before, identity earlier ≠ identity (audit false) := by
  intro audit unit app forest
  have onWay : (chain forest app)[1]? = some unit := by decide +kernel
  have held : audit false ∈ unit.policies := List.mem_cons_self
  exact ⟨onWay, held, propagation_ends onWay Nat.one_pos held rfl⟩

/-- A policy that is attached so that it is passed on, and then again so that it is not, does come
from there. -/
theorem kept_policy_passed_on :
    ¬ ∀ (index : Index) (forest : Forest) (target c : Compartment) (distance : Nat)
      (kept : Attachment), (chain forest target)[distance]? = some c → 0 < distance →
      kept ∈ c.policies → kept.inherit = false →
      ∀ visit ∈ winners index forest target, identity visit.attachment = identity kept →
        visit.distance < distance := by
  intro ends
  let audit (inherit : Bool) : Attachment := .inline ⟨"audit", [], .medium, inherit⟩
  let org := Compartment.attaching "org" none [audit true, audit false]
  let app := Compartment.attaching "app" (some "org") []
  let forest : Forest := ⟨[org, app], by decide +kernel, by decide +kernel⟩
  have wins : ⟨"org", 1, audit true⟩ ∈ winners default forest app := by decide +kernel
  have onWay : (chain forest app)[1]? = some org := by decide +kernel
  have below := ends default forest app org 1 (audit false) onWay Nat.one_pos
    (by decide +kernel) rfl _ wins rfl
  exact absurd below (Nat.lt_irrefl 1)

end Resolution
end Estate
