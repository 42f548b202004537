import Mathlib.Data.List.FinRange
import Estate.Resolution.Walk

/-! What the standing of a walk says about the visits made so far. It is a function of the first
visit to each policy, and of whether the target suppresses the policy's name: a policy wins by its
first visit, and is blocked by a visit that is not inherited before it has won. -/
namespace Estate.Resolution

variable {index : Policy.Index} {target : Compartment} {standing : Standing} {seen : List Visit}
  {visit : Visit} {policy : Identity}

/-- The name under which a policy is shown and suppressed; its attachments have no part in it. -/
def Identity.effectiveName (index : Policy.Index) : Identity → String
  | .library policyId => ((index.get? policyId).map Policy.Definition.effectiveName).getD policyId
  | .inline name => name

theorem effectiveName_identity (attachment : Attachment) :
    (identity attachment).effectiveName index = effectiveName index attachment := by
  cases attachment <;> rfl

/-- What is attached counts for the target: it is its own, or it is inherited. -/
def Visit.Reaches (visit : Visit) : Prop :=
  visit.distance = 0 ∨ visit.attachment.inherit = true

instance (visit : Visit) : Decidable visit.Reaches := inferInstanceAs (Decidable (_ ∨ _))

theorem Visit.not_reaches_iff :
    ¬ visit.Reaches ↔ 0 < visit.distance ∧ visit.attachment.inherit = false := by
  simp [Visit.Reaches, Nat.pos_iff_ne_zero]

/-- The first visit to a policy. -/
def firstVisit? (seen : List Visit) (policy : Identity) : Option Visit :=
  seen.find? fun visit => identity visit.attachment = policy

/-- The first visit to a policy that does not count for the target. -/
def firstRefusal? (seen : List Visit) (policy : Identity) : Option Visit :=
  seen.find? fun visit => identity visit.attachment = policy ∧ ¬ visit.Reaches

/-- The visit that a policy won by. -/
def winner? (index : Policy.Index) (target : Compartment) (seen : List Visit)
    (policy : Identity) : Option Visit :=
  if target.suppresses (policy.effectiveName index) then none
  else (firstVisit? seen policy).filter fun visit => visit.Reaches

/-- The visit that a policy was blocked by. One that is suppressed never wins, so that every visit
that is not inherited blocks it. -/
def blocker? (index : Policy.Index) (target : Compartment) (seen : List Visit)
    (policy : Identity) : Option Visit :=
  if target.suppresses (policy.effectiveName index) then firstRefusal? seen policy
  else (firstVisit? seen policy).filter fun visit => ¬ visit.Reaches

/-- The standing knows the winner and the blocker of every policy, by their compartments. -/
structure Recalls (index : Policy.Index) (target : Compartment) (seen : List Visit)
    (standing : Standing) : Prop where
  winners : ∀ policy,
    standing.winners.lookup policy = (winner? index target seen policy).map (·.compartmentId)
  blockers : ∀ policy,
    standing.blockers.lookup policy = (blocker? index target seen policy).map (·.compartmentId)

theorem recalls_initial : Recalls index target [] .initial where
  winners policy := by simp [Standing.initial, winner?, firstVisit?]
  blockers policy := by simp [Standing.initial, blocker?, firstVisit?, firstRefusal?]

/-- What becomes of an attachment whose policy comes into effect. -/
def granted (index : Policy.Index) : Attachment → Outcome
  | .library reference =>
    if (index.get? reference.policyId).isSome then .included else .unknownLibraryPolicy
  | .inline _ => .included

theorem isEmission_granted (index : Policy.Index) (attachment : Attachment) :
    (granted index attachment).isEmission = true := by
  cases attachment with
  | library reference => by_cases known : (index.get? reference.policyId).isSome <;>
      simp [granted, known, Outcome.isEmission]
  | inline policy => rfl

/-- What becomes of a visit, by the visits before it. -/
def verdict (index : Policy.Index) (target : Compartment) (seen : List Visit) (visit : Visit) :
    Outcome :=
  match blocker? index target seen (identity visit.attachment) with
  | some blocker => .blocked blocker.compartmentId
  | none =>
    if ¬ visit.Reaches then .skippedNotInheritable
    else if target.suppresses (effectiveName index visit.attachment) then .suppressed
    else match winner? index target seen (identity visit.attachment) with
      | some winner => .shadowed winner.compartmentId
      | none => granted index visit.attachment

/-- A standing that recalls the visits so far decides by them alone. -/
theorem Recalls.judge_eq (recalls : Recalls index target seen standing) :
    judge index target standing visit = verdict index target seen visit := by
  rw [judge, verdict, recalls.blockers, recalls.winners]
  cases blocker? index target seen (identity visit.attachment) with
  | some blocker => rfl
  | none =>
    simp only [Option.map_none, Visit.not_reaches_iff]
    cases winner? index target seen (identity visit.attachment) <;> rfl

theorem winners_after_of_ne {outcome : Outcome} (other : policy ≠ identity visit.attachment) :
    (standing.after visit outcome).winners.lookup policy = standing.winners.lookup policy := by
  have different : (policy == identity visit.attachment) = false := by simpa using other
  cases outcome <;> simp only [Standing.after, List.lookup_cons, different]
  split <;> rfl

theorem blockers_after_of_ne {outcome : Outcome} (other : policy ≠ identity visit.attachment) :
    (standing.after visit outcome).blockers.lookup policy = standing.blockers.lookup policy := by
  have different : (policy == identity visit.attachment) = false := by simpa using other
  cases outcome <;> simp only [Standing.after]
  split <;> simp only [List.lookup_cons, different]

theorem winner?_append_of_ne (other : policy ≠ identity visit.attachment) :
    winner? index target (seen ++ [visit]) policy = winner? index target seen policy := by
  simp [winner?, firstVisit?, List.find?_append, other.symm]

theorem blocker?_append_of_ne (other : policy ≠ identity visit.attachment) :
    blocker? index target (seen ++ [visit]) policy = blocker? index target seen policy := by
  simp [blocker?, firstVisit?, firstRefusal?, List.find?_append, other.symm]

theorem firstVisit?_append_self : firstVisit? (seen ++ [visit]) (identity visit.attachment) =
    (firstVisit? seen (identity visit.attachment)).or (some visit) := by
  simp [firstVisit?, List.find?_append]

theorem firstRefusal?_append_self : firstRefusal? (seen ++ [visit]) (identity visit.attachment) =
    (firstRefusal? seen (identity visit.attachment)).or
      (if visit.Reaches then none else some visit) := by
  by_cases reaches : visit.Reaches <;> simp [firstRefusal?, List.find?_append, reaches]

section Verdict

variable {first : Visit}

theorem verdict_of_suppressed
    (suppressed : target.suppresses (effectiveName index visit.attachment) = true) :
    verdict index target seen visit =
      match firstRefusal? seen (identity visit.attachment) with
      | some refusal => .blocked refusal.compartmentId
      | none => if visit.Reaches then .suppressed else .skippedNotInheritable := by
  simp only [verdict, blocker?, effectiveName_identity, suppressed, if_true, ite_not]

variable (shown : target.suppresses (effectiveName index visit.attachment) = false)
include shown

theorem verdict_of_unseen (unseen : firstVisit? seen (identity visit.attachment) = none) :
    verdict index target seen visit =
      if visit.Reaches then granted index visit.attachment else .skippedNotInheritable := by
  simp [verdict, blocker?, winner?, effectiveName_identity, shown, unseen]

theorem verdict_of_won (seenFirst : firstVisit? seen (identity visit.attachment) = some first)
    (won : first.Reaches) :
    verdict index target seen visit =
      if visit.Reaches then .shadowed first.compartmentId else .skippedNotInheritable := by
  simp [verdict, blocker?, winner?, effectiveName_identity, shown, seenFirst, won,
    Option.filter_some]

theorem verdict_of_refused (seenFirst : firstVisit? seen (identity visit.attachment) = some first)
    (refused : ¬ first.Reaches) :
    verdict index target seen visit = .blocked first.compartmentId := by
  simp [verdict, blocker?, effectiveName_identity, shown, seenFirst, refused, Option.filter_some]

end Verdict

section Own

variable (index target seen visit)

/-- A policy comes into effect by the first visit to it, if that counts for the target and the
policy's name is not suppressed. -/
theorem isEmission_verdict_iff : (verdict index target seen visit).isEmission = true ↔
    firstVisit? seen (identity visit.attachment) = none ∧ visit.Reaches ∧
      target.suppresses (effectiveName index visit.attachment) = false := by
  by_cases suppressed : target.suppresses (effectiveName index visit.attachment) = true
  · rw [verdict_of_suppressed suppressed]
    split
    · simp [suppressed, Outcome.isEmission]
    · split <;> simp [suppressed, Outcome.isEmission]
  · have shown := Bool.not_eq_true _ ▸ suppressed
    cases seenFirst : firstVisit? seen (identity visit.attachment) with
    | none =>
      rw [verdict_of_unseen shown seenFirst]
      split
      · next reaches => simp [isEmission_granted, reaches, shown]
      · next refused => simp [Outcome.isEmission, refused]
    | some first =>
      by_cases won : first.Reaches
      · rw [verdict_of_won shown seenFirst won]
        split <;> simp [Outcome.isEmission]
      · simp [verdict_of_refused shown seenFirst won, Outcome.isEmission]

/-- A visit is the winner of its policy when it brings it into effect, and changes no winner
otherwise. -/
theorem winner?_append_self :
    winner? index target (seen ++ [visit]) (identity visit.attachment) =
      if (verdict index target seen visit).isEmission then some visit
      else winner? index target seen (identity visit.attachment) := by
  simp only [isEmission_verdict_iff, winner?, effectiveName_identity, firstVisit?_append_self]
  by_cases suppressed : target.suppresses (effectiveName index visit.attachment) = true
  · simp [suppressed]
  · cases seenFirst : firstVisit? seen (identity visit.attachment) with
    | none => by_cases reaches : visit.Reaches <;> simp [suppressed, reaches, Option.filter_some]
    | some first => simp [suppressed]

/-- A visit that does not count for the target blocks its policy when nothing else does and the
policy has not won. -/
theorem blocker?_append_self :
    blocker? index target (seen ++ [visit]) (identity visit.attachment) =
      if verdict index target seen visit = .skippedNotInheritable ∧
        winner? index target seen (identity visit.attachment) = none then some visit
      else blocker? index target seen (identity visit.attachment) := by
  by_cases suppressed : target.suppresses (effectiveName index visit.attachment) = true
  · rw [verdict_of_suppressed suppressed]
    simp only [blocker?, winner?, effectiveName_identity, suppressed, if_true,
      firstRefusal?_append_self]
    cases firstRefusal? seen (identity visit.attachment) with
    | none => by_cases reaches : visit.Reaches <;> simp [reaches]
    | some refusal => simp
  · have shown := Bool.not_eq_true _ ▸ suppressed
    simp only [blocker?, winner?, effectiveName_identity, shown, Bool.false_eq_true, if_false,
      firstVisit?_append_self]
    cases seenFirst : firstVisit? seen (identity visit.attachment) with
    | none =>
      rw [verdict_of_unseen shown seenFirst]
      by_cases reaches : visit.Reaches
      · have granted : granted index visit.attachment ≠ .skippedNotInheritable := fun same => by
          simpa [same, Outcome.isEmission] using isEmission_granted index visit.attachment
        simp [reaches, granted, Option.filter_some]
      · simp [reaches, Option.filter_some]
    | some first =>
      by_cases won : first.Reaches
      · rw [verdict_of_won shown seenFirst won]
        simp [won, Option.filter_some]
      · rw [verdict_of_refused shown seenFirst won]
        simp [won, Option.filter_some]

end Own

/-- Every visit leaves a standing that recalls it. -/
theorem Recalls.after (recalls : Recalls index target seen standing) (visit : Visit) :
    Recalls index target (seen ++ [visit])
      (standing.after visit (judge index target standing visit)) where
  winners policy := by
    by_cases own : policy = identity visit.attachment
    · subst own
      rw [winner?_append_self, recalls.judge_eq]
      cases verdict index target seen visit with
      | skippedNotInheritable =>
        simp only [Standing.after]
        split <;> simp [Outcome.isEmission, recalls.winners]
      | _ => simp [Standing.after, Outcome.isEmission, recalls.winners]
    · rw [winners_after_of_ne own, winner?_append_of_ne own, recalls.winners]
  blockers policy := by
    by_cases own : policy = identity visit.attachment
    · subst own
      rw [blocker?_append_self, recalls.judge_eq]
      cases verdict index target seen visit with
      | skippedNotInheritable =>
        simp only [Standing.after, recalls.winners]
        cases winner? index target seen (identity visit.attachment) <;> simp [recalls.blockers]
      | _ => simp [Standing.after, recalls.blockers]
    · rw [blockers_after_of_ne own, blocker?_append_of_ne own, recalls.blockers]

/-- Every visit of a walk is decided by the visits before it. -/
theorem Recalls.walk_eq (recalls : Recalls index target seen standing) (rest : List Visit) :
    walk index target standing rest = (List.finRange rest.length).map fun i : Fin _ =>
      (rest.get i, verdict index target (seen ++ rest.take i) (rest.get i)) := by
  induction rest generalizing seen standing with
  | nil => rfl
  | cons visit rest ih =>
    rw [walk, ih (recalls.after visit), recalls.judge_eq]
    change _ = List.map _ (List.finRange (rest.length + 1))
    simp [List.finRange_succ, Function.comp_def]

theorem verdicts_eq (index : Policy.Index) (forest : Forest) (target : Compartment) :
    verdicts index forest target =
      (List.finRange (visits forest target).length).map fun i : Fin _ =>
      ((visits forest target).get i,
        verdict index target ((visits forest target).take i) ((visits forest target).get i)) :=
  recalls_initial.walk_eq (visits forest target)

end Estate.Resolution
