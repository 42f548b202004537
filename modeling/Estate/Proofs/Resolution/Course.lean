import Estate.Proofs.Resolution.Noninterference

/-! What becomes of the attachments of one policy, in the order of a walk. Other policies have no
part in it; and in a standing a policy is in one of three phases: nothing is decided, it has won, or
it is blocked. The last two are final. So every outcome that names a cause names the place of an
earlier attachment of the same policy. -/
namespace Estate.Resolution
open Policy

/-- The steps of a policy whose name the target does not suppress. -/
inductive OpenCourse : List Step → Prop where
  | refused {first : Step} {later : List Step} : first.outcome = .skippedNotInheritable →
      (∀ s ∈ later, s.outcome = .blocked first.compartmentId) → OpenCourse (first :: later)
  | granted {first : Step} {later : List Step} :
      first.outcome = .included ∨ first.outcome = .unknownLibraryPolicy →
      (∀ s ∈ later, s.outcome = .shadowed first.compartmentId ∨
        s.outcome = .skippedNotInheritable) → OpenCourse (first :: later)

/-- The steps of a policy whose name the target suppresses. -/
inductive SuppressedCourse : List Step → Prop where
  | nil : SuppressedCourse []
  | suppressed {first : Step} {later : List Step} : first.outcome = .suppressed →
      SuppressedCourse later → SuppressedCourse (first :: later)
  | refused {first : Step} {later : List Step} : first.outcome = .skippedNotInheritable →
      (∀ s ∈ later, s.outcome = .blocked first.compartmentId) → SuppressedCourse (first :: later)

variable {index : Index} {forest : Forest} {target : Compartment} {standing standing' : Standing}
  {visit : Visit} {rest whole : List Visit} {policy : Identity} {cause : String}

theorem label_library_ne_inline (reference : LibraryAttachment) (policy : InlineAttachment) :
    (Attachment.library reference).label ≠ (Attachment.inline policy).label := by
  intro same
  have letters := congrArg String.toList same
  simp [Attachment.label] at letters

theorem label_eq_iff {a b : Attachment} : a.label = b.label ↔ identity a = identity b := by
  cases a with
  | library a =>
    cases b with
    | library b => simp [Attachment.label, identity, String.append_right_inj]
    | inline b => simp [label_library_ne_inline, identity]
  | inline a =>
    cases b with
    | library b => simp [(label_library_ne_inline b a).symm, identity]
    | inline b => simp [Attachment.label, identity, String.append_right_inj]

/-- The standings have decided the same about a policy. -/
structure AgreeAbout (policy : Identity) (standing standing' : Standing) : Prop where
  winners : standing.winners.lookup policy = standing'.winners.lookup policy
  blockers : standing.blockers.lookup policy = standing'.blockers.lookup policy

namespace AgreeAbout

theorem judge_eq (agree : AgreeAbout (identity visit.attachment) standing standing') :
    judge index target standing visit = judge index target standing' visit := by
  rw [judge, judge, agree.winners, agree.blockers]

theorem after (agree : AgreeAbout (identity visit.attachment) standing standing')
    (outcome : Outcome) : AgreeAbout (identity visit.attachment) (standing.after visit outcome)
      (standing'.after visit outcome) := by
  cases outcome with
  | included | unknownLibraryPolicy => exact ⟨by simp [Standing.after], agree.blockers⟩
  | skippedNotInheritable =>
    simp only [Standing.after, agree.winners]
    split
    · exact agree
    · exact ⟨agree.winners, by simp⟩
  | blocked | suppressed | shadowed => exact agree

theorem after_other (agree : AgreeAbout policy standing standing')
    (other : identity visit.attachment ≠ policy) (outcome : Outcome) :
    AgreeAbout policy (standing.after visit outcome) standing' where
  winners := (winners_after_of_ne other.symm).trans agree.winners
  blockers := (blockers_after_of_ne other.symm).trans agree.blockers

/-- The outcomes of a policy's attachments are the same when there are no others. -/
theorem filter_walk (agree : AgreeAbout policy standing standing') (whole : List Visit) :
    ((walk index target standing whole).filter fun (visit, _) =>
        identity visit.attachment = policy) =
      walk index target standing' (whole.filter fun visit =>
        identity visit.attachment = policy) := by
  induction whole generalizing standing standing' with
  | nil => rfl
  | cons visit rest ih =>
    by_cases own : identity visit.attachment = policy
    · subst own
      rw [walk, List.filter_cons_of_pos (by simp), List.filter_cons_of_pos (by simp), walk,
        agree.judge_eq, ih (agree.after _)]
    · -- Only the walk on the left meets this visit, and it decides nothing about the policy.
      rw [walk, List.filter_cons_of_neg (by simpa using own),
        List.filter_cons_of_neg (by simpa using own), ih (agree.after_other own _)]

end AgreeAbout

theorem isEmission_iff {outcome : Outcome} :
    outcome.isEmission = true ↔ outcome = .included ∨ outcome = .unknownLibraryPolicy := by
  cases outcome <;> simp [Outcome.isEmission]

/-- The steps of visits, made from a standing. -/
def stepsFrom (index : Index) (target : Compartment) (standing : Standing) (whole : List Visit) :
    List Step :=
  (walk index target standing whole).map fun (visit, outcome) => step index visit outcome

theorem stepsFrom_cons : stepsFrom index target standing (visit :: rest) =
    step index visit (judge index target standing visit) ::
      stepsFrom index target (standing.after visit (judge index target standing visit)) rest :=
  rfl

theorem stepsFrom_of_blocked (own : ∀ visit ∈ rest, identity visit.attachment = policy)
    (blocked : standing.blockers.lookup policy = some cause) :
    ∀ s ∈ stepsFrom index target standing rest, s.outcome = .blocked cause := by
  induction rest with
  | nil => nofun
  | cons visit rest ih =>
    obtain ⟨here, later⟩ := List.forall_mem_cons.mp own
    have judged : judge index target standing visit = .blocked cause := by
      rw [judge, here, blocked]
    rw [stepsFrom_cons, judged]
    exact List.forall_mem_cons.mpr ⟨rfl, ih later⟩

section Undecided

variable (undecided : standing.blockers.lookup (identity visit.attachment) = none)
include undecided

theorem judge_of_refused (refused : ¬ visit.Reaches) :
    judge index target standing visit = .skippedNotInheritable := by
  rw [judge, undecided]
  exact if_pos (Visit.not_reaches_iff.mp refused)

variable (reaches : visit.Reaches)
include reaches

theorem judge_of_suppressed
    (suppressed : target.suppresses (effectiveName index visit.attachment) = true) :
    judge index target standing visit = .suppressed := by
  rw [judge, undecided]
  exact (if_neg (mt Visit.not_reaches_iff.mpr (not_not_intro reaches))).trans (if_pos suppressed)

theorem judge_of_shown
    (shown : target.suppresses (effectiveName index visit.attachment) = false) :
    judge index target standing visit =
      match standing.winners.lookup (identity visit.attachment) with
      | some cause => .shadowed cause
      | none => granted index visit.attachment := by
  rw [judge, undecided]
  refine (if_neg (mt Visit.not_reaches_iff.mpr (not_not_intro reaches))).trans ?_
  rw [shown]
  rfl

end Undecided

theorem exists_verdict_of_mem_verdicts {outcome : Outcome}
    (judged : (visit, outcome) ∈ verdicts index forest target) :
    ∃ seen, outcome = verdict index target seen visit := by
  rw [verdicts_eq] at judged
  obtain ⟨i, _, same⟩ := List.mem_map.mp judged
  obtain ⟨rfl, rfl⟩ := Prod.mk.inj same
  exact ⟨_, rfl⟩

theorem not_reaches_of_skipped
    (skipped : (visit, .skippedNotInheritable) ∈ verdicts index forest target) :
    ¬ visit.Reaches := by
  intro reaches
  obtain ⟨seen, judged⟩ := exists_verdict_of_mem_verdicts skipped
  simp only [verdict, reaches, not_true_eq_false, if_false] at judged
  split at judged
  · contradiction
  · split at judged
    · contradiction
    · split at judged
      · contradiction
      · have emits := isEmission_granted index visit.attachment
        rw [← judged] at emits
        contradiction

theorem after_of_isEmission {outcome : Outcome} (emits : outcome.isEmission = true) :
    standing.after visit outcome = { standing with
      winners := (identity visit.attachment, visit.compartmentId) :: standing.winners } := by
  rcases isEmission_iff.mp emits with rfl | rfl
  · rfl
  · rfl

theorem blockers_after_skipped
    (unwon : standing.winners.lookup (identity visit.attachment) = none) :
    (standing.after visit .skippedNotInheritable).blockers.lookup (identity visit.attachment) =
      some visit.compartmentId := by
  simp [Standing.after, unwon]

theorem stepsFrom_of_won (own : ∀ visit ∈ rest, identity visit.attachment = policy)
    (shown : target.suppresses (policy.effectiveName index) = false)
    (undecided : standing.blockers.lookup policy = none)
    (won : standing.winners.lookup policy = some cause) :
    ∀ s ∈ stepsFrom index target standing rest,
      s.outcome = .shadowed cause ∨ s.outcome = .skippedNotInheritable := by
  induction rest with
  | nil => nofun
  | cons visit rest ih =>
    obtain ⟨rfl, later⟩ := List.forall_mem_cons.mp own
    rw [effectiveName_identity] at shown
    rw [stepsFrom_cons, List.forall_mem_cons]
    by_cases reaches : visit.Reaches
    · have judged := judge_of_shown undecided reaches shown
      rw [won] at judged
      rw [judged]
      exact ⟨.inl rfl, ih later⟩
    · -- Once there is a winner, an attachment that is not passed on blocks nothing.
      have same : standing.after visit .skippedNotInheritable = standing := by
        simp [Standing.after, won]
      rw [judge_of_refused undecided reaches, same]
      exact ⟨.inr rfl, ih later⟩

/-- A policy that is not suppressed wins or is blocked by the first attachment of it. -/
theorem openCourse_stepsFrom
    (own : ∀ next ∈ visit :: rest, identity next.attachment = policy)
    (shown : target.suppresses (policy.effectiveName index) = false)
    (undecided : standing.blockers.lookup policy = none)
    (unwon : standing.winners.lookup policy = none) :
    OpenCourse (stepsFrom index target standing (visit :: rest)) := by
  obtain ⟨rfl, later⟩ := List.forall_mem_cons.mp own
  rw [stepsFrom_cons]
  by_cases reaches : visit.Reaches
  · have judged := judge_of_shown undecided reaches (effectiveName_identity _ ▸ shown)
    rw [unwon] at judged
    rw [judged]
    have emits := isEmission_granted index visit.attachment
    rw [after_of_isEmission emits]
    exact .granted (isEmission_iff.mp emits)
      (stepsFrom_of_won later shown undecided List.lookup_cons_self)
  · rw [judge_of_refused undecided reaches]
    exact .refused rfl (stepsFrom_of_blocked later (blockers_after_skipped unwon))

/-- A policy that is suppressed never wins, and is blocked by the first attachment that is not
passed on. -/
theorem suppressedCourse_stepsFrom (own : ∀ next ∈ rest, identity next.attachment = policy)
    (suppressed : target.suppresses (policy.effectiveName index) = true)
    (undecided : standing.blockers.lookup policy = none)
    (unwon : standing.winners.lookup policy = none) :
    SuppressedCourse (stepsFrom index target standing rest) := by
  induction rest with
  | nil => exact .nil
  | cons visit rest ih =>
    obtain ⟨rfl, later⟩ := List.forall_mem_cons.mp own
    rw [stepsFrom_cons]
    by_cases reaches : visit.Reaches
    · -- What is suppressed leaves the standing as it was.
      rw [judge_of_suppressed undecided reaches (effectiveName_identity _ ▸ suppressed)]
      exact .suppressed rfl (ih later)
    · rw [judge_of_refused undecided reaches]
      exact .refused rfl (stepsFrom_of_blocked later (blockers_after_skipped unwon))

/-- The steps of a trace with the label of an attachment are those of its policy. -/
theorem filter_steps_trace (index : Index) (forest : Forest) (target : Compartment)
    (a : Attachment) :
    (trace index forest target).steps.filter (·.attachment = a.label) =
      stepsFrom index target .initial ((visits forest target).filter fun visit =>
        identity visit.attachment = identity a) := by
  have agree : AgreeAbout (identity a) .initial .initial := ⟨rfl, rfl⟩
  rw [stepsFrom, ← agree.filter_walk, trace, List.filter_map]
  congr 1
  apply List.filter_congr
  rintro ⟨visit, outcome⟩ _
  rw [Function.comp_apply, decide_eq_decide]
  exact label_eq_iff

theorem attachmentsOn_chain (forest : Forest) (target : Compartment) :
    attachmentsOn (chain forest target) = visits forest target :=
  (visitsFrom_eq 0 _).symm

/-- The steps of an attachment's policy, whatever other policies are attached between them. Every
outcome that depends on an earlier one names the compartment of that, and it is only above the
target that an attachment is skipped, and only one that is not inherited. -/
theorem outcomes_by_policy (index : Index) (forest : Forest) (target : Compartment) :
    (∀ a b : Attachment, a.label = b.label ↔ SamePolicy a b) ∧
    ∃ way, Ascent forest.compartments target way ∧
      List.Forall₂ (fun visit s => s.attachment = visit.attachment.label ∧
          (s.outcome = .skippedNotInheritable →
            0 < visit.distance ∧ visit.attachment.inherit = false))
        (attachmentsOn way) (trace index forest target).steps ∧
      ∀ c ∈ way, ∀ a ∈ c.policies, ∀ name, ShownAs index a name →
        (target.suppresses name = false →
          OpenCourse ((trace index forest target).steps.filter (·.attachment = a.label))) ∧
        (target.suppresses name = true →
          SuppressedCourse
            ((trace index forest target).steps.filter (·.attachment = a.label))) := by
  refine ⟨fun a b => label_eq_iff.trans identity_eq_iff, chain forest target,
    ascent_chain forest target, ?skipped, ?courses⟩
  case skipped =>
    rw [attachmentsOn_chain, ← map_fst_verdicts index, trace, List.forall₂_map_left_iff,
      List.forall₂_map_right_iff, List.forall₂_same]
    rintro ⟨visit, outcome⟩ judged
    refine ⟨rfl, ?_⟩
    rintro rfl
    exact Visit.not_reaches_iff.mp (not_reaches_of_skipped judged)
  case courses =>
    intro c onWay a held name named
    obtain rfl := shownAs_iff.mp named
    rw [filter_steps_trace, ← effectiveName_identity]
    have own : ∀ visit ∈ (visits forest target).filter fun visit =>
        identity visit.attachment = identity a, identity visit.attachment = identity a := by
      intro visit member
      exact of_decide_eq_true (List.mem_filter.mp member).2
    refine ⟨fun shown => ?_, fun suppressed => suppressedCourse_stepsFrom own suppressed rfl rfl⟩
    cases all : (visits forest target).filter fun visit =>
        identity visit.attachment = identity a with
    | nil =>
      obtain ⟨visit, member, same⟩ : ∃ visit ∈ visits forest target, visit.attachment = a :=
        exists_mem_visitsFrom onWay held
      have kept := List.filter_eq_nil_iff.mp all visit member
      simp [same] at kept
    | cons first later => exact openCourse_stepsFrom (all ▸ own) shown rfl rfl

/-- The audit is attached on every level, and the keys are suppressed, attached again and then not
passed on; the logs are not passed on from the middle. -/
theorem outcomes_by_policy_three_levels :
    let attach (name : String) (inherit : Bool) : Attachment := .inline ⟨name, [], .medium, inherit⟩
    let org := Compartment.attaching "org" none
      [attach "audit" true, attach "keys" false, attach "logs" true, attach "keys" true]
    let unit := Compartment.attaching "unit" (some "org")
      [attach "audit" false, attach "keys" true, attach "logs" false]
    let app := { Compartment.attaching "app" (some "unit") [attach "audit" true] with
      suppressed := .ofList ["keys"] }
    let forest : Forest := ⟨[org, unit, app], by decide +kernel, by decide +kernel⟩
    let steps := (trace default forest app).steps
    org ∈ chain forest app ∧ attach "keys" true ∈ org.policies ∧
      ShownAs default (attach "keys" true) "keys" ∧ app.suppresses "keys" = true ∧
      SuppressedCourse (steps.filter (·.attachment = "inline:keys")) ∧
      OpenCourse (steps.filter (·.attachment = "inline:logs")) ∧
      steps.map (·.outcome) = [.included, .skippedNotInheritable, .suppressed,
        .skippedNotInheritable, .shadowed "app", .skippedNotInheritable, .blocked "unit",
        .blocked "org"] := by
  intro attach org unit app forest steps
  obtain ⟨_, way, ascent, _, courses⟩ := outcomes_by_policy default forest app
  obtain rfl := ascent.unique (ascent_chain forest app)
  have onWay : org ∈ chain forest app := by decide +kernel
  have held : attach "keys" true ∈ org.policies := by decide +kernel
  have shown : ShownAs default (attach "keys" true) "keys" := .inline
  have suppressed : app.suppresses "keys" = true := by decide +kernel
  refine ⟨onWay, held, shown, suppressed, ?_, ?_, by decide +kernel⟩
  · exact (courses org onWay _ held "keys" shown).2 suppressed
  · exact (courses org onWay (attach "logs" true) (by decide +kernel) "logs" .inline).1
      (by decide +kernel)

end Estate.Resolution
