import Estate.Proofs.Resolution.Election

/-! The attachments that the policies in effect come from. Resolution keeps the first visit to
every policy, and of these the ones that count for the target under a name that it does not
suppress. The first visits of a longer walk are those of its beginning and then what is new in its
rest, so that the parts of a way up can be looked at one by one. -/
namespace Estate.Resolution
open Policy

variable {index : Index} {forest : Forest} {target target' : Compartment} {standing : Standing}
  {seen rest whole : List Visit} {visit : Visit} {policy : Identity}

/-- The attachments that the policies in effect come from, one for each policy and in their
order. -/
def winners (index : Index) (forest : Forest) (target : Compartment) : List Visit :=
  ((verdicts index forest target).filter fun (_, outcome) => outcome.isEmission).map (·.1)

theorem resolve_eq_map_winners (index : Index) (forest : Forest) (target : Compartment) :
    resolve index forest target = (winners index forest target).map (emission index) := by
  rw [resolve, winners, List.map_map, ← List.filterMap_eq_map, List.filterMap_filter]
  rfl

/-- The first visits to the policies, in their order. -/
def firstVisits : List Visit → List Visit
  | [] => []
  | visit :: rest => visit :: (firstVisits rest).filter fun later =>
      identity later.attachment ≠ identity visit.attachment

theorem firstVisit?_eq_none_iff :
    firstVisit? seen policy = none ↔ ∀ visit ∈ seen, identity visit.attachment ≠ policy := by
  simp [firstVisit?]

theorem firstVisits_append (seen rest : List Visit) :
    firstVisits (seen ++ rest) = firstVisits seen ++ (firstVisits rest).filter fun visit =>
      firstVisit? seen (identity visit.attachment) = none := by
  induction seen with
  | nil => simp [firstVisits, firstVisit?]
  | cons first seen ih =>
    simp only [List.cons_append, firstVisits, ih, List.filter_append, List.filter_filter]
    congr 2
    apply List.filter_congr
    intro visit _
    have both : firstVisit? (first :: seen) (identity visit.attachment) = none ↔
        identity visit.attachment ≠ identity first.attachment ∧
          firstVisit? seen (identity visit.attachment) = none := by
      simp only [firstVisit?_eq_none_iff, List.forall_mem_cons, ne_comm]
    simp only [both, Bool.decide_and]

/-- A visit is the first to its policy when no visit before it is one to that policy. -/
theorem mem_firstVisits_iff : visit ∈ firstVisits whole ↔
    ∃ before after, whole = before ++ visit :: after ∧
      firstVisit? before (identity visit.attachment) = none := by
  constructor
  · intro member
    induction whole with
    | nil => contradiction
    | cons first rest ih =>
      rcases List.mem_cons.mp member with rfl | later
      · exact ⟨[], rest, rfl, rfl⟩
      · obtain ⟨later, other⟩ := List.mem_filter.mp later
        obtain ⟨before, after, rfl, fresh⟩ := ih later
        have other : identity visit.attachment ≠ identity first.attachment := by simpa using other
        refine ⟨first :: before, after, rfl, ?_⟩
        rw [firstVisit?_eq_none_iff] at fresh ⊢
        intro earlier inside
        rcases List.mem_cons.mp inside with rfl | inside
        · exact other.symm
        · exact fresh earlier inside
  · rintro ⟨before, after, rfl, fresh⟩
    rw [firstVisits_append, List.mem_append, List.mem_filter]
    exact .inr ⟨List.mem_cons_self, by simpa using fresh⟩

theorem mem_of_mem_firstVisits (member : visit ∈ firstVisits whole) : visit ∈ whole := by
  obtain ⟨before, after, rfl, _⟩ := mem_firstVisits_iff.mp member
  exact List.mem_append_right _ List.mem_cons_self

/-- Which visits are first depends on nothing but the policies that they are visits to. -/
theorem firstVisits_map (move : Visit → Visit)
    (keeps : ∀ visit, identity (move visit).attachment = identity visit.attachment)
    (whole : List Visit) :
    firstVisits (whole.map move) = (firstVisits whole).map move := by
  induction whole with
  | nil => rfl
  | cons first rest ih =>
    simp only [List.map_cons, firstVisits, ih, List.filter_map, keeps, Function.comp_def]

/-- The visit counts for the target, and the target does not suppress its policy by name. -/
def Visit.CountsFor (index : Index) (target : Compartment) (visit : Visit) : Prop :=
  visit.Reaches ∧ target.suppresses (effectiveName index visit.attachment) = false

instance (visit : Visit) : Decidable (visit.CountsFor index target) :=
  inferInstanceAs (Decidable (_ ∧ _))

/-- Of the target nothing but what it suppresses decides whether a visit counts. -/
theorem countsFor_congr (same : target.suppressed = target'.suppressed) :
    visit.CountsFor index target ↔ visit.CountsFor index target' := by
  rw [Visit.CountsFor, Visit.CountsFor, Compartment.suppresses, Compartment.suppresses, same]

/-- From any standing that recalls the visits so far, those visits win that count and are the first
to their policy. -/
theorem Recalls.winners_walk (recalls : Recalls index target seen standing) (rest : List Visit) :
    ((walk index target standing rest).filter fun (_, outcome) => outcome.isEmission).map (·.1) =
      (firstVisits rest).filter fun visit =>
        firstVisit? seen (identity visit.attachment) = none ∧ visit.CountsFor index target := by
  -- What was seen grows along the walk, and `recalls` is what every step keeps of it.
  induction rest generalizing seen standing with
  | nil => rfl
  | cons visit rest ih =>
    have own : (verdict index target seen visit).isEmission = true ↔
        firstVisit? seen (identity visit.attachment) = none ∧ visit.CountsFor index target :=
      isEmission_verdict_iff index target seen visit
    have later : ((firstVisits rest).filter fun next =>
          firstVisit? (seen ++ [visit]) (identity next.attachment) = none ∧
            next.CountsFor index target) =
        ((firstVisits rest).filter fun next =>
          identity next.attachment ≠ identity visit.attachment).filter fun next =>
            firstVisit? seen (identity next.attachment) = none ∧
              next.CountsFor index target := by
      rw [List.filter_filter]
      apply List.filter_congr
      intro next _
      have fresh : firstVisit? (seen ++ [visit]) (identity next.attachment) = none ↔
          firstVisit? seen (identity next.attachment) = none ∧
            identity next.attachment ≠ identity visit.attachment := by
        simp only [firstVisit?_eq_none_iff, List.forall_mem_append, List.forall_mem_singleton,
          ne_comm]
      simp only [fresh, ← Bool.decide_and, and_right_comm]
    have onward := (ih (recalls.after visit)).trans later
    rw [recalls.judge_eq] at onward
    rw [walk, firstVisits, recalls.judge_eq, List.filter_cons, List.filter_cons, ← onward]
    by_cases wins : (verdict index target seen visit).isEmission = true
    · simp only [wins, own.mp wins, and_self, decide_true, if_true, List.map_cons]
    · simp only [wins, mt own.mpr wins, decide_false, Bool.false_eq_true, if_false]

/-- The policies in effect come from the first visits that count. -/
theorem winners_eq_filter (index : Index) (forest : Forest) (target : Compartment) :
    winners index forest target =
      (firstVisits (visits forest target)).filter (·.CountsFor index target) := by
  have initial : Recalls index target [] .initial := recalls_initial
  simpa [firstVisit?, winners, verdicts] using initial.winners_walk (visits forest target)

theorem mem_visits_of_mem_winners (wins : visit ∈ winners index forest target) :
    visit ∈ visits forest target := by
  rw [winners_eq_filter] at wins
  exact mem_of_mem_firstVisits (List.mem_of_mem_filter wins)

end Estate.Resolution
