import Mathlib.Data.List.Perm.Subperm
import Estate.Proofs.Resolution.Inheritance

/-! The ids that policies are reported under. No policy comes into effect twice; but a library
policy is reported under its bare id and an inline one under its name behind a mark, so that a
library policy whose id begins with the mark can be reported like an inline one. That is the only
way in which two policies in effect have the same id. -/
namespace Estate.Resolution
open Policy

variable {index : Index} {forest : Forest} {target : Compartment}

/-- The id that a policy is reported under. -/
def Identity.reported : Identity → String
  | .library policyId => policyId
  | .inline name => "inline:" ++ name

/-- One policy is inline, and the other is in the library under the id that the inline one is
reported under. -/
inductive Clash : Identity → Identity → Prop where
  | libraryFirst (name : String) : Clash (.library ("inline:" ++ name)) (.inline name)
  | inlineFirst (name : String) : Clash (.inline name) (.library ("inline:" ++ name))

/-- The policies in effect in a target, in their order. -/
def identities (index : Index) (forest : Forest) (target : Compartment) : List Identity :=
  (winners index forest target).map fun visit => identity visit.attachment

theorem policyId_emission (index : Index) (visit : Visit) :
    (emission index visit).policyId = (identity visit.attachment).reported := by
  obtain ⟨id, distance, attachment⟩ := visit
  cases attachment with
  | inline policy => rfl
  | library reference =>
    cases known : index.get? reference.policyId with
    | none => simp [emission, known, identity, Identity.reported]
    | some definition => simp [emission, known, identity, Identity.reported, id_of_get? known]

theorem reported_eq_iff {a b : Identity} : a.reported = b.reported ↔ a = b ∨ Clash a b := by
  constructor
  · intro same
    cases a with
    | library policyId =>
      cases b with
      | library other => exact .inl (congrArg Identity.library same)
      | inline name =>
        obtain rfl : policyId = "inline:" ++ name := same
        exact .inr (.libraryFirst name)
    | inline name =>
      cases b with
      | library policyId =>
        obtain rfl : "inline:" ++ name = policyId := same
        exact .inr (.inlineFirst name)
      | inline other => exact .inl (congrArg Identity.inline ((String.append_right_inj _).mp same))
  · rintro (rfl | clash)
    · rfl
    · cases clash <;> rfl

theorem pairwise_firstVisits (whole : List Visit) : (firstVisits whole).Pairwise fun a b =>
    identity a.attachment ≠ identity b.attachment := by
  induction whole with
  | nil => exact .nil
  | cons visit rest ih =>
    refine List.pairwise_cons.mpr ⟨?_, ih.filter _⟩
    intro later member
    have other : identity later.attachment ≠ identity visit.attachment := by
      simpa using (List.mem_filter.mp member).2
    exact other.symm

theorem nodup_identities (index : Index) (forest : Forest) (target : Compartment) :
    (identities index forest target).Nodup := by
  rw [identities, winners_eq_filter]
  exact List.pairwise_map.mpr ((pairwise_firstVisits _).filter _)

theorem policyIds_eq (index : Index) (forest : Forest) (target : Compartment) :
    (resolve index forest target).map (·.policyId) =
      (identities index forest target).map Identity.reported := by
  rw [resolve_eq_map_winners, identities, List.map_map, List.map_map]
  exact List.map_congr_left fun visit _ => policyId_emission index visit

theorem nodup_reported_iff {policies : List Identity} (distinct : policies.Nodup) :
    (policies.map Identity.reported).Nodup ↔
      ∀ name, ¬ (.library ("inline:" ++ name) ∈ policies ∧ .inline name ∈ policies) := by
  rw [List.nodup_map_iff_inj_on distinct]
  constructor
  · rintro apart name ⟨held, held'⟩
    cases apart _ held _ held' rfl
  · intro free a held b held' same
    rcases reported_eq_iff.mp same with rfl | clash
    · rfl
    · exfalso
      cases clash with
      | libraryFirst name => exact free name ⟨held, held'⟩
      | inlineFirst name => exact free name ⟨held', held⟩

theorem exists_inline_of_reported (id : String) : ∃ name, ∀ policy : Identity,
    policy.reported = id → policy = .library id ∨ policy = .inline name := by
  by_cases marked : ∃ name, "inline:" ++ name = id
  · obtain ⟨name, rfl⟩ := marked
    refine ⟨name, ?_⟩
    intro policy same
    have shared : policy.reported = (Identity.inline name).reported := same
    rcases reported_eq_iff.mp shared with rfl | clash
    · exact .inr rfl
    · cases clash
      exact .inl rfl
  · refine ⟨"", ?_⟩
    intro policy same
    cases policy with
    | library policyId => exact .inl (congrArg Identity.library same)
    | inline name => exact absurd ⟨name, same⟩ marked

/-- An id is that of one library policy and of one inline policy at most. -/
theorem count_reported_le_two {policies : List Identity} (distinct : policies.Nodup) (id : String) :
    (policies.map Identity.reported).count id ≤ 2 := by
  obtain ⟨name, only⟩ := exists_inline_of_reported id
  have counted : (policies.map Identity.reported).count id =
      (policies.filter fun policy => policy.reported == id).length := by
    rw [List.count, List.countP_map, List.countP_eq_length_filter]
    rfl
  have inside : (policies.filter fun policy => policy.reported == id) ⊆
      [.library id, .inline name] := by
    intro policy member
    have same : policy.reported = id := by simpa using (List.mem_filter.mp member).2
    simpa using only policy same
  have once : (policies.filter fun policy => policy.reported == id).Nodup := distinct.filter _
  rw [counted]
  exact (once.subperm inside).length_le

/-- The policies in effect are distinct, and each is reported as it is identified: a library policy
under its id as it stands, an inline one under its name behind the mark. Two of them are reported
under one id exactly when one is in the library under the id of the other, which is inline; so all
ids are distinct unless there is such a pair, and none stands for more than two policies. -/
theorem policyIds_shared_iff (index : Index) (forest : Forest) (target : Compartment) :
    resolve index forest target = (winners index forest target).map (emission index) ∧
    (∀ visit ∈ winners index forest target,
      (emission index visit).policyId = (identity visit.attachment).reported) ∧
    ((winners index forest target).Pairwise fun a b =>
      identity a.attachment ≠ identity b.attachment ∧
      ((emission index a).policyId = (emission index b).policyId ↔
        Clash (identity a.attachment) (identity b.attachment))) ∧
    (((resolve index forest target).map (·.policyId)).Nodup ↔
      ∀ name, ¬ (.library ("inline:" ++ name) ∈ identities index forest target ∧
        .inline name ∈ identities index forest target)) ∧
    ∀ id, ((resolve index forest target).map (·.policyId)).count id ≤ 2 := by
  have distinct := nodup_identities index forest target
  refine ⟨resolve_eq_map_winners .., fun visit _ => policyId_emission index visit, ?pairs, ?all,
    ?twice⟩
  case pairs =>
    apply (List.pairwise_map.mp distinct).imp
    intro a b other
    refine ⟨other, ?_⟩
    rw [policyId_emission, policyId_emission, reported_eq_iff]
    exact or_iff_right other
  case all =>
    rw [policyIds_eq]
    exact nodup_reported_iff distinct
  case twice =>
    intro id
    rw [policyIds_eq]
    exact count_reported_le_two distinct id

/-- A library policy may have an id that begins with the mark, and the inline policy of the rest of
that id be attached beside it. -/
theorem policyId_shared : ¬ ∀ (index : Index) (forest : Forest) (target : Compartment),
    ((resolve index forest target).map (·.policyId)).Nodup := by
  intro apart
  let org := Compartment.attaching "org" none
    [.library ⟨"inline:audit", .empty, true⟩, .inline ⟨"audit", [], .medium, true⟩]
  have twice : (resolve default ⟨[org], by decide +kernel, by decide +kernel⟩ org).map
      (·.policyId) = ["inline:audit", "inline:audit"] := by
    decide +kernel
  have once := apart default ⟨[org], by decide +kernel, by decide +kernel⟩ org
  rw [twice] at once
  exact absurd once (by decide)

end Estate.Resolution
