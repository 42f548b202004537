import Estate.Proofs.Document.Idleness

/-! Documents that differ in one record, at any depth, also below records that are noted as lists.
What a document is read as hinges on what the record is read as: if that is as before, so is the
document, and if the record cannot be read, neither can the document. So idle entries in its
records do not change a document, and it cannot be read when one of them lacks a field without a
default. -/
namespace Estate

namespace Document

/-- One record inside a document is changed, and nothing else. Free-form values have no records
inside, and the entries of a map are no fields. -/
inductive Schema.Altered
    (change : ∀ ρ : Type, Dialect → Fields ρ → List (String × Node) → List (String × Node) → Prop) :
    ∀ {α : Type}, Dialect → Schema α → Node → Node → Prop where
  | here {ρ : Type} {d : Dialect} {fields : Fields ρ} {entries entries' : List (String × Node)} :
      change ρ d fields entries entries' →
        Altered change d (.object fields) (.record entries) (.record entries')
  | field {α ρ : Type} {d : Dialect} {fields : Fields ρ} {before after : List (String × Node)}
      {key : String} {presence : Presence α} {s : Schema α} {n n' : Node} :
      .field key presence s ∈ fields.slots (before ++ (key, n) :: after) →
        Altered change d s n n' →
          Altered change d (.object fields) (.record (before ++ (key, n) :: after))
            (.record (before ++ (key, n') :: after))
  | place {α ρ : Type} {d : Dialect} {fields : Fields ρ} {before after : List Node}
      {s : Schema α} {n n' : Node} :
      fields.next? before = some ⟨α, s⟩ →
        Altered change d s n n' →
          Altered change d (.object fields) (.list (before ++ n :: after))
            (.list (before ++ n' :: after))
  | optional {α : Type} {d : Dialect} {s : Schema α} {n n' : Node} :
      Altered change d s n n' → Altered change d (.optional s) n n'
  | item {α : Type} {d : Dialect} {s : Schema α} {before after : List Node} {n n' : Node} :
      Altered change d s n n' →
        Altered change d (.list s) (.list (before ++ n :: after)) (.list (before ++ n' :: after))
  | value {α : Type} {d : Dialect} {s : Schema α} {before after : List (String × Node)}
      {key : String} {n n' : Node} :
      Altered change d s n n' →
        Altered change d (.map s) (.record (before ++ (key, n) :: after))
          (.record (before ++ (key, n') :: after))
  | via {α β : Type} {d : Dialect} {s : Schema β} {make : β → α} {parts : α → β}
      {make_parts : ∀ a, make (parts a) = a} {n n' : Node} :
      Altered change d s n n' → Altered change d (.via s make parts make_parts) n n'
  | settled {α : Type} {d : Dialect} {s : Schema α} {n n' : Node} :
      Altered change .typed s n n' → Altered change d (.settled s) n n'

/-- Two results hinge on two others: they fail where those fail, and are the same where those are
the same. -/
structure Hinges {α β : Type} (r r' : Option α) (a a' : Option β) : Prop where
  fails : r = none → a = none
  fails' : r' = none → a' = none
  same : r = r' → a = a'

namespace Hinges

variable {α β γ : Type} {r r' : Option α} {a a' : Option β} {b b' : Option γ}

theorem refl : Hinges r r' r r' := ⟨id, id, id⟩

theorem trans (first : Hinges r r' a a') (second : Hinges a a' b b') : Hinges r r' b b' where
  fails none := second.fails (first.fails none)
  fails' none := second.fails' (first.fails' none)
  same equal := second.same (first.same equal)

theorem map {f : α → β} : Hinges r r' (r.map f) (r'.map f) where
  fails none := by rw [none, Option.map_none]
  fails' none := by rw [none, Option.map_none]
  same equal := by rw [equal]

/-- A result goes on to be read with others. -/
theorem bind {f : α → Option β} : Hinges r r' (r.bind f) (r'.bind f) where
  fails none := by rw [none, Option.bind_none]
  fails' none := by rw [none, Option.bind_none]
  same equal := by rw [equal]

theorem after (x : Option γ) {f : γ → α → β} :
    Hinges r r' (x.bind fun c => r.map (f c)) (x.bind fun c => r'.map (f c)) where
  fails none := by simp [none]
  fails' none := by simp [none]
  same equal := by rw [equal]

/-- A list is read through each of its items. -/
theorem mapM (f : γ → Option α) {before after : List γ} {n n' : γ} :
    Hinges (f n) (f n') ((before ++ n :: after).mapM f) ((before ++ n' :: after).mapM f) where
  fails none := by simp [List.mapM_append, List.mapM_cons, none]
  fails' none := by simp [List.mapM_append, List.mapM_cons, none]
  same equal := by simp [List.mapM_append, List.mapM_cons, equal]

end Hinges

mutual

/-- A record noted as a list is read through each of its items. -/
theorem Fields.hinges_readItems {α ρ : Type} {s : Schema α} {d : Dialect} {n n' : Node}
    {after : List Node} : ∀ (fields : Fields ρ) (before : List Node),
      fields.next? before = some ⟨α, s⟩ →
        Hinges (s.read d n) (s.read d n') (fields.readItems d (before ++ n :: after))
          (fields.readItems d (before ++ n' :: after))
  | .done, _, next => nomatch next
  | .field _ _ _ rest, [], next => by
    cases next
    exact .bind
  | .field _ _ _ rest, _ :: before, next => (rest.hinges_readItems before next).trans (.after _)
  | .choice _ _ _ _, [], next => nomatch next
  | .choice _ isEmbedded cases rest, tag :: before, next => by
    obtain ⟨label, told, follows⟩ := Option.bind_eq_some_iff.mp next
    cases isEmbedded with
    | true => exact ⟨fun _ => rfl, fun _ => rfl, fun _ => rfl⟩
    | false =>
      have inner : Hinges (s.read d n) (s.read d n')
          (cases.readItems d label (before ++ n :: after))
          (cases.readItems d label (before ++ n' :: after)) :=
        cases.hinges_readItems label before follows
      apply inner.trans
      simp only [List.cons_append, Fields.readItems, told, Option.bind_some]
      exact .bind

theorem Cases.hinges_readItems {α σ : Type} {s : Schema α} {d : Dialect} {n n' : Node}
    {after : List Node} : ∀ (cases : Cases σ) (named : String) (before : List Node),
      cases.next? named before = some ⟨α, s⟩ →
        Hinges (s.read d n) (s.read d n') (cases.readItems d named (before ++ n :: after))
          (cases.readItems d named (before ++ n' :: after))
  | .none, _, _, next => nomatch next
  | .case label fields rest, named, before, next => by
    rw [Cases.next?] at next
    rw [Cases.readItems, Cases.readItems]
    split at next
    · next chosen =>
      rw [if_pos chosen, if_pos chosen]
      exact (fields.hinges_readItems before next).trans .map
    · next passed =>
      rw [if_neg passed, if_neg passed]
      exact (rest.hinges_readItems named before next).trans .map

end

theorem Node.areTyped_iff {items : List Node} :
    areTyped items = true ↔ ∀ n ∈ items, n.isTyped = true := by
  simpa using @areTyped_map Node id items

namespace Schema

open Node

variable {α : Type} {d : Dialect} {n n' : Node}
  {change : ∀ ρ : Type, Dialect → Fields ρ → List (String × Node) → List (String × Node) → Prop}

/-- A record is read through each of its fields. -/
theorem hinges_field {ρ : Type} {fields : Fields ρ} {before after : List (String × Node)}
    {key : String} {presence : Presence α} {s : Schema α} (clear : fields.isUnambiguous = true)
    (member : .field key presence s ∈ fields.slots (before ++ (key, n) :: after)) :
    Hinges (s.read d n) (s.read d n') (fields.read d 0 (named (before ++ (key, n) :: after)))
      (fields.read d 0 (named (before ++ (key, n') :: after))) := by
  have elsewhere (other : String) (different : other ≠ key) :
      under other (before ++ (key, n) :: after) = under other (before ++ (key, n') :: after) := by
    rw [under_insert_of_ne different, under_insert_of_ne different]
  have remains := fields.mem_slots_of_under clear member elsewhere
  -- one tree alone is what is read, and more than one are not read
  have value (m : Node) : fieldValue? d presence s (under key (before ++ (key, m) :: after)) =
      if under key (before ++ after) = [] then s.read d m else none := by
    rw [under_insert_self, under_append]
    rcases under key before with _ | ⟨first, _ | ⟨second, rest⟩⟩ <;>
      rcases under key after with _ | ⟨last, others⟩ <;> rfl
  constructor
  · intro none
    refine fields.read_eq_none 0 member ?_
    simp only [Slot.Fails, value, none, ite_self]
  · intro none
    refine fields.read_eq_none 0 remains ?_
    simp only [Slot.Fails, value, none, ite_self]
  · intro equal
    refine Fields.read_congr_at clear member elsewhere ?_
    simp only [Slot.Agrees, value, equal]

theorem Altered.isNull_eq_false {s : Schema α} (altered : s.Altered change d n n') :
    n.isNull = false ∧ n'.isNull = false := by
  induction altered with
  | here | field | place | item | value => exact ⟨rfl, rfl⟩
  | optional _ ih | via _ ih | settled _ ih => exact ih

/-- Two results hinge on what some changed record is read as. -/
def HingeOnChange
    (change : ∀ ρ : Type, Dialect → Fields ρ → List (String × Node) → List (String × Node) → Prop)
    (a a' : Option α) : Prop :=
  ∃ (ρ : Type) (d : Dialect) (fields : Fields ρ) (entries entries' : List (String × Node)),
    change ρ d fields entries entries' ∧ fields.isUnambiguous = true ∧ fields.isLenient = true ∧
      Hinges (fields.read d 0 (named entries)) (fields.read d 0 (named entries')) a a'

theorem HingeOnChange.trans {β : Type} {a a' : Option α} {b b' : Option β}
    (first : HingeOnChange change a a') (second : Hinges a a' b b') :
    HingeOnChange change b b' := by
  obtain ⟨ρ, d, fields, entries, entries', changed, clear, lenient, hinges⟩ := first
  exact ⟨ρ, d, fields, entries, entries', changed, clear, lenient, hinges.trans second⟩

/-- What a document is read as hinges on what its changed record is read as. -/
theorem Altered.hingeOnChange {s : Schema α} (altered : s.Altered change d n n')
    (clear : s.isUnambiguous = true) (lenient : s.isLenient = true) (typed : n.isTyped = true)
    (typed' : n'.isTyped = true) : HingeOnChange change (s.read d n) (s.read d n') := by
  induction altered with
  | here changed =>
    refine ⟨_, _, _, _, _, changed, clear, lenient, ?_⟩
    rw [Schema.read_record, Schema.read_record]
    exact .refl
  | field member altered ih =>
    obtain ⟨own, below, _⟩ := Fields.isSound_of_mem_slots _ clear lenient member
    simp only [isTyped_record, List.forall_mem_append, List.forall_mem_cons] at typed typed'
    apply (ih own below typed.2.1 typed'.2.1).trans
    rw [Schema.read_record, Schema.read_record]
    exact hinges_field clear member
  | @place _ _ d fields before _ _ _ _ next altered ih =>
    obtain ⟨own, below⟩ := Fields.isSound_of_next? fields before clear lenient next
    simp only [isTyped, areTyped_iff, List.forall_mem_append, List.forall_mem_cons] at typed typed'
    apply (ih own below typed.2.1 typed'.2.1).trans
    by_cases listed : (d.listsRecords || fields.isTagged) = true
    · simp only [Schema.read, listed, if_true]
      exact fields.hinges_readItems before next
    · simp only [Schema.read, listed]
      exact ⟨fun _ => rfl, fun _ => rfl, fun _ => rfl⟩
  | optional altered ih =>
    simp only [Schema.isUnambiguous, Bool.and_eq_true] at clear
    apply (ih clear.2 lenient typed typed').trans
    obtain ⟨solid, solid'⟩ := altered.isNull_eq_false
    simp only [Schema.read, solid, solid', Bool.false_eq_true, if_false]
    exact .map
  | item altered ih =>
    simp only [isTyped, areTyped_iff, List.forall_mem_append, List.forall_mem_cons] at typed typed'
    exact (ih clear lenient typed.2.1 typed'.2.1).trans (.mapM _)
  | @value _ d s _ _ _ _ _ altered ih =>
    simp only [isTyped_record, List.forall_mem_append, List.forall_mem_cons] at typed typed'
    apply (ih clear lenient typed.2.1 typed'.2.1).trans
    simp only [Schema.read, record, entries?, Option.bind_some, List.mapM_map]
    refine Hinges.trans ?_ (Hinges.map (f := StringMap.ofList))
    refine Hinges.trans ?_ (.mapM fun e : String × Node => (s.read d e.2).map (e.1, ·))
    exact .map
  | via altered ih => exact (ih clear lenient typed typed').trans .map
  | settled altered ih =>
    simp only [Schema.read, settle_of_isTyped typed, settle_of_isTyped typed', Option.bind_some]
    exact ih clear lenient typed typed'

end Schema

end Document

namespace DocumentType

open Document

theorem isLenient_schema (t : DocumentType) : t.schema.isLenient = true := by
  cases t <;> decide +kernel

/-- Documents say the same with an idle entry more or less in any of their records, and nothing
without a field that has no default. -/
theorem reading_tolerates (t : DocumentType) {n n' : Node} {a : t.Carrier}
    (typed : n.isTyped = true) (typed' : n'.isTyped = true)
    (accepted : t.schema.read .json n = some a) :
    (t.schema.Altered @Fields.Restated .json n n' → t.schema.read .json n' = some a) ∧
    (t.schema.Altered @Fields.Stripped .json n n' → t.schema.read .json n' = none) := by
  have clear := t.isUnambiguous_schema
  have lenient := t.isLenient_schema
  have readable : t.schema.read .json n ≠ none := by simp [accepted]
  constructor
  · intro altered
    obtain ⟨ρ, d, fields, entries, entries', restated, clear', lenient', hinges⟩ :=
      altered.hingeOnChange clear lenient typed typed'
    rw [← accepted]
    exact (hinges.same (restated.read_eq clear' lenient' (mt hinges.fails readable))).symm
  · intro altered
    obtain ⟨ρ, d, fields, entries, entries', stripped, clear', _, hinges⟩ :=
      altered.hingeOnChange clear lenient typed typed'
    exact hinges.fails' (stripped.read_eq_none clear' (mt hinges.fails readable))

/-- A compartment with one attached policy, noted with these fields. -/
def attaching (fields : List (String × Node)) : Node :=
  .record [("id", .text "app"), ("policies", .list [.record fields])]

theorem altered_attaching {change} {entries entries' : List (String × Node)}
    (altered : Attachment.schema.Altered change .json (.record entries) (.record entries')) :
    Compartment.schema.Altered change .json (attaching entries) (attaching entries') := by
  have listed := @Schema.Altered.item _ _ _ _ [] [] _ _ altered
  refine .via (@Schema.Altered.field _ _ _ _ _ [("id", .text "app")] [] "policies"
    (.defaulted []) _ _ _ ?_ listed)
  exact .tail _ (.tail _ (.tail _ (.tail _ (.head _))))

/-- A policy that is said to be inherited, one of which nothing is said, and one without an id. -/
theorem reading_tolerates_attachment :
    let kind : String × Node := ("kind", .text "library")
    let name : String × Node := ("policy_id", .text "audit")
    ∃ a, compartment.schema.read .json (attaching [kind, name, ("inherit", .flag true)]) = some a ∧
      compartment.schema.read .json (attaching [kind, name]) = some a ∧
      compartment.schema.read .json (attaching [kind, ("inherit", .flag true)]) = none := by
  intro kind name
  have readable : (compartment.schema.read .json
      (attaching [kind, name, ("inherit", .flag true)])).isSome = true := by decide +kernel
  obtain ⟨a, accepted⟩ := Option.isSome_iff_exists.mp readable
  refine ⟨a, accepted, ?_, ?_⟩
  · refine (reading_tolerates compartment rfl rfl accepted).1 (altered_attaching ?_)
    refine .settled (.via (.here ?_))
    refine @Fields.Restated.removed _ _ _ [kind, name] [] _ _ ?_
    exact .default (.tail _ (.tail _ (.tail _ (.head _)))) rfl rfl
  · refine (reading_tolerates compartment rfl rfl accepted).2 (altered_attaching ?_)
    refine .settled (.via (.here ?_))
    exact @Fields.Stripped.removed _ _ _ [kind] [("inherit", .flag true)]
      (.field "policy_id" _ _) _ (.tail _ (.head _)) rfl

-- The snapshot is noted as a list, its only compartment as an object with a key of no field.
example : Snapshot.schema.read .json
      (.list [.text "acme", .text "", .list [.record [("id", .text "org"), ("zzz", .flag true)]]]) =
    some ⟨"acme", "", [{ Compartment.bare "org" none with label := "" }], [], []⟩ := by
  decide +kernel

end DocumentType
end Estate
