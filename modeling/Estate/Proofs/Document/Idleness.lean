import Estate.Proofs.Document.Slots

/-! Entries of a record that do not count. An entry under an unknown key says nothing, and neither
does one that spells out what its absence means. Where a field has no default its absence means
nothing, and the record cannot be read without it. -/
namespace Estate.Document

/-- Whether an absent field is read like null, if null can be read there. -/
def Schema.equatesNull {α : Type} : Schema α → Presence α → Bool
  | .optional _, presence =>
    match presence.absent? with
    | some none => true
    | _ => false
  | _, _ => true

mutual

/-- Whether every field that may be null may be absent as well. -/
def Schema.isLenient {α : Type} : Schema α → Bool
  | .text | .flag | .count | .any | .word _ | .set => true
  | .optional s => s.isLenient
  | .list s => s.isLenient
  | .map s => s.isLenient
  | .object fields => fields.isLenient
  | .via s _ _ _ => s.isLenient
  | .settled s => s.isLenient
termination_by structural s => s

def Fields.isLenient {ρ : Type} : Fields ρ → Bool
  | .done => true
  | .field _ presence s rest => s.equatesNull presence && s.isLenient && rest.isLenient
  | .choice _ _ cases rest => cases.isLenient && rest.isLenient
termination_by structural s => s

def Cases.isLenient {σ : Type} : Cases σ → Bool
  | .none => true
  | .case _ fields rest => fields.isLenient && rest.isLenient
termination_by structural s => s

end

/-- What a field has from the schema that it stands in. -/
def Slot.IsSound : Slot → Prop
  | .tag _ _ => True
  | .field _ presence s =>
    s.isUnambiguous = true ∧ s.isLenient = true ∧ s.equatesNull presence = true

/-- The absence of the entry means nothing. -/
def Slot.IsRequired : Slot → Prop
  | .tag _ _ => True
  | .field _ presence _ => presence.absent? = none

/-- An entry says no more in a record than its absence would: no field has its key, or its value is
the default of the field, or it is null and the field is optional. -/
inductive Fields.Idle {ρ : Type} (d : Dialect) (fields : Fields ρ)
    (entries : List (String × Node)) : String → Node → Prop where
  | unknown {key : String} {n : Node} : (∀ slot ∈ fields.slots entries, slot.key ≠ key) →
      Idle d fields entries key n
  | default {α : Type} {key : String} {presence : Presence α} {s : Schema α} {a : α} {n : Node} :
      .field key presence s ∈ fields.slots entries → presence.absent? = some a →
        s.read d n = some a → Idle d fields entries key n
  | null {α : Type} {key : String} {presence : Presence (Option α)} {s : Schema α} :
      .field key presence (.optional s) ∈ fields.slots entries → Idle d fields entries key .null

/-- An idle entry is put among those of a record, or taken away from them. -/
inductive Fields.Restated {ρ : Type} (d : Dialect) (fields : Fields ρ) :
    List (String × Node) → List (String × Node) → Prop where
  | added {before after : List (String × Node)} {key : String} {n : Node} :
      fields.Idle d (before ++ after) key n → key ∉ (before ++ after).map (·.1) →
        Restated d fields (before ++ after) (before ++ (key, n) :: after)
  | removed {before after : List (String × Node)} {key : String} {n : Node} :
      fields.Idle d (before ++ (key, n) :: after) key n →
        Restated d fields (before ++ (key, n) :: after) (before ++ after)

/-- A field without a default is taken away from a record. -/
inductive Fields.Stripped {ρ : Type} (d : Dialect) (fields : Fields ρ) :
    List (String × Node) → List (String × Node) → Prop where
  | removed {before after : List (String × Node)} {slot : Slot} {n : Node} :
      slot ∈ fields.slots (before ++ (slot.key, n) :: after) → slot.IsRequired →
        Stripped d fields (before ++ (slot.key, n) :: after) (before ++ after)

mutual

theorem Fields.isSound_of_mem_slots {ρ : Type} {entries : List (String × Node)} {slot : Slot} :
    ∀ (fields : Fields ρ), fields.isUnambiguous = true → fields.isLenient = true →
      slot ∈ fields.slots entries → slot.IsSound
  | .done, _, _, member => nomatch member
  | .field key presence s rest, clear, lenient, member => by
    simp only [Fields.isUnambiguous, Fields.isLenient, Bool.and_eq_true] at clear lenient
    rcases List.mem_cons.mp member with rfl | later
    · exact ⟨clear.1.2, lenient.1.2, lenient.1.1⟩
    · exact rest.isSound_of_mem_slots clear.2 lenient.2 later
  | .choice tag isEmbedded cases rest, clear, lenient, member => by
    simp only [Fields.isLenient, Bool.and_eq_true] at lenient
    obtain ⟨_, _, _, own, others⟩ := Fields.apart_of_choice clear
    rcases Fields.mem_slots_choice.mp member with rfl | ⟨name, _, ofCase⟩ | later
    · trivial
    · exact cases.isSound_of_mem_slots own lenient.1 name ofCase
    · exact rest.isSound_of_mem_slots others lenient.2 later

theorem Cases.isSound_of_mem_slots {σ : Type} {entries : List (String × Node)} {slot : Slot} :
    ∀ (cases : Cases σ), cases.isUnambiguous = true → cases.isLenient = true →
      ∀ name : Name, slot ∈ cases.slots name entries → slot.IsSound
  | .none, _, _, _, member => nomatch member
  | .case label fields rest, clear, lenient, name, member => by
    simp only [Cases.isUnambiguous, Cases.isLenient, Bool.and_eq_true] at clear lenient
    rw [Cases.slots] at member
    split at member
    · exact fields.isSound_of_mem_slots clear.1.2 lenient.1 member
    · exact rest.isSound_of_mem_slots clear.2 lenient.2 name.pred member

end

mutual

theorem Fields.isSound_of_next? {α ρ : Type} {s : Schema α} : ∀ (fields : Fields ρ)
    (before : List Node), fields.isUnambiguous = true → fields.isLenient = true →
      fields.next? before = some ⟨α, s⟩ → s.isUnambiguous = true ∧ s.isLenient = true
  | .done, _, _, _, next => nomatch next
  | .field _ _ _ _, [], clear, lenient, next => by
    simp only [Fields.isUnambiguous, Fields.isLenient, Bool.and_eq_true] at clear lenient
    cases next
    exact ⟨clear.1.2, lenient.1.2⟩
  | .field _ _ _ rest, _ :: before, clear, lenient, next => by
    simp only [Fields.isUnambiguous, Fields.isLenient, Bool.and_eq_true] at clear lenient
    exact rest.isSound_of_next? before clear.2 lenient.2 next
  | .choice _ _ _ _, [], _, _, next => nomatch next
  | .choice _ _ cases _, n :: before, clear, lenient, next => by
    simp only [Fields.isLenient, Bool.and_eq_true] at lenient
    obtain ⟨label, _, next⟩ := Option.bind_eq_some_iff.mp next
    exact cases.isSound_of_next? label before (Fields.apart_of_choice clear).2.2.2.1 lenient.1 next

theorem Cases.isSound_of_next? {α σ : Type} {s : Schema α} : ∀ (cases : Cases σ)
    (named : String) (before : List Node), cases.isUnambiguous = true → cases.isLenient = true →
      cases.next? named before = some ⟨α, s⟩ → s.isUnambiguous = true ∧ s.isLenient = true
  | .none, _, _, _, _, next => nomatch next
  | .case label fields rest, named, before, clear, lenient, next => by
    simp only [Cases.isUnambiguous, Cases.isLenient, Bool.and_eq_true] at clear lenient
    rw [Cases.next?] at next
    split at next
    · exact fields.isSound_of_next? before clear.1.2 lenient.1 next
    · exact rest.isSound_of_next? named before clear.2 lenient.2 next

end

section Entries

variable {before after entries entries' : List (String × Node)} {key : String} {n n' : Node}
  {d : Dialect} {slot : Slot}

theorem under_insert_self :
    under key (before ++ (key, n) :: after) = under key before ++ n :: under key after := by
  simp [under]

theorem under_insert_of_ne {other : String} (different : other ≠ key) :
    under other (before ++ (key, n) :: after) = under other (before ++ after) := by
  simp [under, different.symm]

theorem under_eq_nil_of_not_mem (fresh : key ∉ entries.map (·.1)) : under key entries = [] :=
  under_eq_nil (fun _ member => List.mem_map_of_mem member) fresh

/-- Nothing is read where one key has two trees. -/
theorem Slot.fails_of_two {nodes more : List Node}
    (both : under slot.key entries = nodes ++ n :: more) (some : nodes ++ more ≠ []) :
    slot.Fails d entries := by
  have shape : ∃ first second rest, under slot.key entries = first :: second :: rest := by
    rcases nodes with _ | ⟨first, _ | ⟨second, rest⟩⟩
    · rcases more with _ | ⟨second, rest⟩
      · exact absurd rfl some
      · exact ⟨n, second, rest, both⟩
    · exact ⟨first, n, more, both⟩
    · exact ⟨first, second, rest ++ n :: more, both⟩
  obtain ⟨first, second, rest, shape⟩ := shape
  cases slot with
  | tag key isEmbedded => exact congrArg (caseName? isEmbedded) shape
  | field key presence s => exact congrArg (fieldValue? d presence s) shape

section Record

variable {ρ : Type} {fields : Fields ρ}

/-- A record that says the same in the one place that was changed is read as before. -/
theorem Fields.read_congr_at (clear : fields.isUnambiguous = true)
    (member : slot ∈ fields.slots entries)
    (elsewhere : ∀ key ≠ slot.key, under key entries = under key entries')
    (here : slot.Agrees d entries entries') :
    fields.read d 0 (named entries) = fields.read d 0 (named entries') := by
  apply fields.read_congr
  intro other inside
  by_cases same : other.key = slot.key
  · rwa [Fields.eq_of_key_eq clear inside member same]
  · exact Slot.agrees_of_under_eq (elsewhere other.key same)

/-- A field of a record that can be read occurs once. -/
theorem Fields.under_eq_nil_of_read
    (member : slot ∈ fields.slots (before ++ (slot.key, n) :: after))
    (readable : fields.read d 0 (named (before ++ (slot.key, n) :: after)) ≠ none) :
    under slot.key (before ++ after) = [] := by
  by_contra more
  rw [under_append] at more
  exact readable (fields.read_eq_none 0 member (Slot.fails_of_two under_insert_self more))

theorem Fields.Idle.exists_default {key : String}
    (idle : fields.Idle d entries key n) (clear : fields.isUnambiguous = true)
    (lenient : fields.isLenient = true) :
    (∀ slot ∈ fields.slots entries, slot.key ≠ key) ∨
      ∃ (α : Type) (presence : Presence α) (s : Schema α),
        .field key presence s ∈ fields.slots entries ∧ s.read d n = presence.absent? := by
  cases idle with
  | unknown unknown => exact .inl unknown
  | default member absent read => exact .inr ⟨_, _, _, member, read.trans absent.symm⟩
  | @null α _ presence s member =>
    refine .inr ⟨_, _, _, member, ?_⟩
    have sound := (fields.isSound_of_mem_slots clear lenient member).2.2
    simp only [Schema.equatesNull] at sound
    split at sound
    · next absent => exact absent.symm
    · contradiction

/-- A field that is spelled out as what its absence means does not count. -/
theorem Fields.read_insert_default {α : Type} {key : String} {presence : Presence α}
    {s : Schema α} (clear : fields.isUnambiguous = true)
    (member : .field key presence s ∈ fields.slots (before ++ after))
    (absent : under key (before ++ after) = []) (same : s.read d n = presence.absent?) :
    fields.read d 0 (named (before ++ after)) =
      fields.read d 0 (named (before ++ (key, n) :: after)) := by
  refine Fields.read_congr_at clear member
    (fun other different => (under_insert_of_ne different).symm) ?_
  have alone : under key (before ++ (key, n) :: after) = [n] := by
    rw [under_append, List.append_eq_nil_iff] at absent
    rw [under_insert_self, absent.1, absent.2, List.nil_append]
  simp only [Slot.Agrees, absent, alone, fieldValue?, same]

/-- Idle entries do not count. -/
theorem Fields.Restated.read_eq (restated : fields.Restated d entries entries')
    (clear : fields.isUnambiguous = true) (lenient : fields.isLenient = true)
    (readable : fields.read d 0 (named entries) ≠ none) :
    fields.read d 0 (named entries) = fields.read d 0 (named entries') := by
  cases restated with
  | added idle fresh =>
    rcases idle.exists_default clear lenient with unknown | ⟨α, presence, s, member, same⟩
    · apply fields.read_congr
      intro slot member
      exact Slot.agrees_of_under_eq (under_insert_of_ne (unknown slot member)).symm
    · exact Fields.read_insert_default clear member (under_eq_nil_of_not_mem fresh) same
  | removed idle =>
    rcases idle.exists_default clear lenient with unknown | ⟨α, presence, s, member, same⟩
    · apply fields.read_congr
      intro slot member
      exact Slot.agrees_of_under_eq (under_insert_of_ne (unknown slot member))
    · have absent := Fields.under_eq_nil_of_read member readable
      have remains := fields.mem_slots_of_under clear member fun other different =>
        under_insert_of_ne different
      exact (Fields.read_insert_default clear remains absent same).symm

/-- A record that lacks a field without a default cannot be read. -/
theorem Fields.Stripped.read_eq_none (stripped : fields.Stripped d entries entries')
    (clear : fields.isUnambiguous = true) (readable : fields.read d 0 (named entries) ≠ none) :
    fields.read d 0 (named entries') = none := by
  obtain @⟨before, after, slot, n, member, required⟩ := stripped
  have absent := Fields.under_eq_nil_of_read member readable
  have remains : slot ∈ fields.slots (before ++ after) :=
    fields.mem_slots_of_under clear member fun other different => under_insert_of_ne different
  refine fields.read_eq_none 0 remains ?_
  cases slot with
  | tag key isEmbedded => exact congrArg (caseName? isEmbedded) absent
  | field key presence s => exact (congrArg (fieldValue? d presence s) absent).trans required

end Record

end Entries

end Estate.Document
