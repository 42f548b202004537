import Mathlib.Data.List.Nodup
import Estate.Proofs.Document.RoundTrip

/-! The fields that a record has. Which ones they are depends on the record where a tag names a
case: then the fields of that case stand beside the tag. A record is read from what is under the
keys of its fields and from nothing else, and it cannot be read if one of its fields cannot. -/
namespace Estate.Document

/-- What a record says under one key: which case it is, or the value of a field. -/
inductive Slot : Type 1 where
  | tag (key : String) (isEmbedded : Bool)
  | field {α : Type} (key : String) (presence : Presence α) (schema : Schema α)

def Slot.key : Slot → String
  | .tag key _ | .field key _ _ => key

/-- The case that the trees under a tag name. -/
def caseName? (isEmbedded : Bool) : List Node → Option Name
  | [n] => if isEmbedded then n.name? else n.text?.map .word
  | _ => none

/-- The value of a field, from the trees under its key. -/
def fieldValue? {α : Type} (d : Dialect) (presence : Presence α) (s : Schema α) :
    List Node → Option α
  | [] => presence.absent?
  | [n] => s.read d n
  | _ => none

mutual

/-- The fields of a record with these entries, those of the case that it names included. -/
def Fields.slots {ρ : Type} : Fields ρ → List (String × Node) → List Slot
  | .done, _ => []
  | .field key presence s rest, entries => .field key presence s :: rest.slots entries
  | .choice tag isEmbedded cases rest, entries =>
    .tag tag isEmbedded ::
      ((caseName? isEmbedded (under tag entries)).toList.flatMap fun name =>
        cases.slots name entries) ++ rest.slots entries
termination_by structural s => s

def Cases.slots {σ : Type} : Cases σ → Name → List (String × Node) → List Slot
  | .none, _, _ => []
  | .case label fields rest, name, entries =>
    if name = .word label ∨ name = .position 0 then fields.slots entries
    else rest.slots name.pred entries
termination_by structural s => s

end

mutual

/-- What the item is that comes after some others in a record noted as a list. -/
def Fields.next? {ρ : Type} : Fields ρ → List Node → Option ((α : Type) × Schema α)
  | .done, _ => none
  | .field _ _ s _, [] => some ⟨_, s⟩
  | .field _ _ _ rest, _ :: before => rest.next? before
  | .choice _ _ _ _, [] => none
  | .choice _ _ cases _, n :: before => n.text?.bind fun label => cases.next? label before
termination_by structural s => s

def Cases.next? {σ : Type} : Cases σ → String → List Node → Option ((α : Type) × Schema α)
  | .none, _, _ => none
  | .case label fields rest, named, before =>
    if named = label then fields.next? before else rest.next? named before
termination_by structural s => s

end

variable {entries entries' : List (String × Node)} {d : Dialect} {slot : Slot}

namespace Slot

/-- Two records say the same in one place. -/
def Agrees (d : Dialect) (entries entries' : List (String × Node)) : Slot → Prop
  | .tag key isEmbedded =>
    caseName? isEmbedded (under key entries) = caseName? isEmbedded (under key entries')
  | .field key presence s =>
    fieldValue? d presence s (under key entries) = fieldValue? d presence s (under key entries')

/-- A record says nothing that can be read in one place. -/
def Fails (d : Dialect) (entries : List (String × Node)) : Slot → Prop
  | .tag key isEmbedded => caseName? isEmbedded (under key entries) = none
  | .field key presence s => fieldValue? d presence s (under key entries) = none

theorem agrees_of_under_eq (same : under slot.key entries = under slot.key entries') :
    slot.Agrees d entries entries' := by
  cases slot with
  | tag key isEmbedded => exact congrArg (caseName? isEmbedded) same
  | field key presence s => exact congrArg (fieldValue? d presence s) same

end Slot

section Record

variable {α ρ σ : Type} {key tag : String} {presence : Presence α} {s : Schema α}
  {isEmbedded : Bool} {cases : Cases σ} {rest : Fields ρ} {position : Nat}

theorem Fields.read_field :
    (Fields.field key presence s rest).read d position (named entries) =
      (fieldValue? d presence s (under key entries)).bind fun a =>
        (rest.read d (position + 1) (named entries)).map (a, ·) := by
  rw [Fields.read, occurrences_named]
  rfl

theorem Fields.read_choice :
    (Fields.choice tag isEmbedded cases rest).read d position (named entries) =
      ((caseName? isEmbedded (under tag entries)).bind fun name =>
        cases.read d name (named entries)).bind fun c =>
          (rest.read d position (named entries)).map (c, ·) := by
  rw [Fields.read, occurrences_named_word]
  rcases under tag entries with _ | ⟨n, _ | ⟨m, more⟩⟩ <;> rfl

theorem Fields.mem_slots_choice :
    slot ∈ (Fields.choice tag isEmbedded cases rest).slots entries ↔
      slot = .tag tag isEmbedded ∨
        (∃ name, caseName? isEmbedded (under tag entries) = some name ∧
          slot ∈ cases.slots name entries) ∨
        slot ∈ rest.slots entries := by
  simp [Fields.slots]

end Record

mutual

/-- Records that say the same in every place of one of them are read alike. -/
theorem Fields.read_congr {ρ : Type} : ∀ (fields : Fields ρ) (position : Nat),
    (∀ slot ∈ fields.slots entries, slot.Agrees d entries entries') →
      fields.read d position (named entries) = fields.read d position (named entries')
  | .done, _, _ => rfl
  | .field key presence s rest, position, agree => by
    have here := agree _ List.mem_cons_self
    have later := rest.read_congr (position + 1) fun slot member =>
      agree slot (List.mem_cons_of_mem _ member)
    rw [Fields.read_field, Fields.read_field, here, later]
  | .choice tag isEmbedded cases rest, position, agree => by
    -- the tags agree first, so that both records have the fields of the same case
    have here := agree _ (Fields.mem_slots_choice.mpr (.inl rfl))
    have later := rest.read_congr position fun slot member =>
      agree slot (Fields.mem_slots_choice.mpr (.inr (.inr member)))
    rw [Fields.read_choice, Fields.read_choice, ← here, later]
    cases named : caseName? isEmbedded (under tag entries) with
    | none => rfl
    | some name =>
      have own := cases.read_congr name fun slot member =>
        agree slot (Fields.mem_slots_choice.mpr (.inr (.inl ⟨name, named, member⟩)))
      rw [Option.bind_some, Option.bind_some, own]

theorem Cases.read_congr {σ : Type} : ∀ (cases : Cases σ) (name : Name),
    (∀ slot ∈ cases.slots name entries, slot.Agrees d entries entries') →
      cases.read d name (named entries) = cases.read d name (named entries')
  | .none, _, _ => rfl
  | .case label fields rest, name, agree => by
    rw [Cases.slots] at agree
    rw [Cases.read, Cases.read]
    split at agree
    · next chosen => rw [if_pos chosen, if_pos chosen, fields.read_congr 0 agree]
    · next passed => rw [if_neg passed, if_neg passed, rest.read_congr name.pred agree]

end

mutual

/-- A record with a field that cannot be read cannot be read. -/
theorem Fields.read_eq_none {ρ : Type} : ∀ (fields : Fields ρ) (position : Nat),
    slot ∈ fields.slots entries → slot.Fails d entries →
      fields.read d position (named entries) = none
  | .done, _, member, _ => nomatch member
  | .field key presence s rest, position, member, fails => by
    rw [Fields.read_field]
    rcases List.mem_cons.mp member with rfl | later
    · have here : fieldValue? d presence s (under key entries) = none := fails
      rw [here, Option.bind_none]
    · simp [rest.read_eq_none (position + 1) later fails]
  | .choice tag isEmbedded cases rest, position, member, fails => by
    rw [Fields.read_choice]
    rcases Fields.mem_slots_choice.mp member with rfl | ⟨name, named, own⟩ | later
    · have here : caseName? isEmbedded (under tag entries) = none := fails
      rw [here, Option.bind_none, Option.bind_none]
    · rw [named, Option.bind_some, cases.read_eq_none name own fails, Option.bind_none]
    · simp [rest.read_eq_none position later fails]

theorem Cases.read_eq_none {σ : Type} : ∀ (cases : Cases σ) (name : Name),
    slot ∈ cases.slots name entries → slot.Fails d entries →
      cases.read d name (named entries) = none
  | .none, _, member, _ => nomatch member
  | .case label fields rest, name, member, fails => by
    rw [Cases.slots] at member
    rw [Cases.read]
    split at member
    · next chosen => rw [if_pos chosen, fields.read_eq_none 0 member fails, Option.map_none]
    · next passed => rw [if_neg passed, rest.read_eq_none name.pred member fails, Option.map_none]

end

mutual

theorem Fields.key_mem_keys {ρ : Type} : ∀ (fields : Fields ρ),
    slot ∈ fields.slots entries → slot.key ∈ fields.keys
  | .done, member => nomatch member
  | .field key presence s rest, member => by
    rcases List.mem_cons.mp member with rfl | later
    · exact List.mem_cons_self
    · exact List.mem_cons_of_mem _ (rest.key_mem_keys later)
  | .choice tag isEmbedded cases rest, member => by
    rcases Fields.mem_slots_choice.mp member with rfl | ⟨name, _, own⟩ | later
    · exact List.mem_cons_self
    · exact List.mem_cons_of_mem _ (List.mem_append_left _ (cases.key_mem_keys name own))
    · exact List.mem_cons_of_mem _ (List.mem_append_right _ (rest.key_mem_keys later))

theorem Cases.key_mem_keys {σ : Type} : ∀ (cases : Cases σ) (name : Name),
    slot ∈ cases.slots name entries → slot.key ∈ cases.keys
  | .none, _, member => nomatch member
  | .case label fields rest, name, member => by
    rw [Cases.slots] at member
    split at member
    · exact List.mem_append_left _ (fields.key_mem_keys member)
    · exact List.mem_append_right _ (rest.key_mem_keys name.pred member)

end

/-- Where fields are unambiguous, a tag has a key of its own, and so has each of the fields behind
the cases. -/
theorem Fields.apart_of_choice {ρ σ : Type} {tag : String} {isEmbedded : Bool} {cases : Cases σ}
    {rest : Fields ρ} (clear : (Fields.choice tag isEmbedded cases rest).isUnambiguous = true) :
    tag ∉ cases.keys ∧ tag ∉ rest.keys ∧ (∀ key ∈ cases.keys, key ∉ rest.keys) ∧
      cases.isUnambiguous = true ∧ rest.isUnambiguous = true := by
  simp only [Fields.isUnambiguous, Bool.and_eq_true, decide_eq_true_eq, List.mem_append,
    not_or] at clear
  exact ⟨clear.1.1.1.1, clear.1.1.1.2, clear.1.1.2, clear.1.2, clear.2⟩

mutual

/-- The fields of a record have different keys. -/
theorem Fields.pairwise_key_ne {ρ : Type} : ∀ (fields : Fields ρ), fields.isUnambiguous = true →
    (fields.slots entries).Pairwise fun slot other => slot.key ≠ other.key
  | .done, _ => .nil
  | .field key presence s rest, clear => by
    simp only [Fields.isUnambiguous, Bool.and_eq_true, decide_eq_true_eq] at clear
    refine List.pairwise_cons.mpr ⟨fun other member same => ?_, rest.pairwise_key_ne clear.2⟩
    apply clear.1.1
    rw [show key = other.key from same]
    exact rest.key_mem_keys member
  | .choice tag isEmbedded cases rest, clear => by
    obtain ⟨inCases, inRest, disjoint, own, others⟩ := Fields.apart_of_choice clear
    have ofCase {slot : Slot} (member : slot ∈ (caseName? isEmbedded
        (under tag entries)).toList.flatMap fun name => cases.slots name entries) :
        slot.key ∈ cases.keys := by
      obtain ⟨name, _, member⟩ := List.mem_flatMap.mp member
      exact cases.key_mem_keys name member
    have distinct : ((caseName? isEmbedded (under tag entries)).toList.flatMap fun name =>
        cases.slots name entries).Pairwise fun slot other => slot.key ≠ other.key := by
      cases caseName? isEmbedded (under tag entries) with
      | none => exact .nil
      | some name => simpa using cases.pairwise_key_ne own name
    refine List.pairwise_cons.mpr ⟨fun other member same => ?_,
      List.pairwise_append.mpr ⟨distinct, rest.pairwise_key_ne others, ?_⟩⟩
    · have elsewhere : tag ∉ cases.keys ++ rest.keys := by simp [inCases, inRest]
      apply elsewhere
      rw [show tag = other.key from same]
      rcases List.mem_append.mp member with first | second
      · exact List.mem_append_left _ (ofCase first)
      · exact List.mem_append_right _ (rest.key_mem_keys second)
    · intro slot first other second same
      exact disjoint _ (ofCase first) (same ▸ rest.key_mem_keys second)

theorem Cases.pairwise_key_ne {σ : Type} : ∀ (cases : Cases σ), cases.isUnambiguous = true →
    ∀ name : Name, (cases.slots name entries).Pairwise fun slot other => slot.key ≠ other.key
  | .none, _, _ => .nil
  | .case label fields rest, clear, name => by
    simp only [Cases.isUnambiguous, Bool.and_eq_true] at clear
    rw [Cases.slots]
    split
    · exact fields.pairwise_key_ne clear.1.2
    · exact rest.pairwise_key_ne clear.2 name.pred

end

theorem Fields.eq_of_key_eq {ρ : Type} {fields : Fields ρ} {slot other : Slot}
    (clear : fields.isUnambiguous = true) (member : slot ∈ fields.slots entries)
    (member' : other ∈ fields.slots entries) (same : slot.key = other.key) : slot = other := by
  have distinct : ((fields.slots entries).map Slot.key).Nodup :=
    List.pairwise_map.mpr (fields.pairwise_key_ne clear)
  exact List.inj_on_of_nodup_map distinct member member' same

mutual

/-- A record has the same field still when only what is under its key has changed. -/
theorem Fields.mem_slots_of_under {ρ : Type} : ∀ (fields : Fields ρ),
    fields.isUnambiguous = true → slot ∈ fields.slots entries →
      (∀ key ≠ slot.key, under key entries = under key entries') → slot ∈ fields.slots entries'
  | .done, _, member, _ => nomatch member
  | .field key presence s rest, clear, member, elsewhere => by
    simp only [Fields.isUnambiguous, Bool.and_eq_true] at clear
    rcases List.mem_cons.mp member with rfl | later
    · exact List.mem_cons_self
    · exact List.mem_cons_of_mem _ (rest.mem_slots_of_under clear.2 later elsewhere)
  | .choice tag isEmbedded cases rest, clear, member, elsewhere => by
    obtain ⟨inCases, _, _, own, others⟩ := Fields.apart_of_choice clear
    refine Fields.mem_slots_choice.mpr ?_
    rcases Fields.mem_slots_choice.mp member with tagged | ⟨name, named, ofCase⟩ | later
    · exact .inl tagged
    · have different : tag ≠ slot.key := fun same =>
        inCases (same ▸ cases.key_mem_keys name ofCase)
      exact .inr (.inl ⟨name, elsewhere tag different ▸ named,
        cases.mem_slots_of_under own name ofCase elsewhere⟩)
    · exact .inr (.inr (rest.mem_slots_of_under others later elsewhere))

theorem Cases.mem_slots_of_under {σ : Type} : ∀ (cases : Cases σ), cases.isUnambiguous = true →
    ∀ name : Name, slot ∈ cases.slots name entries →
      (∀ key ≠ slot.key, under key entries = under key entries') →
        slot ∈ cases.slots name entries'
  | .none, _, _, member, _ => nomatch member
  | .case label fields rest, clear, name, member, elsewhere => by
    simp only [Cases.isUnambiguous, Bool.and_eq_true] at clear
    rw [Cases.slots] at member ⊢
    split at member
    · next chosen =>
      rw [if_pos chosen]
      exact fields.mem_slots_of_under clear.1.2 member elsewhere
    · next passed =>
      rw [if_neg passed]
      exact rest.mem_slots_of_under clear.2 name.pred member elsewhere

end

end Estate.Document
