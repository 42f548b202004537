import Estate.Catalogue
import Estate.Proofs.Document.Typed

/-! Reading what was written. A schema is unambiguous if no two fields of an object share a key, no
two cases a label, and null stands for nothing else where a value may be missing. Whatever such a
schema writes it reads as the same value, in every notation; the schemas of the catalogue are all
unambiguous. -/
namespace Estate

namespace Document

mutual

/-- The keys that fields may be written under, those of all cases included. -/
def Fields.keys {ρ : Type} : Fields ρ → List String
  | .done => []
  | .field key _ _ rest => key :: rest.keys
  | .choice tag _ cases rest => tag :: (cases.keys ++ rest.keys)
termination_by structural s => s

/-- The keys that the fields of cases may be written under. -/
def Cases.keys {σ : Type} : Cases σ → List String
  | .none => []
  | .case _ fields rest => fields.keys ++ rest.keys
termination_by structural s => s

end

/-- The labels of cases. -/
def Cases.labels {σ : Type} : Cases σ → List String
  | .none => []
  | .case label _ rest => label :: rest.labels

/-- Whether some value is written as null. -/
def Schema.isNullable {α : Type} : Schema α → Bool
  | .any | .optional _ => true
  | .via s _ _ _ => s.isNullable
  | .settled s => s.isNullable
  | _ => false

mutual

/-- Whether no two values can be written alike. -/
def Schema.isUnambiguous {α : Type} : Schema α → Bool
  | .text | .flag | .count | .any | .word _ | .set => true
  | .optional s => !s.isNullable && s.isUnambiguous
  | .list s => s.isUnambiguous
  | .map s => s.isUnambiguous
  | .object fields => fields.isUnambiguous
  | .via s _ _ _ => s.isUnambiguous
  | .settled s => s.isUnambiguous
termination_by structural s => s

/-- Whether every key is that of one field, cases apart. -/
def Fields.isUnambiguous {ρ : Type} : Fields ρ → Bool
  | .done => true
  | .field key _ s rest => decide (key ∉ rest.keys) && s.isUnambiguous && rest.isUnambiguous
  | .choice tag _ cases rest =>
    decide (tag ∉ cases.keys ++ rest.keys) && decide (∀ key ∈ cases.keys, key ∉ rest.keys) &&
      cases.isUnambiguous && rest.isUnambiguous
termination_by structural s => s

/-- Whether every label is that of one case. -/
def Cases.isUnambiguous {σ : Type} : Cases σ → Bool
  | .none => true
  | .case label fields rest =>
    decide (label ∉ rest.labels) && fields.isUnambiguous && rest.isUnambiguous
termination_by structural s => s

end

section Typed

mutual

/-- What is written is typed. -/
theorem Schema.isTyped_write {α : Type} : ∀ (s : Schema α) (a : α), (s.write a).isTyped = true
  | .text, _ | .flag, _ | .count, _ | .word _, _ | .optional _, none => rfl
  | .any, v => v.isTyped_node
  | .optional s, some a => s.isTyped_write a
  | .list s, items => by
    simp only [Schema.write, Node.isTyped, Node.areTyped_map]
    exact fun a _ => s.isTyped_write a
  | .set, members => by
    simp [Schema.write, Node.texts, Node.isTyped]
  | .map s, m => by
    simp only [Schema.write, Node.isTyped_record, List.forall_mem_map]
    exact fun e _ => s.isTyped_write e.2
  | .object fields, r => by
    simp only [Schema.write, Node.isTyped_record]
    exact fields.isTyped_write r
  | .via s _ parts _, a => s.isTyped_write (parts a)
  | .settled s, a => s.isTyped_write a

theorem Fields.isTyped_write {ρ : Type} : ∀ (fields : Fields ρ) (r : ρ),
    ∀ e ∈ fields.write r, e.2.isTyped = true
  | .done, _ => nofun
  | .field key presence s rest, (a, r) => by
    intro e member
    rcases List.mem_append.mp member with own | later
    · split at own
      · contradiction
      · rw [List.mem_singleton.mp own]
        exact s.isTyped_write a
    · exact rest.isTyped_write r e later
  | .choice tag _ cases rest, (c, r) => by
    intro e member
    rcases List.mem_cons.mp member with rfl | member
    · rfl
    · rcases List.mem_append.mp member with own | later
      · exact cases.isTyped_write c e own
      · exact rest.isTyped_write r e later

theorem Cases.isTyped_write {σ : Type} : ∀ (cases : Cases σ) (c : σ),
    ∀ e ∈ (cases.write c).2, e.2.isTyped = true
  | .none, c => nomatch c
  | .case _ fields _, .inl a => fields.isTyped_write a
  | .case _ _ rest, .inr c => rest.isTyped_write c

end

end Typed

section Keys

mutual

theorem Fields.mem_keys_of_mem_write {ρ : Type} : ∀ (fields : Fields ρ) (r : ρ),
    ∀ e ∈ fields.write r, e.1 ∈ fields.keys
  | .done, _ => nofun
  | .field key presence s rest, (a, r) => by
    intro e member
    rcases List.mem_append.mp member with own | later
    · split at own
      · contradiction
      · rw [List.mem_singleton.mp own]
        exact List.mem_cons_self
    · exact List.mem_cons_of_mem _ (rest.mem_keys_of_mem_write r e later)
  | .choice tag _ cases rest, (c, r) => by
    intro e member
    rcases List.mem_cons.mp member with rfl | member
    · exact List.mem_cons_self
    · refine List.mem_cons_of_mem _ (List.mem_append.mpr ?_)
      rcases List.mem_append.mp member with own | later
      · exact .inl (cases.mem_keys_of_mem_write c e own)
      · exact .inr (rest.mem_keys_of_mem_write r e later)

theorem Cases.mem_keys_of_mem_write {σ : Type} : ∀ (cases : Cases σ) (c : σ),
    ∀ e ∈ (cases.write c).2, e.1 ∈ cases.keys
  | .none, c => nomatch c
  | .case _ fields _, .inl a => fun e member =>
    List.mem_append_left _ (fields.mem_keys_of_mem_write a e member)
  | .case _ _ rest, .inr c => fun e member =>
    List.mem_append_right _ (rest.mem_keys_of_mem_write c e member)

end

theorem Cases.label_mem_labels {σ : Type} : ∀ (cases : Cases σ) (c : σ),
    (cases.write c).1 ∈ cases.labels
  | .none, c => nomatch c
  | .case _ _ _, .inl _ => List.mem_cons_self
  | .case _ _ rest, .inr c => List.mem_cons_of_mem _ (rest.label_mem_labels c)

end Keys

/-- Entries with their keys as names. -/
def named (entries : List (String × Node)) : List (Name × Node) :=
  entries.map fun e => (.word e.1, e.2)

/-- The trees under a key. -/
def under (key : String) (entries : List (String × Node)) : List Node :=
  (entries.filter fun e => e.1 = key).map (·.2)

variable {key tag : String} {entries more : List (String × Node)}

theorem occurrences_named (position : Nat) :
    occurrences [.word key, .position position] (named entries) = under key entries := by
  simp [occurrences, named, under, List.filter_map, Function.comp_def]

theorem occurrences_named_word : occurrences [.word tag] (named entries) = under tag entries := by
  simp [occurrences, named, under, List.filter_map, Function.comp_def]

theorem under_append : under key (entries ++ more) = under key entries ++ under key more := by
  simp [under]

theorem under_eq_nil {keys : List String} (within : ∀ e ∈ entries, e.1 ∈ keys)
    (absent : key ∉ keys) : under key entries = [] := by
  rw [under, List.map_eq_nil_iff, List.filter_eq_nil_iff]
  intro e member
  simpa using fun same : e.1 = key => absent (same ▸ within e member)

theorem mapM_map_of_inverse {α β : Type} (read : β → Option α) (write : α → β)
    (inverse : ∀ a, read (write a) = some a) (items : List α) :
    (items.map write).mapM read = some items := by
  induction items with
  | nil => rfl
  | cons a rest ih => simp [List.mapM_cons, inverse, ih]

theorem namedEntries?_record (entries : List (String × Node)) :
    (Node.record entries).namedEntries? = some (named entries) := by
  rw [Node.namedEntries?, Node.record, Node.entries?, Option.bind_some, List.mapM_map]
  exact List.mapM_pure

theorem Schema.read_record {ρ : Type} (fields : Fields ρ) (d : Dialect) :
    (Schema.object fields).read d (.record entries) = fields.read d 0 (named entries) := by
  have whole : (Schema.object fields).read d (.record entries) =
      (Node.record entries).namedEntries?.bind fun entries => fields.read d 0 entries := rfl
  rw [whole, namedEntries?_record, Option.bind_some]

theorem Schema.isNull_write {α : Type} : ∀ (s : Schema α), s.isNullable = false → ∀ a,
    (s.write a).isNull = false
  | .text, _, _ | .flag, _, _ | .count, _, _ | .word _, _, _ | .list _, _, _ | .set, _, _
  | .map _, _, _ | .object _, _, _ => rfl
  | .via s _ parts _, solid, a => s.isNull_write solid (parts a)
  | .settled s, solid, a => s.isNull_write solid a

/-- Every member is what its word stands for. -/
theorem Vocabulary.member?_word {α : Type} (v : Vocabulary α) (a : α) :
    v.member? (v.word a) = some a := by
  have known : (v.member? (v.word a)).isSome = true :=
    List.find?_isSome.mpr ⟨a, v.complete a, beq_self_eq_true _⟩
  obtain ⟨b, found⟩ := Option.isSome_iff_exists.mp known
  have same : v.word b = v.word a := by simpa using List.find?_some found
  rw [found, v.distinct b a same]

theorem Presence.absent?_of_omits {α : Type} {presence : Presence α} {a : α}
    (omitted : presence.omits a = true) : presence.absent? = some a := by
  cases presence with
  | required | implied _ | defaulted _ => contradiction
  | elided value isDefault isDefault_iff =>
    rw [absent?, (isDefault_iff a).mp omitted]

mutual

/-- An unambiguous schema reads what it has written as the value that was written. -/
theorem Schema.read_write {α : Type} : ∀ (s : Schema α), s.isUnambiguous = true →
    ∀ (d : Dialect) (a : α), s.read d (s.write a) = some a
  | .text, _, _, _ | .flag, _, _, _ => rfl
  | .count, _, d, n => by simp [Schema.read, Schema.write, Node.count, Node.count?]
  | .any, _, _, v => v.ofNode?_node
  | .word v, _, _, a => v.member?_word a
  | .optional _, _, _, none => rfl
  | .optional s, clear, d, some a => by
    simp only [Schema.isUnambiguous, Bool.and_eq_true, Bool.not_eq_true'] at clear
    simp [Schema.read, Schema.write, s.isNull_write clear.1, s.read_write clear.2 d a]
  | .list s, clear, d, items => mapM_map_of_inverse _ _ (s.read_write clear d) items
  | .set, _, d, members => by
    have texts : (members.toList.map Node.text).mapM Node.text? = some members.toList :=
      mapM_map_of_inverse Node.text? Node.text (fun _ => rfl) members.toList
    rw [Schema.read, Schema.write, Node.texts, Node.items?, Option.bind_some, texts,
      Option.map_some, StringSet.ofList_toList]
  | .map s, clear, d, m => by
    have entry (e : String × _) : ((Node.text e.1).text?.bind fun key =>
        (s.read d (s.write e.2)).map (key, ·)) = some e := by
      rw [s.read_write clear d e.2]
      rfl
    have entries := mapM_map_of_inverse
      (fun e : Node × Node => e.1.text?.bind fun key => (s.read d e.2).map (key, ·))
      (fun e => (.text e.1, s.write e.2)) entry m.entries
    rw [Schema.read, Schema.write, Node.record, List.map_map, Node.entries?, Option.bind_some]
    exact (congrArg (Option.map StringMap.ofList) entries).trans
      (congrArg some m.ofList_entries)
  | .object fields, clear, d, r => by
    rw [Schema.write, Schema.read_record]
    exact fields.read_write clear d 0 r _ fun _ _ => rfl
  | .via s make parts make_parts, clear, d, a => by
    rw [Schema.read, Schema.write, s.read_write clear d (parts a), Option.map_some, make_parts]
  | .settled s, clear, d, a => by
    rw [Schema.read, Schema.write, Node.settle_of_isTyped (s.isTyped_write a), Option.bind_some]
    exact s.read_write clear .typed a

/-- Fields are read from any entries that have under each of their keys what was written there. -/
theorem Fields.read_write {ρ : Type} : ∀ (fields : Fields ρ), fields.isUnambiguous = true →
    ∀ (d : Dialect) (position : Nat) (r : ρ) (entries : List (String × Node)),
      (∀ key ∈ fields.keys, under key entries = under key (fields.write r)) →
        fields.read d position (named entries) = some r
  | .done, _, _, _, _, _, _ => rfl
  | .field key presence s rest, clear, d, position, (a, r), entries, agree => by
    simp only [Fields.isUnambiguous, Bool.and_eq_true, decide_eq_true_eq] at clear
    obtain ⟨⟨apart, own⟩, others⟩ := clear
    have fresh : under key (rest.write r) = [] :=
      under_eq_nil (rest.mem_keys_of_mem_write r) apart
    have here := agree key List.mem_cons_self
    have later (other : String) (inside : other ∈ rest.keys) :
        under other entries = under other (rest.write r) := by
      have different : key ≠ other := fun same => apart (same ▸ inside)
      rw [agree other (List.mem_cons_of_mem _ inside), Fields.write, under_append]
      split <;> simp [under, different]
    rw [Fields.read, occurrences_named, here, Fields.write, under_append, fresh,
      rest.read_write others d (position + 1) r entries later]
    by_cases omitted : presence.omits a = true
    · simp [omitted, under, Presence.absent?_of_omits omitted]
    · simp [omitted, under, s.read_write own d a]
  | .choice tag isEmbedded cases rest, clear, d, position, (c, r), entries, agree => by
    simp only [Fields.isUnambiguous, Bool.and_eq_true, decide_eq_true_eq] at clear
    obtain ⟨⟨⟨apart, disjoint⟩, own⟩, others⟩ := clear
    obtain ⟨inCases, inRest⟩ := not_or.mp (mt List.mem_append.mpr apart)
    have parts (key : String) :
        under key (Fields.write (.choice tag isEmbedded cases rest) (c, r)) =
          (if tag = key then [.text (cases.write c).1] else []) ++ under key (cases.write c).2 ++
            under key (rest.write r) := by
      by_cases same : tag = key <;> simp [Fields.write, under, same]
    have here : under tag entries = [.text (cases.write c).1] := by
      rw [agree tag List.mem_cons_self, parts, if_pos rfl,
        under_eq_nil (cases.mem_keys_of_mem_write c) inCases,
        under_eq_nil (rest.mem_keys_of_mem_write r) inRest]
      rfl
    have within (key : String) (inside : key ∈ cases.keys) :
        under key entries = under key (cases.write c).2 := by
      have different : tag ≠ key := fun same => inCases (same ▸ inside)
      rw [agree key (List.mem_cons_of_mem _ (List.mem_append_left _ inside)), parts,
        if_neg different, under_eq_nil (rest.mem_keys_of_mem_write r) (disjoint key inside)]
      simp
    have beyond (key : String) (inside : key ∈ rest.keys) :
        under key entries = under key (rest.write r) := by
      have different : tag ≠ key := fun same => inRest (same ▸ inside)
      have outside : key ∉ cases.keys := fun other => disjoint key other inside
      rw [agree key (List.mem_cons_of_mem _ (List.mem_append_right _ inside)), parts,
        if_neg different, under_eq_nil (cases.mem_keys_of_mem_write c) outside]
      simp
    rw [Fields.read, occurrences_named_word, here,
      rest.read_write others d position r entries beyond]
    cases isEmbedded <;>
      simp [Node.name?, Node.text?, cases.read_write own d c entries within]

theorem Cases.read_write {σ : Type} : ∀ (cases : Cases σ), cases.isUnambiguous = true →
    ∀ (d : Dialect) (c : σ) (entries : List (String × Node)),
      (∀ key ∈ cases.keys, under key entries = under key (cases.write c).2) →
        cases.read d (.word (cases.write c).1) (named entries) = some c
  | .none, _, _, c, _, _ => nomatch c
  | .case label fields rest, clear, d, .inl a, entries, agree => by
    simp only [Cases.isUnambiguous, Bool.and_eq_true, decide_eq_true_eq] at clear
    have own := fields.read_write clear.1.2 d 0 a entries fun key inside =>
      agree key (List.mem_append_left _ inside)
    rw [Cases.read, if_pos (.inl rfl), own, Option.map_some]
  | .case label fields rest, clear, d, .inr c, entries, agree => by
    simp only [Cases.isUnambiguous, Bool.and_eq_true, decide_eq_true_eq] at clear
    have other : (rest.write c).1 ≠ label := fun same =>
      clear.1.1 (same ▸ rest.label_mem_labels c)
    have later := rest.read_write clear.2 d c entries fun key inside =>
      agree key (List.mem_append_right _ inside)
    have elsewhere : ¬ (Name.word (rest.write c).1 = .word label ∨
        Name.word (rest.write c).1 = .position 0) := by simpa using other
    exact (if_neg elsewhere).trans (congrArg (Option.map Sum.inr) later)

end

end Document

namespace DocumentType

theorem isUnambiguous_schema (t : DocumentType) : t.schema.isUnambiguous = true := by
  cases t <;> decide +kernel

/-- Every document is written as a typed tree that is read as the same document. So what is written
of a document that was read is a canonical form of it: it is read as the same, and is itself what
is written of it. -/
theorem documents_roundTrip (t : DocumentType) :
    (∀ a, (t.schema.write a).isTyped = true ∧ t.schema.read .json (t.schema.write a) = some a) ∧
    ∀ n, (t.canonical? n).bind (t.schema.read .json) = t.schema.read .json n ∧
      (t.canonical? n).bind t.canonical? = t.canonical? n := by
  have back (a : t.Carrier) : t.schema.read .json (t.schema.write a) = some a :=
    t.schema.read_write t.isUnambiguous_schema .json a
  refine ⟨fun a => ⟨t.schema.isTyped_write a, back a⟩, fun n => ?_⟩
  cases read : t.schema.read .json n with
  | none => simp [canonical?, read]
  | some a => simp [canonical?, read, back]

end DocumentType
end Estate
