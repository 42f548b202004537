import Mathlib.Data.List.Forall2
import Estate.Proofs.Policy.Substitution

/-! Instantiation of statements. Without variables it returns the statements at once, which is what
substitution would come to: a text in which no placeholder has a value stays as it is. In any case
nothing but the texts of actions, resources and condition values changes, and these depend on no
variable that they do not mention. -/
namespace Estate.Policy
open Document

/-- The text is one of those that placeholders are replaced in. -/
def Statement.HasText (s : Statement) (text : String) : Prop :=
  text ∈ s.actions ∨ text ∈ s.resources ∨ ∃ key, s.conditions.get? key = some text

def Statement.Mentions (s : Statement) (name : String) : Prop :=
  ∃ text, s.HasText text ∧ Holds text name

/-- The second statement is the first one under values: each of its texts stands where the text is
that it was made of, and all else is the same. -/
structure IsInstance (values : StringMap Value) (s t : Statement) : Prop where
  sid : t.sid = s.sid
  effect : t.effect = s.effect
  actions : t.actions = s.actions.map (substitute values)
  resources : t.resources = s.resources.map (substitute values)
  keys : t.conditions.keys = s.conditions.keys
  conditions : ∀ key, t.conditions.get? key = (s.conditions.get? key).map (substitute values)

variable {values values' : StringMap Value} {text rest : String} {parts : List (String × String)}
  {s : Statement} {statements : List Statement}

theorem Parted.holds (parted : Parted text parts rest) {part : String × String}
    (member : part ∈ parts) : Holds text part.2 := by
  obtain ⟨before, after, rfl⟩ := List.append_of_mem member
  refine ⟨(parted.parts part member).2, woven slot before part.1, woven slot after rest, ?_⟩
  rw [parted.written, woven_append]

theorem woven_congr {put put' : String → String}
    (agree : ∀ part ∈ parts, put part.2 = put' part.2) :
    woven put parts rest = woven put' parts rest := by
  induction parts with
  | nil => rfl
  | cons part parts ih =>
    obtain ⟨own, later⟩ := List.forall_mem_cons.mp agree
    rw [woven, woven, own, ih later]

theorem substitute_congr
    (agree : ∀ name, Holds text name → values.get? name = values'.get? name) :
    substitute values text = substitute values' text := by
  obtain ⟨parts, rest, parted⟩ := exists_parted text
  rw [substitute_woven parted, substitute_woven parted]
  apply woven_congr
  intro part member
  rw [standIn, standIn, agree part.2 (parted.holds member)]

/-- Without values every placeholder stands for itself. -/
theorem substitute_empty (text : String) : substitute .empty text = text := by
  obtain ⟨parts, rest, parted⟩ := exists_parted text
  have itself : standIn .empty = slot := rfl
  rw [substitute_woven parted, itself, ← parted.written]

theorem fill_congr (agree : ∀ name, s.Mentions name → values.get? name = values'.get? name) :
    s.fill values = s.fill values' := by
  have same (text : String) (had : s.HasText text) :
      substitute values text = substitute values' text := by
    apply substitute_congr
    intro name held
    exact agree name ⟨text, had, held⟩
  have actions : s.actions.map (substitute values) = s.actions.map (substitute values') :=
    List.map_congr_left fun text member => same text (.inl member)
  have resources : s.resources.map (substitute values) = s.resources.map (substitute values') :=
    List.map_congr_left fun text member => same text (.inr (.inl member))
  have conditions :
      s.conditions.map (substitute values) = s.conditions.map (substitute values') := by
    apply StringMap.ext
    apply List.map_congr_left
    intro e member
    rw [same e.2 (.inr (.inr ⟨e.1, StringMap.get?_eq_some_iff.mpr member⟩))]
  rw [Statement.fill, Statement.fill, actions, resources, conditions]

theorem fill_empty (s : Statement) : s.fill .empty = s := by
  have kept : substitute .empty = id := funext substitute_empty
  have conditions : s.conditions.map id = s.conditions := StringMap.ext (List.map_id _)
  rw [Statement.fill, kept, List.map_id, List.map_id, conditions]

theorem isInstance_fill (values : StringMap Value) (s : Statement) :
    IsInstance values s (s.fill values) where
  sid := rfl
  effect := rfl
  actions := rfl
  resources := rfl
  keys := StringMap.keys_map _ s.conditions
  conditions := StringMap.get?_map _ s.conditions

/-- To return the statements at once where there are no variables is no exception to the rule. -/
theorem instantiate_eq_map (values : StringMap Value) (statements : List Statement) :
    instantiate values statements = statements.map (Statement.fill values) := by
  unfold instantiate
  split
  · next blank =>
    obtain rfl : values = .empty := StringMap.ext (List.isEmpty_iff.mp blank)
    rw [List.map_congr_left fun s _ => fill_empty s, List.map_id']
  · rfl

/-- Whether or not there are variables, the statements come one by one from those given, and two
sets of values that differ only in variables that no text mentions come to the same. -/
theorem instantiate_statementwise (values : StringMap Value) (statements : List Statement) :
    instantiate values statements = statements.map (Statement.fill values) ∧
    List.Forall₂ (IsInstance values) statements (instantiate values statements) ∧
    ∀ values', (∀ s ∈ statements, ∀ name, s.Mentions name →
        values.get? name = values'.get? name) →
      instantiate values statements = instantiate values' statements := by
  refine ⟨instantiate_eq_map values statements, ?instances, ?frame⟩
  case instances =>
    rw [instantiate_eq_map]
    apply List.forall₂_map_right_iff.mpr
    apply List.forall₂_same.mpr
    intro s _
    exact isInstance_fill values s
  case frame =>
    intro values' agree
    rw [instantiate_eq_map, instantiate_eq_map]
    apply List.map_congr_left
    intro s member
    exact fill_congr (agree s member)

theorem Statement.Mentions.mem_pieces {name : String} (mentioned : s.Mentions name) :
    .placeholder name.toList ∈ (s.actions ++ s.resources ++ s.conditions.entries.map (·.2)).flatMap
      fun text => pieces text.toList := by
  obtain ⟨text, had, named, before, after, whole⟩ := mentioned
  refine List.mem_flatMap.mpr ⟨text, ?_, ?_⟩
  · rw [List.mem_append, List.mem_append]
    rcases had with action | resource | ⟨key, condition⟩
    · exact .inl (.inl action)
    · exact .inl (.inr resource)
    · exact .inr (List.mem_map_of_mem (StringMap.get?_eq_some_iff.mp condition))
  · rw [whole, pieces_append_slot named]
    exact List.mem_append_right _ List.mem_cons_self

/-- A variable that is mentioned without the brace that would close the placeholder is of no
account, and one that has no value stays as it is written. -/
theorem instantiate_statementwise_unmentioned :
    let keep : Statement := ⟨some "Keep", .deny, ["logs:$\x7bverb\x7d"], ["arn:$\x7bregion"],
      .ofList [("age", "$\x7bdays\x7d")]⟩
    let kept : Statement := { keep with conditions := .ofList [("age", "[]")] }
    let fewer : StringMap Value := .ofList [("days", ⟨.list [], rfl⟩)]
    let values := fewer.insert "region" ⟨.text "eu", rfl⟩
    (∀ s ∈ [keep], ∀ name, s.Mentions name → values.get? name = fewer.get? name) ∧
      instantiate values [keep] = instantiate fewer [keep] ∧
      List.Forall₂ (IsInstance values) [keep] (instantiate values [keep]) ∧
      instantiate fewer [keep] = [kept] := by
  intro keep kept fewer values
  have agree : ∀ s ∈ [keep], ∀ name, s.Mentions name → values.get? name = fewer.get? name := by
    intro s member name mentioned
    obtain rfl := List.mem_singleton.mp member
    have other : name ≠ "region" := by
      rintro rfl
      exact absurd mentioned.mem_pieces (by decide +kernel)
    rw [StringMap.get?_insert, if_neg other]
  obtain ⟨_, instances, frame⟩ := instantiate_statementwise values [keep]
  exact ⟨agree, frame fewer agree, instances, by decide +kernel⟩

end Estate.Policy
