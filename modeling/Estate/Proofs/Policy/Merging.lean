import Mathlib.Data.List.Basic
import Estate.Policy.Merge

/-! Merging of variable overrides, told by look-ups. Every override that the policy takes is the
value of its variable, every other variable keeps its default, and the overrides that are not
taken are those that are reported, each with a reason that fits its value. -/
namespace Estate.Policy
open Document

/-- The type of a value, read off its tree. Null and objects have none. -/
inductive HasType (value : Value) : VariableType → Prop where
  | text {s : String} : value.node = .text s → HasType value .string
  | number {n : Number} : value.node = .number n → HasType value .number
  | flag {b : Bool} : value.node = .flag b → HasType value .boolean
  | list {items : List Node} : value.node = .list items → HasType value .list

variable {value : Value} {type : VariableType}

theorem of?_eq_some_iff : VariableType.of? value = some type ↔ HasType value type := by
  constructor
  · intro found
    unfold VariableType.of? at found
    split at found
    · next node => exact Option.some.inj found ▸ .text node
    · next node => exact Option.some.inj found ▸ .number node
    · next node => exact Option.some.inj found ▸ .flag node
    · next node => exact Option.some.inj found ▸ .list node
    · contradiction
  · rintro (node | node | node | node) <;> simp only [VariableType.of?, node]

/-- The kind of a value is called by the word for a type only if the value has that type. -/
theorem hasType_of_kindWord_eq (same : kindWord value = VariableType.vocabulary.word type) :
    HasType value type := by
  have normal := value.normal
  cases node : value.node with
  | text s =>
    cases type <;> simp [kindWord, node, VariableType.vocabulary] at same; exact .text node
  | number n =>
    cases type <;> simp [kindWord, node, VariableType.vocabulary] at same; exact .number node
  | flag b =>
    cases type <;> simp [kindWord, node, VariableType.vocabulary] at same; exact .flag node
  | list items =>
    cases type <;> simp [kindWord, node, VariableType.vocabulary] at same; exact .list node
  | null | object _ =>
    cases type <;> simp [kindWord, node, VariableType.vocabulary] at same
  | plain s | unreadable => simp [node, Node.isNormal] at normal

theorem comma_not_mem_word (type : VariableType) :
    ',' ∉ (VariableType.vocabulary.word type).toList := by
  cases type <;> decide

theorem comma_not_mem_kindWord (value : Value) : ',' ∉ (kindWord value).toList := by
  unfold kindWord
  split <;> decide

/-- The message about an unexpected type names the expected one and the kind of the value, and
cannot be taken to name anything else. -/
theorem words_of_message_eq {expected got : String}
    (same : (Rejection.unexpected type value).message = s!"expected {expected}, got {got}") :
    VariableType.vocabulary.word type = expected ∧ kindWord value = got := by
  have characters := congrArg String.toList same
  simp only [Rejection.message, toString, String.toList_append, List.append_assoc,
    List.append_cancel_left_eq] at characters
  have comma : ", got ".toList = ',' :: " got ".toList := by decide
  have apart : ',' ∉ " got ".toList ++ (kindWord value).toList := by
    simpa using comma_not_mem_kindWord value
  rw [comma, List.cons_append, List.cons_append,
    List.append_cons_inj_of_notMem (comma_not_mem_word type) apart] at characters
  obtain ⟨first, _, second⟩ := characters
  exact ⟨String.toList_injective first, String.toList_injective (List.append_cancel_left second)⟩

namespace Variable

variable {declared : Variable}

/-- Overrides must have the type: it is the declared one, or without one that of the default. -/
inductive Wants (declared : Variable) (type : VariableType) : Prop where
  | explicit : declared.type = some type → Wants declared type
  | inferred : declared.type = none → HasType declared.defaultValue type → Wants declared type

/-- What the variable takes in place of its default: a value of the type that overrides must have,
or anything but null where there is no such type. -/
inductive Admits (declared : Variable) (value : Value) : Prop where
  | typed {type : VariableType} : declared.Wants type → HasType value type →
      Admits declared value
  | untyped : (∀ type, ¬ declared.Wants type) → value ≠ .null → Admits declared value

theorem expectedType_eq_some_iff : declared.expectedType = some type ↔ declared.Wants type := by
  cases explicit : declared.type with
  | none =>
    have own : declared.expectedType = VariableType.of? declared.defaultValue := by
      rw [expectedType, explicit, Option.orElse_eq_orElse, Option.orElse_eq_or, Option.none_or]
    rw [own, of?_eq_some_iff]
    constructor
    · exact .inferred explicit
    · rintro (typed | ⟨_, typed⟩)
      · rw [explicit] at typed; contradiction
      · exact typed
  | some own =>
    have fixed : declared.expectedType = some own := by
      rw [expectedType, explicit, Option.orElse_eq_orElse, Option.orElse_eq_or, Option.some_or]
    rw [fixed]
    constructor
    · exact fun same => .explicit (explicit.trans same)
    · rintro (typed | ⟨untyped, _⟩)
      · exact explicit.symm.trans typed
      · rw [explicit] at untyped; contradiction

theorem expectedType_eq_none_iff :
    declared.expectedType = none ↔ ∀ type, ¬ declared.Wants type := by
  simp only [Option.eq_none_iff_forall_ne_some, ← expectedType_eq_some_iff, ne_eq]

theorem isNull_iff : value.isNull = true ↔ value = .null := by
  rw [Value.isNull, decide_eq_true_iff]
  constructor
  · intro same
    obtain ⟨node, normal⟩ := value
    cases same
    rfl
  · rintro rfl
    rfl

theorem accepts_iff : declared.accepts value = true ↔ declared.Admits value := by
  unfold accepts
  split
  · next expected found =>
    have wants := expectedType_eq_some_iff.mp found
    rw [beq_iff_eq, of?_eq_some_iff]
    constructor
    · exact .typed wants
    · rintro (⟨other, typed⟩ | ⟨none, _⟩)
      · obtain rfl := Option.some.inj (found.symm.trans (expectedType_eq_some_iff.mpr other))
        exact typed
      · exact absurd wants (none expected)
  · next none =>
    have untyped := expectedType_eq_none_iff.mp none
    rw [Bool.not_eq_true', ← Bool.not_eq_true, isNull_iff]
    constructor
    · exact .untyped untyped
    · rintro (⟨other, _⟩ | ⟨_, proper⟩)
      · exact absurd other (untyped _)
      · exact proper

end Variable

namespace Definition

variable {d : Definition} {overrides : StringMap Value} {name : String} {declared : Variable}

/-- The policy declares the variable and takes the value for it. -/
def Takes (d : Definition) (name : String) (value : Value) : Prop :=
  ∃ declared, d.declared.get? name = some declared ∧ declared.Admits value

/-- Why the policy does not take a value for a variable, and how it says so. -/
inductive Refuses (d : Definition) (name : String) (value : Value) : String → Prop where
  | undeclared : d.declared.get? name = none →
      Refuses d name value s!"policy '{d.id}' declares no variable '{name}'"
  | mistyped {declared : Variable} {type : VariableType} :
      d.declared.get? name = some declared → declared.Wants type → ¬ HasType value type →
      Refuses d name value s!"expected {VariableType.vocabulary.word type}, got {kindWord value}"
  | null {declared : Variable} : d.declared.get? name = some declared →
      (∀ type, ¬ declared.Wants type) → value = .null →
      Refuses d name value "null is not a valid override"

theorem rejection?_eq_none_iff : d.rejection? name value = none ↔ d.Takes name value := by
  unfold rejection? Takes
  cases known : d.declared.get? name with
  | none => simp
  | some declared =>
    simp only [Option.some.injEq, exists_eq_left', ← Variable.accepts_iff]
    cases accepted : declared.accepts value with
    | true => simp
    | false => cases declared.expectedType <;> simp

theorem refuses_of_rejection? {rejection : Rejection}
    (refused : d.rejection? name value = some rejection) :
    d.Refuses name value rejection.message := by
  unfold rejection? at refused
  split at refused
  · next unknown => exact Option.some.inj refused ▸ .undeclared unknown
  · next declared known =>
    split at refused
    · contradiction
    · next unfit =>
      rw [Variable.accepts_iff] at unfit
      split at refused
      · next type found =>
        have wants := Variable.expectedType_eq_some_iff.mp found
        exact Option.some.inj refused ▸
          .mistyped known wants fun typed => unfit (.typed wants typed)
      · next none =>
        have untyped := Variable.expectedType_eq_none_iff.mp none
        refine Option.some.inj refused ▸ .null known untyped ?_
        by_contra proper
        exact unfit (.untyped untyped proper)

theorem ne_of_head?_ne {a b : String} (apart : a.toList.head? ≠ b.toList.head?) : a ≠ b :=
  fun same => apart (congrArg (·.toList.head?) same)

/-- The two wordings of a type that does not fit are two different words. -/
theorem Refuses.words_ne {reason expected got : String} (refuses : d.Refuses name value reason)
    (same : reason = s!"expected {expected}, got {got}") : expected ≠ got := by
  cases refuses with
  | undeclared _ => exact absurd same (ne_of_head?_ne (by simp [toString, String.toList_append]))
  | @mistyped _ type _ _ unfit =>
    have worded : (Rejection.unexpected type value).message = _ := same
    obtain ⟨rfl, rfl⟩ := words_of_message_eq worded
    exact fun equal => unfit (hasType_of_kindWord_eq equal.symm)
  | null _ _ _ => exact absurd same (ne_of_head?_ne (by simp [toString, String.toList_append]))

/-- Only null is refused as null. -/
theorem Refuses.eq_null {reason : String} (refuses : d.Refuses name value reason)
    (same : reason = "null is not a valid override") : value = .null := by
  cases refuses with
  | undeclared _ => exact absurd same (ne_of_head?_ne (by simp [toString, String.toList_append]))
  | mistyped _ _ _ =>
    exact absurd same (ne_of_head?_ne (by simp [toString, String.toList_append]))
  | null _ _ none => exact none

theorem mergedVariables_eq_foldl (d : Definition) (overrides : StringMap Value) :
    d.mergedVariables overrides =
      (overrides.entries.filter fun e => (d.rejection? e.1 e.2).isNone).foldl
        (fun merged e => merged.insert e.1 e.2) d.defaultVariables :=
  List.foldl_filter.symm

/-- An override that is not refused is the value of its variable, and otherwise the default is. -/
theorem get?_mergedVariables (d : Definition) (overrides : StringMap Value) (name : String) :
    (d.mergedVariables overrides).get? name =
      ((overrides.get? name).filter fun value => (d.rejection? name value).isNone).or
        (d.defaultVariables.get? name) := by
  have sorted : (overrides.entries.filter fun e => (d.rejection? e.1 e.2).isNone).Pairwise
      (fun a b => a.1 < b.1) := overrides.sorted.filter _
  rw [mergedVariables_eq_foldl, StringMap.get?_foldl_insert sorted]
  congr 1
  ext value
  rw [StringMap.lookup_eq_some_iff sorted, List.mem_filter, Option.filter_eq_some_iff,
    StringMap.get?_eq_some_iff]

theorem mem_ignoredOverrides {rejection : Rejection} (given : overrides.get? name = some value)
    (refused : d.rejection? name value = some rejection) :
    ⟨name, rejection.message⟩ ∈ d.ignoredOverrides overrides := by
  apply List.mem_filterMap.mpr
  refine ⟨(name, value), StringMap.get?_eq_some_iff.mp given, ?_⟩
  rw [refused, Option.map_some]

/-- No override is lost: it is in effect, or it is reported. -/
theorem override_cases (given : overrides.get? name = some value) :
    (d.mergedVariables overrides).get? name = some value ∨
      ∃ ignored ∈ d.ignoredOverrides overrides, ignored.variableName = name := by
  cases refused : d.rejection? name value with
  | none =>
    left
    rw [get?_mergedVariables, given, Option.filter_some, refused]
    rfl
  | some rejection => exact .inr ⟨_, mem_ignoredOverrides given refused, rfl⟩

/-- The overrides that are reported are those that the policy refuses, with their reasons. -/
theorem mem_ignoredOverrides_iff {o : IgnoredOverride} :
    o ∈ d.ignoredOverrides overrides ↔ ∃ value rejection,
      overrides.get? o.variableName = some value ∧
      d.rejection? o.variableName value = some rejection ∧ rejection.message = o.reason := by
  constructor
  · intro reported
    obtain ⟨⟨name, value⟩, given, found⟩ := List.mem_filterMap.mp reported
    obtain ⟨rejection, refused, rfl⟩ := Option.map_eq_some_iff.mp found
    exact ⟨value, rejection, StringMap.get?_eq_some_iff.mpr given, refused, rfl⟩
  · rintro ⟨value, rejection, given, refused, worded⟩
    have reported := mem_ignoredOverrides given refused
    rwa [worded] at reported

theorem pairwise_ignoredOverrides (d : Definition) (overrides : StringMap Value) :
    ((d.ignoredOverrides overrides).map (·.variableName)).Pairwise (· < ·) := by
  refine List.pairwise_map.mpr (overrides.sorted.filterMap _ ?_)
  intro e e' before o found o' found'
  obtain ⟨_, _, rfl⟩ := Option.map_eq_some_iff.mp found
  obtain ⟨_, _, rfl⟩ := Option.map_eq_some_iff.mp found'
  exact before

/-- What merging gives: every declared variable and no other has a value, which is the override
where the policy takes it and the default elsewhere, and all other overrides are reported once
each, in order, with a reason. -/
structure Merges (d : Definition) (overrides merged : StringMap Value)
    (ignored : List IgnoredOverride) : Prop where
  keys : merged.keys = d.declared.keys
  overridden : ∀ name value, overrides.get? name = some value → d.Takes name value →
    merged.get? name = some value
  defaulted : ∀ name declared, d.declared.get? name = some declared →
    (∀ value, overrides.get? name = some value → ¬ d.Takes name value) →
    merged.get? name = some declared.defaultValue
  reported : ∀ name, name ∈ ignored.map (·.variableName) ↔
    ∃ value, overrides.get? name = some value ∧ ¬ d.Takes name value
  inOrder : (ignored.map (·.variableName)).Pairwise (· < ·)
  reasons : ∀ o ∈ ignored, ∃ value, overrides.get? o.variableName = some value ∧
    d.Refuses o.variableName value o.reason

theorem get?_mergedVariables_of_takes (given : overrides.get? name = some value)
    (takes : d.Takes name value) : (d.mergedVariables overrides).get? name = some value := by
  rw [get?_mergedVariables, given, Option.filter_some, rejection?_eq_none_iff.mpr takes]
  rfl

theorem get?_mergedVariables_of_not_takes
    (refused : ∀ value, overrides.get? name = some value → ¬ d.Takes name value) :
    (d.mergedVariables overrides).get? name = d.defaultVariables.get? name := by
  have none : ((overrides.get? name).filter fun value => (d.rejection? name value).isNone) =
      none := by
    rw [Option.filter_eq_none_iff]
    intro value given accepted
    exact refused value given (rejection?_eq_none_iff.mp (Option.isNone_iff_eq_none.mp accepted))
  rw [get?_mergedVariables, none, Option.none_or]

theorem contains_mergedVariables (d : Definition) (overrides : StringMap Value) (name : String) :
    (d.mergedVariables overrides).contains name = d.declared.contains name := by
  by_cases taken : ∃ value, overrides.get? name = some value ∧ d.Takes name value
  · obtain ⟨value, given, declared, known, admits⟩ := taken
    have takes : d.Takes name value := ⟨declared, known, admits⟩
    rw [StringMap.contains, StringMap.contains, get?_mergedVariables_of_takes given takes, known]
    rfl
  · rw [StringMap.contains, StringMap.contains, get?_mergedVariables_of_not_takes (by grind),
      defaultVariables, StringMap.get?_map, Option.isSome_map]

theorem merges_mergedVariables (d : Definition) (overrides : StringMap Value) :
    d.Merges overrides (d.mergedVariables overrides) (d.ignoredOverrides overrides) where
  keys := StringMap.keys_eq_of_contains (contains_mergedVariables d overrides)
  overridden _ _ := get?_mergedVariables_of_takes
  defaulted name declared known refused := by
    rw [get?_mergedVariables_of_not_takes refused, defaultVariables, StringMap.get?_map, known]
    rfl
  reported name := by
    rw [List.mem_map]
    constructor
    · rintro ⟨o, reported, rfl⟩
      obtain ⟨value, rejection, given, refused, _⟩ := mem_ignoredOverrides_iff.mp reported
      refine ⟨value, given, fun takes => ?_⟩
      rw [rejection?_eq_none_iff.mpr takes] at refused
      contradiction
    · rintro ⟨value, given, refused⟩
      obtain ⟨rejection, found⟩ :=
        Option.ne_none_iff_exists'.mp (mt rejection?_eq_none_iff.mp refused)
      exact ⟨_, mem_ignoredOverrides given found, rfl⟩
  inOrder := pairwise_ignoredOverrides d overrides
  reasons o reported := by
    obtain ⟨value, rejection, given, refused, worded⟩ := mem_ignoredOverrides_iff.mp reported
    exact ⟨value, given, worded ▸ refuses_of_rejection? refused⟩

/-- Values that were merged are merged again as they are: those taken before are taken again, and
a default stays where it is, taken or not. -/
theorem mergedVariables_mergedVariables (d : Definition) (overrides : StringMap Value) :
    d.mergedVariables (d.mergedVariables overrides) = d.mergedVariables overrides := by
  apply StringMap.eq_of_get?
  intro name
  by_cases taken : ∃ value, (d.mergedVariables overrides).get? name = some value ∧
      d.Takes name value
  · obtain ⟨value, given, takes⟩ := taken
    rw [get?_mergedVariables_of_takes given takes, given]
  · have refused : ∀ value, overrides.get? name = some value → ¬ d.Takes name value := by
      intro value given takes
      exact taken ⟨value, get?_mergedVariables_of_takes given takes, takes⟩
    rw [get?_mergedVariables_of_not_takes (by grind), get?_mergedVariables_of_not_takes refused]

/-- Merging gives every declared variable a value, faithful to the overrides that are taken, and
reports all others: a type that was expected is never the one that was got, and null is the only
value refused as such. Merging again changes nothing. -/
theorem merging_faithful (d : Definition) (overrides : StringMap Value) :
    d.Merges overrides (d.mergedVariables overrides) (d.ignoredOverrides overrides) ∧
      (∀ o ∈ d.ignoredOverrides overrides, ∀ expected got : String,
        o.reason = s!"expected {expected}, got {got}" → expected ≠ got) ∧
      (∀ o ∈ d.ignoredOverrides overrides, o.reason = "null is not a valid override" →
        overrides.get? o.variableName = some .null) ∧
      d.mergedVariables (d.mergedVariables overrides) = d.mergedVariables overrides := by
  have merges := merges_mergedVariables d overrides
  refine ⟨merges, ?words, ?null, mergedVariables_mergedVariables d overrides⟩
  case words =>
    intro o reported expected got same
    obtain ⟨_, _, refuses⟩ := merges.reasons o reported
    exact refuses.words_ne same
  case null =>
    intro o reported same
    obtain ⟨value, given, refuses⟩ := merges.reasons o reported
    exact refuses.eq_null same ▸ given

end Definition
end Estate.Policy
