import Estate.Document.Schema

/-! Trees that need no interpretation. In a typed tree every scalar has its type, every number is
finite and every key is text, as in all trees that are written. Giving types to such a tree leaves
it as it is, and so does normalizing a tree in normal form. -/
namespace Estate.Document.Node

mutual

/-- Whether every scalar has its type, every number is finite and every key is text. -/
def isTyped : Node → Bool
  | .null | .flag _ | .text _ => true
  | .number n => n.isFinite
  | .plain _ | .unreadable => false
  | .list items => areTyped items
  | .object entries => areTypedEntries entries
termination_by structural n => n

/-- Whether all trees of a list are typed. -/
def areTyped : List Node → Bool
  | [] => true
  | n :: ns => isTyped n && areTyped ns
termination_by structural ns => ns

/-- Whether all keys are text and all trees below them are typed. -/
def areTypedEntries : List (Node × Node) → Bool
  | [] => true
  | (.text _, n) :: rest => isTyped n && areTypedEntries rest
  | _ => false
termination_by structural es => es

end

@[simp] theorem areTyped_map {α : Type} {f : α → Node} {items : List α} :
    areTyped (items.map f) = true ↔ ∀ a ∈ items, (f a).isTyped = true := by
  induction items with
  | nil => simp [areTyped]
  | cons a rest ih => simp [areTyped, ih]

@[simp] theorem isTyped_record {entries : List (String × Node)} :
    (record entries).isTyped = true ↔ ∀ e ∈ entries, e.2.isTyped = true := by
  induction entries with
  | nil => simp [record, isTyped, areTypedEntries]
  | cons e rest ih =>
    simp only [record, isTyped, List.map_cons, areTypedEntries, Bool.and_eq_true,
      List.forall_mem_cons] at ih ⊢
    rw [ih]

mutual

theorem isTyped_of_isNormal : ∀ {n : Node}, n.isNormal = true → n.isTyped = true
  | .null, _ | .flag _, _ | .text _, _ => rfl
  | .number _, normal => normal
  | .plain _, normal | .unreadable, normal => normal
  | .list _, normal => areTyped_of_areNormal normal
  | .object _, normal => by
    simp only [isNormal, Bool.and_eq_true] at normal
    exact areTypedEntries_of_areNormalEntries normal.1

theorem areTyped_of_areNormal : ∀ {ns : List Node}, areNormal ns = true → areTyped ns = true
  | [], _ => rfl
  | n :: ns, normal => by
    simp only [areNormal, areTyped, Bool.and_eq_true] at normal ⊢
    exact ⟨isTyped_of_isNormal normal.1, areTyped_of_areNormal normal.2⟩

theorem areTypedEntries_of_areNormalEntries : ∀ {es : List (Node × Node)},
    areNormalEntries es = true → areTypedEntries es = true
  | [], _ => rfl
  | (.text _, n) :: es, normal => by
    simp only [areNormalEntries, areTypedEntries, Bool.and_eq_true] at normal ⊢
    exact ⟨isTyped_of_isNormal normal.1, areTypedEntries_of_areNormalEntries normal.2⟩

end

mutual

/-- Typed trees stay as they are when plain scalars are typed. -/
theorem settle_of_isTyped : ∀ {n : Node}, n.isTyped = true → n.settle = some n
  | .null, _ | .flag _, _ | .text _, _ | .number _, _ => rfl
  | .list items, typed => by
    rw [settle, settleItems_of_areTyped typed]
    rfl
  | .object entries, typed => by
    rw [settle, settleEntries_of_areTypedEntries typed]
    rfl

theorem settleItems_of_areTyped : ∀ {ns : List Node}, areTyped ns = true →
    settleItems ns = some ns
  | [], _ => rfl
  | n :: ns, typed => by
    simp only [areTyped, Bool.and_eq_true] at typed
    rw [settleItems, settle_of_isTyped typed.1, settleItems_of_areTyped typed.2]
    rfl

theorem settleEntries_of_areTypedEntries : ∀ {es : List (Node × Node)},
    areTypedEntries es = true → settleEntries es = some es
  | [], _ => rfl
  | (.text s, n) :: es, typed => by
    simp only [areTypedEntries, Bool.and_eq_true] at typed
    have key : settle (.text s) = some (.text s) := rfl
    rw [settleEntries, key, settle_of_isTyped typed.1, settleEntries_of_areTypedEntries typed.2]
    rfl

end

/-- Entries with text as keys, as those of a record. -/
theorem exists_entries_of_areNormalEntries : ∀ {es : List (Node × Node)},
    areNormalEntries es = true → ∃ entries : List (String × Node),
      es = entries.map fun e => (.text e.1, e.2)
  | [], _ => ⟨[], rfl⟩
  | (.text s, n) :: es, normal => by
    simp only [areNormalEntries, Bool.and_eq_true] at normal
    obtain ⟨entries, rfl⟩ := exists_entries_of_areNormalEntries normal.2
    exact ⟨(s, n) :: entries, rfl⟩

mutual

/-- Trees in normal form are their own normal forms. -/
theorem normalize_of_isNormal : ∀ {n : Node}, n.isNormal = true → n.normalize = some n
  | .null, _ | .flag _, _ | .text _, _ => rfl
  | .number n, normal => by
    simp only [isNormal] at normal
    simp [normalize, normalNumber, normal]
  | .list items, normal => by
    rw [normalize, normalizeItems_of_areNormal normal]
    rfl
  | .object entries, normal => by
    simp only [isNormal, Bool.and_eq_true, decide_eq_true_eq] at normal
    obtain ⟨es, same⟩ := exists_entries_of_areNormalEntries normal.1
    have sorted : es.Pairwise fun a b => a.1 < b.1 := by
      have := normal.2
      rw [same, List.pairwise_map] at this
      exact this
    have rebuilt : (StringMap.ofList es).entries = es :=
      congrArg StringMap.entries (StringMap.ofList_entries ⟨es, sorted⟩)
    rw [normalize, normalizeEntries_of_areNormalEntries normal.1 same, Option.map_some, rebuilt,
      same]
    rfl

theorem normalizeItems_of_areNormal : ∀ {ns : List Node}, areNormal ns = true →
    normalizeItems ns = some ns
  | [], _ => rfl
  | n :: ns, normal => by
    simp only [areNormal, Bool.and_eq_true] at normal
    rw [normalizeItems, normalize_of_isNormal normal.1, normalizeItems_of_areNormal normal.2]
    rfl

theorem normalizeEntries_of_areNormalEntries : ∀ {ns : List (Node × Node)}
    {es : List (String × Node)}, areNormalEntries ns = true →
    (ns = es.map fun e => (.text e.1, e.2)) → normalizeEntries ns = some es
  | [], [], _, _ => rfl
  | (.text s, n) :: ns, (k, m) :: es, normal, same => by
    simp only [areNormalEntries, Bool.and_eq_true] at normal
    simp only [List.map_cons, List.cons.injEq, Prod.mk.injEq, Node.text.injEq] at same
    obtain ⟨⟨rfl, rfl⟩, same⟩ := same
    rw [normalizeEntries, normalize_of_isNormal normal.1,
      normalizeEntries_of_areNormalEntries normal.2 same]
    rfl

end

end Estate.Document.Node

namespace Estate.Document.Value

theorem isTyped_node (v : Value) : v.node.isTyped = true := Node.isTyped_of_isNormal v.normal

/-- Every value is what its own tree means. -/
theorem ofNode?_node (v : Value) : ofNode? v.node = some v := by
  have same := Node.normalize_of_isNormal v.normal
  unfold ofNode?
  split
  · next m found =>
    cases v
    cases same.symm.trans found
    rfl
  · next none => simp [same] at none

end Estate.Document.Value
