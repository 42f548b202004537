/-! Finite maps from strings, kept sorted by key in code point order. A map is determined by its
look-ups, insertion replaces the value at an equal key, and a map rebuilt from its own entries is
itself. -/
namespace Estate

universe u v

/-- A finite map from strings: its entries in strictly increasing key order, so equal maps are equal
as lists. -/
structure StringMap (α : Type u) where
  entries : List (String × α)
  sorted : entries.Pairwise (fun a b => a.1 < b.1)
deriving DecidableEq

/-- A finite set of strings: the keys of a map to the unit type. -/
abbrev StringSet := StringMap Unit

namespace StringMap

variable {α : Type u} {β : Type v}

/-- Insert an entry into a list ordered by key, replacing the entry of an equal key. -/
def insertEntry (key : String) (value : α) : List (String × α) → List (String × α)
  | [] => [(key, value)]
  | (k, v) :: rest =>
    if key < k then (key, value) :: (k, v) :: rest
    else if key = k then (key, value) :: rest
    else (k, v) :: insertEntry key value rest

theorem mem_insertEntry {key : String} {value : α} {e : String × α} {l : List (String × α)}
    (member : e ∈ insertEntry key value l) : e = (key, value) ∨ e ∈ l := by
  induction l with
  | nil => simpa [insertEntry] using member
  | cons head rest ih =>
    obtain ⟨k, v⟩ := head
    simp only [insertEntry] at member
    split at member
    · simpa using member
    · split at member
      · rcases List.mem_cons.mp member with same | tail
        · exact .inl same
        · exact .inr (List.mem_cons_of_mem _ tail)
      · rcases List.mem_cons.mp member with same | tail
        · exact .inr (same ▸ List.mem_cons_self)
        · exact (ih tail).imp_right (List.mem_cons_of_mem _)

theorem lt_of_not_lt_of_ne {a b : String} (not_less : ¬ a < b) (different : a ≠ b) : b < a := by
  by_cases less : b < a
  · exact less
  · exact absurd (String.le_antisymm (String.not_lt.mp less) (String.not_lt.mp not_less)) different

theorem insertEntry_sorted (key : String) (value : α) {l : List (String × α)}
    (sorted : l.Pairwise (fun a b => a.1 < b.1)) :
    (insertEntry key value l).Pairwise (fun a b => a.1 < b.1) := by
  induction l with
  | nil => simp [insertEntry]
  | cons head rest ih =>
    obtain ⟨k, v⟩ := head
    obtain ⟨below, tail⟩ := List.pairwise_cons.mp sorted
    simp only [insertEntry]
    split
    · next less =>
      refine List.pairwise_cons.mpr ⟨fun e member => ?_, sorted⟩
      rcases List.mem_cons.mp member with same | later
      · exact same ▸ less
      · exact String.lt_trans less (below e later)
    · next not_less =>
      split
      · next same => exact List.pairwise_cons.mpr ⟨fun e member => same ▸ below e member, tail⟩
      · next different =>
        refine List.pairwise_cons.mpr ⟨fun e member => ?_, ih tail⟩
        rcases mem_insertEntry member with same | later
        · exact same ▸ lt_of_not_lt_of_ne not_less different
        · exact below e later

/-- Maps with the same entries are equal. -/
@[ext] theorem ext {m n : StringMap α} (same : m.entries = n.entries) : m = n := by
  cases m; cases n; cases same; rfl

def empty : StringMap α := ⟨[], .nil⟩

instance : EmptyCollection (StringMap α) := ⟨empty⟩
instance : Inhabited (StringMap α) := ⟨empty⟩

/-- The map with `value` at `key`, whatever was there before. -/
def insert (m : StringMap α) (key : String) (value : α) : StringMap α :=
  ⟨insertEntry key value m.entries, insertEntry_sorted key value m.sorted⟩

def get? (m : StringMap α) (key : String) : Option α := m.entries.lookup key

def contains (m : StringMap α) (key : String) : Bool := (m.get? key).isSome

def keys (m : StringMap α) : List String := m.entries.map (·.1)

def size (m : StringMap α) : Nat := m.entries.length

def isEmpty (m : StringMap α) : Bool := m.entries.isEmpty

/-- The map of a list of entries, of which the last one with a key counts. -/
def ofList (l : List (String × α)) : StringMap α := l.foldl (fun m e => m.insert e.1 e.2) empty

def map (f : α → β) (m : StringMap α) : StringMap β :=
  ⟨m.entries.map (fun e => (e.1, f e.2)), List.pairwise_map.mpr m.sorted⟩

@[simp] theorem get?_empty (key : String) : (empty : StringMap α).get? key = none := rfl

theorem lookup_insertEntry (key other : String) (value : α) (l : List (String × α)) :
    (insertEntry key value l).lookup other =
      if other = key then some value else l.lookup other := by
  induction l with
  | nil => grind [insertEntry]
  | cons head rest ih =>
    obtain ⟨k, v⟩ := head
    simp only [insertEntry]
    split
    · grind
    · split <;> grind

/-- A key has a value exactly when it is among the keys. -/
theorem contains_iff_mem_keys {m : StringMap α} {key : String} :
    m.contains key = true ↔ key ∈ m.keys := by
  simp [contains, get?, keys, List.lookup_isSome_iff]

/-- Insertion changes the look-up of its own key only. -/
theorem get?_insert (m : StringMap α) (key other : String) (value : α) :
    (m.insert key value).get? other = if other = key then some value else m.get? other :=
  lookup_insertEntry key other value m.entries

theorem lookup_eq_some_iff {key : String} {value : α} {l : List (String × α)}
    (sorted : l.Pairwise (fun a b => a.1 < b.1)) :
    l.lookup key = some value ↔ (key, value) ∈ l := by
  induction l with
  | nil => simp
  | cons head rest ih =>
    obtain ⟨k, v⟩ := head
    obtain ⟨below, tail⟩ := List.pairwise_cons.mp sorted
    rw [List.lookup_cons, List.mem_cons, ← ih tail]
    by_cases same : key = k
    · subst same
      have absent : rest.lookup key ≠ some value := fun found =>
        String.lt_irrefl key (below _ ((ih tail).mp found))
      simp [absent, eq_comm]
    · simp [same, beq_false_of_ne same]

/-- A map has a value at a key exactly when the two are one of its entries. -/
theorem get?_eq_some_iff {m : StringMap α} {key : String} {value : α} :
    m.get? key = some value ↔ (key, value) ∈ m.entries :=
  lookup_eq_some_iff m.sorted

/-- Lists in the order of a key of their members are equal if they have the same members. -/
theorem eq_of_pairwise_key_lt {γ : Type u} {key : γ → String} {l l' : List γ}
    (sorted : l.Pairwise fun a b => key a < key b) (sorted' : l'.Pairwise fun a b => key a < key b)
    (same : ∀ a, a ∈ l ↔ a ∈ l') : l = l' := by
  have distinct {l : List γ} (sorted : l.Pairwise fun a b => key a < key b) : l.Nodup := by
    refine sorted.imp ?_
    rintro a _ less rfl
    exact String.lt_irrefl _ less
  have perm := (List.perm_ext_iff_of_nodup (distinct sorted) (distinct sorted')).mpr same
  exact perm.eq_of_pairwise (fun a b _ _ less more => absurd more (String.lt_asymm less))
    sorted sorted'

theorem pairwise_keys (m : StringMap α) : m.keys.Pairwise (· < ·) := List.pairwise_map.mpr m.sorted

/-- Maps that have values at the same keys have the same list of keys. -/
theorem keys_eq_of_contains {m : StringMap α} {n : StringMap β}
    (same : ∀ key, m.contains key = n.contains key) : m.keys = n.keys := by
  refine eq_of_pairwise_key_lt m.pairwise_keys n.pairwise_keys fun key => ?_
  rw [← contains_iff_mem_keys, ← contains_iff_mem_keys, same key]

/-- Maps with the same look-ups are equal. -/
theorem eq_of_get? {m n : StringMap α} (same : ∀ key, m.get? key = n.get? key) : m = n := by
  refine ext (eq_of_pairwise_key_lt m.sorted n.sorted fun (key, value) => ?_)
  rw [← get?_eq_some_iff, ← get?_eq_some_iff, same key]

@[simp] theorem keys_map (f : α → β) (m : StringMap α) : (m.map f).keys = m.keys := by
  simp [keys, map]

@[simp] theorem get?_map (f : α → β) (m : StringMap α) (key : String) :
    (m.map f).get? key = (m.get? key).map f := by
  ext value
  simp only [get?_eq_some_iff, Option.map_eq_some_iff, map, List.mem_map, Prod.mk.injEq]
  constructor
  · rintro ⟨⟨_, old⟩, inside, rfl, same⟩
    exact ⟨old, inside, same⟩
  · rintro ⟨old, inside, same⟩
    exact ⟨(key, old), inside, rfl, same⟩

theorem mem_keys_insert {m : StringMap α} {key other : String} {value : α} :
    other ∈ (m.insert key value).keys ↔ other = key ∨ other ∈ m.keys := by
  simp only [← contains_iff_mem_keys, contains, get?_insert]
  by_cases same : other = key <;> simp [same]

theorem mem_keys_foldl_insert {key : String} (l : List (String × α)) (m : StringMap α) :
    key ∈ (l.foldl (fun m e => m.insert e.1 e.2) m).keys ↔ key ∈ m.keys ∨ key ∈ l.map (·.1) := by
  induction l generalizing m with
  | nil => simp
  | cons e rest ih =>
    rw [List.foldl_cons, ih, mem_keys_insert, List.map_cons, List.mem_cons,
      or_comm (a := key = e.1), or_assoc]

/-- After entries in order of their keys were inserted, theirs are the values that count. -/
theorem get?_foldl_insert {l : List (String × α)} (sorted : l.Pairwise (fun a b => a.1 < b.1))
    (m : StringMap α) (key : String) :
    (l.foldl (fun m e => m.insert e.1 e.2) m).get? key = (l.lookup key).or (m.get? key) := by
  induction l generalizing m with
  | nil => rfl
  | cons head rest ih =>
    obtain ⟨k, v⟩ := head
    obtain ⟨below, tail⟩ := List.pairwise_cons.mp sorted
    rw [List.foldl_cons, ih tail, get?_insert, List.lookup_cons]
    by_cases same : key = k
    · subst same
      have absent : rest.lookup key = none := by
        apply Option.eq_none_iff_forall_ne_some.mpr
        intro value found
        exact String.lt_irrefl key (below _ ((lookup_eq_some_iff tail).mp found))
      simp [absent]
    · simp [same, beq_false_of_ne same]

theorem insertEntry_above {key : String} {value : α} {l : List (String × α)}
    (above : ∀ e ∈ l, e.1 < key) : insertEntry key value l = l ++ [(key, value)] := by
  induction l with
  | nil => rfl
  | cons head rest ih =>
    obtain ⟨k, v⟩ := head
    have less : k < key := above _ List.mem_cons_self
    have different : key ≠ k := fun same => String.lt_irrefl k (same ▸ less)
    simp [insertEntry, String.lt_asymm less, different,
      ih fun e member => above e (List.mem_cons_of_mem _ member)]

theorem foldl_insert_append (l : List (String × α)) (m : StringMap α)
    (sorted : (m.entries ++ l).Pairwise (fun a b => a.1 < b.1)) :
    (l.foldl (fun m e => m.insert e.1 e.2) m).entries = m.entries ++ l := by
  induction l generalizing m with
  | nil => simp
  | cons e rest ih =>
    have step : (m.insert e.1 e.2).entries = m.entries ++ [e] :=
      insertEntry_above fun x member =>
        (List.pairwise_append.mp sorted).2.2 x member e List.mem_cons_self
    simp only [List.foldl_cons]
    rw [ih (m.insert e.1 e.2) (by rw [step]; simpa using sorted), step]
    simp

/-- A map is rebuilt from its entries. -/
@[simp] theorem ofList_entries (m : StringMap α) : ofList m.entries = m :=
  ext (foldl_insert_append m.entries empty m.sorted)

theorem mem_foldl_insert {e : String × α} {l : List (String × α)} {m : StringMap α}
    (member : e ∈ (l.foldl (fun m e => m.insert e.1 e.2) m).entries) : e ∈ m.entries ∨ e ∈ l := by
  induction l generalizing m with
  | nil => exact .inl member
  | cons head rest ih =>
    rcases ih member with earlier | later
    · rcases mem_insertEntry earlier with same | old
      · exact .inr (same ▸ List.mem_cons_self)
      · exact .inl old
    · exact .inr (List.mem_cons_of_mem _ later)

/-- Every entry of a map comes from the list it was made of. -/
theorem mem_of_mem_ofList {e : String × α} {l : List (String × α)}
    (member : e ∈ (ofList l).entries) : e ∈ l :=
  (mem_foldl_insert member).resolve_left (by simp [empty])

end StringMap

def StringSet.ofList (members : List String) : StringSet := StringMap.ofList (members.map (·, ()))

def StringSet.toList (s : StringSet) : List String := s.keys

/-- The members of a set are in increasing order, each of them once. -/
theorem StringSet.pairwise_toList (s : StringSet) : s.toList.Pairwise (· < ·) := s.pairwise_keys

theorem StringSet.mem_toList_ofList {member : String} {members : List String} :
    member ∈ (StringSet.ofList members).toList ↔ member ∈ members := by
  refine (StringMap.mem_keys_foldl_insert _ StringMap.empty).trans ?_
  simp [StringMap.keys, StringMap.empty, Function.comp_def]

/-- A set is rebuilt from its members. -/
@[simp] theorem StringSet.ofList_toList (s : StringSet) : StringSet.ofList s.toList = s := by
  have entries : s.entries.map (fun e => (e.1, ())) = s.entries := by simp
  simp only [ofList, toList, StringMap.keys, List.map_map]
  exact (congrArg StringMap.ofList entries).trans (StringMap.ofList_entries s)

end Estate
