/-! Repetition in lists: the first member that stands earlier already. -/
namespace Estate

variable {α : Type}

/-- The member is the first that stands earlier in the list or in `seen`. -/
def FirstSeen (seen l : List α) (a : α) : Prop :=
  ∃ before after, l = before ++ a :: after ∧ before.Nodup ∧ (∀ b ∈ before, b ∉ seen) ∧
    (a ∈ seen ∨ a ∈ before)

theorem firstSeen_cons_of_mem {seen rest : List α} {a b : α} (known : b ∈ seen) :
    FirstSeen seen (b :: rest) a ↔ b = a := by
  constructor
  · rintro ⟨before, after, split, _, fresh, _⟩
    cases before with
    | nil => exact (List.cons.inj split).1
    | cons c before =>
      obtain ⟨rfl, _⟩ := List.cons.inj split
      exact absurd known (fresh b List.mem_cons_self)
  · rintro rfl
    exact ⟨[], rest, rfl, .nil, by simp, .inl known⟩

theorem firstSeen_cons_of_not_mem {seen rest : List α} {a b : α} (unknown : b ∉ seen) :
    FirstSeen seen (b :: rest) a ↔ FirstSeen (b :: seen) rest a := by
  constructor
  · rintro ⟨before, after, split, distinct, fresh, repeated⟩
    cases before with
    | nil =>
      obtain ⟨rfl, _⟩ := List.cons.inj split
      exact absurd (repeated.resolve_right List.not_mem_nil) unknown
    | cons c before =>
      obtain ⟨rfl, rfl⟩ := List.cons.inj split
      obtain ⟨apart, distinct⟩ := List.nodup_cons.mp distinct
      refine ⟨before, after, rfl, distinct, ?_, ?_⟩
      · intro d member old
        rcases List.mem_cons.mp old with rfl | old
        · exact apart member
        · exact fresh d (List.mem_cons_of_mem _ member) old
      · simpa [or_assoc, or_left_comm] using repeated
  · rintro ⟨before, after, rfl, distinct, fresh, repeated⟩
    have apart : b ∉ before := fun member => fresh b member List.mem_cons_self
    refine ⟨b :: before, after, rfl, List.nodup_cons.mpr ⟨apart, distinct⟩, ?_, ?_⟩
    · intro c member
      rcases List.mem_cons.mp member with rfl | member
      · exact unknown
      · exact fun old => fresh c member (List.mem_cons_of_mem _ old)
    · simpa [or_assoc, or_left_comm] using repeated

variable [DecidableEq α]

/-- The first member that stands earlier in the list or in `seen`. -/
def firstSeen? (seen : List α) : List α → Option α
  | [] => none
  | a :: rest => if a ∈ seen then some a else firstSeen? (a :: seen) rest

/-- The first member of a list that stands earlier already. -/
def firstRepeated? (l : List α) : Option α := firstSeen? [] l

theorem firstSeen?_eq_none_iff {seen l : List α} :
    firstSeen? seen l = none ↔ l.Nodup ∧ ∀ a ∈ l, a ∉ seen := by
  induction l generalizing seen with
  | nil => simp [firstSeen?]
  | cons a rest ih =>
    by_cases known : a ∈ seen
    · simp [firstSeen?, known]
    · simp only [firstSeen?, known, if_false, ih, List.nodup_cons, List.mem_cons, not_or]
      constructor
      · rintro ⟨distinct, fresh⟩
        refine ⟨⟨fun member => (fresh a member).1 rfl, distinct⟩, ?_⟩
        rintro b (rfl | member)
        · exact known
        · exact (fresh b member).2
      · rintro ⟨⟨apart, distinct⟩, fresh⟩
        exact ⟨distinct, fun b member =>
          ⟨fun same => apart (same ▸ member), fresh b (.inr member)⟩⟩

/-- Nothing is repeated exactly in lists without duplicates. -/
theorem firstRepeated?_eq_none_iff {l : List α} : firstRepeated? l = none ↔ l.Nodup := by
  simp [firstRepeated?, firstSeen?_eq_none_iff]

theorem firstSeen?_eq_some_iff {seen l : List α} {a : α} :
    firstSeen? seen l = some a ↔ FirstSeen seen l a := by
  induction l generalizing seen with
  | nil => simp [firstSeen?, FirstSeen]
  | cons b rest ih =>
    by_cases known : b ∈ seen
    · simp [firstSeen?, known, firstSeen_cons_of_mem known]
    · simp [firstSeen?, known, ih, firstSeen_cons_of_not_mem known]

/-- The member is the first in the list that stands earlier already: all before it are distinct, and
it is one of them. -/
def FirstRepeat (l : List α) (a : α) : Prop :=
  ∃ before after, l = before ++ a :: after ∧ before.Nodup ∧ a ∈ before

theorem firstRepeated?_eq_some_iff {l : List α} {a : α} :
    firstRepeated? l = some a ↔ FirstRepeat l a := by
  simp [firstRepeated?, firstSeen?_eq_some_iff, FirstSeen, FirstRepeat]

theorem FirstRepeat.not_nodup {l : List α} {a : α} (first : FirstRepeat l a) : ¬ l.Nodup := by
  intro distinct
  have none := firstRepeated?_eq_none_iff.mpr distinct
  simp [firstRepeated?_eq_some_iff.mpr first] at none

theorem nodup_eraseDups (l : List α) : l.eraseDups.Nodup := by
  induction size : l.length using Nat.strongRecOn generalizing l with
  | ind n ih =>
    cases l with
    | nil => simp
    | cons a rest =>
      rw [List.eraseDups_cons, List.nodup_cons]
      refine ⟨?_, ih _ ?_ _ rfl⟩
      · simp [List.mem_eraseDups]
      · have := List.length_filter_le (fun b => !b == a) rest
        simp only [List.length_cons] at size
        omega

theorem eraseDups_map {β : Type} [DecidableEq β] {f : α → β} (injective : ∀ a b, f a = f b → a = b)
    (l : List α) : (l.map f).eraseDups = l.eraseDups.map f := by
  induction size : l.length using Nat.strongRecOn generalizing l with
  | ind n ih =>
    cases l with
    | nil => rfl
    | cons a rest =>
      have others : (rest.map f).filter (fun b => !b == f a) =
          (rest.filter fun b => !b == a).map f := by
        rw [List.filter_map]
        congr 1
        apply List.filter_congr
        intro b _
        have same : (f b == f a) = (b == a) := by
          rw [Bool.eq_iff_iff, beq_iff_eq, beq_iff_eq]
          exact ⟨injective b a, fun equal => equal ▸ rfl⟩
        simp [same]
      rw [List.map_cons, List.eraseDups_cons, List.eraseDups_cons, List.map_cons, others]
      rw [ih _ ?_ _ rfl]
      have := List.length_filter_le (fun b => !b == a) rest
      simp only [List.length_cons] at size
      omega

/-- Among members with distinct keys the first with a key is the only one. -/
theorem find?_key_eq_some_iff {β : Type} {key : β → α} {l : List β} {k : α} {b : β}
    (distinct : (l.map key).Nodup) :
    l.find? (fun c => key c == k) = some b ↔ b ∈ l ∧ key b = k := by
  induction l with
  | nil => simp
  | cons c rest ih =>
    obtain ⟨apart, distinct⟩ := List.nodup_cons.mp distinct
    by_cases same : key c = k
    · have other : ∀ d ∈ rest, key d ≠ k := fun d member equal =>
        apart (List.mem_map.mpr ⟨d, member, equal.trans same.symm⟩)
      simp only [List.find?_cons, same, beq_self_eq_true, Option.some.injEq, List.mem_cons]
      constructor
      · rintro rfl
        exact ⟨.inl rfl, same⟩
      · rintro ⟨rfl | member, equal⟩
        · rfl
        · exact absurd equal (other b member)
    · have different : (key c == k) = false := by simpa using same
      simp only [List.find?_cons, different, ih distinct, List.mem_cons]
      constructor
      · exact fun ⟨member, equal⟩ => ⟨.inr member, equal⟩
      · rintro ⟨rfl | member, equal⟩
        · exact absurd equal same
        · exact ⟨member, equal⟩

end Estate
