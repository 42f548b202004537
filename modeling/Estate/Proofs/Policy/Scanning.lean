import Estate.Policy.Placeholder

/-! The grammar of placeholders, and what the scanner finds of it. Neither a name nor the brace
after it is a dollar sign, so that no placeholder reaches across one: a text can be scanned in parts
wherever a dollar sign begins the second part. -/
namespace Estate.Policy

/-- A letter without marks, or the underscore. -/
def OpensName (c : Char) : Prop := 'A' ≤ c ∧ c ≤ 'Z' ∨ 'a' ≤ c ∧ c ≤ 'z' ∨ c = '_'

/-- What a name may open with, and beside that digits, points and hyphens. -/
def KeepsName (c : Char) : Prop := OpensName c ∨ '0' ≤ c ∧ c ≤ '9' ∨ c = '.' ∨ c = '-'

instance (c : Char) : Decidable (OpensName c) := inferInstanceAs (Decidable (_ ∨ _))

instance (c : Char) : Decidable (KeepsName c) := inferInstanceAs (Decidable (_ ∨ _))

/-- The names of placeholders. -/
def IsName : List Char → Prop
  | [] => False
  | c :: rest => OpensName c ∧ ∀ d ∈ rest, KeepsName d

instance : DecidablePred IsName
  | [] => inferInstanceAs (Decidable False)
  | c :: rest => @instDecidableAnd (OpensName c) (∀ d ∈ rest, KeepsName d) inferInstance
      (List.decidableBAll KeepsName rest)

variable {c : Char} {cs name front rest : List Char}

theorem isUpper_iff : c.isUpper = true ↔ 'A' ≤ c ∧ c ≤ 'Z' := decide_eq_true_iff

theorem isLower_iff : c.isLower = true ↔ 'a' ≤ c ∧ c ≤ 'z' :=
  Bool.and_eq_true_iff.trans (and_congr decide_eq_true_iff decide_eq_true_iff)

theorem isDigit_iff : c.isDigit = true ↔ '0' ≤ c ∧ c ≤ '9' :=
  Bool.and_eq_true_iff.trans (and_congr decide_eq_true_iff decide_eq_true_iff)

theorem isAlpha_iff : c.isAlpha = true ↔ 'A' ≤ c ∧ c ≤ 'Z' ∨ 'a' ≤ c ∧ c ≤ 'z' :=
  Bool.or_eq_true_iff.trans (or_congr isUpper_iff isLower_iff)

theorem isAlphanum_iff :
    c.isAlphanum = true ↔ ('A' ≤ c ∧ c ≤ 'Z' ∨ 'a' ≤ c ∧ c ≤ 'z') ∨ '0' ≤ c ∧ c ≤ '9' :=
  Bool.or_eq_true_iff.trans (or_congr isAlpha_iff isDigit_iff)

theorem startsName_iff : startsName c = true ↔ OpensName c := by
  simp only [startsName, OpensName, Bool.or_eq_true, isAlpha_iff, beq_iff_eq, or_assoc]

theorem continuesName_iff : continuesName c = true ↔ KeepsName c := by
  simp only [continuesName, KeepsName, OpensName, Bool.or_eq_true, isAlphanum_iff, beq_iff_eq]
  grind

theorem KeepsName.ne_dollar (keeps : KeepsName c) : c ≠ '$' := by
  rintro rfl
  exact absurd keeps (by decide)

theorem IsName.keeps (named : IsName name) : ∀ d ∈ name, KeepsName d := by
  cases name with
  | nil => contradiction
  | cons c rest =>
    intro d member
    rcases List.mem_cons.mp member with rfl | later
    · exact .inl named.1
    · exact named.2 d later

/-- A placeholder begins with the only dollar sign in it. -/
theorem IsName.dollar_not_mem_tail (named : IsName name) : '$' ∉ (Piece.written name).tail := by
  intro member
  have inside : '$' ∈ name := by simpa [Piece.written] using member
  exact (named.keeps _ inside).ne_dollar rfl

theorem placeholderAt?_written (named : IsName name) (rest : List Char) :
    placeholderAt? (Piece.written name ++ rest) = some name := by
  cases name with
  | nil => contradiction
  | cons c name =>
    have opens : startsName c = true := startsName_iff.mpr named.1
    have keeps : ∀ d ∈ name, continuesName d = true := fun d inside =>
      continuesName_iff.mpr (named.2 d inside)
    have closed : continuesName '}' = false := by decide
    have ahead : Piece.written (c :: name) ++ rest = '$' :: '{' :: c :: (name ++ '}' :: rest) := by
      simp [Piece.written]
    rw [ahead, placeholderAt?, List.dropWhile_append_of_pos keeps,
      List.takeWhile_append_of_pos keeps]
    simp [opens, closed]

/-- The scanner finds a placeholder at the front of a text exactly where one is written. -/
theorem placeholderAt?_eq_some_iff :
    placeholderAt? cs = some name ↔ IsName name ∧ Piece.written name <+: cs := by
  constructor
  · intro found
    unfold placeholderAt? at found
    split at found
    · next c rest =>
      split at found
      · next well =>
        obtain rfl := Option.some.inj found
        obtain ⟨opens, closed⟩ := Bool.and_eq_true_iff.mp well
        obtain ⟨after, split⟩ := List.head?_eq_some_iff.mp (beq_iff_eq.mp closed)
        have keeps : ∀ d ∈ rest.takeWhile continuesName, continuesName d = true :=
          List.all_eq_true.mp List.all_takeWhile
        refine ⟨⟨startsName_iff.mp opens, fun d inside => continuesName_iff.mp (keeps d inside)⟩,
          after, ?_⟩
        have whole : rest.takeWhile continuesName ++ '}' :: after = rest := by
          rw [← split, List.takeWhile_append_dropWhile]
        simp [Piece.written, whole]
      · contradiction
    · contradiction
  · rintro ⟨named, after, rfl⟩
    exact placeholderAt?_written named after

theorem piecesAfter_eq_drop (skip : Nat) (cs : List Char) :
    piecesAfter skip cs = pieces (cs.drop skip) := by
  induction cs generalizing skip with
  | nil => cases skip <;> rfl
  | cons c rest ih =>
    cases skip with
    | zero => rfl
    | succ skip => rw [piecesAfter, ih, List.drop_succ_cons]

theorem pieces_written_append (named : IsName name) (rest : List Char) :
    pieces (Piece.written name ++ rest) = .placeholder name :: pieces rest := by
  have ahead : Piece.written name ++ rest = '$' :: ('{' :: name ++ '}' :: rest) := by
    simp [Piece.written]
  have found := placeholderAt?_written named rest
  rw [ahead] at found ⊢
  have past : ('{' :: name ++ '}' :: rest).drop (name.length + 2) = rest := by simp
  rw [pieces, piecesAfter, found]
  simp only [piecesAfter_eq_drop, past]

theorem pieces_cons_of_none (none : placeholderAt? (c :: rest) = none) :
    pieces (c :: rest) = .char c :: pieces rest := by
  rw [pieces, piecesAfter, none]
  rfl

/-- Whether a placeholder is at the front of a text is decided before the next dollar sign. -/
theorem placeholderAt?_append_dollar (c : Char) (front rest : List Char) :
    placeholderAt? (c :: (front ++ '$' :: rest)) = placeholderAt? (c :: front) := by
  ext name
  rw [placeholderAt?_eq_some_iff, placeholderAt?_eq_some_iff]
  refine and_congr_right fun named => ⟨?_, fun inside => inside.trans (List.prefix_append _ _)⟩
  rintro ⟨after, whole⟩
  rw [← List.cons_append] at whole
  rcases List.append_eq_append_iff.mp whole with ⟨beyond, split, _⟩ | ⟨inside, split, within⟩
  · exact ⟨beyond, split.symm⟩
  · -- The placeholder ends behind the first part, so it holds the dollar sign unless it ends there.
    cases inside with
    | nil => exact ⟨[], by rw [split, List.append_nil, List.append_nil]⟩
    | cons d inside =>
      obtain ⟨rfl, _⟩ := List.cons.inj within
      refine absurd ?_ named.dollar_not_mem_tail
      rw [split, List.cons_append, List.tail_cons]
      exact List.mem_append_right _ List.mem_cons_self

/-- The parts of a text up to a dollar sign have nothing to do with what comes from there on. -/
theorem pieces_append_dollar (front rest : List Char) :
    pieces (front ++ '$' :: rest) = pieces front ++ pieces ('$' :: rest) := by
  -- By length, for a placeholder takes up more than the first character.
  induction length : front.length using Nat.strongRecOn generalizing front with
  | ind n ih =>
    subst length
    cases front with
    | nil => rfl
    | cons c front =>
      have same := placeholderAt?_append_dollar c front rest
      cases found : placeholderAt? (c :: front) with
      | none =>
        rw [found] at same
        rw [pieces_cons_of_none found, List.cons_append, pieces_cons_of_none same,
          ih front.length (Nat.lt_succ_self _) front rfl, List.cons_append]
      | some name =>
        obtain ⟨named, after, whole⟩ := placeholderAt?_eq_some_iff.mp found
        have shorter : after.length < (c :: front).length := by
          rw [← whole, List.length_append]
          simp [Piece.written]
        rw [← whole, List.append_assoc, pieces_written_append named, pieces_written_append named,
          ih after.length shorter after rfl, List.cons_append]

/-- A placeholder in a text is a part of it, whatever is written before and after it. -/
theorem pieces_append_written (named : IsName name) (front rest : List Char) :
    pieces (front ++ Piece.written name ++ rest) =
      pieces front ++ .placeholder name :: pieces rest := by
  have ahead : front ++ Piece.written name ++ rest =
      front ++ '$' :: ('{' :: name ++ '}' :: rest) := by
    simp [Piece.written]
  have marked : Piece.written name ++ rest = '$' :: ('{' :: name ++ '}' :: rest) := by
    simp [Piece.written]
  rw [ahead, pieces_append_dollar, ← marked, pieces_written_append named]

/-- In a text without placeholders every character is a part. -/
theorem pieces_eq_map_char (free : ∀ name, IsName name → ¬ Piece.written name <:+: cs) :
    pieces cs = cs.map .char := by
  induction cs with
  | nil => rfl
  | cons c rest ih =>
    have none : placeholderAt? (c :: rest) = none := by
      rw [Option.eq_none_iff_forall_ne_some]
      intro name found
      obtain ⟨named, ahead⟩ := placeholderAt?_eq_some_iff.mp found
      exact free name named ahead.isInfix
    have later : ∀ name, IsName name → ¬ Piece.written name <:+: rest := fun name named inside =>
      free name named (inside.trans (List.suffix_cons c rest).isInfix)
    rw [pieces_cons_of_none none, ih later, List.map_cons]

end Estate.Policy
