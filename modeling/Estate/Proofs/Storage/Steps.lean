import Mathlib.Data.List.Basic
import Estate.Storage.Path

/-! Paths as sequences of names. Parting a path at its slashes and putting names together with
slashes undo each other, and the paths above a path are those along its first steps. -/
namespace Estate.Path

variable {path base file stem extension : String} {names : List String}

/-- The text is a single name. -/
def IsName (text : String) : Prop := '/' ∉ text.toList

theorem partsFrom_slash (read before after : List Char) :
    partsFrom read (before ++ '/' :: after) = partsFrom read before ++ partsFrom [] after := by
  induction before generalizing read with
  | nil => simp [partsFrom]
  | cons c cs ih => by_cases slash : c = '/' <;> simp [partsFrom, slash, ih]

theorem partsFrom_of_not_mem (read : List Char) {cs : List Char} (single : '/' ∉ cs) :
    partsFrom read cs = [String.ofList (read.reverse ++ cs)] := by
  induction cs generalizing read with
  | nil => simp [partsFrom]
  | cons c cs ih =>
    obtain ⟨other, rest⟩ := not_or.mp (mt List.mem_cons.mpr single)
    simp [partsFrom, Ne.symm other, ih _ rest]

theorem isName_of_mem_partsFrom {read cs : List Char} (before : '/' ∉ read) {name : String}
    (part : name ∈ partsFrom read cs) : IsName name := by
  induction cs generalizing read with
  | nil =>
    obtain rfl := List.mem_singleton.mp part
    simpa [IsName] using before
  | cons c cs ih =>
    by_cases slash : c = '/'
    · rw [partsFrom, if_pos slash] at part
      rcases List.mem_cons.mp part with rfl | later
      · simpa [IsName] using before
      · exact ih List.not_mem_nil later
    · rw [partsFrom, if_neg slash] at part
      exact ih (by simp [before, Ne.symm slash]) part

theorem isName_of_mem_names {name : String} (part : name ∈ Path.names path) : IsName name :=
  isName_of_mem_partsFrom List.not_mem_nil part

/-- A slash parts the names before it from those after it. -/
theorem names_slash (before after : String) :
    Path.names (before ++ "/" ++ after) = Path.names before ++ Path.names after := by
  simp [Path.names, partsFrom_slash]

theorem names_of_isName {name : String} (single : IsName name) : Path.names name = [name] := by
  simp [Path.names, partsFrom_of_not_mem [] single]

theorem names_intercalate {name : String} (single : ∀ n ∈ name :: names, IsName n) :
    Path.names ("/".intercalate (name :: names)) = name :: names := by
  induction names generalizing name with
  | nil => simpa using names_of_isName (single name List.mem_cons_self)
  | cons next rest ih =>
    obtain ⟨first, others⟩ := List.forall_mem_cons.mp single
    rw [String.intercalate_cons_cons, names_slash, ih others, names_of_isName first]
    rfl

/-- Whether a name leads anywhere else. An empty name and a dot do not. -/
def isStep (name : String) : Bool := name ≠ "" && name ≠ "."

/-- The names of a path that lead anywhere else. -/
def steps (path : String) : List String := (Path.names path).filter isStep

/-- The path along names, from the top or not. -/
def along (absolute : Bool) (names : List String) : String :=
  (if absolute then "/" else "") ++ "/".intercalate names

/-- The names are those that a path goes along. -/
def AreSteps (names : List String) : Prop := ∀ name ∈ names, IsName name ∧ isStep name = true

theorem areSteps_steps (path : String) : AreSteps (steps path) := fun _ step =>
  ⟨isName_of_mem_names (List.mem_filter.mp step).1, (List.mem_filter.mp step).2⟩

theorem areSteps_of_append {first rest : List String} (parted : steps path = first ++ rest) :
    AreSteps first := fun name member =>
  areSteps_steps path name (parted ▸ List.mem_append_left _ member)

theorem AreSteps.filter (areSteps : AreSteps names) : names.filter isStep = names :=
  List.filter_eq_self.mpr fun name step => (areSteps name step).2

theorem steps_intercalate (areSteps : AreSteps names) : steps ("/".intercalate names) = names := by
  cases names with
  | nil => rfl
  | cons name rest =>
    rw [steps, names_intercalate fun n step => (areSteps n step).1, areSteps.filter]

theorem steps_along (absolute : Bool) (areSteps : AreSteps names) :
    steps (along absolute names) = names := by
  cases absolute with
  | false => simpa [along] using steps_intercalate areSteps
  | true =>
    have parted : Path.names ("/" ++ "/".intercalate names) =
        "" :: Path.names ("/".intercalate names) := names_slash "" _
    simpa [along, steps, parted, isStep] using steps_intercalate areSteps

theorem isAbsolute_along (absolute : Bool) (areSteps : AreSteps names) :
    isAbsolute (along absolute names) = absolute := by
  cases absolute with
  | true => simp [along, isAbsolute]
  | false =>
    cases names with
    | nil => decide
    | cons name rest =>
      obtain ⟨single, step⟩ := areSteps name List.mem_cons_self
      have begins : ∃ c cs, name.toList = c :: cs := by
        refine List.exists_cons_of_ne_nil fun none => ?_
        simp [isStep, String.toList_eq_nil_iff.mp none] at step
      obtain ⟨c, cs, text⟩ := begins
      have other : c ≠ '/' := fun slash => single (by simp [text, slash])
      cases rest <;> simp [along, isAbsolute, text, other]

/-- The paths above a path go along its first steps. -/
theorem above_eq (path : String) :
    above path = (List.range (steps path).length).reverse.map fun n =>
      along (isAbsolute path) ((steps path).take n) := rfl

/-- The paths above a path are its parent, along all steps but the last, and those above that. -/
theorem above_of_steps {last : String} (ends : steps path = names ++ [last]) :
    above path = along (isAbsolute path) names :: above (along (isAbsolute path) names) := by
  have areSteps : AreSteps names := areSteps_of_append ends
  rw [above_eq path, above_eq (along _ _), steps_along _ areSteps, isAbsolute_along _ areSteps,
    ends, List.length_append, List.length_singleton, List.range_succ, List.reverse_append]
  simp only [List.reverse_singleton, List.singleton_append, List.map_cons, List.take_left]
  refine congrArg _ (List.map_congr_left fun n earlier => ?_)
  have short : n < names.length := List.mem_range.mp (List.mem_reverse.mp earlier)
  rw [List.take_append_of_le_length (Nat.le_of_lt short)]

theorem above_of_steps_nil (none : steps path = []) : above path = [] := by
  rw [above_eq, none]
  rfl

theorem length_steps_of_mem_above {place : String} (higher : place ∈ above path) :
    (steps place).length < (steps path).length := by
  rw [above_eq] at higher
  obtain ⟨n, earlier, rfl⟩ := List.mem_map.mp higher
  have short : n < (steps path).length := List.mem_range.mp (List.mem_reverse.mp earlier)
  have areSteps : AreSteps ((steps path).take n) := fun name member =>
    areSteps_steps path name (List.mem_of_mem_take member)
  rw [steps_along _ areSteps, List.length_take]
  omega

theorem IsName.isAbsolute (single : IsName file) : isAbsolute file = false := by
  cases text : file.toList with
  | nil => simp [Path.isAbsolute, text]
  | cons c cs =>
    have other : c ≠ '/' := fun slash => single (by simp [text, slash])
    simp [Path.isAbsolute, text, other]

/-- The path of a file in a directory goes on from that of the directory. -/
theorem join_eq_append (base : String) (single : IsName file) :
    ∃ rest, join base file = base ++ rest := by
  rw [join, if_neg (by simp [single.isAbsolute])]
  split
  · exact ⟨file, rfl⟩
  · exact ⟨"/" ++ file, String.append_assoc⟩

theorem join_empty (single : IsName file) : join "" file = file := by
  rw [join, if_neg (by simp [single.isAbsolute]), if_pos (by simp [isOpen]), String.empty_append]

theorem isAbsolute_join (base : String) (single : IsName file) :
    isAbsolute (join base file) = isAbsolute base := by
  by_cases named : base = ""
  · rw [named, join_empty single, single.isAbsolute]
    rfl
  · obtain ⟨rest, joined⟩ := join_eq_append base single
    obtain ⟨c, cs, text⟩ := List.exists_cons_of_ne_nil (mt String.toList_eq_nil_iff.mp named)
    simp [isAbsolute, joined, text]

/-- A file in a directory has the names of the directory and its own, whether the directory's path
ends with a slash or not, or is empty. -/
theorem names_join (base : String) (single : IsName file) :
    ∃ names, Path.names (join base file) = names ++ [file] ∧
      (Path.names base = names ∨ Path.names base = names ++ [""]) := by
  by_cases named : base = ""
  · rw [named, join_empty single, names_of_isName single]
    exact ⟨[], rfl, .inr rfl⟩
  rw [join, if_neg (by simp [single.isAbsolute])]
  by_cases ends : base.toList.getLast? = some '/'
  · obtain ⟨cs, text⟩ := List.getLast?_eq_some_iff.mp ends
    have slashed : base = String.ofList cs ++ "/" ++ "" := String.toList_injective (by simp [text])
    rw [if_pos (by simp [isOpen, ends])]
    refine ⟨Path.names (String.ofList cs), ?_, .inr ?_⟩
    · rw [slashed, String.append_empty, names_slash, names_of_isName single]
    · rw [slashed, names_slash]
      rfl
  · rw [if_neg (by simp [isOpen, ends, named]), names_slash, names_of_isName single]
    exact ⟨_, rfl, .inl rfl⟩

/-- An extension without dots comes off the name again, if anything stands before it. -/
theorem splitExtension_append (begins : stem ≠ "") (plain : '.' ∉ extension.toList) :
    splitExtension (stem ++ "." ++ extension) = (stem, some extension) := by
  have reversed : (stem ++ "." ++ extension).toList.reverse =
      extension.toList.reverse ++ '.' :: stem.toList.reverse := by simp
  have dotless : ∀ c ∈ extension.toList.reverse, decide (c ≠ '.') = true := fun c member =>
    decide_eq_true fun dot => plain (dot ▸ List.mem_reverse.mp member)
  have taken : (extension.toList.reverse ++ '.' :: stem.toList.reverse).takeWhile (· ≠ '.') =
      extension.toList.reverse := by
    rw [List.takeWhile_append_of_pos dotless, List.takeWhile_cons_of_neg (by simp),
      List.append_nil]
  simp only [splitExtension, reversed, taken, List.drop_left]
  simp [begins]

/-- A name comes apart at its last dot, if anything stands before it. -/
theorem splitExtension_eq_some_iff {name : String} :
    splitExtension name = (stem, some extension) ↔
      stem ≠ "" ∧ '.' ∉ extension.toList ∧ name = stem ++ "." ++ extension := by
  constructor
  · intro parted
    have whole := List.prefix_iff_eq_append.mp
      (List.takeWhile_prefix (· ≠ '.') (l := name.toList.reverse))
    have plain : '.' ∉ name.toList.reverse.takeWhile (· ≠ '.') := fun dot => by
      simpa using List.all_eq_true.mp List.all_takeWhile '.' dot
    simp only [splitExtension] at parted
    generalize name.toList.reverse.takeWhile (· ≠ '.') = last at parted whole plain
    split at parted
    · next before dotted =>
      split at parted
      · cases parted
      · next begins =>
        obtain ⟨rfl, same⟩ := Prod.mk.inj parted
        obtain rfl := Option.some.inj same
        rw [dotted] at whole
        refine ⟨fun empty => begins (by simpa using empty), by simpa using plain,
          String.toList_injective ?_⟩
        rw [← List.reverse_reverse name.toList, ← whole]
        simp
    · cases parted
  · rintro ⟨begins, plain, rfl⟩
    exact splitExtension_append begins plain

end Estate.Path
