import Estate.Storage.Volume
import Estate.Proofs.Storage.Steps

/-! Where paths lead in a volume. Putting something at a location changes what stands there and
nothing else, and whatever a path led to before, it still leads to. -/
namespace Estate.Storage
open Estate.Path (isStep steps)

namespace Volume

variable {v w : Volume} {here location other : Location} {entry : Entry}
  {base file path name : String} {names blank : List String}

theorem isDirectory_iff : v.isDirectory location = true ↔ v.entry? location = some .directory := by
  unfold isDirectory
  split <;> simp_all

theorem lookup_filter_ne {entries : List (Location × Entry)} (different : other ≠ location) :
    (entries.filter (·.1 ≠ location)).lookup other = entries.lookup other := by
  induction entries with
  | nil => rfl
  | cons e rest ih =>
    by_cases replaced : e.1 = location
    · have passed : (other == e.1) = false := by simpa [replaced] using different
      rw [List.filter_cons_of_neg (by simpa using replaced), ih, List.lookup_cons, passed]
    · rw [List.filter_cons_of_pos (by simpa using replaced), List.lookup_cons, List.lookup_cons, ih]

/-- Putting something at a location changes what stands there and nothing else. -/
theorem entry?_put : Volume.entry? (v.put (here ++ [name]) entry) other =
    if other = here ++ [name] then some entry else v.entry? other := by
  unfold entry? put
  by_cases top : other = []
  · simp [top]
  · by_cases same : other = here ++ [name]
    · simp [same]
    · have passed : (other == here ++ [name]) = false := beq_false_of_ne same
      simp only [top, if_false, same, List.lookup_cons, passed]
      exact lookup_filter_ne same

theorem isDirectory_put (different : other ≠ here ++ [name]) :
    (v.put (here ++ [name]) entry).isDirectory other = v.isDirectory other := by
  simp [isDirectory, entry?_put, different]

theorem isDirectory_put_of_isDirectory (free : v.isDirectory (here ++ [name]) = false)
    (directory : v.isDirectory other = true) :
    (v.put (here ++ [name]) entry).isDirectory other = true := by
  rw [isDirectory_put fun same => ?_]
  · exact directory
  · rw [same, free] at directory
    exact Bool.false_ne_true directory

/-- Everything stands below a directory, as it does in every tree of files. -/
def IsTree (v : Volume) : Prop := ∀ e ∈ v.entries, v.isDirectory e.1.dropLast = true

instance : Decidable v.IsTree :=
  inferInstanceAs (Decidable (∀ e ∈ v.entries, v.isDirectory e.1.dropLast = true))

/-- Nothing stands below a location without a directory. -/
theorem IsTree.entry?_below (tree : v.IsTree) (bare : v.isDirectory location = false) :
    v.entry? (location ++ [name]) = none := by
  by_contra there
  have found : (v.entries.lookup (location ++ [name])).isSome := by
    simpa [Volume.entry?, Option.isSome_iff_ne_none] using there
  obtain ⟨e, member, same⟩ := List.lookup_isSome_iff.mp found
  have parent := tree e member
  rw [← eq_of_beq same, List.dropLast_concat, bare] at parent
  exact Bool.false_ne_true parent

theorem IsTree.put (tree : v.IsTree) (parent : v.isDirectory here = true)
    (free : v.isDirectory (here ++ [name]) = false) : (v.put (here ++ [name]) entry).IsTree := by
  intro e member
  rcases List.mem_cons.mp member with rfl | old
  · rw [List.dropLast_concat, isDirectory_put (by simp)]
    exact parent
  · exact isDirectory_put_of_isDirectory free (tree e (List.mem_filter.mp old).1)

/-- What stands in the first volume is not missing in the second, and directories are still
directories. -/
structure Grows (v w : Volume) : Prop where
  home : w.home = v.home
  isDirectory (location : Location) : v.isDirectory location = true → w.isDirectory location = true
  isSome (location : Location) : (v.entry? location).isSome → (w.entry? location).isSome

theorem Grows.put (free : v.isDirectory (here ++ [name]) = false) :
    v.Grows (v.put (here ++ [name]) entry) where
  home := rfl
  isDirectory location := isDirectory_put_of_isDirectory free
  isSome location there := by
    rw [entry?_put]
    split
    · rfl
    · exact there

/-- A name can be looked up in a directory if it is short enough; one that is no step stays. -/
theorem descend_eq : v.descend here name =
    if v.isDirectory here = true ∧ name.utf8ByteSize ≤ nameLimit then
      if isStep name = false then .ok here
      else if name = ".." then .ok here.dropLast
      else if (v.entry? (here ++ [name])).isSome then .ok (here ++ [name])
      else .error .missing
    else .error .refused := by
  have idle : isStep name = false ↔ name = "" ∨ name = "." := by
    simp [isStep, imp_iff_not_or]
  have passes : (!v.isDirectory here || decide (nameLimit < name.utf8ByteSize)) = true ↔
      ¬ (v.isDirectory here = true ∧ name.utf8ByteSize ≤ nameLimit) := by
    cases v.isDirectory here <;> simp
  simp only [descend, passes, idle, ite_not]

/-- A directory has nothing of a name, though something could have it. -/
structure Lacks (v : Volume) (here : Location) (name : String) : Prop where
  directory : v.isDirectory here = true
  short : name.utf8ByteSize ≤ nameLimit
  step : isStep name = true
  onward : name ≠ ".."
  absent : v.entry? (here ++ [name]) = none

theorem descend_eq_missing_iff : v.descend here name = .error .missing ↔ v.Lacks here name := by
  rw [descend_eq]
  constructor
  · intro missing
    constructor <;> grind [Option.isSome_iff_ne_none]
  · intro lacks
    simp [lacks.directory, lacks.short, lacks.step, lacks.onward, lacks.absent]

theorem Lacks.free (lacks : v.Lacks here name) : v.isDirectory (here ++ [name]) = false := by
  simp [isDirectory, lacks.absent]

/-- The next location below a directory, when something stands there. -/
theorem descend_eq_ok_iff (step : isStep name = true) (onward : name ≠ "..") :
    v.descend here name = .ok location ↔ v.isDirectory here = true ∧
      name.utf8ByteSize ≤ nameLimit ∧ (v.entry? location).isSome ∧ location = here ++ [name] := by
  rw [descend_eq]
  grind

theorem isDirectory_of_descend (reached : v.descend here name = .ok location) :
    v.isDirectory here = true := by
  rw [descend_eq] at reached
  grind

theorem Grows.descend (grows : v.Grows w) (reached : v.descend here name = .ok location) :
    w.descend here name = .ok location := by
  have directory := grows.isDirectory here
  have below := grows.isSome (here ++ [name])
  rw [descend_eq] at reached ⊢
  grind

theorem follow_cons (name : String) (names : List String) :
    v.follow here (name :: names) = v.descend here name >>= fun there => v.follow there names :=
  List.foldlM_cons

theorem follow_append (before after : List String) :
    v.follow here (before ++ after) = v.follow here before >>= fun there => v.follow there after :=
  List.foldlM_append

theorem follow_concat (before : List String) (last : String) :
    v.follow here (before ++ [last]) = v.follow here before >>= fun there => v.descend there last :=
  (follow_append before [last]).trans <| by simp [follow]

theorem Grows.follow (grows : v.Grows w) (reached : v.follow here names = .ok location) :
    w.follow here names = .ok location := by
  induction names generalizing here with
  | nil => exact reached
  | cons name rest ih =>
    rw [follow_cons] at reached ⊢
    cases first : v.descend here name with
    | error obstacle =>
      rw [first] at reached
      cases reached
    | ok there =>
      rw [first] at reached
      rw [grows.descend first]
      exact ih reached

/-- Only the steps among names decide where they lead, unless one cannot be looked up. -/
theorem follow_steps {result : Except Obstacle Location} (followed : v.follow here names = result)
    (allowed : result ≠ .error .refused) : v.follow here (names.filter isStep) = result := by
  induction names generalizing here with
  | nil => exact followed
  | cons name rest ih =>
    rw [follow_cons] at followed
    cases step : isStep name with
    | true =>
      rw [List.filter_cons_of_pos step, follow_cons]
      cases first : v.descend here name with
      | error obstacle =>
        rw [first] at followed
        exact followed
      | ok there =>
        rw [first] at followed
        exact ih followed
    | false =>
      rw [List.filter_cons_of_neg (by simp [step])]
      rw [descend_eq, step, if_pos rfl] at followed
      split at followed
      · exact ih followed
      · exact absurd followed.symm allowed

theorem locate?_eq_some_iff : v.locate? path = some location ↔
    isPath path = true ∧ v.follow (v.start path) (Path.names path) = .ok location := by
  unfold locate?
  cases v.follow (v.start path) (Path.names path) <;> simp [Except.toOption]

theorem Grows.start (grows : v.Grows w) (path : String) : w.start path = v.start path := by
  rw [Volume.start, Volume.start, grows.home]

theorem Grows.locate? (grows : v.Grows w) (reached : v.locate? path = some location) :
    w.locate? path = some location := by
  obtain ⟨proper, reached⟩ := locate?_eq_some_iff.mp reached
  exact locate?_eq_some_iff.mpr ⟨proper, grows.start path ▸ grows.follow reached⟩

theorem follow_steps_of_locate? (reached : v.locate? path = some location) :
    v.follow (v.start path) (steps path) = .ok location :=
  follow_steps (locate?_eq_some_iff.mp reached).2 nofun

/-- An empty name stays in a directory. -/
theorem descend_empty_iff :
    v.descend here "" = .ok location ↔ here = location ∧ v.isDirectory here = true := by
  have short : "".utf8ByteSize ≤ nameLimit := by decide
  have idle : isStep "" = false := by decide
  rw [descend_eq]
  grind

theorem follow_blank (directory : v.isDirectory here = true) (empty : ∀ name ∈ blank, name = "") :
    v.follow here blank = .ok here := by
  induction blank with
  | nil => rfl
  | cons name rest ih =>
    obtain ⟨rfl, others⟩ := List.forall_mem_cons.mp empty
    rw [follow_cons, descend_empty_iff.mpr ⟨rfl, directory⟩]
    exact ih others

theorem filter_blank (empty : ∀ name ∈ blank, name = "") : blank.filter isStep = [] :=
  List.filter_eq_nil_iff.mpr fun name member => by simp [empty name member, isStep]

/-- An empty name at the end of a path changes nothing about directories. -/
theorem follow_base (ends : Path.names base = names ∨ Path.names base = names ++ [""])
    (directory : v.isDirectory location = true) :
    v.follow here (Path.names base) = .ok location ↔ v.follow here names = .ok location := by
  rcases ends with ends | ends
  · rw [ends]
  · rw [ends, follow_concat]
    cases reached : v.follow here names with
    | error obstacle => exact ⟨nofun, nofun⟩
    | ok there =>
      refine descend_empty_iff.trans ⟨fun stays => congrArg _ stays.1, fun same => ?_⟩
      obtain rfl := Except.ok.inj same
      exact ⟨rfl, directory⟩

theorem isPath_of_append {rest : String} (named : base ≠ "")
    (proper : isPath (base ++ rest) = true) : isPath base = true := by
  simp only [isPath, Bool.and_eq_true, decide_eq_true_eq, Bool.not_eq_true',
    String.utf8ByteSize_append, String.toList_append, List.contains_eq_mem, List.mem_append,
    decide_eq_false_iff_not, not_or] at proper ⊢
  exact ⟨⟨named, by omega⟩, proper.2.1⟩

theorem isPath_of_join (named : base ≠ "") (single : Path.IsName file)
    (proper : isPath (Path.join base file) = true) : isPath base = true := by
  obtain ⟨rest, joined⟩ := Path.join_eq_append base single
  exact isPath_of_append named (joined ▸ proper)

theorem start_join (base : String) (single : Path.IsName file) :
    v.start (Path.join base file) = v.start base := by
  rw [start, start, Path.isAbsolute_join base single]

/-- A file in a directory is where its name leads to from the directory. -/
theorem locate?_join (named : base ≠ "") (single : Path.IsName file) :
    v.locate? (Path.join base file) = some location ↔ isPath (Path.join base file) = true ∧
      ∃ here, v.locate? base = some here ∧ v.descend here file = .ok location := by
  obtain ⟨names, joined, ends⟩ := Path.names_join base single
  rw [locate?_eq_some_iff, start_join base single, joined, follow_concat]
  refine and_congr_right fun proper => ?_
  have based := isPath_of_join named single proper
  constructor
  · intro reached
    cases above : v.follow (v.start base) names with
    | error obstacle =>
      rw [above] at reached
      cases reached
    | ok here =>
      rw [above] at reached
      have directory := isDirectory_of_descend reached
      exact ⟨here, locate?_eq_some_iff.mpr ⟨based, (follow_base ends directory).mpr above⟩, reached⟩
  · rintro ⟨here, above, reached⟩
    have directory := isDirectory_of_descend reached
    rw [(follow_base ends directory).mp (locate?_eq_some_iff.mp above).2]
    exact reached

/-- A file can be put where the last step of a path goes from the location that the others lead to.
-/
theorem of_place? (placed : v.place? path = some location) : ∃ first last here,
    steps path = first ++ [last] ∧ v.follow (v.start path) first = .ok here ∧
      location = here ++ [last] := by
  obtain ⟨last, ends, placed⟩ := Option.bind_eq_some_iff.mp placed
  dsimp only at placed
  split at placed
  · obtain ⟨here, above, placed⟩ := Option.bind_eq_some_iff.mp placed
    obtain ⟨free, same⟩ := Option.ite_none_right_eq_some.mp placed
    have step : isStep last = true := by
      simp only [Bool.and_eq_true] at free
      simp only [isStep, free, Bool.and_self]
    obtain ⟨first, parted⟩ := List.getLast?_eq_some_iff.mp ends
    rw [parted, List.dropLast_concat] at above
    have reached : v.follow (v.start path) first = .ok here := by
      cases followed : v.follow (v.start path) first with
      | error obstacle =>
        rw [followed] at above
        cases above
      | ok there =>
        rw [followed] at above
        exact congrArg _ (Option.some.inj above)
    refine ⟨first.filter isStep, last, here, ?_, follow_steps reached (by simp),
      (Option.some.inj same).symm⟩
    rw [steps, parted, List.filter_append, List.filter_singleton, step]
    rfl
  · cases placed

/-- A file can be written in a directory under a short name that no directory has. -/
theorem of_place?_join (named : base ≠ "") (single : Path.IsName file)
    (placed : v.place? (Path.join base file) = some location) :
    isPath (Path.join base file) = true ∧ ∃ here, v.locate? base = some here ∧
      v.isDirectory here = true ∧ file.utf8ByteSize ≤ nameLimit ∧
      v.isDirectory (here ++ [file]) = false ∧ location = here ++ [file] := by
  obtain ⟨names, joined, ends⟩ := Path.names_join base single
  simp only [place?, joined, List.getLast?_concat, List.dropLast_concat,
    start_join base single, bind, Option.bind_some] at placed
  cases proper : isPath (Path.join base file) with
  | false => simp [proper] at placed
  | true =>
    cases above : v.follow (v.start base) names with
    | error obstacle => simp [proper, above, Except.toOption] at placed
    | ok here =>
      simp only [proper, above, if_true, Except.toOption, Option.bind_some,
        Option.ite_none_right_eq_some, Option.some.injEq, Bool.and_eq_true, Bool.not_eq_true',
        decide_eq_true_eq] at placed
      obtain ⟨⟨⟨⟨⟨⟨directory, _⟩, _⟩, _⟩, short⟩, free⟩, rfl⟩ := placed
      have reached := (follow_base ends directory).mpr above
      exact ⟨rfl, here, locate?_eq_some_iff.mpr ⟨isPath_of_join named single proper, reached⟩,
        directory, short, free, rfl⟩

end Volume
end Estate.Storage
