import Estate.Storage.Store
import Estate.Proofs.Storage.Reading
import Estate.Proofs.Storage.Tree

/-! What the store finds in its directory. The files of different ids have different names, and the
list has the ids of all names. -/
namespace Estate.Storage
open Document
open Estate.Path (isStep steps)

variable {v : Volume} {here : Location}

namespace Store

variable {s : Store} {id other extension extension' : String}

theorem ne_empty_of_isValidId (valid : isValidId id = true) : id ≠ "" := by
  rintro rfl
  cases valid

/-- The name of the file of a snapshot. -/
abbrev fileName (id extension : String) : String := id ++ "." ++ extension

section Names

variable (valid : isValidId id = true) (known : extension ∈ extensions)
include valid known

theorem splitExtension_fileName :
    Path.splitExtension (fileName id extension) = (id, some extension) := by
  have plain : ∀ extension ∈ extensions, '.' ∉ extension.toList := by decide
  exact Path.splitExtension_append (ne_empty_of_isValidId valid) (plain extension known)

theorem isName_fileName : Path.IsName (fileName id extension) := by
  have single : '/' ∉ id.toList := fun slash => by
    simp only [isValidId, Bool.and_eq_true, List.all_eq_true] at valid
    simpa using valid.2 '/' slash
  have plain : ∀ extension ∈ extensions, '/' ∉ extension.toList := by decide
  simp [Path.IsName, fileName, single, plain extension known]

theorem isStep_fileName : isStep (fileName id extension) = true ∧ fileName id extension ≠ ".." := by
  have split := splitExtension_fileName valid known
  refine ⟨?_, fun up => ?_⟩
  · rw [isStep, Bool.and_eq_true, decide_eq_true_eq, decide_eq_true_eq]
    refine ⟨fun empty => ?_, fun dot => ?_⟩
    · rw [empty] at split
      cases split
    · rw [dot] at split
      cases split
  · rw [up] at split
    have bare : ("" : String) ∉ extensions := by decide
    cases split
    exact bare known

theorem idOfName?_fileName : idOfName? (fileName id extension) = some id := by
  rw [idOfName?, splitExtension_fileName valid known]
  exact if_pos (List.contains_iff_mem.mpr known)

theorem extension?_pathOf (s : Store) :
    Path.extension? (s.pathOf id extension) = some extension := by
  obtain ⟨names, joined, _⟩ := Path.names_join s.directory (isName_fileName valid known)
  rw [Path.extension?, pathOf, joined, List.getLast?_concat]
  exact congrArg Prod.snd (splitExtension_fileName valid known)

/-- The file of a snapshot is found when the directory has an entry of its name. -/
theorem find?_pathOf (named : s.directory ≠ "") {entry : Entry} :
    v.find? (s.pathOf id extension) = some entry ↔
      (Volume.isPath (s.pathOf id extension) = true ∧
        (fileName id extension).utf8ByteSize ≤ Volume.nameLimit) ∧
      ∃ here, v.locate? s.directory = some here ∧ v.isDirectory here = true ∧
        v.entry? (here ++ [fileName id extension]) = some entry := by
  have single := isName_fileName valid known
  obtain ⟨step, onward⟩ := isStep_fileName valid known
  rw [Volume.find?, Option.bind_eq_some_iff]
  constructor
  · rintro ⟨location, reached, there⟩
    obtain ⟨proper, here, above, below⟩ := (Volume.locate?_join named single).mp reached
    obtain ⟨directory, short, _, rfl⟩ := (Volume.descend_eq_ok_iff step onward).mp below
    exact ⟨⟨proper, short⟩, here, above, directory, there⟩
  · rintro ⟨⟨proper, short⟩, here, above, directory, there⟩
    have below := (Volume.descend_eq_ok_iff step onward).mpr
      ⟨directory, short, Option.isSome_iff_exists.mpr ⟨entry, there⟩, rfl⟩
    exact ⟨_, (Volume.locate?_join named single).mpr ⟨proper, here, above, below⟩, there⟩

end Names

/-- The name of a file tells its id and its extension. -/
theorem fileName_inj (valid : isValidId id = true)
    (valid' : isValidId other = true) (known : extension ∈ extensions)
    (known' : extension' ∈ extensions)
    (same : fileName id extension = fileName other extension') :
    id = other ∧ extension = extension' := by
  have split := splitExtension_fileName valid known
  rw [same, splitExtension_fileName valid' known'] at split
  cases split
  exact ⟨rfl, rfl⟩

section Listing

theorem mem_namesBelow {name : String} :
    name ∈ v.namesBelow here ↔ (v.entry? (here ++ [name])).isSome := by
  have below : (v.entry? (here ++ [name])).isSome ↔ ∃ e ∈ v.entries, e.1 = here ++ [name] := by
    rw [Volume.entry?, if_neg (by simp), List.lookup_isSome_iff]
    exact exists_congr fun e => and_congr_right fun _ => beq_iff_eq.trans eq_comm
  rw [below, Volume.namesBelow, List.mem_filterMap]
  refine exists_congr fun e => and_congr_right fun _ => ?_
  rcases List.eq_nil_or_concat e.1 with top | ⟨above, last, ends⟩
  · simp [top]
  · rw [ends, List.concat_eq_append, List.getLast?_concat, List.dropLast_concat]
    by_cases same : above = here <;> simp [same]

theorem inert_names? (path : String) : Inert (Files.names? path) := by
  refine inert_get.bind fun v => ?_
  split <;> exact inert_pure _

/-- The names in a directory are those of what stands directly below it. -/
theorem answer_names? (path : String) : v.answer (Files.names? path) =
    (v.locate? path).bind fun here =>
      if v.isDirectory here then some (v.namesBelow here) else none := by
  have got : v.answer get = v := rfl
  refine (inert_get.answer_bind _).trans ?_
  rw [got]
  cases v.locate? path <;> rfl

theorem answer_list : v.answer s.list = match v.find? s.directory with
    | none => .ok []
    | some _ => match v.answer (Files.names? s.directory) with
      | none => .error (.unreadable s.directory)
      | some names => .ok (StringSet.ofList (names.filterMap idOfName?)).toList := by
  have kind : v.answer (Files.kind? s.directory) = (v.find? s.directory).map Entry.kind := rfl
  rw [list, (inert_kind? _).answer_bind, kind]
  cases v.find? s.directory with
  | none => rfl
  | some entry =>
    refine ((inert_names? _).answer_bind _).trans ?_
    dsimp only
    cases v.answer (Files.names? s.directory) <;> rfl

theorem answer_list_of_directory (above : v.locate? s.directory = some here)
    (directory : v.isDirectory here = true) :
    v.answer s.list =
      .ok (StringSet.ofList ((v.namesBelow here).filterMap idOfName?)).toList := by
  have there : v.find? s.directory = some .directory := by
    rw [Volume.find?, above]
    exact Volume.isDirectory_iff.mp directory
  have names : v.answer (Files.names? s.directory) = some (v.namesBelow here) := by
    rw [answer_names?, above, Option.bind_some, if_pos directory]
  rw [answer_list, there, names]

/-- Whatever the list is, it is in increasing order. -/
theorem pairwise_of_list {ids : List String} (listed : v.answer s.list = .ok ids) :
    ids.Pairwise (· < ·) := by
  rw [answer_list] at listed
  split at listed
  · obtain rfl := Except.ok.inj listed
    exact .nil
  · split at listed
    · cases listed
    · obtain rfl := Except.ok.inj listed
      exact StringSet.pairwise_toList _

end Listing

end Store
end Estate.Storage
