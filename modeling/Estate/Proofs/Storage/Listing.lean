import Estate.Proofs.Storage.FirstFile

/-! When the list of a store and the reading of snapshots agree. The list takes ids from the names
of all entries, while reading takes valid ids only and looks for files. So whatever is found is
listed, and an id that is listed is found unless it is invalid or has no file. -/
namespace Estate.Storage.Store

variable {v : Volume} {here : Location} {s : Store} {id name extension : String}
  {ids : List String}

/-- Whether the file of a snapshot was found, though it may not be readable. -/
def isFound : Except StoreError Snapshot → Bool
  | .error (.notFound _ _) | .error (.invalidId _) => false
  | _ => true

/-- There is a file of a snapshot. -/
def HasFile (s : Store) (v : Volume) (id : String) : Prop :=
  ∃ extension ∈ extensions, ∃ content, v.find? (s.pathOf id extension) = some (.file content)

/-- Something in the store's directory has the name of a file of a snapshot. -/
def HasEntry (s : Store) (v : Volume) (id : String) : Prop :=
  ∃ here, v.locate? s.directory = some here ∧ v.isDirectory here = true ∧
    ∃ extension ∈ extensions, (v.entry? (here ++ [fileName id extension])).isSome

/-- A name stands for the id before a known extension, whatever characters that has. -/
theorem idOfName?_eq_some_iff : idOfName? name = some id ↔
    id ≠ "" ∧ ∃ extension ∈ extensions, name = fileName id extension := by
  have plain : ∀ extension ∈ extensions, '.' ∉ extension.toList := by decide
  constructor
  · intro stands
    unfold idOfName? at stands
    split at stands
    · next stem extension split =>
      obtain ⟨begins, _, named⟩ := Path.splitExtension_eq_some_iff.mp split
      simp only [Option.ite_none_right_eq_some, Option.some.injEq] at stands
      obtain ⟨known, rfl⟩ := stands
      exact ⟨begins, extension, List.contains_iff_mem.mp known, named⟩
    · cases stands
  · rintro ⟨begins, extension, known, rfl⟩
    have split := Path.splitExtension_append begins (plain extension known)
    rw [idOfName?, split]
    exact if_pos (List.contains_iff_mem.mpr known)

theorem isFound_outcome_some (found : String × ByteArray) :
    isFound (s.outcome id (some found)) = true := by
  obtain ⟨extension, content⟩ := found
  dsimp only [outcome]
  split
  · rfl
  · split
    · unfold malformed
      split <;> rfl
    · unfold claim
      split
      · rfl
      · split <;> rfl

/-- A snapshot is found when its id is valid and there is a file of it. -/
theorem isFound_iff : isFound (v.answer (s.readSnapshot id)) = true ↔
    isValidId id = true ∧ HasFile s v id := by
  cases valid : isValidId id with
  | false => simp [answer_readSnapshot_invalid valid, isFound]
  | true =>
    have hasFile : HasFile s v id ↔ s.firstFile? v id ≠ none := by
      simp only [HasFile, firstFile?_ne_none_iff, Volume.content?_eq_some_iff]
    rw [answer_readSnapshot_eq valid, hasFile]
    cases first : s.firstFile? v id with
    | none => simp [outcome, isFound]
    | some found => simp [isFound_outcome_some]

theorem HasFile.hasEntry (named : s.directory ≠ "") (valid : isValidId id = true)
    (file : HasFile s v id) : HasEntry s v id := by
  obtain ⟨extension, known, content, there⟩ := file
  obtain ⟨_, here, above, directory, below⟩ := (find?_pathOf valid known named).mp there
  exact ⟨here, above, directory, extension, known, by simp [below]⟩

theorem mem_of_list (listed : v.answer s.list = .ok ids) :
    id ∈ ids ↔ id ≠ "" ∧ HasEntry s v id := by
  by_cases directory : ∃ here, v.locate? s.directory = some here ∧ v.isDirectory here = true
  · obtain ⟨here, above, directory⟩ := directory
    obtain rfl := Except.ok.inj ((answer_list_of_directory above directory).symm.trans listed)
    simp only [StringSet.mem_toList_ofList, List.mem_filterMap, mem_namesBelow,
      idOfName?_eq_some_iff]
    constructor
    · rintro ⟨name, there, begins, extension, known, rfl⟩
      exact ⟨begins, here, above, directory, extension, known, there⟩
    · rintro ⟨begins, other, above', _, extension, known, there⟩
      obtain rfl := Option.some.inj (above.symm.trans above')
      exact ⟨_, there, begins, extension, known, rfl⟩
  · -- Where the path leads to no directory, nothing is listed and nothing has an entry.
    have empty : ids = [] := by
      rw [answer_list] at listed
      split at listed
      · exact (Except.ok.inj listed).symm
      · split at listed
        · cases listed
        · next names =>
          rw [answer_names?, Option.bind_eq_some_iff] at names
          obtain ⟨here, above, there⟩ := names
          exact absurd ⟨here, above, (Option.ite_none_right_eq_some.mp there).1⟩ directory
    have entryless : ¬ HasEntry s v id := fun ⟨here, above, there, _⟩ =>
      directory ⟨here, above, there⟩
    simp [empty, entryless]

theorem exists_list (vacant : (v.find? s.directory).map Entry.kind ≠ some .file) :
    ∃ ids, v.answer s.list = .ok ids := by
  rw [answer_list, answer_names?]
  cases there : v.find? s.directory with
  | none => exact ⟨_, rfl⟩
  | some entry =>
    cases entry with
    | file content => simp [there, Entry.kind] at vacant
    | directory =>
      obtain ⟨here, above, directory⟩ := Option.bind_eq_some_iff.mp there
      simp [above, Volume.isDirectory_iff.mpr directory]

/-- The list is in increasing order and has every id whose snapshot is found. The two agree about an
id exactly if any entry with a name of its snapshot means that the id is valid and has a file. -/
theorem list_covers_found (s : Store) (v : Volume) (named : s.directory ≠ "")
    (vacant : (v.find? s.directory).map Entry.kind ≠ some .file) :
    ∃ ids, v.answer s.list = .ok ids ∧ ids.Pairwise (· < ·) ∧
      (∀ id, isFound (v.answer (s.readSnapshot id)) = true → id ∈ ids) ∧
      ∀ id, (id ∈ ids ↔ isFound (v.answer (s.readSnapshot id)) = true) ↔
        (id ≠ "" → HasEntry s v id → isValidId id = true ∧ HasFile s v id) := by
  obtain ⟨ids, listed⟩ := exists_list vacant
  have covers (id : String) (found : isFound (v.answer (s.readSnapshot id)) = true) : id ∈ ids := by
    obtain ⟨valid, file⟩ := isFound_iff.mp found
    exact (mem_of_list listed).mpr ⟨ne_empty_of_isValidId valid, file.hasEntry named valid⟩
  refine ⟨ids, listed, pairwise_of_list listed, covers, fun id => ?_⟩
  rw [isFound_iff, mem_of_list listed, ← and_imp]
  refine ⟨fun agree => agree.mp, fun file => ⟨file, fun ⟨valid, there⟩ => ?_⟩⟩
  exact ⟨ne_empty_of_isValidId valid, there.hasEntry named valid⟩

/-- A snapshot that cannot be read is listed, since its file is found. -/
theorem list_covers_found_lab :
    let v : Volume := ⟨[(["p"], .directory), (["p", "lab.yml"], .file "[".toUTF8),
      (["p", "notes.txt"], .file "".toUTF8)], []⟩
    let s : Store := ⟨"p"⟩
    v.answer (s.readSnapshot "lab") = .error (.malformedYaml "p/lab.yml") ∧
      ∃ ids, v.answer s.list = .ok ids ∧ ids.Pairwise (· < ·) ∧ "lab" ∈ ids := by
  intro v s
  obtain ⟨ids, listed, sorted, covers, _⟩ :=
    list_covers_found s v (by decide) (by decide +kernel)
  exact ⟨by decide +kernel, ids, listed, sorted, covers "lab" (by decide +kernel)⟩

/-- A directory and a file whose name has nothing but a dot before its extension are listed, though
neither is found. -/
theorem not_found_of_listed :
    let v : Volume := ⟨[(["p"], .directory), (["p", "d.yaml"], .directory),
      (["p", "..yaml"], .file "{}".toUTF8)], []⟩
    let s : Store := ⟨"p"⟩
    v.answer s.list = .ok [".", "d"] ∧
      v.answer (s.readSnapshot "d") = .error (.notFound "d" "p") ∧
      v.answer (s.readSnapshot ".") = .error (.invalidId ".") := by
  decide +kernel

end Estate.Storage.Store
