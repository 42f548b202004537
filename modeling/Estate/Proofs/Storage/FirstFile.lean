import Estate.Proofs.Storage.Finding

/-! What reading a snapshot answers, told by the one file that it is read from: the first that there
is of those its id can have. -/
namespace Estate.Storage
open Document

variable {v w : Volume}

/-- The content of the file at a path, if there is a file. -/
def Volume.content? (v : Volume) (path : String) : Option ByteArray :=
  match v.find? path with
  | some (.file content) => some content
  | _ => none

theorem Volume.content?_eq_some_iff {path : String} {content : ByteArray} :
    v.content? path = some content ↔ v.find? path = some (.file content) := by
  unfold content?
  split <;> simp_all

theorem answer_readText? (path : String) :
    v.answer (Files.readText? path) = (v.content? path).bind String.fromUTF8? := by
  have got : v.answer get = v := rfl
  refine (inert_get.answer_bind _).trans ?_
  rw [got, Volume.content?]
  cases v.find? path with
  | none => rfl
  | some entry => cases entry <;> rfl

theorem fromUTF8?_toUTF8 (text : String) : String.fromUTF8? text.toUTF8 = some text :=
  dif_pos text.isValidUTF8

theorem kind?_eq_file_iff {path : String} :
    (v.find? path).map Entry.kind = some .file ↔ (v.content? path).isSome := by
  unfold Volume.content?
  cases v.find? path with
  | none => simp
  | some entry => cases entry <;> simp [Entry.kind]

namespace Store

variable {s : Store} {id extension : String} {content : ByteArray}

/-- The first file of a snapshot, by its extension and its content. -/
def firstFile? (s : Store) (v : Volume) (id : String) : Option (String × ByteArray) :=
  extensions.findSome? fun extension => (v.content? (s.pathOf id extension)).map (extension, ·)

/-- The snapshot that a text says, read as JSON if that is the extension and as YAML otherwise. -/
def parse? (extension text : String) : Option Snapshot :=
  if extension = "json" then (Json.read? text).bind (Snapshot.schema.read .json)
  else (Yaml.read? text).bind (Snapshot.schema.read .yaml)

/-- Why a file with an extension is not read when its text says no snapshot. -/
def malformed (extension path : String) : StoreError :=
  if extension = "json" then .malformedJson path else .malformedYaml path

/-- What reading the snapshot of an id answers by what its first file is. -/
def outcome (s : Store) (id : String) : Option (String × ByteArray) → Except StoreError Snapshot
  | none => .error (.notFound id s.directory)
  | some (extension, content) =>
    match String.fromUTF8? content with
    | none => .error (.unreadable (s.pathOf id extension))
    | some text =>
      match parse? extension text with
      | none => .error (malformed extension (s.pathOf id extension))
      | some document => claim id (s.pathOf id extension) document

/-- It is the first file of a snapshot when there is none with an earlier extension. -/
theorem firstFile?_eq_some_iff : s.firstFile? v id = some (extension, content) ↔
    v.content? (s.pathOf id extension) = some content ∧ ∃ before after,
      extensions = before ++ extension :: after ∧
        ∀ earlier ∈ before, v.content? (s.pathOf id earlier) = none := by
  rw [firstFile?, List.findSome?_eq_some_iff]
  constructor
  · rintro ⟨before, found, after, parted, hit, passed⟩
    obtain ⟨content', there, same⟩ := Option.map_eq_some_iff.mp hit
    obtain ⟨rfl, rfl⟩ := Prod.mk.inj same
    exact ⟨there, before, after, parted, fun earlier member =>
      Option.map_eq_none_iff.mp (passed earlier member)⟩
  · rintro ⟨there, before, after, parted, passed⟩
    exact ⟨before, extension, after, parted, by rw [there]; rfl, fun earlier member =>
      Option.map_eq_none_iff.mpr (passed earlier member)⟩

theorem mem_extensions_of_firstFile? (first : s.firstFile? v id = some (extension, content)) :
    extension ∈ extensions := by
  obtain ⟨_, before, after, parted, _⟩ := firstFile?_eq_some_iff.mp first
  rw [parted]
  exact List.mem_append_right _ List.mem_cons_self

theorem firstFile?_ne_none_iff : s.firstFile? v id ≠ none ↔
    ∃ extension ∈ extensions, ∃ content, v.content? (s.pathOf id extension) = some content := by
  rw [firstFile?, Ne, List.findSome?_eq_none_iff]
  simp [Option.ne_none_iff_exists']

theorem answer_findFile?_cons (rest : List String) :
    v.answer (s.findFile? id (extension :: rest)) =
      if (v.content? (s.pathOf id extension)).isSome then some (s.pathOf id extension)
      else v.answer (s.findFile? id rest) := by
  have kind : v.answer (Files.kind? (s.pathOf id extension)) =
      (v.find? (s.pathOf id extension)).map Entry.kind := rfl
  rw [findFile?, (inert_kind? _).answer_bind, kind]
  simp only [kind?_eq_file_iff]
  split <;> rfl

theorem answer_findFile? (among : List String) : v.answer (s.findFile? id among) =
    (among.findSome? fun extension =>
      (v.content? (s.pathOf id extension)).map (extension, ·)).map fun first =>
        s.pathOf id first.1 := by
  induction among with
  | nil => rfl
  | cons extension rest ih =>
    rw [answer_findFile?_cons, List.findSome?_cons, ih]
    cases v.content? (s.pathOf id extension) <;> rfl

theorem answer_readDocument_eq (valid : isValidId id = true) (known : extension ∈ extensions)
    (there : v.content? (s.pathOf id extension) = some content) :
    v.answer (readDocument Snapshot.schema (s.pathOf id extension)) =
      match String.fromUTF8? content with
      | none => .error (.unreadable (s.pathOf id extension))
      | some text =>
        (parse? extension text).elim
          (.error (malformed extension (s.pathOf id extension))) .ok := by
  have text : v.answer (Files.readText? (s.pathOf id extension)) = String.fromUTF8? content := by
    rw [answer_readText?, there]
    rfl
  cases decoded : String.fromUTF8? content with
  | none =>
    rw [decoded] at text
    rw [readDocument, (inert_readText? _).answer_bind, text]
    rfl
  | some words =>
    rw [decoded] at text
    rw [answer_readDocument text, extension?_pathOf valid known s]
    by_cases json : extension = "json" <;> simp [parse?, malformed, json]

/-- Reading a snapshot answers by its first file alone. -/
theorem answer_readSnapshot_eq (valid : isValidId id = true) :
    v.answer (s.readSnapshot id) = s.outcome id (s.firstFile? v id) := by
  have path : v.answer (s.findFile? id extensions) =
      (s.firstFile? v id).map fun first => s.pathOf id first.1 := answer_findFile? extensions
  rw [answer_readSnapshot _ _ valid, path]
  cases first : s.firstFile? v id with
  | none => rfl
  | some found =>
    obtain ⟨extension, content⟩ := found
    obtain ⟨there, _⟩ := firstFile?_eq_some_iff.mp first
    dsimp only [Option.map_some]
    rw [answer_readDocument_eq valid (mem_extensions_of_firstFile? first) there, outcome]
    cases String.fromUTF8? content with
    | none => rfl
    | some text => cases parsed : parse? extension text <;> simp [parsed, Except.bind]

theorem answer_readSnapshot_congr (valid : isValidId id = true)
    (same : ∀ extension ∈ extensions,
      v.find? (s.pathOf id extension) = w.find? (s.pathOf id extension)) :
    v.answer (s.readSnapshot id) = w.answer (s.readSnapshot id) := by
  have first : s.firstFile? v id = s.firstFile? w id := by
    rw [firstFile?, firstFile?, ← List.head?_filterMap, ← List.head?_filterMap]
    refine congrArg List.head? (List.filterMap_congr fun extension known => ?_)
    rw [Volume.content?, Volume.content?, same extension known]
  rw [answer_readSnapshot_eq valid, answer_readSnapshot_eq valid, first]

theorem answer_readSnapshot_invalid (invalid : isValidId id = false) :
    v.answer (s.readSnapshot id) = .error (.invalidId id) := by
  rw [readSnapshot, if_neg (by simp [invalid])]
  rfl

end Store
end Estate.Storage
