import Estate.Proofs.Storage.Watching
import Estate.Proofs.Topology.Validation

/-! Reading and saving under an id keep to the files of that id. An id that cannot name a file is
refused before anything is accessed; the files of any other id are directly in the store's
directory, different ids have different files, and what is read depends on one of them. -/
namespace Estate.Storage
open Estate.Path (steps)

variable {v : Volume}

/-- What a path leads to, or where a file that is written at the path would be put. -/
def Volume.StandsFor (v : Volume) (path : String) (location : Location) : Prop :=
  v.locate? path = some location ∨ v.place? path = some location

namespace Store

variable {s : Store} {id other extension extension' : String} {location : Location}
  {content : ByteArray}

/-- The paths at which the snapshot of an id can be. -/
def paths (s : Store) (id : String) : List String := extensions.map (s.pathOf id)

/-- The directories that saving makes where they are missing. -/
def directories (s : Store) : List String := s.directory :: Path.above s.directory

/-- What reading the snapshot of an id may access: it looks at the paths of the id, and reads no
file but the first of those at them. -/
inductive MayRead (s : Store) (v : Volume) (id : String) : Access → Prop where
  | look (extension : String) : extension ∈ extensions →
      s.MayRead v id (.look (s.pathOf id extension))
  | read (extension : String) (content : ByteArray) :
      s.firstFile? v id = some (extension, content) →
      s.MayRead v id (.read (s.pathOf id extension))

/-- What saving under an id may access: it makes and looks at directories, and writes one file. -/
inductive MaySave (s : Store) (id : String) : Access → Prop where
  | make (place : String) : place ∈ s.directories → s.MaySave id (.make place)
  | look (place : String) : place ∈ s.directories → s.MaySave id (.look place)
  | write : s.MaySave id (.write (s.pathOf id "yaml"))

section Files

variable (valid : isValidId id = true) (known : extension ∈ extensions)
include valid known

/-- The file of a snapshot is one step below the directory of the store. -/
theorem steps_pathOf (s : Store) :
    steps (s.pathOf id extension) = steps s.directory ++ [fileName id extension] := by
  obtain ⟨names, joined, ends⟩ := Path.names_join s.directory (isName_fileName valid known)
  obtain ⟨step, _⟩ := isStep_fileName valid known
  have directory : steps s.directory = names.filter Path.isStep := by
    rcases ends with ends | ends
    · rw [steps, ends]
    · rw [steps, ends, List.filter_append]
      exact List.append_nil _
  rw [directory, steps, pathOf, joined, List.filter_append, List.filter_singleton, step]
  rfl

theorem isAbsolute_pathOf (s : Store) :
    Path.isAbsolute (s.pathOf id extension) = Path.isAbsolute s.directory :=
  Path.isAbsolute_join s.directory (isName_fileName valid known)

theorem of_standsFor_pathOf (stands : v.StandsFor (s.pathOf id extension) location) :
    ∃ here, v.follow (v.start s.directory) (steps s.directory) = .ok here ∧
      location = here ++ [fileName id extension] := by
  have start : v.start (s.pathOf id extension) = v.start s.directory :=
    Volume.start_join s.directory (isName_fileName valid known)
  have ends := steps_pathOf valid known s
  rcases stands with located | placed
  · obtain ⟨step, onward⟩ := isStep_fileName valid known
    have reached := Volume.follow_steps_of_locate? located
    rw [ends, start, Volume.follow_concat] at reached
    cases above : v.follow (v.start s.directory) (steps s.directory) with
    | error obstacle =>
      rw [above] at reached
      cases reached
    | ok here =>
      rw [above] at reached
      exact ⟨here, rfl, ((Volume.descend_eq_ok_iff step onward).mp reached).2.2.2⟩
  · obtain ⟨first, last, here, parted, reached, rfl⟩ := Volume.of_place? placed
    obtain ⟨rfl, same⟩ := List.append_inj' (ends.symm.trans parted) rfl
    rw [start] at reached
    exact ⟨here, reached, by rw [same]⟩

variable (valid' : isValidId other = true) (known' : extension' ∈ extensions)
include valid' known'

theorem pathOf_inj (same : s.pathOf id extension = s.pathOf other extension') :
    id = other ∧ extension = extension' := by
  have ends := steps_pathOf valid known s
  rw [same, steps_pathOf valid' known' s] at ends
  exact fileName_inj valid valid' known known'
    (List.singleton_inj.mp (List.append_cancel_left ends)).symm

theorem location_inj (stands : v.StandsFor (s.pathOf id extension) location)
    (stands' : v.StandsFor (s.pathOf other extension') location) :
    id = other ∧ extension = extension' := by
  obtain ⟨here, reached, rfl⟩ := of_standsFor_pathOf valid known stands
  obtain ⟨there, reached', same⟩ := of_standsFor_pathOf valid' known' stands'
  obtain rfl := Except.ok.inj (reached.symm.trans reached')
  exact fileName_inj valid valid' known known'
    (List.singleton_inj.mp (List.append_cancel_left same))

end Files

theorem mem_paths_iff {path : String} :
    path ∈ s.paths id ↔ ∃ extension ∈ extensions, s.pathOf id extension = path := List.mem_map

theorem length_steps_of_mem_directories {place : String} (higher : place ∈ s.directories) :
    (steps place).length ≤ (steps s.directory).length := by
  rcases List.mem_cons.mp higher with rfl | above
  · exact le_rfl
  · exact Nat.le_of_lt (Path.length_steps_of_mem_above above)

/-- The files of an id are directly in the store's directory, by their paths and where these lead;
no other id has any of them, and none is among the directories that saving makes. -/
structure OwnFiles (s : Store) (id : String) : Prop where
  child (extension : String) : extension ∈ extensions →
    Path.isAbsolute (s.pathOf id extension) = Path.isAbsolute s.directory ∧
      steps (s.pathOf id extension) = steps s.directory ++ [fileName id extension]
  located (v : Volume) (extension : String) (location : Location) : extension ∈ extensions →
    v.StandsFor (s.pathOf id extension) location →
      ∃ here, v.follow (v.start s.directory) (steps s.directory) = .ok here ∧
        location = here ++ [fileName id extension]
  disjoint (other : String) : isValidId other = true → other ≠ id →
    (s.paths id).Disjoint (s.paths other)
  apart (v : Volume) (other path path' : String) (location : Location) :
    isValidId other = true → other ≠ id → path ∈ s.paths id → path' ∈ s.paths other →
      v.StandsFor path location → ¬ v.StandsFor path' location
  directories : s.directories.Disjoint (s.paths id)

theorem ownFiles (s : Store) (valid : isValidId id = true) : s.OwnFiles id where
  child _ known := ⟨isAbsolute_pathOf valid known s, steps_pathOf valid known s⟩
  located _ _ _ known stands := of_standsFor_pathOf valid known stands
  disjoint other valid' different path own foreign := by
    obtain ⟨extension, known, rfl⟩ := mem_paths_iff.mp own
    obtain ⟨extension', known', same⟩ := mem_paths_iff.mp foreign
    exact different (pathOf_inj valid' known' valid known same).1
  apart v other path path' location valid' different own foreign stands stands' := by
    obtain ⟨extension, known, rfl⟩ := mem_paths_iff.mp own
    obtain ⟨extension', known', rfl⟩ := mem_paths_iff.mp foreign
    exact different (location_inj valid' known' valid known stands' stands).1
  directories place higher own := by
    obtain ⟨extension, known, rfl⟩ := mem_paths_iff.mp own
    have short := length_steps_of_mem_directories higher
    rw [steps_pathOf valid known, List.length_append, List.length_singleton] at short
    omega

/-- A program answers without accessing anything. -/
structure AnswersAtOnce {α : Type} (v : Volume) (a : α) (watched : Watched α)
    (program : StateM Volume α) : Prop where
  answer : v.answer program = a
  after : v.after program = v
  accesses : v.accesses watched = []

theorem answersAtOnce_pure {α : Type} (a : α) : AnswersAtOnce v a (pure a) (pure a) :=
  ⟨rfl, rfl, rfl⟩

/-- Loading and saving under an id are refused at once. -/
structure Refuses (s : Store) (v : Volume) (id : String) : Prop where
  readSnapshot : AnswersAtOnce v (.error (.invalidId id)) (s.readSnapshot id) (s.readSnapshot id)
  readTopology : AnswersAtOnce v (.error (.invalidId id)) (s.readTopology id) (s.readTopology id)
  save (x : Snapshot) : x.topologyId = id →
    AnswersAtOnce v (.error (.invalidId id)) (s.save x) (s.save x)

theorem refuses (s : Store) (v : Volume) (invalid : isValidId id = false) : s.Refuses v id := by
  have refused : ¬ isValidId id = true := by simp [invalid]
  refine ⟨?_, ?_, ?_⟩
  · rw [readSnapshot, readSnapshot, if_neg refused, if_neg refused]
    exact answersAtOnce_pure _
  · rw [readTopology, readTopology, readSnapshot, readSnapshot, if_neg refused, if_neg refused]
    exact answersAtOnce_pure _
  · rintro x rfl
    rw [save, save, if_neg refused, if_neg refused]
    exact answersAtOnce_pure _

/-- Loading and saving under an id keep to its files. -/
structure Confines (s : Store) (v : Volume) (id : String) : Prop where
  readSnapshot : Keeps v (s.MayRead v id) (s.readSnapshot id) (s.readSnapshot id)
  readTopology : Keeps v (s.MayRead v id) (s.readTopology id) (s.readTopology id)
  save (x : Snapshot) : x.topologyId = id → Keeps v (s.MaySave id) (s.save x) (s.save x)

theorem confines (s : Store) (v : Volume) (valid : isValidId id = true) : s.Confines v id where
  readSnapshot := keeps_readSnapshot valid .look .read
  readTopology := keeps_readTopology (keeps_readSnapshot valid .look .read)
  save := by
    rintro x rfl
    exact keeps_save valid .make .look .write

/-- What is read is the document of the first file under the requested id, if the document declares
that id or none; no other file has any influence. -/
structure Serves (s : Store) (v : Volume) (id : String) : Prop where
  own (x : Snapshot) : v.answer (s.readSnapshot id) = .ok x ↔
    ∃ extension content text document, s.firstFile? v id = some (extension, content) ∧
      String.fromUTF8? content = some text ∧ parse? extension text = some document ∧
      (document.topologyId = "" ∨ document.topologyId = id) ∧
      x = { document with topologyId := id }
  requested (x : Snapshot) : v.answer (s.readSnapshot id) = .ok x → x.topologyId = id
  loaded (t : Topology) : v.answer (s.readTopology id) = .ok t → t.id = id
  blind (w : Volume) : s.firstFile? w id = s.firstFile? v id →
    w.answer (s.readSnapshot id) = v.answer (s.readSnapshot id) ∧
      w.answer (s.readTopology id) = v.answer (s.readTopology id)
  mismatch (extension text : String) (content : ByteArray) (document : Snapshot) :
    s.firstFile? v id = some (extension, content) → String.fromUTF8? content = some text →
    parse? extension text = some document → document.topologyId ≠ "" →
    document.topologyId ≠ id →
      v.answer (s.readSnapshot id) =
          .error (.idMismatch (s.pathOf id extension) document.topologyId id) ∧
        v.answer (s.readTopology id) =
          .error (.idMismatch (s.pathOf id extension) document.topologyId id)

theorem claim_eq_ok_iff {path : String} {document x : Snapshot} :
    claim id path document = .ok x ↔
      (document.topologyId = "" ∨ document.topologyId = id) ∧
        x = { document with topologyId := id } := by
  unfold claim
  by_cases undeclared : document.topologyId = ""
  · rw [if_pos undeclared, Except.ok.injEq]
    exact ⟨fun same => ⟨.inl undeclared, same.symm⟩, fun claimed => claimed.2.symm⟩
  · rw [if_neg undeclared]
    by_cases declared : document.topologyId = id
    · subst declared
      rw [if_pos rfl, Except.ok.injEq]
      exact ⟨fun same => ⟨.inr rfl, same.symm⟩, fun claimed => claimed.2.symm⟩
    · rw [if_neg declared]
      refine ⟨fun refused => ?_, fun claimed => (claimed.1.elim undeclared declared).elim⟩
      cases refused

theorem outcome_eq_ok_iff {found : Option (String × ByteArray)} {x : Snapshot} :
    s.outcome id found = .ok x ↔
      ∃ extension content text document, found = some (extension, content) ∧
        String.fromUTF8? content = some text ∧ parse? extension text = some document ∧
        (document.topologyId = "" ∨ document.topologyId = id) ∧
        x = { document with topologyId := id } := by
  constructor
  · intro answered
    unfold outcome at answered
    split at answered
    · cases answered
    · next extension content =>
      split at answered
      · cases answered
      · next text decoded =>
        split at answered
        · cases answered
        · next document parsed =>
          exact ⟨extension, content, text, document, rfl, decoded, parsed,
            claim_eq_ok_iff.mp answered⟩
  · rintro ⟨extension, content, text, document, rfl, decoded, parsed, claimed⟩
    simp only [outcome, decoded, parsed]
    exact claim_eq_ok_iff.mpr claimed

theorem topologyId_of_outcome {found : Option (String × ByteArray)} {x : Snapshot}
    (answered : s.outcome id found = .ok x) : x.topologyId = id := by
  obtain ⟨_, _, _, _, _, _, _, _, rfl⟩ := outcome_eq_ok_iff.mp answered
  rfl

theorem serves (s : Store) (v : Volume) (valid : isValidId id = true) : s.Serves v id where
  own x := by
    rw [answer_readSnapshot_eq valid]
    exact outcome_eq_ok_iff
  requested x read := topologyId_of_outcome ((answer_readSnapshot_eq valid).symm.trans read)
  loaded t loaded := by
    rw [answer_readTopology, answer_readSnapshot_eq valid] at loaded
    cases answered : s.outcome id (s.firstFile? v id) with
    | error fault =>
      rw [answered] at loaded
      cases loaded
    | ok x =>
      rw [answered] at loaded
      cases validated : x.validate with
      | error fault => simp [Except.bind, Except.mapError, validated] at loaded
      | ok topology =>
        obtain rfl : topology = t := by simpa [Except.bind, Except.mapError, validated] using loaded
        exact (Snapshot.validate_eq_ok validated).2.id.trans (topologyId_of_outcome answered)
  blind w same := by
    have snapshots : w.answer (s.readSnapshot id) = v.answer (s.readSnapshot id) := by
      rw [answer_readSnapshot_eq valid, answer_readSnapshot_eq valid, same]
    exact ⟨snapshots, by rw [answer_readTopology, answer_readTopology, snapshots]⟩
  mismatch extension text content document first decoded parsed declared different := by
    have answered : v.answer (s.readSnapshot id) =
        .error (.idMismatch (s.pathOf id extension) document.topologyId id) := by
      rw [answer_readSnapshot_eq valid, first]
      simp only [outcome, decoded, parsed, claim, if_neg declared, if_neg different]
    exact ⟨answered, by rw [answer_readTopology, answered]; rfl⟩

/-- Loading and saving keep to the files of the requested id, whatever text it is: if it cannot name
a file they are refused before anything is accessed, and otherwise no other snapshot's files are
accessed, none but the first file is read, and the answer depends on nothing else. -/
theorem keeps_to_own_files (s : Store) (id : String) :
    (isValidId id = false → ∀ v, s.Refuses v id) ∧
      (isValidId id = true → s.OwnFiles id ∧ ∀ v, s.Confines v id ∧ s.Serves v id) :=
  ⟨fun invalid v => s.refuses v invalid,
    fun valid => ⟨s.ownFiles valid, fun v => ⟨s.confines v valid, s.serves v valid⟩⟩⟩

-- The second extension is looked for before the third, which is not even looked at.
example :
    let v : Volume := ⟨[(["p"], .directory), (["p", "lab.yml"], .file "topology_id: x".toUTF8),
      (["p", "lab.json"], .file "{}".toUTF8)], []⟩
    v.accesses ((Store.mk "p").readSnapshot "lab") =
        [.look "p/lab.yaml", .look "p/lab.yml", .read "p/lab.yml"] ∧
      v.answer ((Store.mk "p").readSnapshot "lab") =
        .error (.idMismatch "p/lab.yml" "x" "lab") := by
  decide +kernel

end Store
end Estate.Storage
