import Estate.Proofs.Storage.Directories
import Estate.Proofs.Storage.FirstFile

/-! The store as a map from ids to snapshots. Saving writes one file, which the reader finds before
any other file of the same id and not for other ids, and whose id the list takes from its name. -/
namespace Estate.Storage

variable {v w : Volume} {here : Location}

namespace Store

variable {s : Store} {x : Snapshot} {id extension : String}

/-- What is stored after saves: every id has the snapshot that was saved last under it or else what
it had before, and the list has the ids of both. -/
structure Updates (s : Store) (v w : Volume) (saved : List Snapshot) : Prop where
  read (id : String) : isValidId id = true → w.answer (s.readSnapshot id) =
    ((saved.filter (·.topologyId = id)).getLast?).elim (v.answer (s.readSnapshot id)) .ok
  listed (ids : List String) : v.answer s.list = .ok ids → ∃ union, w.answer s.list = .ok union ∧
    union.Pairwise (· < ·) ∧ ∀ id, id ∈ union ↔
      id ∈ ids ∨ ∃ x ∈ saved, isValidId x.topologyId = true ∧ x.topologyId = id
  refused (fault : StoreError) : v.answer s.list = .error fault → w.answer s.list = .error fault

theorem Updates.of_same (reads : ∀ id, isValidId id = true →
    w.answer (s.readSnapshot id) = v.answer (s.readSnapshot id))
    (lists : w.answer s.list = v.answer s.list) : s.Updates v w [] where
  read := reads
  listed ids listed := ⟨ids, lists.trans listed, pairwise_of_list listed, by simp⟩
  refused fault refused := lists.trans refused

theorem Updates.trans {u : Volume} {earlier later : List Snapshot} (first : s.Updates v u earlier)
    (second : s.Updates u w later) : s.Updates v w (earlier ++ later) where
  read id valid := by
    rw [second.read id valid, first.read id valid, List.filter_append, List.getLast?_append]
    cases (later.filter (·.topologyId = id)).getLast? <;> rfl
  listed ids listed := by
    obtain ⟨between, listed, _, members⟩ := first.listed ids listed
    obtain ⟨union, listed, sorted, members'⟩ := second.listed between listed
    refine ⟨union, listed, sorted, fun id => ?_⟩
    rw [members', members]
    simp only [List.mem_append, or_and_right, exists_or, or_assoc]
  refused fault refused := second.refused fault (first.refused fault refused)

/-- A snapshot that is saved under no valid id is not found. -/
theorem Updates.of_invalid (invalid : isValidId x.topologyId = false) : s.Updates v v [x] where
  read id valid := by
    have other : x.topologyId ≠ id := by
      rintro rfl
      exact Bool.false_ne_true (invalid.symm.trans valid)
    simp [other]
  listed ids listed := ⟨ids, listed, pairwise_of_list listed, by simp [invalid]⟩
  refused _ refused := refused

/-- A new directory has no snapshots, and neither has one that is missing. -/
theorem updates_of_opens (named : s.directory ≠ "") (tree : v.IsTree)
    (opens : Opens v w s.directory here) : s.Updates v w [] := by
  have missing (location : Location) : v.locate? s.directory ≠ some location := fun reached => by
    cases (Volume.follow_steps_of_locate? reached).symm.trans opens.missing
  refine .of_same (fun id valid => answer_readSnapshot_congr valid fun extension known => ?_) ?_
  · have before : v.find? (s.pathOf id extension) = none := by
      refine Option.eq_none_iff_forall_not_mem.mpr fun entry found => ?_
      obtain ⟨_, there, above, _⟩ := (find?_pathOf valid known named).mp found
      exact missing there above
    have now : w.find? (s.pathOf id extension) = none := by
      refine Option.eq_none_iff_forall_not_mem.mpr fun entry found => ?_
      obtain ⟨_, there, above, _, below⟩ := (find?_pathOf valid known named).mp found
      obtain rfl := Option.some.inj (opens.reached.symm.trans above)
      rw [opens.founds.entry?_below tree] at below
      cases below
    rw [before, now]
  · have nothing : v.find? s.directory = none := by
      rw [Volume.find?, Option.eq_none_iff_forall_not_mem.mpr missing]
      rfl
    have empty : w.namesBelow here = [] :=
      List.eq_nil_iff_forall_not_mem.mpr fun name below => by
        rw [mem_namesBelow, opens.founds.entry?_below tree] at below
        cases below
    have before : v.answer s.list = .ok [] := by rw [answer_list, nothing]
    rw [before, answer_list_of_directory opens.reached opens.isDirectory, empty]
    rfl

/-- The text that a snapshot is written as is read as that snapshot. -/
def IsReadBack (x : Snapshot) : Prop :=
  (Yaml.read? (Yaml.print (Snapshot.schema.write x))).bind (Snapshot.schema.read .yaml) = some x

instance : Decidable (IsReadBack x) := by
  unfold IsReadBack
  infer_instance

/-- The file that a snapshot is written to. -/
abbrev fileOf (x : Snapshot) : Entry := .file (Yaml.print (Snapshot.schema.write x)).toUTF8

/-- The volume with the file of a snapshot at a location. -/
abbrev withFile (v : Volume) (here : Location) (x : Snapshot) : Volume :=
  v.put (here ++ [fileName x.topologyId "yaml"]) (fileOf x)

/-- The file of a snapshot can be written into the store's directory, which is there. -/
structure Admits (s : Store) (v : Volume) (x : Snapshot) (here : Location) : Prop where
  valid : isValidId x.topologyId = true
  above : v.locate? s.directory = some here
  directory : v.isDirectory here = true
  proper : Volume.isPath (s.pathOf x.topologyId "yaml") = true
  short : (fileName x.topologyId "yaml").utf8ByteSize ≤ Volume.nameLimit
  free : v.isDirectory (here ++ [fileName x.topologyId "yaml"]) = false

namespace Admits

variable (admits : s.Admits v x here)
include admits

theorem named : s.directory ≠ "" := fun empty => by
  obtain ⟨proper, _⟩ := Volume.locate?_eq_some_iff.mp admits.above
  simp [empty, Volume.isPath] at proper

theorem grows : v.Grows (withFile v here x) := .put admits.free

theorem isDirectory_put : (withFile v here x).isDirectory here = true :=
  admits.grows.isDirectory here admits.directory

/-- Writing the file of a snapshot changes what is found under its own name only. -/
theorem find?_put (valid : isValidId id = true) (known : extension ∈ extensions) :
    (withFile v here x).find? (s.pathOf id extension) =
      if id = x.topologyId ∧ extension = "yaml" then some (fileOf x)
      else v.find? (s.pathOf id extension) := by
  have yaml : "yaml" ∈ extensions := by decide
  have above := admits.grows.locate? admits.above
  by_cases own : id = x.topologyId ∧ extension = "yaml"
  · obtain ⟨rfl, rfl⟩ := own
    rw [if_pos ⟨rfl, rfl⟩]
    refine (find?_pathOf valid known admits.named).mpr ⟨⟨admits.proper, admits.short⟩, here, above,
      admits.isDirectory_put, ?_⟩
    rw [Volume.entry?_put, if_pos rfl]
  · have other : here ++ [fileName id extension] ≠ here ++ [fileName x.topologyId "yaml"] :=
      fun same => own (fileName_inj valid admits.valid known yaml
        (List.singleton_inj.mp (List.append_cancel_left same)))
    rw [if_neg own]
    refine Option.ext fun entry => ?_
    rw [find?_pathOf valid known admits.named, find?_pathOf valid known admits.named]
    refine and_congr_right fun _ => ⟨?_, ?_⟩
    · rintro ⟨there, reached, _, below⟩
      obtain rfl := Option.some.inj (above.symm.trans reached)
      rw [Volume.entry?_put, if_neg other] at below
      exact ⟨here, admits.above, admits.directory, below⟩
    · rintro ⟨there, reached, _, below⟩
      obtain rfl := Option.some.inj (admits.above.symm.trans reached)
      refine ⟨here, above, admits.isDirectory_put, ?_⟩
      rw [Volume.entry?_put, if_neg other]
      exact below

theorem answer_readSnapshot_put (readBack : IsReadBack x) :
    (withFile v here x).answer (s.readSnapshot x.topologyId) = .ok x := by
  have yaml : "yaml" ∈ extensions := by decide
  have there := admits.find?_put admits.valid yaml
  rw [if_pos ⟨rfl, rfl⟩] at there
  have first : s.firstFile? (withFile v here x) x.topologyId =
      some ("yaml", (Yaml.print (Snapshot.schema.write x)).toUTF8) := by
    rw [firstFile?, extensions, List.findSome?_cons, Volume.content?, there]
    rfl
  have parsed : parse? "yaml" (Yaml.print (Snapshot.schema.write x)) = some x := by
    rw [parse?, if_neg (by decide), readBack]
  rw [answer_readSnapshot_eq admits.valid, first]
  simp only [outcome, fromUTF8?_toUTF8, parsed, claim, if_true,
    if_neg (ne_empty_of_isValidId admits.valid)]

theorem updates (readBack : IsReadBack x) :
    s.Updates v (withFile v here x) [x] where
  read id valid := by
    by_cases own : x.topologyId = id
    · subst own
      simpa using admits.answer_readSnapshot_put readBack
    · have kept : (withFile v here x).answer (s.readSnapshot id) = v.answer (s.readSnapshot id) :=
        answer_readSnapshot_congr valid fun extension known => by
          rw [admits.find?_put valid known, if_neg fun same => own same.1.symm]
      simpa [own] using kept
  listed ids listed := by
    have yaml : "yaml" ∈ extensions := by decide
    rw [answer_list_of_directory admits.above admits.directory] at listed
    obtain rfl := Except.ok.inj listed
    refine ⟨_, answer_list_of_directory (admits.grows.locate? admits.above) admits.isDirectory_put,
      StringSet.pairwise_toList _, fun id => ?_⟩
    simp only [StringSet.mem_toList_ofList, List.mem_filterMap, mem_namesBelow, List.mem_singleton,
      exists_eq_left, admits.valid, true_and]
    constructor
    · rintro ⟨name, there, stands⟩
      rw [Volume.entry?_put] at there
      split at there
      · next same =>
        obtain rfl := List.singleton_inj.mp (List.append_cancel_left same)
        rw [idOfName?_fileName admits.valid yaml] at stands
        exact .inr (Option.some.inj stands)
      · exact .inl ⟨name, there, stands⟩
    · rintro (⟨name, there, stands⟩ | rfl)
      · exact ⟨name, admits.grows.isSome _ there, stands⟩
      · refine ⟨_, ?_, idOfName?_fileName admits.valid yaml⟩
        rw [Volume.entry?_put, if_pos rfl]
        rfl
  refused fault refused := by
    rw [answer_list_of_directory admits.above admits.directory] at refused
    cases refused

end Admits

/-- A volume in which the store's directory is there or can be made without going back up. -/
structure Fits (s : Store) (v : Volume) : Prop where
  named : s.directory ≠ ""
  tree : v.IsTree
  onward : v.LeadsOnward s.directory

/-- Whether the files refused a save. -/
def isRefused : Except StoreError String → Bool
  | .error (.unreadable _) => true
  | _ => false

theorem answer_save_invalid (invalid : isValidId x.topologyId = false) :
    v.answer (s.save x) = .error (.invalidId x.topologyId) ∧ v.after (s.save x) = v := by
  rw [save, if_neg (by simp [invalid])]
  exact ⟨rfl, rfl⟩

/-- Writing a file succeeds where the path has a place for one. -/
theorem answer_writeText (path text : String) :
    v.answer (Files.writeText path text) = (v.place? path).isSome ∧
      ∀ location, v.place? path = some location →
        v.after (Files.writeText path text) = v.put location (.file text.toUTF8) := by
  have run : (Files.writeText path text : StateM Volume Bool).run v =
      (v.write? path text.toUTF8).elim (false, v) fun next => (true, next) := by
    simp only [Files.writeText, StateT.run, modifyGet, MonadStateOf.modifyGet, StateT.modifyGet]
    cases v.write? path text.toUTF8 <;> rfl
  rw [Volume.answer, Volume.after, run, Volume.write?]
  cases v.place? path <;> simp

/-- The file of a valid snapshot is written once the directory is there. -/
theorem answer_save_valid (valid : isValidId x.topologyId = true)
    (written : isRefused (v.answer (s.save x)) = false) :
    v.answer (createDirectories s.directory) = true ∧
      v.answer (s.save x) = .ok (s.pathOf x.topologyId "yaml") ∧
      ∃ location, (v.after (createDirectories s.directory)).place?
          (s.pathOf x.topologyId "yaml") = some location ∧
        v.after (s.save x) =
          (v.after (createDirectories s.directory)).put location (fileOf x) := by
  rw [save, if_pos valid, answer_bind_after] at written ⊢
  rw [after_bind]
  cases made : v.answer (createDirectories s.directory) with
  | false =>
    rw [made] at written
    cases written
  | true =>
    rw [made, if_pos rfl, answer_bind_after] at written
    rw [if_pos rfl, answer_bind_after, after_bind]
    generalize v.after (createDirectories s.directory) = u at written ⊢
    obtain ⟨answered, after⟩ := answer_writeText (v := u) (s.pathOf x.topologyId "yaml")
      (Yaml.print (Snapshot.schema.write x))
    rw [answered] at written ⊢
    cases placed : u.place? (s.pathOf x.topologyId "yaml") with
    | none =>
      rw [placed] at written
      cases written
    | some location =>
      exact ⟨rfl, rfl, location, rfl, after location placed⟩

/-- A save updates the store by one snapshot, and leaves a volume for the next. -/
theorem save_step (fits : s.Fits v) (written : isRefused (v.answer (s.save x)) = false)
    (readBack : isValidId x.topologyId = true → IsReadBack x) :
    s.Fits (v.after (s.save x)) ∧ s.Updates v (v.after (s.save x)) [x] := by
  cases valid : isValidId x.topologyId with
  | false =>
    rw [(answer_save_invalid valid).2]
    exact ⟨fits, .of_invalid valid⟩
  | true =>
    have yaml : "yaml" ∈ extensions := by decide
    obtain ⟨made, _, location, placed, after⟩ := answer_save_valid valid written
    rw [after]
    -- Up to here the store has not changed, whether its directory was made or not.
    have opened : (v.after (createDirectories s.directory)).IsTree ∧
        s.Updates v (v.after (createDirectories s.directory)) [] := by
      rw [createDirectories, if_neg fits.named] at made ⊢
      rcases ensureDirectory_cases fits.tree fits.onward made with finds | ⟨here, opens⟩
      · rw [finds.same]
        exact ⟨fits.tree, .of_same (fun _ _ => rfl) rfl⟩
      · exact ⟨opens.tree, updates_of_opens fits.named fits.tree opens⟩
    obtain ⟨tree, unchanged⟩ := opened
    generalize v.after (createDirectories s.directory) = u at placed tree unchanged ⊢
    obtain ⟨proper, here, above, directory, short, free, rfl⟩ :=
      Volume.of_place?_join fits.named (isName_fileName valid yaml) placed
    have admits : s.Admits u x here := ⟨valid, above, directory, proper, short, free⟩
    have reached := Volume.follow_steps_of_locate? (admits.grows.locate? above)
    have onward : Volume.LeadsOnward (withFile u here x) s.directory :=
      ⟨_, [], here, (List.append_nil _).symm, reached, List.not_mem_nil⟩
    exact ⟨⟨fits.named, tree.put directory free, onward⟩,
      unchanged.trans (admits.updates (readBack valid))⟩

/-- Saves update the store one after the other, and each answers the path of its file unless its
id is invalid. -/
theorem saves_update (fits : s.Fits v) {saved : List Snapshot}
    (written : ∀ result ∈ v.answer (saved.mapM s.save), isRefused result = false)
    (readBack : ∀ x ∈ saved, isValidId x.topologyId = true → IsReadBack x) :
    s.Updates v (v.after (saved.mapM s.save)) saved ∧
      v.answer (saved.mapM s.save) = saved.map fun x =>
        if isValidId x.topologyId then .ok (s.pathOf x.topologyId "yaml")
        else .error (.invalidId x.topologyId) := by
  induction saved generalizing v with
  | nil => exact ⟨.of_same (fun _ _ => rfl) rfl, rfl⟩
  | cons x rest ih =>
    have answered : v.answer ((x :: rest).mapM s.save) =
        v.answer (s.save x) :: (v.after (s.save x)).answer (rest.mapM s.save) := by
      rw [List.mapM_cons]
      rfl
    have after : v.after ((x :: rest).mapM s.save) =
        (v.after (s.save x)).after (rest.mapM s.save) := by
      rw [List.mapM_cons]
      rfl
    rw [answered] at written ⊢
    rw [after]
    obtain ⟨first, later⟩ := List.forall_mem_cons.mp written
    obtain ⟨readFirst, readLater⟩ := List.forall_mem_cons.mp readBack
    obtain ⟨fits, update⟩ := save_step fits first readFirst
    obtain ⟨updates, results⟩ := ih fits later readLater
    refine ⟨update.trans updates, ?_⟩
    rw [results, List.map_cons]
    refine congrArg (· :: _) ?_
    cases valid : isValidId x.topologyId with
    | false => exact (answer_save_invalid valid).1
    | true => exact (answer_save_valid valid first).2.1

/-- Under any saves the store acts as a map, as long as the files refuse none of them and snapshots
are read as they were written: an id has the snapshot saved last under it, the list grows by the ids
saved, and a save under an invalid id changes nothing. -/
theorem saves_act_as_map (s : Store) (v : Volume) (saved : List Snapshot) (fits : s.Fits v)
    (written : ∀ result ∈ v.answer (saved.mapM s.save), isRefused result = false)
    (readBack : ∀ x ∈ saved, isValidId x.topologyId = true → IsReadBack x) :
    s.Updates v (v.after (saved.mapM s.save)) saved ∧
    (v.answer (saved.mapM s.save) = saved.map fun x =>
      if isValidId x.topologyId then .ok (s.pathOf x.topologyId "yaml")
      else .error (.invalidId x.topologyId)) ∧
    ∀ x, isValidId x.topologyId = false → ∀ u : Volume,
      u.answer (s.save x) = .error (.invalidId x.topologyId) ∧ u.after (s.save x) = u := by
  obtain ⟨updates, results⟩ := saves_update fits written readBack
  exact ⟨updates, results, fun _ invalid _ => answer_save_invalid invalid⟩

/-- A topology is saved twice where an older file of it has another extension, and once under an id
that no file can have. -/
theorem saves_act_as_map_acme :
    let v : Volume := ⟨[(["p"], .directory), (["p", "acme.yml"], .file "name: old\n".toUTF8),
      (["p", "shop.json"], .file "{}".toUTF8)], []⟩
    let s : Store := ⟨"p"⟩
    let saved : List Snapshot :=
      [⟨"acme", "first", [], [], []⟩, ⟨"a/b", "", [], [], []⟩, ⟨"acme", "second", [], [], []⟩]
    s.Updates v (v.after (saved.mapM s.save)) saved ∧
    (v.after (saved.mapM s.save)).answer (s.readSnapshot "acme") =
      .ok ⟨"acme", "second", [], [], []⟩ := by
  intro v s saved
  have fits : s.Fits v :=
    ⟨by decide, by decide, ["p"], [], ["p"], by decide, by decide +kernel, List.not_mem_nil⟩
  obtain ⟨updates, _, _⟩ :=
    saves_act_as_map s v saved fits (by decide +kernel) (by decide +kernel)
  exact ⟨updates, updates.read "acme" (by decide)⟩

/-- A path that goes back up from a name that is missing leads to nothing, and so to no list, until
saving makes a directory of that name; the empty path never leads to anything. -/
theorem not_updates_of_path :
    let v : Volume := ⟨[(["b"], .directory), (["b", "x.yaml"], .file "name: x\n".toUTF8)], []⟩
    let y : Snapshot := ⟨"y", "", [], [], []⟩
    v.IsTree ∧ IsReadBack y ∧ ∀ s ∈ [Store.mk "a/../b", Store.mk ""],
      (∀ result ∈ v.answer ([y].mapM s.save), isRefused result = false) ∧
      ¬ s.Updates v (v.after ([y].mapM s.save)) [y] := by
  intro v y
  refine ⟨by decide, by decide +kernel, List.forall_mem_cons.mpr
    ⟨⟨by decide +kernel, fun updates => ?appears⟩,
      List.forall_mem_singleton.mpr ⟨by decide +kernel, fun updates => ?unlisted⟩⟩⟩
  case appears =>
    obtain ⟨union, after, _, members⟩ := updates.listed [] (by decide +kernel)
    have now : (v.after ([y].mapM (Store.mk "a/../b").save)).answer (Store.mk "a/../b").list =
        .ok ["x", "y"] := by decide +kernel
    obtain rfl := Except.ok.inj (now.symm.trans after)
    have stale := (members "x").mp List.mem_cons_self
    simp [y] at stale
  case unlisted =>
    obtain ⟨union, after, _, members⟩ := updates.listed [] (by decide +kernel)
    have now : (v.after ([y].mapM (Store.mk "").save)).answer (Store.mk "").list = .ok [] := by
      decide +kernel
    obtain rfl := Except.ok.inj (now.symm.trans after)
    have lost := (members "y").mpr (.inr ⟨y, List.mem_cons_self, by decide, rfl⟩)
    simp at lost

end Store
end Estate.Storage
