import Estate.Proofs.Storage.Directories
import Estate.Proofs.Storage.FirstFile

/-! Which paths programs access. A watched program performs the same operations on a volume and
notes each of them with its path, so that what it may access can be told step by step. -/
namespace Estate.Storage
open Document

variable {α β : Type}

/-- An operation on files, by the path that it is given. -/
inductive Access where
  | look (path : String)
  | read (path : String)
  | names (path : String)
  | make (path : String)
  | write (path : String)
  | absolute (path : String)
deriving DecidableEq

/-- Programs that work on a volume and note what they access. -/
abbrev Watched : Type → Type := StateT (List Access) (StateM Volume)

/-- Notes an access before an operation. -/
def noting (access : Access) (operation : StateM Volume α) : Watched α := do
  modify (· ++ [access])
  operation

instance : Files Watched where
  kind? path := noting (.look path) (Files.kind? path)
  readText? path := noting (.read path) (Files.readText? path)
  names? path := noting (.names path) (Files.names? path)
  makeDirectory path := noting (.make path) (Files.makeDirectory path)
  writeText path text := noting (.write path) (Files.writeText path text)
  absolute? path := noting (.absolute path) (Files.absolute? path)

/-- What a program accesses, in order. -/
def Volume.accesses (v : Volume) (watched : Watched α) : List Access :=
  ((watched.run []).run v).1.2

/-- Being watched changes nothing about what a program answers and leaves, and all that it accesses
is allowed. -/
def Keeps (v : Volume) (allowed : Access → Prop) (watched : Watched α)
    (program : StateM Volume α) : Prop :=
  ∀ log, ∃ noted, (watched.run log).run v = ((v.answer program, log ++ noted), v.after program) ∧
    ∀ access ∈ noted, allowed access

variable {v : Volume} {allowed : Access → Prop}

namespace Keeps

variable {watched : Watched α} {program : StateM Volume α} {watchedNext : α → Watched β}
  {next : α → StateM Volume β}

theorem accesses (keeps : Keeps v allowed watched program) :
    ∀ access ∈ v.accesses watched, allowed access := by
  obtain ⟨noted, ran, permitted⟩ := keeps []
  rw [Volume.accesses, ran]
  exact permitted

theorem pure (a : α) : Keeps v allowed (pure a) (pure a) := fun log =>
  ⟨[], by rw [List.append_nil]; rfl, List.forall_mem_nil _⟩

theorem noting {access : Access} (permitted : allowed access) (operation : StateM Volume α) :
    Keeps v allowed (noting access operation) operation := fun _ =>
  ⟨[access], rfl, List.forall_mem_singleton.mpr permitted⟩

theorem bind (first : Keeps v allowed watched program)
    (later : Keeps (v.after program) allowed (watchedNext (v.answer program))
      (next (v.answer program))) :
    Keeps v allowed (watched >>= watchedNext) (program >>= next) := by
  intro log
  obtain ⟨noted, ran, permitted⟩ := first log
  obtain ⟨noted', ran', permitted'⟩ := later (log ++ noted)
  have onward : ((watched >>= watchedNext).run log).run v =
      ((watchedNext ((watched.run log).run v).1.1).run ((watched.run log).run v).1.2).run
        ((watched.run log).run v).2 := rfl
  refine ⟨noted ++ noted', ?_, List.forall_mem_append.mpr ⟨permitted, permitted'⟩⟩
  rw [onward, ran]
  exact ran'.trans (by rw [List.append_assoc]; rfl)

theorem bind_inert (inert : Inert program) (first : Keeps v allowed watched program)
    (later : Keeps v allowed (watchedNext (v.answer program)) (next (v.answer program))) :
    Keeps v allowed (watched >>= watchedNext) (program >>= next) :=
  first.bind (by rwa [Volume.after, inert v])

end Keeps

theorem keeps_readDocument {schema : Schema α} {path : String} (reads : allowed (.read path)) :
    Keeps v allowed (readDocument schema path) (readDocument schema path) := by
  unfold readDocument
  refine (Keeps.noting reads _).bind_inert (inert_readText? path) ?_
  cases v.answer (Files.readText? path) with
  | none => exact .pure _
  | some text =>
    dsimp only
    split <;> exact .pure _

section Directories

variable {path : String} {above : List String}

theorem keeps_isSettled (looks : allowed (.look path)) (making : Making) :
    Keeps v allowed (isSettled path making) (isSettled path making) := by
  cases making with
  | present => exact (Keeps.noting looks _).bind_inert (inert_kind? path) (.pure _)
  | made | missing | refused => exact .pure _

theorem keeps_settle (makes : allowed (.make path)) (looks : allowed (.look path)) :
    Keeps v allowed (mkdir path) (mkdir path) :=
  (Keeps.noting makes _).bind (keeps_isSettled looks _)

theorem keeps_ensureDirectory (makes : ∀ place ∈ path :: above, allowed (.make place))
    (looks : ∀ place ∈ path :: above, allowed (.look place)) :
    Keeps v allowed (ensureDirectory path above) (ensureDirectory path above) := by
  induction above generalizing v path with
  | nil =>
    rw [ensureDirectory_nil, ensureDirectory_nil]
    exact keeps_settle (makes path List.mem_cons_self) (looks path List.mem_cons_self)
  | cons parent higher ih =>
    obtain ⟨make, makesAbove⟩ := List.forall_mem_cons.mp makes
    obtain ⟨look, looksAbove⟩ := List.forall_mem_cons.mp looks
    rw [ensureDirectory_cons, ensureDirectory_cons]
    -- Those above are made in the volume that the first attempt leaves, whatever it is.
    refine (Keeps.noting make _).bind ?_
    by_cases missing : v.answer (Files.makeDirectory path) = .missing
    · simp only [if_pos missing]
      refine (ih makesAbove looksAbove).bind ?_
      split
      · exact keeps_settle make look
      · exact .pure _
    · simp only [if_neg missing]
      exact keeps_isSettled look _

theorem keeps_createDirectories
    (makes : ∀ place ∈ path :: Path.above path, allowed (.make place))
    (looks : ∀ place ∈ path :: Path.above path, allowed (.look place)) :
    Keeps v allowed (createDirectories path) (createDirectories path) := by
  unfold createDirectories
  split
  · exact .pure _
  · exact keeps_ensureDirectory makes looks

end Directories

namespace Store

variable {s : Store} {id : String} {x : Snapshot}

theorem keeps_findFile? {among : List String}
    (looks : ∀ extension ∈ among, allowed (.look (s.pathOf id extension))) :
    Keeps v allowed (s.findFile? id among) (s.findFile? id among) := by
  induction among with
  | nil => exact .pure _
  | cons extension rest ih =>
    obtain ⟨look, others⟩ := List.forall_mem_cons.mp looks
    unfold findFile?
    refine (Keeps.noting look _).bind_inert (inert_kind? _) ?_
    split
    · exact .pure _
    · exact ih others

theorem keeps_readSnapshot (valid : isValidId id = true)
    (looks : ∀ extension ∈ extensions, allowed (.look (s.pathOf id extension)))
    (reads : ∀ extension content, s.firstFile? v id = some (extension, content) →
      allowed (.read (s.pathOf id extension))) :
    Keeps v allowed (s.readSnapshot id) (s.readSnapshot id) := by
  unfold readSnapshot
  rw [if_pos valid, if_pos valid]
  refine (keeps_findFile? looks).bind_inert (inert_findFile? s id extensions) ?_
  have found : v.answer (s.findFile? id extensions) =
      (s.firstFile? v id).map fun first => s.pathOf id first.1 := answer_findFile? extensions
  rw [found]
  cases first : s.firstFile? v id with
  | none => exact .pure _
  | some file =>
    refine (keeps_readDocument (reads file.1 file.2 first)).bind_inert (inert_readDocument _ _) ?_
    split <;> exact .pure _

theorem keeps_readTopology (keeps : Keeps v allowed (s.readSnapshot id) (s.readSnapshot id)) :
    Keeps v allowed (s.readTopology id) (s.readTopology id) := by
  unfold readTopology
  refine keeps.bind_inert (inert_readSnapshot s id) ?_
  split
  · exact .pure _
  · split <;> exact .pure _

theorem keeps_save (valid : isValidId x.topologyId = true)
    (makes : ∀ place ∈ s.directory :: Path.above s.directory, allowed (.make place))
    (looks : ∀ place ∈ s.directory :: Path.above s.directory, allowed (.look place))
    (writes : allowed (.write (s.pathOf x.topologyId "yaml"))) :
    Keeps v allowed (s.save x) (s.save x) := by
  unfold save
  rw [if_pos valid, if_pos valid]
  refine (keeps_createDirectories makes looks).bind ?_
  split
  · refine (Keeps.noting writes _).bind ?_
    split <;> exact .pure _
  · exact .pure _

end Store
end Estate.Storage
