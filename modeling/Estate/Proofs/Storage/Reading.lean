import Estate.Project.Operations
import Estate.Storage.Volume

/-! What programs learn from a volume. Reading leaves the volume as it is, so that what a sequence
of reading steps answers can be told step by step. -/
namespace Estate.Storage
open Project

variable {α β ε : Type} {v : Volume}

/-- Operations on a project that work on a volume and may fail. -/
abbrev OnVolume (α : Type) : Type := ExceptT ProjectError (StateM Volume) α

/-- What a program returns when it works on a volume. -/
def Volume.answer (v : Volume) (program : StateM Volume α) : α := (program.run v).1

/-- The program leaves every volume as it is. -/
def Inert (program : StateM Volume α) : Prop := ∀ v, (program.run v).2 = v

theorem inert_pure (a : α) : Inert (pure a) := fun _ => rfl

theorem inert_get : Inert get := fun _ => rfl

namespace Inert

variable {first : StateM Volume α} {next : α → StateM Volume β}

theorem run_bind (inert : Inert first) (next : α → StateM Volume β) :
    (first >>= next).run v = (next (v.answer first)).run v := by
  have kept : (first.run v).2 = v := inert v
  have onward : (first >>= next).run v = (next (v.answer first)).run (first.run v).2 := rfl
  rw [onward, kept]

/-- After a step that leaves the volume as it is, the next one works on the same volume. -/
theorem answer_bind (inert : Inert first) (next : α → StateM Volume β) :
    v.answer (first >>= next) = v.answer (next (v.answer first)) :=
  congrArg Prod.fst (inert.run_bind next)

theorem bind (inert : Inert first) (later : ∀ a, Inert (next a)) : Inert (first >>= next) := by
  intro v
  rw [inert.run_bind]
  exact later _ v

end Inert

theorem inert_kind? (path : String) : Inert (Files.kind? path) := fun _ => rfl

theorem inert_absolute? (path : String) : Inert (Files.absolute? path) := fun _ => rfl

theorem inert_readText? (path : String) : Inert (Files.readText? path) := by
  refine inert_get.bind fun v => ?_
  split <;> exact inert_pure _

theorem inert_readDocument (schema : Document.Schema α) (path : String) :
    Inert (readDocument schema path) := by
  refine (inert_readText? path).bind fun text => ?_
  cases text with
  | none => exact inert_pure _
  | some text => 
    dsimp only
    split
    · exact inert_pure _
    · exact inert_pure _

theorem answer_readDocument {schema : Document.Schema α} {path text : String}
    (read : v.answer (Files.readText? path) = some text) :
    v.answer (readDocument schema path) =
      if Path.extension? path = some "json" then
        ((Json.read? text).bind (schema.read .json)).elim (.error (.malformedJson path)) .ok
      else
        ((Yaml.read? text).bind (schema.read .yaml)).elim (.error (.malformedYaml path)) .ok := by
  rw [readDocument, (inert_readText? path).answer_bind, read]
  dsimp only
  split <;> rfl

namespace Store

variable (s : Store)

theorem inert_findFile? (id : String) (extensions : List String) :
    Inert (s.findFile? id extensions) := by
  induction extensions with
  | nil => exact inert_pure _
  | cons extension rest ih =>
    refine (inert_kind? _).bind fun kind => ?_
    split
    · exact inert_pure _
    · exact ih

theorem inert_readSnapshot (id : String) : Inert (s.readSnapshot id) := by
  rw [readSnapshot]
  split
  · refine (s.inert_findFile? id extensions).bind fun file => ?_
    cases file with
    | none => exact inert_pure _
    | some path =>
      refine (inert_readDocument Snapshot.schema path).bind fun read => ?_
      cases read <;> exact inert_pure _
  · exact inert_pure _

theorem answer_readSnapshot (id : String) (valid : isValidId id = true) :
    v.answer (s.readSnapshot id) = match v.answer (s.findFile? id extensions) with
      | none => .error (.notFound id s.directory)
      | some path => (v.answer (readDocument Snapshot.schema path)).bind (claim id path) := by
  rw [readSnapshot, if_pos valid, (s.inert_findFile? id extensions).answer_bind]
  cases v.answer (s.findFile? id extensions) with
  | none => rfl
  | some path =>
    dsimp only
    rw [(inert_readDocument Snapshot.schema path).answer_bind]
    cases v.answer (readDocument Snapshot.schema path) <;> rfl

theorem answer_readTopology (id : String) :
    v.answer (s.readTopology id) = (v.answer (s.readSnapshot id)).bind fun snapshot =>
      snapshot.validate.mapError .invalid := by
  rw [readTopology, (s.inert_readSnapshot id).answer_bind]
  cases v.answer (s.readSnapshot id) with
  | error fault => rfl
  | ok snapshot => cases validated : snapshot.validate <;> simp [Except.bind, validated] <;> rfl

theorem inert_readTopology (id : String) : Inert (s.readTopology id) := by
  refine (s.inert_readSnapshot id).bind fun read => ?_
  cases read with
  | error fault => exact inert_pure _
  | ok snapshot =>
    dsimp only
    split <;> exact inert_pure _

end Store

section Failing

variable {first : ExceptT ε (StateM Volume) α} {next : α → ExceptT ε (StateM Volume) β}

theorem inert_lift {program : StateM Volume α} (inert : Inert program) :
    Inert (liftM program : ExceptT ε (StateM Volume) α).run :=
  inert.bind fun a => inert_pure (Except.ok a)

/-- A failing program is inert if its steps are, up to the one that fails. -/
theorem Inert.run_bind_except (inert : Inert first.run) (later : ∀ a, Inert (next a).run) :
    Inert (first >>= next).run := by
  rw [ExceptT.run_bind]
  refine inert.bind fun result => ?_
  cases result with
  | ok a => exact later a
  | error fault => exact inert_pure _

theorem answer_lift (program : StateM Volume α) :
    v.answer (liftM program : ExceptT ε (StateM Volume) α).run = .ok (v.answer program) := rfl

/-- A failure of the first step is the answer; otherwise the next step works on the same volume. -/
theorem Inert.answer_bind_except (inert : Inert first.run) :
    v.answer (first >>= next).run = (v.answer first.run).bind fun a => v.answer (next a).run := by
  rw [ExceptT.run_bind, inert.answer_bind]
  cases v.answer first.run with
  | ok a => rfl
  | error fault => rfl

end Failing

theorem inert_load (root : String) :
    Inert (Config.load root : OnVolume Config).run := by
  refine (inert_lift (inert_kind? _)).run_bind_except fun kind => ?_
  cases kind with
  | none => exact inert_pure _
  | some kind =>
    refine (inert_lift (inert_readText? _)).run_bind_except fun text => ?_
    cases text with
    | none => exact inert_pure _
    | some text =>
      dsimp only
      split <;> exact inert_pure _

theorem inert_readTopology (config : Config) (id : String) :
    Inert (config.readTopology id : OnVolume Topology).run :=
  (config.store.inert_readTopology id).bind fun _ => inert_pure _

theorem answer_readTopology (config : Config) (id : String) :
    v.answer (config.readTopology id : OnVolume Topology).run =
      (v.answer (config.store.readTopology id)).mapError .topology :=
  (config.store.inert_readTopology id).answer_bind _

end Estate.Storage
