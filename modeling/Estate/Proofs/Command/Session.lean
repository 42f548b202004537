import Estate.Command.Run
import Estate.Proofs.Storage.Reading
import Estate.Proofs.Topology.Validation

/-! Runs of the program on a volume. What a run puts out for a topology that can be read is what
its action puts out, in the format that the arguments or the settings ask for. -/
namespace Estate.Command
open Storage Project

variable {v : Volume} {arguments : List String} {invocation : Invocation}
  {action : String → Action} {id : String} {config : Config} {s : Snapshot} {t : Topology}

/-- The configuration with the format that an invocation asks for. -/
def formatted (invocation : Invocation) (config : Config) : Config :=
  if invocation.wantsJson then { config with format := .json } else config

/-- The arguments ask for an action on the topology that the volume has under an id. -/
structure Asks (v : Volume) (arguments : List String) (invocation : Invocation)
    (action : String → Action) (id : String) (config : Config) (t : Topology) : Prop where
  parsed : parse arguments = .ok invocation
  asked : invocation.action = action id
  configured :
    v.answer (Config.load (v.answer (locate invocation.root)) : OnVolume Config).run = .ok config
  stored : v.answer (config.readTopology id : OnVolume Topology).run = .ok t

theorem readTopology_formatted :
    ((formatted invocation config).readTopology id : OnVolume Topology) =
      config.readTopology id := by
  unfold formatted
  split <;> rfl

/-- A topology is stored under an id if the first file of that id has a snapshot of it as YAML. -/
theorem answer_readTopology_of_yaml {path text : String} (proper : Store.isValidId id = true)
    (found : v.answer (config.store.findFile? id Store.extensions) = some path)
    (content : v.answer (Files.readText? path) = some text)
    (extension : Path.extension? path ≠ some "json")
    (read : (Yaml.read? text).bind (Snapshot.schema.read .yaml) = some s)
    (unnamed : s.topologyId = "") (valid : { s with topologyId := id }.validate = .ok t) :
    v.answer (config.readTopology id : OnVolume Topology).run = .ok t := by
  have document : v.answer (readDocument Snapshot.schema path) = .ok s := by
    rw [answer_readDocument content, if_neg extension, read]
    rfl
  have claimed : Store.claim id path s = .ok { s with topologyId := id } := if_pos unnamed
  rw [answer_readTopology, Store.answer_readTopology, Store.answer_readSnapshot _ _ proper, found]
  dsimp only
  rw [document, Except.bind, claimed, Except.bind, valid]
  rfl

theorem inert_locate (root : String) : Inert (locate root) :=
  (inert_absolute? root).bind fun _ => inert_pure _

/-- An invocation on a volume, as long as nothing fails. -/
def undertake (invocation : Invocation) : OnVolume Output := do
  let config ← Config.load (← liftM (locate invocation.root : StateM Volume String))
  perform (formatted invocation config) invocation.action

/-- The output of what was undertaken, whether it failed or not. -/
def conclude : Except ProjectError Output → Output
  | .ok output => output
  | .error fault => failure fault.message fault.cause?

theorem answer_invoke (invocation : Invocation) :
    v.answer (invoke invocation) = conclude (v.answer (undertake invocation).run) := by
  have ends : invoke invocation =
      (undertake invocation).run >>= fun outcome => pure (conclude outcome) := by
    refine congrArg (bind (undertake invocation).run) (funext fun outcome => ?_)
    cases outcome <;> rfl
  rw [ends]
  rfl

/-- Reading keeps the volume, so the action works on the one that the run started with. -/
theorem Asks.answer_run (asks : Asks v arguments invocation action id config t) :
    v.answer (run arguments) =
      conclude (v.answer
        (perform (formatted invocation config) (action id) : OnVolume Output).run) := by
  have starts : v.answer (run arguments) = v.answer (invoke invocation) := by
    rw [run, asks.parsed]
  have located : Inert (liftM (locate invocation.root : StateM Volume String) :
      OnVolume String).run := inert_lift (inert_locate _)
  rw [starts, answer_invoke, undertake, located.answer_bind_except, answer_lift, Except.bind,
    (inert_load _).answer_bind_except, asks.configured, ← asks.asked]
  rfl

/-- What an action does with the topology it reads decides the output. -/
theorem Asks.answer_readTopology {α : Type}
    (asks : Asks v arguments invocation action id config t)
    (next : Topology → OnVolume α) :
    v.answer ((formatted invocation config).readTopology id >>= next).run =
      v.answer (next t).run := by
  rw [readTopology_formatted, (inert_readTopology config id).answer_bind_except, asks.stored]
  rfl

end Estate.Command
