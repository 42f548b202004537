/-! The arguments of the command line. They are read from the left: options of the program, a
command, and options and values of that. -/
namespace Estate.Command

inductive Action where
  | listTopologies
  | validate (topologyId : String)
  | tree (topologyId : String)
  | policies (topologyId compartmentId : String) (withSteps : Bool)
  | preview (topologyId : String)
deriving DecidableEq

/-- An action with where the project is and whether the answer should be JSON in any case. -/
structure Invocation where
  root : String
  wantsJson : Bool
  action : Action
deriving DecidableEq

/-- What keeps arguments from asking for an action. -/
inductive Stop where
  | usage | help | version
deriving DecidableEq

/-- Whether an argument is an option, or one that is not known. A dash alone is a value. -/
def isOption (argument : String) : Bool :=
  argument.toList.head? == some '-' && argument ≠ "-"

/-- Whether an argument asks for help. After a single dash letters may follow. -/
def asksHelp (argument : String) : Bool :=
  argument = "--help" || ['-', 'h'].isPrefixOf argument.toList

/-- Whether an argument asks for the version. -/
def asksVersion (argument : String) : Bool :=
  argument = "--version" || ['-', 'V'].isPrefixOf argument.toList

/-- What was read of a command's arguments. -/
structure Collected where
  wantsJson : Bool
  withSteps : Bool
  values : List String

/-- The options and values of a command that takes so many values, and perhaps steps. No option may
be repeated; after two dashes everything is a value. -/
def collect (takesSteps : Bool) (arity : Nat) : Collected → List String → Except Stop Collected
  | c, [] => if c.values.length = arity then .ok c else .error .usage
  | c, argument :: rest =>
    if argument = "--" then
      let values := c.values ++ rest
      if values.length = arity then .ok { c with values := values } else .error .usage
    else if argument = "--json" then
      if c.wantsJson then .error .usage
      else collect takesSteps arity { c with wantsJson := true } rest
    else if argument = "--trace" && takesSteps then
      if c.withSteps then .error .usage
      else collect takesSteps arity { c with withSteps := true } rest
    else if asksHelp argument then .error .help
    else if isOption argument || c.values.length = arity then .error .usage
    else collect takesSteps arity { c with values := c.values ++ [argument] } rest

def finish (root : Option String) (wantsJson takesSteps : Bool) (arity : Nat)
    (arguments : List String) (action? : List String → Bool → Option Action) :
    Except Stop Invocation := do
  let c ← collect takesSteps arity ⟨false, false, []⟩ arguments
  match action? c.values c.withSteps with
  | some action => .ok ⟨root.getD ".", wantsJson || c.wantsJson, action⟩
  | none => .error .usage

/-- The commands on topologies, after their options. -/
def topologyCommand (root : Option String) (outerJson : Bool) : (wantsJson : Bool) → List String →
    Except Stop Invocation
  | _, [] => .error .usage
  | wantsJson, argument :: rest =>
    let json := outerJson || wantsJson
    if argument = "--json" then
      if wantsJson then .error .usage else topologyCommand root outerJson true rest
    else if asksHelp argument then .error .help
    else if argument = "list" then
      finish root json false 0 rest fun
        | [], _ => some .listTopologies
        | _, _ => none
    else if argument = "validate" then
      finish root json false 1 rest fun
        | [id], _ => some (.validate id)
        | _, _ => none
    else if argument = "tree" then
      finish root json false 1 rest fun
        | [id], _ => some (.tree id)
        | _, _ => none
    else if argument = "help" then
      let topics := [[], ["list"], ["validate"], ["tree"], ["help"]]
      .error (if topics.contains rest then .help else .usage)
    else .error .usage

def helpTopics : List (List String) :=
  [[], ["topology"], ["topology", "list"], ["topology", "validate"], ["topology", "tree"],
   ["policies"], ["preview"], ["help"]]

/-- Whether a text can be the value of an option that it follows. -/
def isRootValue (value : String) : Bool := value ≠ "" && !isOption value

/-- The root that an argument gives after an equals sign. -/
def rootOf? (argument : String) : Option String :=
  let option := "--project-root=".toList
  if option.isPrefixOf argument.toList then
    some (String.ofList (argument.toList.drop option.length))
  else none

/-- The options of the program, and then a command. -/
def command : (root : Option String) → (wantsJson : Bool) → List String → Except Stop Invocation
  | _, _, [] => .error .usage
  | root, wantsJson, argument :: rest =>
    if argument = "--json" then
      if wantsJson then .error .usage else command root true rest
    else if argument = "--project-root" then
      match rest with
      | value :: rest =>
        if root.isSome || !isRootValue value then .error .usage
        else command (some value) wantsJson rest
      | [] => .error .usage
    else if let some value := rootOf? argument then
      if root.isSome || value = "" then .error .usage else command (some value) wantsJson rest
    else if asksHelp argument then .error .help
    else if asksVersion argument then .error .version
    else if argument = "topology" then topologyCommand root wantsJson false rest
    else if argument = "policies" then
      finish root wantsJson true 2 rest fun
        | [topologyId, compartmentId], withSteps =>
          some (.policies topologyId compartmentId withSteps)
        | _, _ => none
    else if argument = "preview" then
      finish root wantsJson false 1 rest fun
        | [id], _ => some (.preview id)
        | _, _ => none
    else if argument = "help" then
      .error (if helpTopics.contains rest then .help else .usage)
    else .error .usage

def parse (arguments : List String) : Except Stop Invocation := command none false arguments

end Estate.Command
