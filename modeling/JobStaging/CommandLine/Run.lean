import JobStaging.Assembly
import JobStaging.CommandLine.Help
import JobStaging.ConfigFile

/-!
# Running the program

What the program does for its arguments: it reads the configuration, overrides it from the
surroundings, and checks it, or stages the execution of a request and gives the answer as JSON.
Files are read and steps are taken in a way that the surroundings give, be it on a file tree kept
as a state or on the files of this machine.
-/

set_option autoImplicit false

namespace JobStaging.CommandLine

open Storage

/-- What a run finds: the directory that relative paths start from, the variables, and ways to read
files and to change them. -/
structure Surroundings (m : Type → Type) where
  directory : Path
  setting? : String → Option String
  read : Path → m (Except IoFault String)
  take : Step → m (Option IoFault)

/-- What a run ends with. -/
structure Report where
  exitCode : UInt32
  output : String
  error : Option Error

namespace Report

/-- A run that went well. -/
def success (output : String) : Report := ⟨0, output, none⟩

/-- A run that failed. -/
def failure (error : Error) : Report := ⟨1, "", some error⟩

/-- A run whose arguments could not be understood. -/
def misuse : Report := ⟨2, "", none⟩

end Report

variable {m : Type → Type} [Monad m]

/-- A file tree that is kept as a state, as surroundings. -/
def Surroundings.ofTree (directory : Path) (setting? : String → Option String) :
    Surroundings (StateM FileTree) where
  directory := directory
  setting? := setting?
  read path := fun t => (t.read path, t)
  take := Step.take

/-- The configuration of a run. -/
def configuration (w : Surroundings m) (invocation : Invocation) : m Config := do
  let content ← w.read (w.directory.join invocation.config)
  return (Config.ofFileOrStandard content).override w.setting?

/-- A configuration that can be used. -/
def checked (config : Config) : Except Error Config :=
  (config.validate.mapError Error.config).map fun () => config

/-- The text of a file. -/
def readFile (w : Surroundings m) (path : Path) : ExceptT Error m String := do
  match ← w.read (w.directory.join path) with
  | .ok content => return content
  | .error fault => throw (.io fault)

/-- The request in a file, with another strategy if one was given. -/
def loadRequest (w : Surroundings m) (options : PrepareOptions) : ExceptT Error m Request := do
  let request ← Request.ofText (← readFile w options.request)
  return { request with
    placement := { request.placement with
      strategy := options.strategy.getD request.placement.strategy } }

/-- The inventory in a file; there must be one. -/
def loadInventory (w : Surroundings m) (options : PrepareOptions) :
    ExceptT Error m Inventory := do
  match options.inventory with
  | some path => Inventory.ofText (← readFile w path)
  | none => throw (.config .noInventory)

/-- Stages the execution of a request. -/
def stage (w : Surroundings m) (config : Config) (options : PrepareOptions) :
    ExceptT Error m Response := do
  let config ← checked (config.addLocalMounts options.mounts)
  let request ← loadRequest w options
  let inventory ← loadInventory w options
  let storage := Roots.storage w.take ⟨config.mount.localMounts⟩
  let outcome ← ExceptT.lift (Assembly.prepare config inventory.resolver storage request)
  outcome.answer

/-- The steps that put a text into a file. -/
def saveSteps (path : Path) (text : String) : List Step := [.create path, .append path text]

/-- Gives an answer: to a file if one was named, else as output with a line end. -/
def deliver (w : Surroundings m) (output : Option Path) (answer : Json) : m Report := do
  match output with
  | none => return .success (answer.pretty ++ "\n")
  | some path =>
    match ← takeSteps w.take (saveSteps (w.directory.join path) answer.pretty) with
    | none => return .success ""
    | some fault => return .failure (.io fault)

/-- Stages the execution of a request and gives the answer. -/
def runPrepare (w : Surroundings m) (config : Config) (options : PrepareOptions) : m Report := do
  match ← (stage w config options).run with
  | .ok response => deliver w options.output response.toJson
  | .error fault => return .failure fault

/-- Checks the configuration. -/
def runValidate (config : Config) : Report :=
  match checked config with
  | .ok _ => .success ""
  | .error fault => .failure fault

/-- Does what a line of words means. -/
def run (w : Surroundings m) (words : List String) : m Report := do
  match meaning words with
  | .misuse => return .misuse
  | .version => return .success versionText
  | .help topic => return .success topic.text
  | .run invocation =>
    let config ← configuration w invocation
    match invocation.command with
    | .prepare options => runPrepare w config options
    | .validate => return runValidate config

end JobStaging.CommandLine
