import JobStaging.Config
import JobStaging.Placement

/-!
# Arguments

The words after the program's name. Options come before the command that they belong to. A long
option may have its value behind an equals sign or as the next word; short options may be written
together, the last of them with its value. A word that cannot be understood makes the whole line
misused, but help that is asked for before it is given.
-/

set_option autoImplicit false

namespace JobStaging.CommandLine

/-- What an option is for. -/
inductive OptionKind where
  /-- It stands alone and may come once. -/
  | flag
  /-- It has a value of a certain form. -/
  | value (accepts : String → Bool) (repeatable : Bool)
  | help
  | version

/-- An option. -/
structure OptionSpec where
  long : String
  short : Option Char
  kind : OptionKind

/-- Options as they were given, each with its value. -/
abbrev Given := List (String × String)

/-- How far the words have been read. -/
inductive Scan where
  /-- The options, and the words from the first one that is none. -/
  | read (given : Given) (rest : List String)
  | help
  | version
  | misuse

/-- An option given once more with a value, if that may be. -/
def accept (spec : OptionSpec) (value : String) (given : Given) : Option Given :=
  match spec.kind with
  | .value accepts repeatable =>
    if accepts value && (repeatable || (given.lookup spec.long).isNone) then
      some (given ++ [(spec.long, value)])
    else none
  | .flag => if (given.lookup spec.long).isNone then some (given ++ [(spec.long, value)]) else none
  | _ => none

/-- Short options as far as they have been read. -/
inductive Cluster where
  /-- The options, and one among them that still needs a value. -/
  | read (given : Given) (pending : Option OptionSpec)
  | help
  | version
  | misuse

/-- Reads short options written together. -/
def readCluster (specs : List OptionSpec) (given : Given) : List Char → Cluster
  | [] => .read given none
  | c :: rest =>
    match specs.find? fun spec => spec.short == some c with
    | none => .misuse
    | some spec =>
      match spec.kind, rest with
      | .help, _ => .help
      | .version, _ => .version
      | .flag, rest =>
        match accept spec "" given with
        | some given => readCluster specs given rest
        | none => .misuse
      | .value _ _, [] => .read given (some spec)
      | .value _ _, '=' :: value =>
        match accept spec (String.ofList value) given with
        | some given => .read given none
        | none => .misuse
      | .value _ _, value =>
        match accept spec (String.ofList value) given with
        | some given => .read given none
        | none => .misuse

/-- Reads a long option: its name and the value behind an equals sign, if there is one. -/
def readLong (specs : List OptionSpec) (given : Given) (name : String) (value : Option String) :
    Cluster :=
  match specs.find? fun spec => spec.long == name with
  | none => .misuse
  | some spec =>
    match spec.kind, value with
    | .help, none => .help
    | .version, none => .version
    | .flag, none =>
      match accept spec "" given with
      | some given => .read given none
      | none => .misuse
    | .value _ _, none => .read given (some spec)
    | .value _ _, some value =>
      match accept spec value given with
      | some given => .read given none
      | none => .misuse
    | _, some _ => .misuse

/-- What kind of word a word is. -/
inductive Word where
  /-- The mark after which no options come. -/
  | mark
  | long (name : String) (value : Option String)
  | shorts (letters : List Char)
  | plain

/-- The kind of a word. -/
def Word.ofString (word : String) : Word :=
  match word.toList with
  | ['-', '-'] => .mark
  | '-' :: '-' :: rest =>
    match Text.cutAt '=' rest with
    | some (name, value) => .long (String.ofList name) (some (String.ofList value))
    | none => .long (String.ofList rest) none
  | ['-'] => .plain
  | '-' :: letters => .shorts letters
  | _ => .plain

/-- Reads words as options, up to the first that is none. An option may wait for its value. -/
def scan (specs : List OptionSpec) (given : Given) : Option OptionSpec → List String → Scan
  | none, [] => .read given []
  | some _, [] => .misuse
  | some spec, word :: rest =>
    match Word.ofString word with
    | .plain =>
      match accept spec word given with
      | some given => scan specs given none rest
      | none => .misuse
    | _ => .misuse
  | none, word :: rest =>
    let next (cluster : Cluster) : Scan :=
      match cluster with
      | .read given pending => scan specs given pending rest
      | .help => .help
      | .version => .version
      | .misuse => .misuse
    match Word.ofString word with
    | .plain => .read given (word :: rest)
    | .mark => if rest.isEmpty then .read given [] else .misuse
    | .long name value => next (readLong specs given name value)
    | .shorts letters => next (readCluster specs given letters)

/-- What is to be staged, and with what. -/
structure PrepareOptions where
  request : Path
  inventory : Option Path
  mounts : List (String × Path)
  strategy : Option Strategy
  output : Option Path
  deriving DecidableEq, Repr

/-- What the program is asked to do. -/
inductive Command where
  | prepare (options : PrepareOptions)
  | validate
  deriving DecidableEq, Repr

/-- The whole of a line that makes sense. -/
structure Invocation where
  config : Path
  verbose : Bool
  command : Command
  deriving DecidableEq, Repr

/-- The words that help can be about. -/
inductive Topic where
  | program
  | prepare
  | validate
  | help
  deriving DecidableEq, Repr

/-- What a line means. -/
inductive Meaning where
  | run (invocation : Invocation)
  | help (topic : Topic)
  | version
  | misuse
  deriving DecidableEq, Repr

/-- A path is any text but the empty one. -/
def isPathText (text : String) : Bool := text != ""

/-- Whether a text is a directory for a file system. -/
def isMountText (text : String) : Bool := (parseLocalMount text).isOk

/-- Whether a text names a strategy. -/
def isStrategyText (text : String) : Bool := (Strategy.parse text).isOk

/-- The option that asks for help. -/
def helpOption : OptionSpec := ⟨"help", some 'h', .help⟩

/-- The options before the command. -/
def programOptions : List OptionSpec :=
  [⟨"config", some 'c', .value isPathText false⟩, ⟨"verbose", some 'v', .flag⟩, helpOption,
    ⟨"version", some 'V', .version⟩]

/-- The options of the command that stages. -/
def prepareOptions : List OptionSpec :=
  [⟨"request", some 'r', .value isPathText false⟩, ⟨"inventory", none, .value isPathText false⟩,
    ⟨"mount", none, .value isMountText true⟩, ⟨"strategy", none, .value isStrategyText false⟩,
    ⟨"output", some 'o', .value isPathText false⟩, helpOption]

/-- The options of the command that checks the configuration. -/
def validateOptions : List OptionSpec := [helpOption]

/-- A path that was given for an option. -/
def pathOf (given : Given) (name : String) : Option Path := (given.lookup name).map Path.mk

/-- The directories that were given for file systems. -/
def mountsOf (given : Given) : List (String × Path) :=
  given.filterMap fun e => if e.1 = "mount" then (parseLocalMount e.2).toOption else none

/-- The strategy that was given. -/
def strategyOf (given : Given) : Option Strategy :=
  (given.lookup "strategy").bind fun text => (Strategy.parse text).toOption

/-- The options of the command that stages, if the one that it needs was given. -/
def PrepareOptions.ofGiven (given : Given) : Option PrepareOptions :=
  (pathOf given "request").map fun request =>
    ⟨request, pathOf given "inventory", mountsOf given, strategyOf given, pathOf given "output"⟩

/-- The words after a command that has a given kind of options. -/
def commandMeaning (specs : List OptionSpec) (topic : Topic) (build : Given → Option Command)
    (invoke : Command → Invocation) (words : List String) : Meaning :=
  match scan specs [] none words with
  | .read given [] =>
    match build given with
    | some command => .run (invoke command)
    | none => .misuse
  | .help => .help topic
  | _ => .misuse

/-- What help is asked for by words. -/
def helpMeaning : List String → Meaning
  | [] => .help .program
  | ["prepare"] => .help .prepare
  | ["validate"] => .help .validate
  | ["help"] => .help .help
  | _ => .misuse

/-- The invocation of a command with the options that came before it. -/
def invoke (given : Given) (command : Command) : Invocation :=
  ⟨(pathOf given "config").getD ⟨"scaffolding.toml"⟩, (given.lookup "verbose").isSome, command⟩

/-- What a line of words means. -/
def meaning (words : List String) : Meaning :=
  match scan programOptions [] none words with
  | .read given ("prepare" :: rest) =>
    commandMeaning prepareOptions .prepare
      (fun own => (PrepareOptions.ofGiven own).map .prepare) (invoke given) rest
  | .read given ("validate" :: rest) =>
    commandMeaning validateOptions .validate (fun _ => some .validate) (invoke given) rest
  | .read _ ("help" :: rest) => helpMeaning rest
  | .help => .help .program
  | .version => .version
  | _ => .misuse

end JobStaging.CommandLine
