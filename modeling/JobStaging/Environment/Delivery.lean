import JobStaging.Environment.Command
import JobStaging.Environment.File
import JobStaging.Environment.Names
import JobStaging.Relocation
import JobStaging.Transfer

/-!
# Delivering variables

The variables of a job are passed to it inline, or written to a file in its working directory that
the job reads at its start. The variables that say where the job runs are always inline.
-/

set_option autoImplicit false

namespace JobStaging.Environment

/-- Where a job runs. -/
structure Infrastructure where
  envBase : String
  region : String
  workingDir : Path
  tmpDir : Path
  deriving DecidableEq, Repr

/-- A file that is to be written. -/
structure EnvFile where
  path : EfsPath
  content : String
  deriving DecidableEq, Repr

/-- How the variables reach the job. -/
structure Delivery where
  /-- The variables that are passed inline. -/
  inline : OrderedMap String
  /-- What the job does before its command. -/
  preamble : Option (List String)
  file : Option EnvFile
  deriving DecidableEq, Repr

/-- The name of the file with the variables. -/
def fileName : Path := ⟨".demand.env"⟩

/-- The variables that say where a job runs, with the path of the file if there is one. -/
def Infrastructure.entries (i : Infrastructure) (file : Option Path) : List (String × String) :=
  [(Environment.envBase, i.envBase), (Environment.region, i.region)] ++
    (match file with
      | some path => [(environmentFile, path.text)]
      | none => []) ++
    [(Environment.workingDir, i.workingDir.text), (Environment.tmpDir, i.tmpDir.text)]

/-- The variables of the job: the identifier of the execution and then its own. -/
def ownVariables (id : String) (vars : OrderedMap String) : OrderedMap String :=
  (OrderedMap.ofList [(executionId, id)]).insertAll vars.entries

/-- All variables, passed inline. -/
def inlineVariables (i : Infrastructure) (own : OrderedMap String) : OrderedMap String :=
  (OrderedMap.ofList (i.entries none)).insertAll own.entries

/-- The delivery without a file. -/
def deliverInline (i : Infrastructure) (own : OrderedMap String) : Delivery :=
  ⟨inlineVariables i own, none, none⟩

/-- What a job does to read the file: the shell's dot and the variable with the path. -/
def readFile : List String := [".", expansion environmentFile]

/-- The delivery through a file in the working directory. -/
def deliverByFile (i : Infrastructure) (own : OrderedMap String) (working : MountedPath) :
    Delivery :=
  let place := working.join fileName
  ⟨OrderedMap.ofList (i.entries (some place.container)), some readFile,
    some ⟨place.efs, render own⟩⟩

/-- Whether the variables go into a file. -/
def usesFile (mode : EnvFileMode) (threshold : UInt64) (inline : OrderedMap String) : Bool :=
  match mode with
  | .never => false
  | .always => true
  | .ifRequired => threshold.toNat ≤ size inline

/-- Plans the delivery; nothing is written. -/
def plan (threshold : UInt64) (id : String) (i : Infrastructure) (vars : OrderedMap String)
    (mode : EnvFileMode) (working : MountedPath) : Delivery :=
  let own := ownVariables id vars
  if usesFile mode threshold (inlineVariables i own) then deliverByFile i own working
  else deliverInline i own

end JobStaging.Environment
