import JobStaging.Config
import JobStaging.Environment.Command
import JobStaging.Environment.Delivery
import JobStaging.Json.Printer
import JobStaging.Mount
import JobStaging.Request
import JobStaging.Selection
import JobStaging.Storage.Mounted

/-!
# Staging an execution

From a request come the job and the work around it: the file systems of each role are selected and
mounted, the parameters are relocated to paths in the container, the variables and the command are
set up, and copies and removals are asked for. All this is planned first and may ask a resolver. A
plan that stands is carried out by writing at most one file, and nothing is written otherwise.
-/

set_option autoImplicit false

namespace JobStaging.Assembly

/-- The purposes for which file systems are mounted. -/
inductive Role where
  | scratch
  | shared
  | tmp
  deriving DecidableEq, Repr

namespace Role

/-- The name of a role. -/
def name : Role → String
  | .scratch => "scratch"
  | .shared => "shared"
  | .tmp => "tmp"

/-- The access point of a role for candidates that name none. -/
def accessPoint (role : Role) (d : DefaultAccessPoints) : String :=
  match role with
  | .scratch => d.scratch
  | .shared => d.shared
  | .tmp => d.tmp

/-- Where a role is mounted if its candidate does not say. -/
def path (role : Role) (m : MountSettings) : Path :=
  match role with
  | .scratch => m.scratchPath
  | .shared => m.sharedPath
  | .tmp => m.tmpPath

/-- Only the shared directory must not be written to. -/
def readOnly : Role → Bool
  | .shared => true
  | _ => false

/-- The seed for the selection of a role's candidate: each role of each execution has its own. -/
def seed (role : Role) (executionId : String) : UInt64 :=
  Digest.seedOf (executionId ++ "/" ++ role.name)

end Role

/-- The mounts of one execution. -/
structure Mounts where
  shared : Mount
  scratch : Mount
  tmp : Option Mount
  deriving DecidableEq, Repr

namespace Mounts

/-- The mounts in the order in which the job gets them. -/
def all (m : Mounts) : List Mount := [m.shared, m.scratch] ++ m.tmp.toList

/-- The first of some mounts whose path is also that of a later one. -/
def firstCollision : List Mount → Option Mount
  | [] => none
  | m :: rest => if rest.any fun n => m.path.sameAs n.path then some m else firstCollision rest

/-- No two roles may be mounted at the same place. -/
def checkDistinct (m : Mounts) : Except Rejection Unit :=
  match firstCollision m.all with
  | some mount => .error (.rolesCollide mount.path)
  | none => .ok ()

end Mounts

/-- An execution's identifier names its working directory, so it must be one name. -/
def checkExecutionId (id : String) : Except Rejection Unit :=
  match (Path.mk id).components with
  | [.name _] =>
    if Text.isBlankText id ∨ '/' ∈ id.toList then .error (.executionIdNotSegment id) else .ok ()
  | _ => .error (.executionIdNotSegment id)

/-- A candidate with the role's own access point if it names none. -/
def withAccessPoint (name : String) (c : Candidate) : Candidate :=
  { c with accessPoint := c.accessPoint <|> some name }

/-- Selects a candidate for a role and mounts it. -/
def mountRole (config : Config) (r : Resolver) (executionId : String) (strategy : Strategy)
    (role : Role) (candidates : List Candidate) : Traced Mount := do
  let chosen ←
    Selection.select r (some config.envBase) strategy (some (role.seed executionId)) candidates
  Mount.resolve r (some config.envBase)
    (withAccessPoint (role.accessPoint config.accessPoints) chosen)
    (role.path config.mount) role.readOnly

/-- Mounts the temporary directory if there are candidates for it. -/
def mountTmp (config : Config) (r : Resolver) (executionId : String) (p : Placement) :
    Traced (Option Mount) :=
  match p.tmpCandidates with
  | some candidates => some <$> mountRole config r executionId p.strategy .tmp candidates
  | none => pure none

/-- Selects and mounts every role, the working directory first. -/
def mountAll (config : Config) (r : Resolver) (executionId : String) (p : Placement) :
    Traced Mounts := do
  let scratch ← mountRole config r executionId p.strategy .scratch p.scratch
  let shared ← mountRole config r executionId p.strategy .shared p.shared
  let tmp ← mountTmp config r executionId p
  return ⟨shared, scratch, tmp⟩

/-- The directories that parameters are relocated to, and the one for temporary files. -/
structure Directories where
  shared : MountedPath
  working : MountedPath
  tmp : Path
  deriving DecidableEq, Repr

/-- A path that the container sees, with its place in the file system of a mount. -/
def mountedPath (m : Mount) (p : Path) : Except Rejection MountedPath :=
  (m.efsPath p).map fun e => ⟨p, e⟩

/-- The directories of an execution. The working directory has the execution's identifier as its
name; without a mount of its own the temporary directory lies beside it. -/
def directories (m : Mounts) (executionId : String) : Except Rejection Directories := do
  let working ← mountedPath m.scratch (m.scratch.path.join ⟨executionId⟩)
  let shared ← mountedPath m.shared m.shared.path
  return ⟨shared, working, (m.tmp.map Mount.path).getD (m.scratch.path.join ⟨"tmp"⟩)⟩

/-- What a job definition consists of, as a document. Equal definitions have equal documents. -/
def definitionDocument (image : String) (command : List String) (environment : OrderedMap String)
    (mountPoints : List Batch.MountPoint) (volumes : List Batch.Volume)
    (resources : List Batch.ResourceRequirement) : Json :=
  .object [("image", .string image), ("command", .strings command),
    ("environment", .stringMap environment),
    ("mount_points", .list Batch.MountPoint.toJson mountPoints),
    ("volumes", .list Batch.Volume.toJson volumes),
    ("resource_requirements", .list Batch.ResourceRequirement.toJson resources),
    ("privileged", .bool false)]

/-- The tags of a job definition. -/
def definitionTags (envBase family : String) : OrderedMap String :=
  OrderedMap.ofList [(Labels.envBaseTag, envBase), ("execution_type", family)]

/-- What the names of jobs and of job definitions begin with. -/
def jobFamily (config : Config) (e : Execution) : String :=
  config.envBase ++ "-" ++ e.family ++ "-"

/-- The job of an execution. The name of its definition ends with the digest of the definition's
document, so that equal definitions share a name. -/
def jobSpec (config : Config) (e : Execution) (queue : String) (command : List String)
    (environment : OrderedMap String) (mounts : List Mount) : Batch.JobSpec :=
  let mountPoints := mounts.map Mount.mountPoint
  let volumes := mounts.map Mount.volume
  let resources := Batch.ResourceRequirement.ofResources e.resources
  let document := definitionDocument e.image command environment mountPoints volumes resources
  { image := e.image
    definitionName := jobFamily config e ++ Digest.sha256Hex document.compact
    name := jobFamily config e ++ e.id
    queueName := queue
    definitionTags := definitionTags config.envBase e.family
    command := command
    environment := environment
    resources := resources
    mountPoints := mountPoints
    volumes := volumes
    retry := some (.infrastructureOnly config.retryAttempts)
    privileged := false }

/-- The copies to be made before the job: every input that moves, from its place outside. -/
def inputSyncs (h : Handling) (inputs : List Relocation.DataBinding) : List SyncRequest :=
  inputs.map fun b =>
    SyncRequest.ofSettings b.remote (.efs b.location.efs) true h.effectiveInputSync

/-- The copies to be made after the job: every output, to its place outside. -/
def outputSyncs (h : Handling) (outputs : List Relocation.DataBinding) : List SyncRequest :=
  outputs.map fun b =>
    SyncRequest.ofSettings (.efs b.location.efs) b.remote false h.effectiveOutputSync

/-- The removal of the copied inputs, if it is asked for and there are any. -/
def inputRemovals (h : Handling) (inputs : List Relocation.DataBinding) : List RemovalRequest :=
  if h.cleanupInputs && !inputs.isEmpty then [⟨inputs.map fun b => .efs b.location.efs⟩] else []

/-- The removal of the working directory, if it is asked for. -/
def workingRemovals (h : Handling) (working : MountedPath) : List RemovalRequest :=
  if h.cleanupWorkingDir then [⟨[.efs working.efs]⟩] else []

/-- What is to be done after the job. -/
def cleanup (h : Handling) (relocated : Relocation.Relocated) (working : MountedPath) : Cleanup :=
  ⟨outputSyncs h relocated.outputs, inputRemovals h relocated.inputs ++ workingRemovals h working⟩

/-- Where the job of an execution runs. -/
def infrastructure (config : Config) (d : Directories) : Environment.Infrastructure :=
  ⟨config.envBase, config.region, d.working.container, d.tmp⟩

/-- What is to be answered, and the file that is to be written before that. -/
structure Plan where
  response : Response
  file : Option Environment.EnvFile
  deriving DecidableEq, Repr

/-- The plan for an execution whose mounts are known. -/
def planMounted (config : Config) (request : Request) (queue : String) (mounts : Mounts) :
    Except Rejection Plan := do
  let e := request.execution
  mounts.checkDistinct
  let d ← directories mounts e.id
  let relocated ← Relocation.relocate e.parameters d.shared d.working request.handling.isolateInputs
  let vars ← Environment.jobVariables relocated.parameters
  let delivery := Environment.plan config.fileThreshold e.id (infrastructure config d) vars
    request.handling.envFileMode d.working
  let command ← Environment.buildCommand relocated.parameters.command delivery.preamble
  let job := jobSpec config e queue command delivery.inline mounts.all
  let response : Response :=
    ⟨{ e with parameters := relocated.parameters },
      ⟨inputSyncs request.handling relocated.inputs, job⟩,
      cleanup request.handling relocated d.working⟩
  return ⟨response, delivery.file⟩

/-- What must hold of a request before anything is looked up; the queue of its job. -/
def admittedQueue (request : Request) : Except Rejection String := do
  request.placement.validate
  checkExecutionId request.execution.id
  request.execution.queueName

/-- The plan for a request. -/
def plan (config : Config) (r : Resolver) (request : Request) : Traced Plan := do
  let queue ← Traced.check (admittedQueue request)
  let mounts ← mountAll config r request.execution.id request.placement
  Traced.check (planMounted config request queue mounts)

/-- The answer to a request, and what was asked for it. -/
structure Outcome where
  answer : Except Error Response
  queries : List Query

/-- Carries out a plan: writes its file, if it has one. -/
def carryOut {m : Type → Type} [Monad m] (storage : Storage m) (plan : Plan) :
    m (Except Error Response) :=
  match plan.file with
  | none => pure (.ok plan.response)
  | some file => do
    match ← storage.write file.path file.content with
    | none => return .ok plan.response
    | some fault => return .error fault

/-- Plans and carries out what a request asks for. -/
def prepare {m : Type → Type} [Monad m] (config : Config) (r : Resolver) (storage : Storage m)
    (request : Request) : m Outcome :=
  let planned := plan config r request
  match planned.outcome with
  | .error fault => return ⟨.error fault, planned.queries⟩
  | .ok plan => do
    let answer ← carryOut storage plan
    return ⟨answer, planned.queries⟩

end JobStaging.Assembly
