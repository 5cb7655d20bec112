import JobStaging.Execution

/-!
# Batch jobs

What is needed to register a job definition and to submit one job: the container, its volumes and
where they are mounted, and what happens when it fails. Names inside follow the interface of the
batch service.
-/

set_option autoImplicit false

namespace JobStaging.Batch

/-- A kind of resource. -/
inductive ResourceKind where
  | vcpu
  | memory
  | gpu
  deriving DecidableEq, Repr

/-- The names of the kinds. -/
def ResourceKind.names : List (String × ResourceKind) :=
  [("VCPU", .vcpu), ("MEMORY", .memory), ("GPU", .gpu)]

/-- The name of a kind. -/
def ResourceKind.name : ResourceKind → String
  | .vcpu => "VCPU"
  | .memory => "MEMORY"
  | .gpu => "GPU"

/-- So much of one kind of resource. -/
structure ResourceRequirement where
  kind : ResourceKind
  value : String
  deriving DecidableEq, Repr

namespace ResourceRequirement

/-- So much of one kind, in decimal digits. -/
def ofAmount (kind : ResourceKind) (amount : UInt32) : ResourceRequirement :=
  ⟨kind, String.ofList (Decimal.digitsOf amount.toNat)⟩

/-- What an execution asks for; graphics processors only if there is at least one. -/
def ofResources (r : Resources) : List ResourceRequirement :=
  [ofAmount .vcpu r.vcpus, ofAmount .memory r.memory] ++
    match r.gpu with
    | some n => if n = 0 then [] else [ofAmount .gpu n]
    | none => []

/-- How a requirement is read. -/
def record : Record ResourceRequirement :=
  ResourceRequirement.mk <$> Record.field "type" (Decoder.choice ResourceKind.names)
    <*> Record.field "value" Decoder.string

/-- The requirement as JSON. -/
def toJson (r : ResourceRequirement) : Json :=
  .object [("type", .string r.kind.name), ("value", .string r.value)]

end ResourceRequirement

/-- A volume seen at a path in the container. -/
structure MountPoint where
  containerPath : String
  readOnly : Bool
  sourceVolume : String
  deriving DecidableEq, Repr

namespace MountPoint

/-- How a mount point is read. -/
def record : Record MountPoint :=
  MountPoint.mk <$> Record.field "containerPath" Decoder.string
    <*> Record.field "readOnly" Decoder.bool
    <*> Record.field "sourceVolume" Decoder.string

/-- The mount point as JSON. -/
def toJson (m : MountPoint) : Json :=
  .object [("containerPath", .string m.containerPath), ("readOnly", .bool m.readOnly),
    ("sourceVolume", .string m.sourceVolume)]

end MountPoint

/-- The access point through which a volume is used. -/
structure Authorization where
  accessPoint : String
  iam : String
  deriving DecidableEq, Repr

namespace Authorization

/-- How an authorization is read. -/
def record : Record Authorization :=
  Authorization.mk <$> Record.field "accessPointId" Decoder.string
    <*> Record.field "iam" Decoder.string

/-- The authorization as JSON. -/
def toJson (a : Authorization) : Json :=
  .object [("accessPointId", .string a.accessPoint), ("iam", .string a.iam)]

end Authorization

/-- The part of a file system that a volume shows. -/
structure EfsVolume where
  fileSystem : String
  rootDirectory : String
  transitEncryption : String
  authorization : Option Authorization
  deriving DecidableEq, Repr

namespace EfsVolume

/-- How it is read. -/
def record : Record EfsVolume :=
  EfsVolume.mk <$> Record.field "fileSystemId" Decoder.string
    <*> Record.field "rootDirectory" Decoder.string
    <*> Record.field "transitEncryption" Decoder.string
    <*> Record.optional ["authorizationConfig"] Authorization.record.decode

/-- It as JSON. -/
def toJson (v : EfsVolume) : Json :=
  .object ([("fileSystemId", .string v.fileSystem), ("rootDirectory", .string v.rootDirectory),
    ("transitEncryption", .string v.transitEncryption)] ++
    Json.optionalMember "authorizationConfig" Authorization.toJson v.authorization)

end EfsVolume

/-- A named volume. -/
structure Volume where
  name : String
  efs : EfsVolume
  deriving DecidableEq, Repr

namespace Volume

/-- How a volume is read. -/
def record : Record Volume :=
  Volume.mk <$> Record.field "name" Decoder.string
    <*> Record.field "efsVolumeConfiguration" EfsVolume.record.decode

/-- The volume as JSON. -/
def toJson (v : Volume) : Json :=
  .object [("name", .string v.name), ("efsVolumeConfiguration", v.efs.toJson)]

end Volume

/-- What follows an exit. -/
inductive RetryAction where
  | retry
  | exit
  deriving DecidableEq, Repr

/-- The names of the actions. -/
def RetryAction.names : List (String × RetryAction) := [("RETRY", .retry), ("EXIT", .exit)]

/-- The name of an action. -/
def RetryAction.name : RetryAction → String
  | .retry => "RETRY"
  | .exit => "EXIT"

/-- What follows an exit for a given reason. -/
structure ExitRule where
  action : RetryAction
  onReason : Option String
  onStatusReason : Option String
  deriving DecidableEq, Repr

namespace ExitRule

/-- How a rule is read. -/
def record : Record ExitRule :=
  ExitRule.mk <$> Record.field "action" (Decoder.choice RetryAction.names)
    <*> Record.optional ["onReason"] Decoder.string
    <*> Record.optional ["onStatusReason"] Decoder.string

/-- The rule as JSON. -/
def toJson (r : ExitRule) : Json :=
  .object ([("action", .string r.action.name)] ++
    Json.optionalMember "onReason" .string r.onReason ++
    Json.optionalMember "onStatusReason" .string r.onStatusReason)

end ExitRule

/-- How often a job is tried and what follows each exit. -/
structure RetryStrategy where
  attempts : UInt32
  rules : List ExitRule
  deriving DecidableEq, Repr

namespace RetryStrategy

/-- Try again when the machine failed, and only then. -/
def infrastructureOnly (attempts : UInt32) : RetryStrategy :=
  ⟨attempts,
    [⟨.retry, some "DockerTimeoutError*", some "Task failed to start"⟩,
      ⟨.retry, none, some "Host EC2*"⟩,
      ⟨.exit, none, some "*"⟩]⟩

/-- How a strategy is read. -/
def record : Record RetryStrategy :=
  RetryStrategy.mk <$> Record.field "attempts" Decoder.word32
    <*> Record.fieldOr ["evaluateOnExit"] (Decoder.list ExitRule.record.decode) []

/-- The strategy as JSON. -/
def toJson (s : RetryStrategy) : Json :=
  .object [("attempts", .ofNat s.attempts.toNat), ("evaluateOnExit", .list ExitRule.toJson s.rules)]

end RetryStrategy

/-- A job definition and the job to be submitted under it. -/
structure JobSpec where
  image : String
  definitionName : String
  name : String
  queueName : String
  definitionTags : OrderedMap String
  command : List String
  environment : OrderedMap String
  resources : List ResourceRequirement
  mountPoints : List MountPoint
  volumes : List Volume
  retry : Option RetryStrategy
  privileged : Bool
  deriving DecidableEq, Repr

namespace JobSpec

/-- How a specification is read. -/
def record : Record JobSpec :=
  JobSpec.mk <$> Record.field "image" Decoder.string
    <*> Record.field "job_definition_name" Decoder.string
    <*> Record.field "job_name" Decoder.string
    <*> Record.field "job_queue_name" Decoder.string
    <*> Record.fieldOr ["job_definition_tags"] (Decoder.map Decoder.string) .empty
    <*> Record.fieldOr ["command"] (Decoder.list Decoder.string) []
    <*> Record.fieldOr ["environment"] (Decoder.map Decoder.string) .empty
    <*> Record.fieldOr ["resource_requirements"] (Decoder.list ResourceRequirement.record.decode) []
    <*> Record.fieldOr ["mount_points"] (Decoder.list MountPoint.record.decode) []
    <*> Record.fieldOr ["volumes"] (Decoder.list Volume.record.decode) []
    <*> Record.optional ["retry_strategy"] RetryStrategy.record.decode
    <*> Record.fieldOr ["privileged"] Decoder.bool false

/-- The specification as JSON. -/
def toJson (s : JobSpec) : Json :=
  .object ([("image", .string s.image), ("job_definition_name", .string s.definitionName),
    ("job_name", .string s.name), ("job_queue_name", .string s.queueName),
    ("job_definition_tags", .stringMap s.definitionTags), ("command", .strings s.command),
    ("environment", .stringMap s.environment),
    ("resource_requirements", .list ResourceRequirement.toJson s.resources),
    ("mount_points", .list MountPoint.toJson s.mountPoints),
    ("volumes", .list Volume.toJson s.volumes)] ++
    Json.optionalMember "retry_strategy" RetryStrategy.toJson s.retry ++
    [("privileged", .bool s.privileged)])

end JobSpec

end JobStaging.Batch
