import JobStaging.Json.Equality
import JobStaging.Json.Printer
import JobStaging.Json.Record
import JobStaging.Location.DataPath
import JobStaging.Text.Blank

/-!
# Executions

An execution is one request to run a container against data: its image, the command with the
parameters that it names, and what it needs to run. A parameter's value may say where its data lies
outside the container, inside it, or both.
-/

set_option autoImplicit false

namespace JobStaging

/-- The two halves of a parameter: what it is called in the container and where its data lies. -/
structure Binding where
  localName : Option String
  remote : Option DataPath
  deriving DecidableEq, Repr

namespace Binding

/-- How a binding is read. -/
def record : Record Binding :=
  Binding.mk <$> Record.optional ["local"] Decoder.string
    <*> Record.optional ["remote"] (Decoder.parsed DataPath.parse)

/-- The binding as JSON. -/
def toJson (b : Binding) : Json :=
  .object (Json.optionalMember "local" .string b.localName ++
    Json.optionalMember "remote" (fun d : DataPath => .string d.text) b.remote)

end Binding

/-- The value of a parameter as it was given. -/
inductive ParameterValue where
  | pair (binding : Binding)
  | literal (text : String)
  | number (n : Json.Number)
  | flag (b : Bool)
  deriving DecidableEq, Repr

namespace ParameterValue

/-- Reads a value by its shape: a binding, a text, a number or a truth value. -/
def decode : Decoder ParameterValue := fun j =>
  match Binding.record.decode j, j with
  | .ok binding, _ => .ok (.pair binding)
  | .error _, .string text => .ok (.literal text)
  | .error _, .number n => .ok (.number n)
  | .error _, .bool b => .ok (.flag b)
  | .error _, _ => .error (.noForm "ParamValue")

/-- The value as JSON. -/
def toJson : ParameterValue → Json
  | .pair binding => binding.toJson
  | .literal text => .string text
  | .number n => .number n
  | .flag b => .bool b

/-- The text of a truth value. -/
def flagText (b : Bool) : String := if b then "true" else "false"

/-- The value of the variable that carries the parameter into the job. -/
def envValue : ParameterValue → String
  | .literal text => text
  | .number n => n.text
  | .flag b => flagText b
  | .pair binding =>
    match binding.localName, binding.remote with
    | some name, _ => name
    | none, some remote => remote.text
    | none, none => ""

/-- What stands between the halves of a binding that is written as one text. -/
def halvesMark : List Char := [' ', '@', ' ']

/-- The halves of a text: `local @ remote`, or one of the two alone. -/
def bindingOfText (text : String) : Except Rejection Binding :=
  match Text.cutAtText halvesMark text.toList with
  | some (left, right) => do
    let name := Text.trim left
    let remote ← DataPath.parse (String.ofList (Text.trim right))
    return ⟨if name = [] then none else some (String.ofList name), some remote⟩
  | none => do
    match ← DataPath.parse text with
    | .localPath _ => return ⟨some text, none⟩
    | remote => return ⟨none, some remote⟩

/-- The two halves of a value. -/
def binding : ParameterValue → Except Rejection Binding
  | .pair binding => .ok binding
  | .literal text => bindingOfText text
  | .number n => .ok ⟨some n.text, none⟩
  | .flag b => .ok ⟨some (flagText b), none⟩

end ParameterValue

/-- A command, the parameters that it names, and which of them are inputs and outputs. -/
structure Parameters where
  command : List String
  inputs : List String
  outputs : List String
  values : OrderedMap ParameterValue
  /-- Where outputs go that name no destination. -/
  outputRoot : Option S3Uri
  verbose : Bool
  deriving DecidableEq, Repr

namespace Parameters

/-- No command and no parameters. -/
def empty : Parameters := ⟨[], [], [], .empty, none, false⟩

/-- How parameters are read. -/
def record : Record Parameters :=
  Parameters.mk <$> Record.fieldOr ["command"] (Decoder.list Decoder.string) []
    <*> Record.fieldOr ["inputs"] (Decoder.list Decoder.string) []
    <*> Record.fieldOr ["outputs"] (Decoder.list Decoder.string) []
    <*> Record.fieldOr ["params"] (Decoder.map ParameterValue.decode) .empty
    <*> Record.optional ["output_s3_prefix"] (Decoder.parsed S3Uri.parse)
    <*> Record.fieldOr ["verbosity"] Decoder.bool false

/-- The parameters as JSON. -/
def toJson (p : Parameters) : Json :=
  .object ([("command", .strings p.command), ("inputs", .strings p.inputs),
    ("outputs", .strings p.outputs),
    ("params", .object (p.values.mapValues ParameterValue.toJson).entries)] ++
    Json.optionalMember "output_s3_prefix" (fun u : S3Uri => .string u.text) p.outputRoot ++
    [("verbosity", .bool p.verbose)])

end Parameters

/-- The processors, memory (in MiB) and graphics processors that an execution asks for. -/
structure Resources where
  vcpus : UInt32
  memory : UInt32
  gpu : Option UInt32
  deriving DecidableEq, Repr

namespace Resources

/-- What an execution gets that asks for nothing. -/
def standard : Resources := ⟨1, 1024, none⟩

/-- How resources are read. -/
def record : Record Resources :=
  Resources.mk <$> Record.fieldOr ["vcpus"] Decoder.word32 standard.vcpus
    <*> Record.fieldOr ["memory"] Decoder.word32 standard.memory
    <*> Record.optional ["gpu"] Decoder.word32

/-- The resources as JSON. -/
def toJson (r : Resources) : Json :=
  .object ([("vcpus", .ofNat r.vcpus.toNat), ("memory", .ofNat r.memory.toNat)] ++
    Json.optionalMember "gpu" (fun n : UInt32 => .ofNat n.toNat) r.gpu)

end Resources

/-- The queue that takes an execution's job. -/
structure QueueChoice where
  queueName : String
  deriving DecidableEq, Repr

namespace QueueChoice

/-- How the choice of a queue is read. -/
def record : Record QueueChoice :=
  QueueChoice.mk <$> Record.field "job_queue_name" Decoder.string

/-- The choice as JSON. -/
def toJson (q : QueueChoice) : Json := .object [("job_queue_name", .string q.queueName)]

end QueueChoice

/-- Where an execution runs. -/
structure Platform where
  batch : Option QueueChoice
  deriving DecidableEq, Repr

namespace Platform

/-- How a platform is read. -/
def record : Record Platform :=
  Platform.mk <$> Record.optional ["aws_batch"] QueueChoice.record.decode

/-- The platform as JSON. -/
def toJson (p : Platform) : Json :=
  .object (Json.optionalMember "aws_batch" QueueChoice.toJson p.batch)

end Platform

/-- One request to run a container. -/
structure Execution where
  id : String
  /-- The family of jobs that the execution belongs to. -/
  family : String
  image : String
  parameters : Parameters
  resources : Resources
  /-- What the caller wants to find again in the answer. -/
  metadata : OrderedMap Json
  platform : Platform
  deriving DecidableEq, Repr

namespace Execution

/-- Any object, as it is. -/
def decodeMetadata : Decoder (OrderedMap Json)
  | .object members => .ok (OrderedMap.ofList members)
  | _ => .error .shape

/-- How an execution is read. -/
def record : Record Execution :=
  Execution.mk <$> Record.field "execution_id" Decoder.string
    <*> Record.fieldOr ["execution_type"] Decoder.string "custom"
    <*> Record.field "execution_image" Decoder.string
    <*> Record.fieldOr ["execution_parameters"] Parameters.record.decode Parameters.empty
    <*> Record.fieldOr ["resource_requirements"] Resources.record.decode Resources.standard
    <*> Record.fieldOr ["execution_metadata"] decodeMetadata .empty
    <*> Record.fieldOr ["execution_platform"] Platform.record.decode ⟨none⟩

/-- The execution as JSON; metadata without members is left out. -/
def toJson (e : Execution) : Json :=
  .object ([("execution_id", .string e.id), ("execution_type", .string e.family),
    ("execution_image", .string e.image), ("execution_parameters", e.parameters.toJson),
    ("resource_requirements", e.resources.toJson)] ++
    (if e.metadata.entries.isEmpty then []
      else [("execution_metadata", .object e.metadata.entries)]) ++
    [("execution_platform", e.platform.toJson)])

/-- The queue that the execution's job goes to: its name must not be blank. -/
def queueName (e : Execution) : Except Rejection String :=
  match e.platform.batch with
  | some queue => if Text.isBlankText queue.queueName then .error (.noJobQueue e.id)
      else .ok queue.queueName
  | none => .error (.noJobQueue e.id)

end Execution

end JobStaging
