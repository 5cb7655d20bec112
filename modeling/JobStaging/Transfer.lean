import JobStaging.Json.Record
import JobStaging.Location.DataPath

/-!
# Transfers

Requests to copy data to or from a shared file system and to remove it again, and the settings of a
request that say how its data is to be handled.
-/

set_option autoImplicit false

namespace JobStaging

/-- The text of an optional place in an object store, as a member. -/
def intermediateMember (u : Option S3Uri) : List (String × Json) :=
  Json.optionalMember "intermediate_s3_path" (fun u : S3Uri => .string u.text) u

/-- How an optional place in an object store is read. -/
def intermediateField : Record (Option S3Uri) :=
  Record.optional ["intermediate_s3_path"] (Decoder.parsed S3Uri.parse)

/-- What holds for all copies in one direction. -/
structure SyncSettings where
  /-- Where data may be put down on its way. -/
  intermediate : Option S3Uri
  force : Bool
  sizeOnly : Bool
  deriving DecidableEq, Repr

namespace SyncSettings

/-- Compare by size, force nothing. -/
def standard : SyncSettings := ⟨none, false, true⟩

/-- How settings are read. -/
def record : Record SyncSettings :=
  SyncSettings.mk <$> intermediateField
    <*> Record.fieldOr ["force"] Decoder.bool standard.force
    <*> Record.fieldOr ["size_only"] Decoder.bool standard.sizeOnly

/-- The settings as JSON. -/
def toJson (s : SyncSettings) : Json :=
  .object (intermediateMember s.intermediate ++
    [("force", .bool s.force), ("size_only", .bool s.sizeOnly)])

end SyncSettings

/-- When the variables of a job go into a file. -/
inductive EnvFileMode where
  | never
  | always
  /-- Only if they would take too many bytes otherwise. -/
  | ifRequired
  deriving DecidableEq, Repr

namespace EnvFileMode

/-- The names of the modes. -/
def names : List (String × EnvFileMode) :=
  [("NEVER", .never), ("ALWAYS", .always), ("IF_REQUIRED", .ifRequired)]

/-- The name of a mode. -/
def name : EnvFileMode → String
  | .never => "NEVER"
  | .always => "ALWAYS"
  | .ifRequired => "IF_REQUIRED"

/-- Reads a mode. -/
def decode : Decoder EnvFileMode := Decoder.choice names

end EnvFileMode

/-- How the data of one request is handled. -/
structure Handling where
  /-- Whether inputs are copied into the working directory and not to the shared one. -/
  isolateInputs : Bool
  cleanupInputs : Bool
  cleanupWorkingDir : Bool
  envFileMode : EnvFileMode
  /-- Stands in for both directions where they name no intermediate place of their own. -/
  intermediate : Option S3Uri
  inputSync : SyncSettings
  outputSync : SyncSettings
  deriving DecidableEq, Repr

namespace Handling

/-- Shared inputs, nothing cleaned up, variables in a file. -/
def standard : Handling := ⟨false, false, false, .always, none, .standard, .standard⟩

/-- How the handling is read. -/
def record : Record Handling :=
  Handling.mk <$> Record.fieldOr ["isolate_inputs"] Decoder.bool false
    <*> Record.fieldOr ["cleanup_inputs"] Decoder.bool false
    <*> Record.fieldOr ["cleanup_working_dir"] Decoder.bool false
    <*> Record.fieldOr ["env_file_write_mode"] EnvFileMode.decode .always
    <*> intermediateField
    <*> Record.fieldOr ["input_data_sync_configuration"] SyncSettings.record.decode .standard
    <*> Record.fieldOr ["output_data_sync_configuration"] SyncSettings.record.decode .standard

/-- The handling as JSON. -/
def toJson (h : Handling) : Json :=
  .object ([("isolate_inputs", .bool h.isolateInputs), ("cleanup_inputs", .bool h.cleanupInputs),
    ("cleanup_working_dir", .bool h.cleanupWorkingDir),
    ("env_file_write_mode", .string h.envFileMode.name)] ++
    intermediateMember h.intermediate ++
    [("input_data_sync_configuration", h.inputSync.toJson),
      ("output_data_sync_configuration", h.outputSync.toJson)])

/-- Settings with the common intermediate place where they have none. -/
def completed (h : Handling) (s : SyncSettings) : SyncSettings :=
  { s with intermediate := s.intermediate <|> h.intermediate }

/-- The settings for copies made before the job. -/
def effectiveInputSync (h : Handling) : SyncSettings := h.completed h.inputSync

/-- The settings for copies made after the job. -/
def effectiveOutputSync (h : Handling) : SyncSettings := h.completed h.outputSync

end Handling

/-- A request to copy data. -/
structure SyncRequest where
  source : DataPath
  destination : DataPath
  /-- Whether the source stays after the copy. -/
  retainSource : Bool
  force : Bool
  sizeOnly : Bool
  intermediate : Option S3Uri
  deriving DecidableEq, Repr

namespace SyncRequest

/-- A copy under the settings of its direction. -/
def ofSettings (source destination : DataPath) (retainSource : Bool) (s : SyncSettings) :
    SyncRequest :=
  ⟨source, destination, retainSource, s.force, s.sizeOnly, s.intermediate⟩

/-- How a request is read. -/
def record : Record SyncRequest :=
  SyncRequest.mk <$> Record.field "source_path" (Decoder.parsed DataPath.parse)
    <*> Record.field "destination_path" (Decoder.parsed DataPath.parse)
    <*> Record.fieldOr ["retain_source_data"] Decoder.bool true
    <*> Record.fieldOr ["force"] Decoder.bool false
    <*> Record.fieldOr ["size_only"] Decoder.bool false
    <*> intermediateField

/-- The request as JSON. -/
def toJson (r : SyncRequest) : Json :=
  .object ([("source_path", .string r.source.text), ("destination_path", .string r.destination.text),
    ("retain_source_data", .bool r.retainSource), ("force", .bool r.force),
    ("size_only", .bool r.sizeOnly)] ++ intermediateMember r.intermediate)

end SyncRequest

/-- A request to remove data. -/
structure RemovalRequest where
  paths : List DataPath
  deriving DecidableEq, Repr

namespace RemovalRequest

/-- How a request is read. -/
def record : Record RemovalRequest :=
  RemovalRequest.mk <$>
    Record.fieldOr ["paths"] (Decoder.list (Decoder.parsed DataPath.parse)) []

/-- The request as JSON. -/
def toJson (r : RemovalRequest) : Json :=
  .object [("paths", .list (fun d : DataPath => .string d.text) r.paths)]

end RemovalRequest

end JobStaging
