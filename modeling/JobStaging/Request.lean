import JobStaging.Json.Reader
import JobStaging.Placement
import JobStaging.Transfer
import JobStaging.Batch

/-!
# Requests and answers

A request names an execution, where its directories may lie and how its data is handled. The answer
holds the execution with the paths that its job will see, the work to be done before the job, the
job itself, and the work to be done after it.
-/

set_option autoImplicit false

namespace JobStaging

/-- A request to stage one execution. -/
structure Request where
  execution : Execution
  placement : Placement
  handling : Handling
  deriving DecidableEq, Repr

namespace Request

/-- How a request is read, once its strategy has a name of its own. -/
def record : Record Request :=
  Request.mk <$> Record.field "demand_execution" Execution.record.decode
    <*> Record.fieldOr ["file_system_configurations"] Placement.record.decode .empty
    <*> Record.fieldOr ["context_manager_configuration"] Handling.record.decode .standard

/-- The request as JSON. -/
def toJson (r : Request) : Json :=
  .object [("demand_execution", r.execution.toJson),
    ("file_system_configurations", r.placement.toJson),
    ("context_manager_configuration", r.handling.toJson)]

/-- The text that a request gives for its strategy, if it gives one. -/
def strategyText? (j : Json) : Option String := do
  let placement ← j.member? "file_system_configurations"
  match ← placement.member? "selection_strategy" with
  | .string text => some text
  | _ => none

/-- A request with the name of its strategy set. -/
def setStrategy (s : Strategy) (j : Json) : Json :=
  match j.member? "file_system_configurations" with
  | some placement =>
    j.setMember "file_system_configurations"
      (placement.setMember "selection_strategy" (.string s.name))
  | none => j

/-- A request in which the strategy, if a text names it, has the name that it goes by. -/
def normalized (j : Json) : Except Rejection Json :=
  match strategyText? j with
  | some text => (Strategy.parse text).map fun s => setStrategy s j
  | none => .ok j

/-- Reads a request. The strategy is looked at first, and a wrong one is told before any other
fault. -/
def ofJson (j : Json) : Except Error Request := do
  let j ← (normalized j).mapError .invalidInput
  (record.decode j).mapError .serialization

/-- Reads a request from its text. -/
def ofText (text : String) : Except Error Request :=
  match Json.parse text with
  | some j => ofJson j
  | none => .error (.serialization .malformed)

end Request

/-- What is done before the job, and the job. -/
structure Setup where
  syncs : List SyncRequest
  job : Batch.JobSpec
  deriving DecidableEq, Repr

namespace Setup

/-- How it is read. -/
def record : Record Setup :=
  Setup.mk <$> Record.field "data_sync_requests" (Decoder.list SyncRequest.record.decode)
    <*> Record.field "batch_create_request" Batch.JobSpec.record.decode

/-- It as JSON. -/
def toJson (s : Setup) : Json :=
  .object [("data_sync_requests", .list SyncRequest.toJson s.syncs),
    ("batch_create_request", s.job.toJson)]

end Setup

/-- What is done after the job. -/
structure Cleanup where
  syncs : List SyncRequest
  removals : List RemovalRequest
  deriving DecidableEq, Repr

namespace Cleanup

/-- How it is read. -/
def record : Record Cleanup :=
  Cleanup.mk <$> Record.fieldOr ["data_sync_requests"] (Decoder.list SyncRequest.record.decode) []
    <*> Record.fieldOr ["remove_data_paths_requests"] (Decoder.list RemovalRequest.record.decode) []

/-- It as JSON. -/
def toJson (c : Cleanup) : Json :=
  .object [("data_sync_requests", .list SyncRequest.toJson c.syncs),
    ("remove_data_paths_requests", .list RemovalRequest.toJson c.removals)]

end Cleanup

/-- The answer to a request. -/
structure Response where
  /-- The execution with its parameters as the job will see them. -/
  execution : Execution
  setup : Setup
  cleanup : Cleanup
  deriving DecidableEq, Repr

namespace Response

/-- How an answer is read. -/
def record : Record Response :=
  Response.mk <$> Record.field "demand_execution" Execution.record.decode
    <*> Record.field "setup_configs" Setup.record.decode
    <*> Record.field "cleanup_configs" Cleanup.record.decode

/-- The answer as JSON. -/
def toJson (r : Response) : Json :=
  .object [("demand_execution", r.execution.toJson), ("setup_configs", r.setup.toJson),
    ("cleanup_configs", r.cleanup.toJson)]

end Response

end JobStaging
