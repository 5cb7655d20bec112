import JobStaging.Proofs.Wire.Execution
import JobStaging.Proofs.Wire.Job
import JobStaging.Proofs.Wire.Settings
import JobStaging.Request

/-!
# Requests and answers as JSON

Requests and answers are put together from what the other modules are about. A request has one
peculiarity: before it is read, the name of its strategy is looked up in any mixture of capitals and
small letters. What is written has the name in the one form that stays as it is
(`normalized_toJson`).

The main statement, `survives_of_mem_wireFormats`, is that every type that is read from JSON and
written to it survives its own JSON, however the value was given in the first place.
-/

set_option autoImplicit false

namespace JobStaging

/-! ## Requests -/

namespace Request

/-- A request is read back when the parameters of its execution are spelled. -/
theorem decode_toJson {r : Request} (h : r.execution.parameters.Spelled) :
    record.decode r.toJson = .ok r := by
  obtain ⟨execution, placement, handling⟩ := r
  apply Record.Recovers.decodeWith_object
  · exact .seq (.seq (.map
      (.field execution.toJson (Execution.decode_toJson h)))
      (.fieldOr placement.toJson placement.decode_toJson))
      (.fieldOr handling.toJson handling.decode_toJson)
  · decide
  · rfl

/-- The name of a strategy names it. -/
theorem parse_name (s : Strategy) : Strategy.parse s.name = .ok s := by
  cases s <;> rfl

/-- The name of the strategy stands where it is looked for. -/
theorem strategyText?_toJson (r : Request) :
    strategyText? r.toJson = some r.placement.strategy.name := by
  obtain ⟨execution, ⟨shared, scratch, tmp, strategy⟩, handling⟩ := r
  cases tmp <;> rfl

/-- To put the name of the strategy there again changes nothing. -/
theorem setStrategy_toJson (r : Request) :
    setStrategy r.placement.strategy r.toJson = r.toJson := by
  obtain ⟨execution, ⟨shared, scratch, tmp, strategy⟩, handling⟩ := r
  cases tmp <;> rfl

/-- A request that was written has its strategy under the name that it goes by. -/
theorem normalized_toJson (r : Request) : normalized r.toJson = .ok r.toJson := by
  unfold normalized
  rw [strategyText?_toJson]
  dsimp only
  rw [parse_name]
  exact congrArg Except.ok (setStrategy_toJson r)

/-- A request is read back also when its strategy is looked at first. -/
theorem ofJson_toJson {r : Request} (h : r.execution.parameters.Spelled) :
    ofJson r.toJson = .ok r := by
  refine Fallible.bind_eq_ok_iff.2 ⟨r.toJson, ?_, ?_⟩
  · exact Fallible.mapError_eq_ok_iff.2 (normalized_toJson r)
  · exact Fallible.mapError_eq_ok_iff.2 (decode_toJson h)

/-- The parameters of every request that is read are spelled. -/
theorem yields_spelled : record.decode.Yields fun r => r.execution.parameters.Spelled := by
  intro j r h
  obtain ⟨_, handling, h1, -, rfl⟩ := (Record.gives_of_decodeWith h).seq
  obtain ⟨_, placement, h2, -, rfl⟩ := h1.seq
  obtain ⟨execution, hexecution, rfl⟩ := h2.map
  exact hexecution.field Execution.yields_spelled

/-- They are spelled also when the strategy was looked at first. -/
theorem spelled_of_ofJson {j : Json} {r : Request} (h : ofJson j = .ok r) :
    r.execution.parameters.Spelled := by
  obtain ⟨normal, -, hread⟩ := Fallible.bind_eq_ok_iff.1 h
  exact yields_spelled normal r (Fallible.mapError_eq_ok_iff.1 hread)

end Request

/-! ## Answers -/

namespace Setup

/-- What is done before a job is spelled when the copies are. -/
def Spelled (s : Setup) : Prop := ∀ r ∈ s.syncs, r.Spelled

/-- What is done before a job is read back when its copies are spelled. -/
theorem decode_toJson {s : Setup} (h : s.Spelled) : record.decode s.toJson = .ok s := by
  obtain ⟨syncs, job⟩ := s
  apply Record.Recovers.decodeWith_object
  · exact .seq (.map
      (.field (.list SyncRequest.toJson syncs)
        (Decoder.list_list fun r hr => SyncRequest.decode_toJson (h r hr))))
      (.field job.toJson job.decode_toJson)
  · decide
  · rfl

/-- The copies of every one that is read are spelled. -/
theorem yields_spelled : record.decode.Yields Spelled := by
  intro j s h
  obtain ⟨_, job, h1, -, rfl⟩ := (Record.gives_of_decodeWith h).seq
  obtain ⟨syncs, hsyncs, rfl⟩ := h1.map
  exact hsyncs.field SyncRequest.yields_spelled.list

end Setup

namespace Cleanup

/-- What is done after a job is spelled when the copies and removals are. -/
def Spelled (c : Cleanup) : Prop := (∀ r ∈ c.syncs, r.Spelled) ∧ ∀ r ∈ c.removals, r.Spelled

/-- What is done after a job is read back when its copies and removals are spelled. -/
theorem decode_toJson {c : Cleanup} (h : c.Spelled) : record.decode c.toJson = .ok c := by
  obtain ⟨syncs, removals⟩ := c
  apply Record.Recovers.decodeWith_object
  · exact .seq (.map
      (.fieldOr (.list SyncRequest.toJson syncs)
        (Decoder.list_list fun r hr => SyncRequest.decode_toJson (h.1 r hr))))
      (.fieldOr (.list RemovalRequest.toJson removals)
        (Decoder.list_list fun r hr => RemovalRequest.decode_toJson (h.2 r hr)))
  · decide
  · rfl

/-- Those of every one that is read are spelled. -/
theorem yields_spelled : record.decode.Yields Spelled := by
  intro j c h
  obtain ⟨_, removals, h1, hremovals, rfl⟩ := (Record.gives_of_decodeWith h).seq
  obtain ⟨syncs, hsyncs, rfl⟩ := h1.map
  constructor
  · apply hsyncs.fieldOr
    · exact List.forall_mem_nil _
    · exact SyncRequest.yields_spelled.list
  · apply hremovals.fieldOr
    · exact List.forall_mem_nil _
    · exact RemovalRequest.yields_spelled.list

end Cleanup

namespace Response

/-- An answer is spelled when its parts are. -/
structure Spelled (r : Response) : Prop where
  parameters : r.execution.parameters.Spelled
  setup : r.setup.Spelled
  cleanup : r.cleanup.Spelled

/-- A spelled answer is read back. -/
theorem decode_toJson {r : Response} (h : r.Spelled) : record.decode r.toJson = .ok r := by
  obtain ⟨execution, setup, cleanup⟩ := r
  apply Record.Recovers.decodeWith_object
  · exact .seq (.seq (.map
      (.field execution.toJson (Execution.decode_toJson h.parameters)))
      (.field setup.toJson (Setup.decode_toJson h.setup)))
      (.field cleanup.toJson (Cleanup.decode_toJson h.cleanup))
  · decide
  · rfl

/-- Every answer that is read is spelled. -/
theorem yields_spelled : record.decode.Yields Spelled := by
  intro j r h
  obtain ⟨_, cleanup, h1, hcleanup, rfl⟩ := (Record.gives_of_decodeWith h).seq
  obtain ⟨_, setup, h2, hsetup, rfl⟩ := h1.seq
  obtain ⟨execution, hexecution, rfl⟩ := h2.map
  constructor
  · exact hexecution.field Execution.yields_spelled
  · exact hsetup.field Setup.yields_spelled
  · exact hcleanup.field Cleanup.yields_spelled

end Response

/-! ## Formats -/

/-- Requests and answers; a request is also read without a look at its strategy. -/
def requestFormats : List Format :=
  [⟨Request, _, Request.ofJson, Request.toJson⟩,
    ⟨Request, _, Request.record.decode, Request.toJson⟩,
    ⟨Setup, _, Setup.record.decode, Setup.toJson⟩,
    ⟨Cleanup, _, Cleanup.record.decode, Cleanup.toJson⟩,
    ⟨Response, _, Response.record.decode, Response.toJson⟩]

/-- Each of these formats survives, a request under both of its readers. -/
theorem survives_of_mem_requestFormats : ∀ f ∈ requestFormats, f.Survives := by
  unfold requestFormats
  simp only [List.forall_mem_cons]
  refine ⟨?request, ?plain, ?setup, ?cleanup, ?response, List.forall_mem_nil _⟩
  case request =>
    exact .of_read fun j r h => Request.ofJson_toJson (Request.spelled_of_ofJson h)
  case plain =>
    exact .of_read fun j r h => Request.decode_toJson (Request.yields_spelled j r h)
  case setup => exact .of_read fun j s h => Setup.decode_toJson (Setup.yields_spelled j s h)
  case cleanup => exact .of_read fun j c h => Cleanup.decode_toJson (Cleanup.yields_spelled j c h)
  case response =>
    exact .of_read fun j r h => Response.decode_toJson (Response.yields_spelled j r h)

/-- All types that are read from JSON and written to it; settings are read in documents that refuse
or that ignore surplus elements. -/
def wireFormats (surplus : Surplus) : List Format :=
  requestFormats ++ executionFormats ++ jobFormats ++ settingsFormats surplus

/-- Whatever JSON a value of one of the types was read from, the value is read back from the JSON
that it is written as, and is then written as the same again. -/
theorem survives_of_mem_wireFormats (surplus : Surplus) :
    ∀ f ∈ wireFormats surplus, f.Survives := by
  intro f hf
  unfold wireFormats at hf
  simp only [List.mem_append] at hf
  rcases hf with ((hf | hf) | hf) | hf
  · exact survives_of_mem_requestFormats f hf
  · exact survives_of_mem_executionFormats f hf
  · exact survives_of_mem_jobFormats f hf
  · exact survives_of_mem_settingsFormats surplus f hf

/-- A request in unusual forms: elements in place of members, one candidate in place of a list,
another name of a field, a strategy in small letters, nothing for an optional field, and an object
without a slash after its bucket. -/
def unusualRequest : Json :=
  .object [("context_manager_configuration", .array [.bool true]),
    ("demand_execution", .object [("execution_image", .string "tool"),
      ("execution_id", .string "run-1"),
      ("execution_parameters", .object [("params", .object [
        ("READS", .array [.null, .string "s3://data"]), ("DEPTH", .number (.whole (-4)))]),
        ("output_s3_prefix", .null)])]),
    ("file_system_configurations", .object [
      ("shared", .object [("access_point", .null), ("file_system_id", .string "fs-1")]),
      ("scratch", .array [.string "fs-2"]), ("selection_strategy", .string " least_utilized")])]

/-- It is written in the usual forms, and read back from them. -/
theorem survives_of_mem_wireFormats_of_sample :
    let placement := Json.object [("shared", .array [.object [("file_system", .string "fs-1")]]),
      ("scratch", .array [.object [("file_system", .string "fs-2")]]),
      ("selection_strategy", .string "LEAST_UTILIZED")]
    let values := Json.object [("READS", .object [("remote", .string "s3://data/")]),
      ("DEPTH", .number (.whole (-4)))]
    ∃ r, Request.ofJson unusualRequest = .ok r ∧ r.placement.toJson = placement ∧
      r.execution.parameters.toJson.member? "params" = some values ∧
      Request.ofJson r.toJson = .ok r ∧
      (Request.ofJson r.toJson).map Request.toJson = .ok r.toJson := by
  intro placement values
  have hread : ∃ r, Request.ofJson unusualRequest = .ok r ∧ r.placement.toJson = placement ∧
      r.execution.parameters.toJson.member? "params" = some values := ⟨_, rfl, rfl, rfl⟩
  obtain ⟨r, hr, hplacement, hvalues⟩ := hread
  have hmem : ⟨Request, _, Request.ofJson, Request.toJson⟩ ∈ wireFormats .refused :=
    List.mem_cons_self
  exact ⟨r, hr, hplacement, hvalues, survives_of_mem_wireFormats .refused _ hmem _ r hr⟩

end JobStaging
