import JobStaging.Execution
import JobStaging.Proofs.Json.Record
import JobStaging.Proofs.Location

/-!
# Executions as JSON

An execution is read back from the JSON that it is written as when the places in its parameters are
spelled, which holds for each that was read. Everything else in it is written in a form that
determines it: members that are left out stand for the value that is read in their place, and a
parameter's value shows by its shape which of the four kinds it is.
-/

set_option autoImplicit false

namespace JobStaging

/-- Every place that is read is spelled. -/
theorem DataPath.yields_spelled : (Decoder.parsed DataPath.parse).Yields DataPath.Spelled :=
  Decoder.yields_parsed fun _ _ => DataPath.spelled_of_parse

/-- The name of the file system of every shared path that is read has no colon. -/
theorem EfsPath.yields_colon_notMem :
    (Decoder.parsed EfsPath.parse).Yields fun e => ':' ∉ e.fileSystem.toList :=
  Decoder.yields_parsed fun _ _ => EfsPath.colon_notMem_of_parse

namespace Binding

/-- A binding is spelled when its place is. -/
def Spelled (b : Binding) : Prop := ∀ d, b.remote = some d → d.Spelled

/-- A spelled binding is read back. -/
theorem decode_toJson {b : Binding} (h : b.Spelled) : record.decode b.toJson = .ok b := by
  obtain ⟨localName, remote⟩ := b
  -- What is to be shown of a record: its fields are read back one by one, in the order in which it
  -- lists them; their names differ; and the members of the object stand in that order.
  apply Record.Recovers.decodeWith_object
  · refine .seq (.map
      (.optional .string nofun fun _ _ => rfl))
      (.optional (fun d : DataPath => .string d.text) nofun ?_)
    exact fun d hd => Decoder.parsed_string (h d hd)
  · decide
  · rfl

/-- Every binding that is read is spelled. -/
theorem yields_spelled : record.decode.Yields Spelled := by
  intro j b h
  obtain ⟨_, remote, h1, hremote, rfl⟩ := (Record.gives_of_decodeWith h).seq
  obtain ⟨localName, -, rfl⟩ := h1.map
  exact hremote.optional DataPath.yields_spelled

end Binding

namespace ParameterValue

/-- A value is spelled when it is not a binding or a spelled one. -/
def Spelled : ParameterValue → Prop
  | .pair b => b.Spelled
  | _ => True

/-- A spelled value is read back, as a value of the same kind. -/
theorem decode_toJson {value : ParameterValue} (h : value.Spelled) :
    decode value.toJson = .ok value := by
  cases value with
  | pair b =>
    unfold decode toJson
    rw [Binding.decode_toJson h]
  | literal text => rfl
  | number n => rfl
  | flag b => rfl

/-- Every value that is read is spelled. -/
theorem yields_spelled : Decoder.Yields decode Spelled := by
  intro j value h
  unfold decode at h
  split at h
  · next hbinding =>
    cases h
    exact Binding.yields_spelled _ _ hbinding
  · cases h
    trivial
  · cases h
    trivial
  · cases h
    trivial
  · cases h

end ParameterValue

namespace Parameters

/-- Parameters are spelled when their values are. -/
def Spelled (p : Parameters) : Prop := ∀ e ∈ p.values.entries, e.2.Spelled

/-- Parameters without values are spelled. -/
theorem spelled_empty : empty.Spelled := List.forall_mem_nil _

/-- Spelled parameters are read back, with their values in the same order. -/
theorem decode_toJson {p : Parameters} (h : p.Spelled) : record.decode p.toJson = .ok p := by
  obtain ⟨command, inputs, outputs, values, outputRoot, verbose⟩ := p
  apply Record.Recovers.decodeWith_object
  · refine .seq (.seq (.seq (.seq (.seq (.map
      (.fieldOr (.strings command) (Decoder.list_strings command)))
      (.fieldOr (.strings inputs) (Decoder.list_strings inputs)))
      (.fieldOr (.strings outputs) (Decoder.list_strings outputs)))
      (.fieldOr (.object (values.mapValues ParameterValue.toJson).entries) ?_))
      (.optional (fun u : S3Uri => .string u.text) nofun ?_))
      (.fieldOr (.bool verbose) rfl)
    · exact Decoder.map_object fun e he => ParameterValue.decode_toJson (h e he)
    · exact fun u _ => Decoder.parsed_string u.parse_text
  · decide
  · rfl

/-- All parameters that are read are spelled. -/
theorem yields_spelled : record.decode.Yields Spelled := by
  intro j p h
  obtain ⟨_, verbose, h1, -, rfl⟩ := (Record.gives_of_decodeWith h).seq
  obtain ⟨_, outputRoot, h2, -, rfl⟩ := h1.seq
  obtain ⟨_, values, h3, hvalues, rfl⟩ := h2.seq
  obtain ⟨_, outputs, h4, -, rfl⟩ := h3.seq
  obtain ⟨_, inputs, h5, -, rfl⟩ := h4.seq
  obtain ⟨command, -, rfl⟩ := h5.map
  exact hvalues.fieldOr spelled_empty ParameterValue.yields_spelled.map

end Parameters

/-- The resources of an execution are read back. -/
theorem Resources.decode_toJson (r : Resources) : record.decode r.toJson = .ok r := by
  obtain ⟨vcpus, memory, gpu⟩ := r
  apply Record.Recovers.decodeWith_object
  · exact .seq (.seq (.map
      (.fieldOr (.ofNat vcpus.toNat) (Decoder.word32_ofNat vcpus)))
      (.fieldOr (.ofNat memory.toNat) (Decoder.word32_ofNat memory)))
      (.optional (fun n : UInt32 => .ofNat n.toNat) nofun fun n _ => Decoder.word32_ofNat n)
  · decide
  · rfl

/-- The choice of a queue is read back. -/
theorem QueueChoice.decode_toJson (q : QueueChoice) : record.decode q.toJson = .ok q := by
  obtain ⟨queueName⟩ := q
  apply Record.Recovers.decodeWith_object
  · exact .map (.field (.string queueName) rfl)
  · decide
  · rfl

/-- A platform is read back. -/
theorem Platform.decode_toJson (p : Platform) : record.decode p.toJson = .ok p := by
  obtain ⟨batch⟩ := p
  apply Record.Recovers.decodeWith_object
  · exact .map (.optional QueueChoice.toJson nofun fun q _ => q.decode_toJson)
  · decide
  · rfl

namespace Execution

/-- Metadata without members is left out, and is what is read where it is wanting. -/
theorem recovers_metadata (metadata : OrderedMap Json) :
    (Record.fieldOr ["execution_metadata"] decodeMetadata .empty).Recovers ["execution_metadata"]
      (if metadata.entries.isEmpty then []
        else [("execution_metadata", .object metadata.entries)]) metadata := by
  split
  · next hempty =>
    obtain rfl : metadata = .empty := OrderedMap.ext (List.isEmpty_iff.1 hempty)
    exact .wanting
  · refine .fieldOr _ (congrArg Except.ok ?_)
    exact OrderedMap.ext (OrderedMap.entries_ofList metadata.nodup)

/-- An execution is read back when its parameters are spelled. -/
theorem decode_toJson {e : Execution} (h : e.parameters.Spelled) :
    record.decode e.toJson = .ok e := by
  obtain ⟨id, family, image, parameters, resources, metadata, platform⟩ := e
  apply Record.Recovers.decodeWith_object
  · exact .seq (.seq (.seq (.seq (.seq (.seq (.map
      (.field (.string id) rfl))
      (.fieldOr (.string family) rfl))
      (.field (.string image) rfl))
      (.fieldOr parameters.toJson (Parameters.decode_toJson h)))
      (.fieldOr resources.toJson resources.decode_toJson))
      (recovers_metadata metadata))
      (.fieldOr platform.toJson platform.decode_toJson)
  · decide
  · rfl

/-- The parameters of every execution that is read are spelled. -/
theorem yields_spelled : record.decode.Yields fun e => e.parameters.Spelled := by
  intro j e h
  obtain ⟨_, platform, h1, -, rfl⟩ := (Record.gives_of_decodeWith h).seq
  obtain ⟨_, metadata, h2, -, rfl⟩ := h1.seq
  obtain ⟨_, resources, h3, -, rfl⟩ := h2.seq
  obtain ⟨_, parameters, h4, hparameters, rfl⟩ := h3.seq
  obtain ⟨_, image, h5, -, rfl⟩ := h4.seq
  obtain ⟨_, family, h6, -, rfl⟩ := h5.seq
  obtain ⟨id, -, rfl⟩ := h6.map
  exact hparameters.fieldOr Parameters.spelled_empty Parameters.yields_spelled

end Execution

/-! ## Formats -/

/-- Places, and what an execution is made of. -/
def executionFormats : List Format :=
  [⟨S3Uri, _, Decoder.parsed S3Uri.parse, fun u => .string u.text⟩,
    ⟨EfsPath, _, Decoder.parsed EfsPath.parse, fun e => .string e.text⟩,
    ⟨DataPath, _, Decoder.parsed DataPath.parse, fun d => .string d.text⟩,
    ⟨Binding, _, Binding.record.decode, Binding.toJson⟩,
    ⟨ParameterValue, _, ParameterValue.decode, ParameterValue.toJson⟩,
    ⟨Parameters, _, Parameters.record.decode, Parameters.toJson⟩,
    ⟨Resources, _, Resources.record.decode, Resources.toJson⟩,
    ⟨QueueChoice, _, QueueChoice.record.decode, QueueChoice.toJson⟩,
    ⟨Platform, _, Platform.record.decode, Platform.toJson⟩,
    ⟨Execution, _, Execution.record.decode, Execution.toJson⟩]

/-- Each of these formats survives, since what was read is spelled. -/
theorem survives_of_mem_executionFormats : ∀ f ∈ executionFormats, f.Survives := by
  unfold executionFormats
  simp only [List.forall_mem_cons]
  refine ⟨?s3, ?efs, ?data, ?binding, ?value, ?parameters, .of_all Resources.decode_toJson,
    .of_all QueueChoice.decode_toJson, .of_all Platform.decode_toJson, ?execution,
    List.forall_mem_nil _⟩
  case s3 => exact .of_all fun u => Decoder.parsed_string u.parse_text
  case efs =>
    exact .of_read fun j e h =>
      Decoder.parsed_string (EfsPath.parse_text (EfsPath.yields_colon_notMem j e h))
  case data =>
    exact .of_read fun j d h => Decoder.parsed_string (DataPath.yields_spelled j d h)
  case binding =>
    exact .of_read fun j b h => Binding.decode_toJson (Binding.yields_spelled j b h)
  case value =>
    exact .of_read fun j v h => ParameterValue.decode_toJson (ParameterValue.yields_spelled j v h)
  case parameters =>
    exact .of_read fun j p h => Parameters.decode_toJson (Parameters.yields_spelled j p h)
  case execution =>
    exact .of_read fun j e h => Execution.decode_toJson (Execution.yields_spelled j e h)

end JobStaging
