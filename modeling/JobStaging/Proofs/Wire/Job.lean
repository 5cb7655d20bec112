import JobStaging.Batch
import JobStaging.Proofs.Wire.Execution
import JobStaging.Transfer

/-!
# Jobs and transfers as JSON

Every job is read back from the JSON that it is written as, and so are the settings of a request for
the handling of its data. Requests to copy and to remove data are when the places in them are
spelled, which holds for each that was read.
-/

set_option autoImplicit false

namespace JobStaging

namespace Batch

/-- A kind of resource is read back from its name. -/
theorem ResourceKind.decode_name (k : ResourceKind) :
    Decoder.choice ResourceKind.names (.string k.name) = .ok k := by
  cases k <;> rfl

/-- A requirement is read back: its kind and its value are texts. -/
theorem ResourceRequirement.decode_toJson (r : ResourceRequirement) :
    record.decode r.toJson = .ok r := by
  obtain ⟨kind, value⟩ := r
  apply Record.Recovers.decodeWith_object
  · exact .seq (.map
      (.field (.string kind.name) kind.decode_name))
      (.field (.string value) rfl)
  · decide
  · rfl

/-- A mount point is read back. -/
theorem MountPoint.decode_toJson (m : MountPoint) : record.decode m.toJson = .ok m := by
  obtain ⟨containerPath, readOnly, sourceVolume⟩ := m
  apply Record.Recovers.decodeWith_object
  · exact .seq (.seq (.map
      (.field (.string containerPath) rfl))
      (.field (.bool readOnly) rfl))
      (.field (.string sourceVolume) rfl)
  · decide
  · rfl

/-- The authorization of a volume is read back. -/
theorem Authorization.decode_toJson (a : Authorization) : record.decode a.toJson = .ok a := by
  obtain ⟨accessPoint, iam⟩ := a
  apply Record.Recovers.decodeWith_object
  · exact .seq (.map
      (.field (.string accessPoint) rfl))
      (.field (.string iam) rfl)
  · decide
  · rfl

/-- A volume's file system is read back, with or without an authorization. -/
theorem EfsVolume.decode_toJson (v : EfsVolume) : record.decode v.toJson = .ok v := by
  obtain ⟨fileSystem, rootDirectory, transitEncryption, authorization⟩ := v
  apply Record.Recovers.decodeWith_object
  · exact .seq (.seq (.seq (.map
      (.field (.string fileSystem) rfl))
      (.field (.string rootDirectory) rfl))
      (.field (.string transitEncryption) rfl))
      (.optional Authorization.toJson nofun fun a _ => a.decode_toJson)
  · decide
  · rfl

/-- A volume is read back. -/
theorem Volume.decode_toJson (v : Volume) : record.decode v.toJson = .ok v := by
  obtain ⟨name, efs⟩ := v
  apply Record.Recovers.decodeWith_object
  · exact .seq (.map
      (.field (.string name) rfl))
      (.field efs.toJson efs.decode_toJson)
  · decide
  · rfl

/-- What is done about a failure is read back from its name. -/
theorem RetryAction.decode_name (a : RetryAction) :
    Decoder.choice RetryAction.names (.string a.name) = .ok a := by
  cases a <;> rfl

/-- A rule for a failed attempt is read back, whichever of its two patterns it has. -/
theorem ExitRule.decode_toJson (r : ExitRule) : record.decode r.toJson = .ok r := by
  obtain ⟨action, onReason, onStatusReason⟩ := r
  apply Record.Recovers.decodeWith_object
  · exact .seq (.seq (.map
      (.field (.string action.name) action.decode_name))
      (.optional .string nofun fun _ _ => rfl))
      (.optional .string nofun fun _ _ => rfl)
  · decide
  · rfl

/-- A retry strategy is read back; the number of attempts fits into a word. -/
theorem RetryStrategy.decode_toJson (s : RetryStrategy) : record.decode s.toJson = .ok s := by
  obtain ⟨attempts, rules⟩ := s
  apply Record.Recovers.decodeWith_object
  · exact .seq (.map
      (.field (.ofNat attempts.toNat) (Decoder.word32_ofNat attempts)))
      (.fieldOr (.list ExitRule.toJson rules) (Decoder.list_list fun r _ => r.decode_toJson))
  · decide
  · rfl

/-- A job is read back. -/
theorem JobSpec.decode_toJson (s : JobSpec) : record.decode s.toJson = .ok s := by
  obtain ⟨image, definitionName, name, queueName, definitionTags, command, environment, resources,
    mountPoints, volumes, retry, privileged⟩ := s
  apply Record.Recovers.decodeWith_object
  · exact .seq (.seq (.seq (.seq (.seq (.seq (.seq (.seq (.seq (.seq (.seq (.map
      (.field (.string image) rfl))
      (.field (.string definitionName) rfl))
      (.field (.string name) rfl))
      (.field (.string queueName) rfl))
      (.fieldOr (.stringMap definitionTags) (Decoder.map_stringMap definitionTags)))
      (.fieldOr (.strings command) (Decoder.list_strings command)))
      (.fieldOr (.stringMap environment) (Decoder.map_stringMap environment)))
      (.fieldOr (.list ResourceRequirement.toJson resources)
        (Decoder.list_list fun r _ => r.decode_toJson)))
      (.fieldOr (.list MountPoint.toJson mountPoints)
        (Decoder.list_list fun m _ => m.decode_toJson)))
      (.fieldOr (.list Volume.toJson volumes) (Decoder.list_list fun v _ => v.decode_toJson)))
      (.optional RetryStrategy.toJson nofun fun s _ => s.decode_toJson))
      (.fieldOr (.bool privileged) rfl)
  · decide
  · rfl

end Batch

/-! ## Settings -/

/-- An optional place in an object store is read back. -/
theorem recovers_intermediate (u : Option S3Uri) :
    intermediateField.Recovers ["intermediate_s3_path"] (intermediateMember u) u :=
  .optional (fun u : S3Uri => .string u.text) nofun fun u _ => Decoder.parsed_string u.parse_text

/-- The settings of a copy are read back. -/
theorem SyncSettings.decode_toJson (s : SyncSettings) : record.decode s.toJson = .ok s := by
  obtain ⟨intermediate, force, sizeOnly⟩ := s
  apply Record.Recovers.decodeWith_object
  · exact .seq (.seq (.map
      (recovers_intermediate intermediate))
      (.fieldOr (.bool force) rfl))
      (.fieldOr (.bool sizeOnly) rfl)
  · decide
  · simp only [List.append_assoc]
    rfl

/-- The mode of the environment file is read back from its name. -/
theorem EnvFileMode.decode_name (m : EnvFileMode) : decode (.string m.name) = .ok m := by
  cases m <;> rfl

/-- The settings for the handling of data are read back; each has a default, but all are written. -/
theorem Handling.decode_toJson (h : Handling) : record.decode h.toJson = .ok h := by
  obtain ⟨isolateInputs, cleanupInputs, cleanupWorkingDir, envFileMode, intermediate, inputSync,
    outputSync⟩ := h
  apply Record.Recovers.decodeWith_object
  · exact .seq (.seq (.seq (.seq (.seq (.seq (.map
      (.fieldOr (.bool isolateInputs) rfl))
      (.fieldOr (.bool cleanupInputs) rfl))
      (.fieldOr (.bool cleanupWorkingDir) rfl))
      (.fieldOr (.string envFileMode.name) envFileMode.decode_name))
      (recovers_intermediate intermediate))
      (.fieldOr inputSync.toJson inputSync.decode_toJson))
      (.fieldOr outputSync.toJson outputSync.decode_toJson)
  · decide
  · simp only [List.append_assoc]
    rfl

/-! ## Transfers -/

namespace SyncRequest

/-- A request to copy data is spelled when both of its places are. -/
def Spelled (r : SyncRequest) : Prop := r.source.Spelled ∧ r.destination.Spelled

/-- A spelled request to copy data is read back. -/
theorem decode_toJson {r : SyncRequest} (h : r.Spelled) : record.decode r.toJson = .ok r := by
  obtain ⟨source, destination, retainSource, force, sizeOnly, intermediate⟩ := r
  apply Record.Recovers.decodeWith_object
  · exact .seq (.seq (.seq (.seq (.seq (.map
      (.field (.string source.text) (Decoder.parsed_string h.1)))
      (.field (.string destination.text) (Decoder.parsed_string h.2)))
      (.fieldOr (.bool retainSource) rfl))
      (.fieldOr (.bool force) rfl))
      (.fieldOr (.bool sizeOnly) rfl))
      (recovers_intermediate intermediate)
  · decide
  · rfl

/-- Every request to copy data that is read is spelled. -/
theorem yields_spelled : record.decode.Yields Spelled := by
  intro j r h
  obtain ⟨_, intermediate, h1, -, rfl⟩ := (Record.gives_of_decodeWith h).seq
  obtain ⟨_, sizeOnly, h2, -, rfl⟩ := h1.seq
  obtain ⟨_, force, h3, -, rfl⟩ := h2.seq
  obtain ⟨_, retainSource, h4, -, rfl⟩ := h3.seq
  obtain ⟨_, destination, h5, hdestination, rfl⟩ := h4.seq
  obtain ⟨source, hsource, rfl⟩ := h5.map
  constructor
  · exact hsource.field DataPath.yields_spelled
  · exact hdestination.field DataPath.yields_spelled

end SyncRequest

namespace RemovalRequest

/-- A request to remove data is spelled when all of its places are. -/
def Spelled (r : RemovalRequest) : Prop := ∀ d ∈ r.paths, d.Spelled

/-- A spelled request to remove data is read back. -/
theorem decode_toJson {r : RemovalRequest} (h : r.Spelled) : record.decode r.toJson = .ok r := by
  obtain ⟨paths⟩ := r
  apply Record.Recovers.decodeWith_object
  · refine .map (.fieldOr (.list (fun d : DataPath => .string d.text) paths) ?_)
    exact Decoder.list_list fun d hd => Decoder.parsed_string (h d hd)
  · decide
  · rfl

/-- Every request to remove data that is read is spelled. -/
theorem yields_spelled : record.decode.Yields Spelled := by
  intro j r h
  obtain ⟨paths, hpaths, rfl⟩ := (Record.gives_of_decodeWith h).map
  apply hpaths.fieldOr
  · exact List.forall_mem_nil _
  · exact DataPath.yields_spelled.list

end RemovalRequest

/-! ## Formats -/

/-- Jobs with what they are made of, settings, and requests for transfers. -/
def jobFormats : List Format :=
  [⟨Batch.ResourceKind, _, Decoder.choice Batch.ResourceKind.names, fun k => .string k.name⟩,
    ⟨Batch.ResourceRequirement, _, Batch.ResourceRequirement.record.decode,
      Batch.ResourceRequirement.toJson⟩,
    ⟨Batch.MountPoint, _, Batch.MountPoint.record.decode, Batch.MountPoint.toJson⟩,
    ⟨Batch.Authorization, _, Batch.Authorization.record.decode, Batch.Authorization.toJson⟩,
    ⟨Batch.EfsVolume, _, Batch.EfsVolume.record.decode, Batch.EfsVolume.toJson⟩,
    ⟨Batch.Volume, _, Batch.Volume.record.decode, Batch.Volume.toJson⟩,
    ⟨Batch.RetryAction, _, Decoder.choice Batch.RetryAction.names, fun a => .string a.name⟩,
    ⟨Batch.ExitRule, _, Batch.ExitRule.record.decode, Batch.ExitRule.toJson⟩,
    ⟨Batch.RetryStrategy, _, Batch.RetryStrategy.record.decode, Batch.RetryStrategy.toJson⟩,
    ⟨Batch.JobSpec, _, Batch.JobSpec.record.decode, Batch.JobSpec.toJson⟩,
    ⟨SyncSettings, _, SyncSettings.record.decode, SyncSettings.toJson⟩,
    ⟨EnvFileMode, _, EnvFileMode.decode, fun m => .string m.name⟩,
    ⟨Handling, _, Handling.record.decode, Handling.toJson⟩,
    ⟨SyncRequest, _, SyncRequest.record.decode, SyncRequest.toJson⟩,
    ⟨RemovalRequest, _, RemovalRequest.record.decode, RemovalRequest.toJson⟩]

/-- Each of these formats survives; of the requests for transfers, only what was read is known to be
spelled. -/
theorem survives_of_mem_jobFormats : ∀ f ∈ jobFormats, f.Survives := by
  unfold jobFormats
  simp only [List.forall_mem_cons]
  refine ⟨.of_all Batch.ResourceKind.decode_name,
    .of_all Batch.ResourceRequirement.decode_toJson, .of_all Batch.MountPoint.decode_toJson,
    .of_all Batch.Authorization.decode_toJson, .of_all Batch.EfsVolume.decode_toJson,
    .of_all Batch.Volume.decode_toJson, .of_all Batch.RetryAction.decode_name,
    .of_all Batch.ExitRule.decode_toJson, .of_all Batch.RetryStrategy.decode_toJson,
    .of_all Batch.JobSpec.decode_toJson, .of_all SyncSettings.decode_toJson,
    .of_all EnvFileMode.decode_name, .of_all Handling.decode_toJson, ?sync, ?removal,
    List.forall_mem_nil _⟩
  case sync =>
    exact .of_read fun j r h => SyncRequest.decode_toJson (SyncRequest.yields_spelled j r h)
  case removal =>
    exact .of_read fun j r h => RemovalRequest.decode_toJson (RemovalRequest.yields_spelled j r h)

end JobStaging
