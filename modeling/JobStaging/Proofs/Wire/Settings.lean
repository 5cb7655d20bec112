import JobStaging.Config
import JobStaging.Inventory
import JobStaging.Placement
import JobStaging.Proofs.Json.Record

/-!
# Placements, inventories and settings as JSON

Each of them is read back from the JSON that it is written as. A candidate is written under the
first of its fields' names, and the candidates of a role always as a list, of which the reader takes
a list first; so it does not matter that it takes a single candidate as well.
-/

set_option autoImplicit false

namespace JobStaging

/-- A candidate is read back, whichever of its fields are given. -/
theorem Candidate.decode_toJson (c : Candidate) : decode c.toJson = .ok c := by
  obtain ⟨fileSystem, accessPoint, containerPath⟩ := c
  unfold decode
  apply Record.Recovers.decodeWith_object
  · exact .seq (.seq (.map
      (.optional .string nofun fun _ _ => rfl))
      (.optional .string nofun fun _ _ => rfl))
      (.optional (fun p : Path => .string p.text) nofun fun _ _ => rfl)
  · decide
  · rfl

/-- A list of candidates is read back as that list, also where one candidate would do. -/
theorem Candidate.oneOrMany_list (candidates : List Candidate) :
    Decoder.oneOrMany decode (.list toJson candidates) = .ok candidates :=
  Decoder.oneOrMany_of_list (Decoder.list_list fun c _ => c.decode_toJson)

/-- A strategy is read back from its name. -/
theorem Strategy.decode_name (s : Strategy) :
    Decoder.choice Strategy.names (.string s.name) = .ok s := by
  cases s <;> rfl

/-- A placement is read back; a role without candidates is told from one with an empty list of them.
-/
theorem Placement.decode_toJson (p : Placement) : record.decode p.toJson = .ok p := by
  obtain ⟨shared, scratch, tmp, strategy⟩ := p
  apply Record.Recovers.decodeWith_object
  · exact .seq (.seq (.seq (.map
      (.fieldOr (.list Candidate.toJson shared) (Candidate.oneOrMany_list shared)))
      (.fieldOr (.list Candidate.toJson scratch) (Candidate.oneOrMany_list scratch)))
      (.optional (Json.list Candidate.toJson) nofun fun cs _ => Candidate.oneOrMany_list cs))
      (.fieldOr (.string strategy.name) strategy.decode_name)
  · decide
  · rfl

/-! ## Inventories -/

/-- A file system of an inventory is read back. -/
theorem FileSystem.decode_toJson (f : FileSystem) : record.decode f.toJson = .ok f := by
  obtain ⟨id, name, usedBytes, tags⟩ := f
  apply Record.Recovers.decodeWith_object
  · exact .seq (.seq (.seq (.map
      (.field (.string id) rfl))
      (.optional .string nofun fun _ _ => rfl))
      (.fieldOr (.ofNat usedBytes.toNat) (Decoder.word64_ofNat usedBytes)))
      (.fieldOr (.stringMap tags) (Decoder.map_stringMap tags))
  · decide
  · simp only [List.append_assoc]
    rfl

/-- An access point of an inventory is read back. -/
theorem AccessPoint.decode_toJson (a : AccessPoint) : record.decode a.toJson = .ok a := by
  obtain ⟨id, fileSystem, name, root, tags⟩ := a
  apply Record.Recovers.decodeWith_object
  · exact .seq (.seq (.seq (.seq (.map
      (.field (.string id) rfl))
      (.field (.string fileSystem) rfl))
      (.optional .string nofun fun _ _ => rfl))
      (.fieldOr (.string root.text) rfl))
      (.fieldOr (.stringMap tags) (Decoder.map_stringMap tags))
  · decide
  · simp only [List.append_assoc]
    rfl

/-- An inventory is read back. -/
theorem Inventory.decode_toJson (i : Inventory) : record.decode i.toJson = .ok i := by
  obtain ⟨fileSystems, accessPoints⟩ := i
  apply Record.Recovers.decodeWith_object
  · exact .seq (.map
      (.fieldOr (.list FileSystem.toJson fileSystems)
        (Decoder.list_list fun f _ => f.decode_toJson)))
      (.fieldOr (.list AccessPoint.toJson accessPoints)
        (Decoder.list_list fun a _ => a.decode_toJson))
  · decide
  · rfl

/-! ## Settings of the program -/

variable (surplus : Surplus)

/-- The settings of the mounts are read back. -/
theorem MountSettings.decodeWith_toJson (m : MountSettings) :
    record.decodeWith surplus m.toJson = .ok m := by
  obtain ⟨localMounts, sharedPath, scratchPath, tmpPath⟩ := m
  apply Record.Recovers.decodeWith_object
  · refine .seq (.seq (.seq (.map
      (.fieldOr (.stringMap (localMounts.mapValues Path.text)) ?_))
      (.fieldOr (.string sharedPath.text) rfl))
      (.fieldOr (.string scratchPath.text) rfl))
      (.fieldOr (.string tmpPath.text) rfl)
    exact Decoder.map_stringMap_mapValues fun _ => rfl
  · decide
  · rfl

/-- The names of the default access points are read back. -/
theorem DefaultAccessPoints.decodeWith_toJson (d : DefaultAccessPoints) :
    record.decodeWith surplus d.toJson = .ok d := by
  obtain ⟨shared, scratch, tmp⟩ := d
  apply Record.Recovers.decodeWith_object
  · exact .seq (.seq (.map
      (.fieldOr (.string shared) rfl))
      (.fieldOr (.string scratch) rfl))
      (.fieldOr (.string tmp) rfl)
  · decide
  · rfl

/-- The threshold of the environment file is read back from the section that it stands in. -/
theorem Config.decodeWith_threshold (n : UInt64) : environmentRecord.decodeWith surplus
    (.object [("file_threshold_bytes", .ofNat n.toNat)]) = .ok n := by
  apply Record.Recovers.decodeWith_object
  · exact .fieldOr (.ofNat n.toNat) (Decoder.word64_ofNat n)
  · decide
  · rfl

/-- So is the number of attempts. -/
theorem Config.decodeWith_attempts (n : UInt32) : batchRecord.decodeWith surplus
    (.object [("retry_attempts", .ofNat n.toNat)]) = .ok n := by
  apply Record.Recovers.decodeWith_object
  · exact .fieldOr (.ofNat n.toNat) (Decoder.word32_ofNat n)
  · decide
  · rfl

/-- Settings are read back whatever becomes of surplus elements, since none are written. -/
theorem Config.decodeWith_toJson (c : Config) :
    (record surplus).decodeWith surplus c.toJson = .ok c := by
  obtain ⟨envBase, region, mount, accessPoints, fileThreshold, retryAttempts⟩ := c
  apply Record.Recovers.decodeWith_object
  · exact .seq (.seq (.seq (.seq (.seq (.map
      (.fieldOr (.string envBase) rfl))
      (.fieldOr (.string region) rfl))
      (.fieldOr mount.toJson (mount.decodeWith_toJson surplus)))
      (.fieldOr accessPoints.toJson (accessPoints.decodeWith_toJson surplus)))
      (.fieldOr _ (decodeWith_threshold surplus fileThreshold)))
      (.fieldOr _ (decodeWith_attempts surplus retryAttempts))
  · decide
  · rfl

/-! ## Formats -/

/-- Placements, inventories and settings, with what they are made of. -/
def settingsFormats : List Format :=
  [⟨Candidate, _, Candidate.decode, Candidate.toJson⟩,
    ⟨Strategy, _, Decoder.choice Strategy.names, fun s => .string s.name⟩,
    ⟨Placement, _, Placement.record.decode, Placement.toJson⟩,
    ⟨FileSystem, _, FileSystem.record.decode, FileSystem.toJson⟩,
    ⟨AccessPoint, _, AccessPoint.record.decode, AccessPoint.toJson⟩,
    ⟨Inventory, _, Inventory.record.decode, Inventory.toJson⟩,
    ⟨MountSettings, _, MountSettings.record.decodeWith surplus, MountSettings.toJson⟩,
    ⟨DefaultAccessPoints, _, DefaultAccessPoints.record.decodeWith surplus,
      DefaultAccessPoints.toJson⟩,
    ⟨UInt64, _, Config.environmentRecord.decodeWith surplus, fun n =>
      .object [("file_threshold_bytes", .ofNat n.toNat)]⟩,
    ⟨UInt32, _, Config.batchRecord.decodeWith surplus, fun n =>
      .object [("retry_attempts", .ofNat n.toNat)]⟩,
    ⟨Config, _, (Config.record surplus).decodeWith surplus, Config.toJson⟩]

/-- Each of these formats survives, whatever was read. -/
theorem survives_of_mem_settingsFormats : ∀ f ∈ settingsFormats surplus, f.Survives := by
  unfold settingsFormats
  simp only [List.forall_mem_cons]
  exact ⟨.of_all Candidate.decode_toJson, .of_all Strategy.decode_name,
    .of_all Placement.decode_toJson, .of_all FileSystem.decode_toJson,
    .of_all AccessPoint.decode_toJson, .of_all Inventory.decode_toJson,
    .of_all (MountSettings.decodeWith_toJson surplus),
    .of_all (DefaultAccessPoints.decodeWith_toJson surplus),
    .of_all (Config.decodeWith_threshold surplus), .of_all (Config.decodeWith_attempts surplus),
    .of_all (Config.decodeWith_toJson surplus), List.forall_mem_nil _⟩

end JobStaging
