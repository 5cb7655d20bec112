import JobStaging.Json.Record
import JobStaging.Text.Blank

/-!
# Configuration

Where the directories of a job are mounted, which access points stand in when a candidate names
none, and the limits that hold for every job. Values come from a document, each with a default, and
some of them can be overridden by variables of the surroundings.
-/

set_option autoImplicit false

namespace JobStaging

/-- Where file systems are mounted, in the container and on this machine. -/
structure MountSettings where
  /-- The directory on this machine that shows each file system's root. -/
  localMounts : OrderedMap Path
  sharedPath : Path
  scratchPath : Path
  tmpPath : Path
  deriving DecidableEq, Repr

namespace MountSettings

/-- Nothing mounted here, and the usual places in the container. -/
def standard : MountSettings :=
  ⟨.empty, ⟨"/opt/efs/shared"⟩, ⟨"/opt/efs/scratch"⟩, ⟨"/opt/efs/tmp"⟩⟩

/-- How the settings are read. -/
def record : Record MountSettings :=
  MountSettings.mk <$> Record.fieldOr ["local_mounts"] (Decoder.map Decoder.path) .empty
    <*> Record.fieldOr ["shared_path"] Decoder.path standard.sharedPath
    <*> Record.fieldOr ["scratch_path"] Decoder.path standard.scratchPath
    <*> Record.fieldOr ["tmp_path"] Decoder.path standard.tmpPath

/-- The settings as JSON. -/
def toJson (m : MountSettings) : Json :=
  .object [("local_mounts", .stringMap (m.localMounts.mapValues Path.text)),
    ("shared_path", .string m.sharedPath.text), ("scratch_path", .string m.scratchPath.text),
    ("tmp_path", .string m.tmpPath.text)]

end MountSettings

/-- The access points that stand in for a candidate that names none. -/
structure DefaultAccessPoints where
  shared : String
  scratch : String
  tmp : String
  deriving DecidableEq, Repr

namespace DefaultAccessPoints

/-- Each role's own name. -/
def standard : DefaultAccessPoints := ⟨"shared", "scratch", "tmp"⟩

/-- How they are read. -/
def record : Record DefaultAccessPoints :=
  DefaultAccessPoints.mk <$> Record.fieldOr ["shared"] Decoder.string standard.shared
    <*> Record.fieldOr ["scratch"] Decoder.string standard.scratch
    <*> Record.fieldOr ["tmp"] Decoder.string standard.tmp

/-- They as JSON. -/
def toJson (d : DefaultAccessPoints) : Json :=
  .object [("shared", .string d.shared), ("scratch", .string d.scratch), ("tmp", .string d.tmp)]

end DefaultAccessPoints

/-- The settings of the program. -/
structure Config where
  /-- The label of the environment: narrows lookups and begins the names of jobs. -/
  envBase : String
  region : String
  mount : MountSettings
  accessPoints : DefaultAccessPoints
  /-- From how many bytes on variables go into a file, if a file is to be used only then. -/
  fileThreshold : UInt64
  retryAttempts : UInt32
  deriving DecidableEq, Repr

namespace Config

/-- The settings without a document. -/
def standard : Config := ⟨"dev", "us-west-2", .standard, .standard, 8192, 5⟩

/-- How the group of settings with the threshold is read. -/
def environmentRecord : Record UInt64 :=
  Record.fieldOr ["file_threshold_bytes"] Decoder.word64 standard.fileThreshold

/-- How the group of settings with the attempts is read. -/
def batchRecord : Record UInt32 :=
  Record.fieldOr ["retry_attempts"] Decoder.word32 standard.retryAttempts

/-- How the settings are read, in documents that refuse or ignore surplus elements. -/
def record (surplus : Surplus) : Record Config :=
  Config.mk <$> Record.fieldOr ["env_base"] Decoder.string standard.envBase
    <*> Record.fieldOr ["aws_region"] Decoder.string standard.region
    <*> Record.fieldOr ["mount"] (MountSettings.record.decodeWith surplus) .standard
    <*> Record.fieldOr ["access_points"] (DefaultAccessPoints.record.decodeWith surplus) .standard
    <*> Record.fieldOr ["environment"] (environmentRecord.decodeWith surplus) standard.fileThreshold
    <*> Record.fieldOr ["batch"] (batchRecord.decodeWith surplus) standard.retryAttempts

/-- The settings as JSON. -/
def toJson (c : Config) : Json :=
  .object [("env_base", .string c.envBase), ("aws_region", .string c.region),
    ("mount", c.mount.toJson), ("access_points", c.accessPoints.toJson),
    ("environment", .object [("file_threshold_bytes", .ofNat c.fileThreshold.toNat)]),
    ("batch", .object [("retry_attempts", .ofNat c.retryAttempts.toNat)])]

/-- The settings that name directories, in the order in which they are looked at. -/
def directories (c : Config) : List (String × Path) :=
  [("mount.shared_path", c.mount.sharedPath), ("mount.scratch_path", c.mount.scratchPath),
    ("mount.tmp_path", c.mount.tmpPath)] ++
    c.mount.localMounts.entries.map fun e => ("mount.local_mounts." ++ e.1, e.2)

/-- The settings must name an environment and a region, keep the limits, and name directories from
the root. -/
def validate (c : Config) : Except ConfigFault Unit :=
  if Text.isBlankText c.envBase then .error .blankEnvBase
  else if Text.isBlankText c.region then .error .blankRegion
  else if c.fileThreshold = 0 then .error .zeroThreshold
  else if c.retryAttempts = 0 ∨ 10 < c.retryAttempts then .error .retryAttempts
  else
    match c.directories.find? fun e => !e.2.isAbsolute with
    | some (setting, path) => .error (.relativePath setting path)
    | none => .ok ()

/-- The settings with more directories for file systems. -/
def addLocalMounts (c : Config) (mounts : List (String × Path)) : Config :=
  { c with mount := { c.mount with localMounts := c.mount.localMounts.insertAll mounts } }

end Config

/-- Reads `id=root`, where neither is blank. Blanks around them do not count. -/
def parseLocalMount (entry : String) : Except ConfigFault (String × Path) :=
  match Text.cutAt '=' entry.toList with
  | some (id, root) =>
    if Text.trim id = [] ∨ Text.trim root = [] then .error (.malformedMount entry)
    else .ok (String.ofList (Text.trim id), ⟨String.ofList (Text.trim root)⟩)
  | none => .error (.malformedMount entry)

namespace Config

/-- The well-formed ones among entries with commas between them. -/
def mountEntries (text : String) : List (String × Path) :=
  (Text.split ',' text.toList).filterMap fun entry =>
    match parseLocalMount (String.ofList entry) with
    | .ok mount => some mount
    | .error _ => none

/-- A whole number of sixty-four bits in decimal digits, after a plus sign if there is one. -/
def parseThreshold (text : String) : Option UInt64 :=
  let digits := match text.toList with
    | '+' :: rest => rest
    | rest => rest
  if digits = [] ∨ !digits.all Char.isDigit then none
  else
    let n := digits.foldl (fun n c => n * 10 + (c.toNat - 48)) 0
    if n < UInt64.size then some (UInt64.ofNat n) else none

/-- The settings with what variables say in their place. Of the two variables for the region the
first one counts. What is malformed is left out. -/
def override (setting : String → Option String) (c : Config) : Config :=
  let c := { c with
    envBase := (setting "ENV_BASE").getD c.envBase
    region := (setting "AWS_REGION" <|> setting "AWS_DEFAULT_REGION").getD c.region
    fileThreshold :=
      ((setting "ENV_FILE_THRESHOLD_BYTES").bind parseThreshold).getD c.fileThreshold }
  c.addLocalMounts (((setting "EFS_LOCAL_MOUNTS").map mountEntries).getD [])

end Config

end JobStaging
