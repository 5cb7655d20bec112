import JobStaging.Path.Basic

/-!
# Errors

Every way in which staging a job can fail, as a cause with the values that belong to it. The words
of each cause are fixed in one place, and `Error.message` adds the kind. Some failures (a text that
is no JSON or no TOML, a value of the wrong shape) have no words of their own.
-/

set_option autoImplicit false

namespace JobStaging

/-- Why a request that could be read cannot be used. -/
inductive Rejection where
  /-- A bucket name is empty or holds a slash. -/
  | invalidBucket (bucket : String)
  /-- A text does not start with the S3 scheme. -/
  | notS3Uri (text : String)
  /-- A text has no colon between a file system and a path. -/
  | notEfsPath (text : String)
  /-- An identifier does not name a file system. -/
  | notFileSystemId (id : String)
  /-- A path inside a file system does not start at its root. -/
  | relativeEfsPath (path : Path)
  | unknownStrategy (name : String)
  /-- A role that every request needs has no candidate. -/
  | emptyRole (role : String)
  | noJobQueue (executionId : String)
  | executionIdNotSegment (executionId : String)
  /-- Two roles are mounted at the same place. -/
  | rolesCollide (path : Path)
  | notUnderMount (path mount : Path)
  | relativeContainerPath (path : Path)
  | noAccessPoint (mount : Path)
  /-- An access point belongs to another file system than the one asked for. -/
  | foreignAccessPoint (accessPoint owner wanted : String)
  | noCandidatesToSelect
  | noCandidatesToCompare
  /-- A candidate whose use is to be measured names neither file system nor access point. -/
  | anonymousCandidate
  | repeatedName (name field : String)
  | inputAndOutput (name : String)
  | undefinedParameter (name : String)
  /-- A parameter's remote half is a place in the container. -/
  | localRemote (name : String) (path : Path)
  | outputWithoutValue (name : String)
  | outputWithoutDestination (name : String)
  /-- A local name is empty, absolute or leads up. -/
  | straysOutside (name localName : String)
  | emptyCommand
  | malformedLine (line : String)
  | invalidVariableName (name : String)
  | reservedVariableName (name : String)
  /-- A path in a file system leads above the root that it is mounted at. -/
  | escapesMountRoot (efsPath : String)
  /-- A cause given by a caller in words. -/
  | other (text : String)
  deriving DecidableEq, Repr

/-- The words of a rejection. -/
def Rejection.text : Rejection → String
  | .invalidBucket bucket => s!"invalid S3 bucket name '{bucket}'"
  | .notS3Uri text => s!"'{text}' is not an s3:// URI"
  | .notEfsPath text => s!"'{text}' is not an EFS path"
  | .notFileSystemId id => s!"'{id}' is not an EFS file system id"
  | .relativeEfsPath path => s!"EFS path '{path.text}' must be absolute"
  | .unknownStrategy name => s!"unknown selection strategy '{name}'"
  | .emptyRole role => s!"file_system_configurations.{role} requires at least one file system"
  | .noJobQueue id => s!"execution {id} has no execution_platform.aws_batch.job_queue_name"
  | .executionIdNotSegment id => s!"execution_id '{id}' must be a single path segment"
  | .rolesCollide path => s!"file system roles collide at {path.text}"
  | .notUnderMount path mount => s!"{path.text} is not under mount {mount.text}"
  | .relativeContainerPath path => s!"container_path {path.text} must be absolute"
  | .noAccessPoint mount => s!"no access point given for mount {mount.text}"
  | .foreignAccessPoint accessPoint owner wanted =>
    s!"access point {accessPoint} belongs to {owner}, not {wanted}"
  | .noCandidatesToSelect => "no file system candidates to select from"
  | .noCandidatesToCompare => "no file system candidates"
  | .anonymousCandidate =>
    "LEAST_UTILIZED selection needs a file_system or access_point on every candidate"
  | .repeatedName name field => s!"parameter '{name}' appears twice in {field}"
  | .inputAndOutput name => s!"parameter '{name}' is listed as both input and output"
  | .undefinedParameter name => s!"parameter '{name}' is not defined in params"
  | .localRemote name path =>
    s!"parameter '{name}' remote '{path.text}' must be an S3 or EFS location"
  | .outputWithoutValue name => s!"output '{name}' has no value"
  | .outputWithoutDestination name =>
    s!"output '{name}' has no remote destination and no output_s3_prefix is set"
  | .straysOutside name localName =>
    s!"parameter '{name}' local path '{localName}' must be relative and stay inside its mount"
  | .emptyCommand => "execution command is empty"
  | .malformedLine line => s!"malformed env file line: {line}"
  | .invalidVariableName name =>
    s!"parameter name '{name}' is not a valid environment variable name"
  | .reservedVariableName name => s!"parameter name '{name}' is reserved"
  | .escapesMountRoot efsPath => s!"EFS path {efsPath} escapes the mount root"
  | .other text => text

/-- A rejection with its kind before its words. -/
def Rejection.message (r : Rejection) : String := "Invalid input: " ++ r.text

/-- Why a file system or access point was not found. -/
inductive LookupFailure where
  /-- No resource has the name, in the environment asked for if there is one. -/
  | notFound (envBase : Option String)
  /-- Several resources have the name. -/
  | ambiguous (ids : List String)
  /-- A cause given by a caller in words. -/
  | other (text : String)
  deriving DecidableEq, Repr

/-- The words of a failed lookup. -/
def LookupFailure.text : LookupFailure → String
  | .notFound none => "not found"
  | .notFound (some envBase) => s!"not found (env_base={envBase})"
  | .ambiguous ids => s!"ambiguous, {ids.length} matches: " ++ ", ".intercalate ids
  | .other text => text

/-- Why a document could not be read as a value of a type. -/
inductive DecodeFault where
  /-- The text is no JSON. -/
  | malformed
  /-- A value has the wrong shape: another kind of value, a number out of range, a name given
  twice, an array too long or too short. -/
  | shape
  | missingField (name : String)
  | unknownVariant (given : String) (known : List String)
  /-- A value fits none of the forms of a type that is told apart by shape alone. -/
  | noForm (typeName : String)
  /-- A text in the document is no location. -/
  | rejected (cause : Rejection)
  deriving DecidableEq, Repr

/-- A word between backticks. -/
def quoted (word : String) : String := "\x60" ++ word ++ "\x60"

/-- The words of a fault, for the faults that have words. -/
def DecodeFault.text : DecodeFault → Option String
  | .malformed | .shape => none
  | .missingField name => some ("missing field " ++ quoted name)
  | .unknownVariant given known =>
    some ("unknown variant " ++ quoted given ++ ", expected " ++
      match known with
      | [a, b] => quoted a ++ " or " ++ quoted b
      | names => "one of " ++ ", ".intercalate (names.map quoted))
  | .noForm typeName => some ("data did not match any variant of untagged enum " ++ typeName)
  | .rejected cause => some cause.message

/-- Why the operating system refused an operation on a file. -/
inductive IoFault where
  | notFound
  | busy
  | exists
  | notDirectory
  | isDirectory
  | nameTooLong
  /-- A name holds the character that ends names for the operating system. -/
  | nulInName
  /-- A cause given by the operating system in words. -/
  | other (text : String)
  deriving DecidableEq, Repr

/-- The words of a refused operation. -/
def IoFault.text : IoFault → String
  | .notFound => "No such file or directory (os error 2)"
  | .busy => "Device or resource busy (os error 16)"
  | .exists => "File exists (os error 17)"
  | .notDirectory => "Not a directory (os error 20)"
  | .isDirectory => "Is a directory (os error 21)"
  | .nameTooLong => "File name too long (os error 36)"
  | .nulInName => "file name contained an unexpected NUL byte"
  | .other text => text

/-- Why a configuration cannot be used. -/
inductive ConfigFault where
  | blankEnvBase
  | blankRegion
  | zeroThreshold
  | retryAttempts
  /-- A setting that names a directory does not start at the root. -/
  | relativePath (setting : String) (path : Path)
  | malformedMount (entry : String)
  /-- A file system has no directory on this machine. -/
  | noLocalMount (fileSystem : String)
  /-- Nothing says which file systems there are. -/
  | noInventory
  /-- A cause given by a caller in words. -/
  | other (text : String)
  deriving DecidableEq, Repr

/-- The words of an unusable configuration. -/
def ConfigFault.text : ConfigFault → String
  | .blankEnvBase => "env_base is empty"
  | .blankRegion => "aws_region is empty"
  | .zeroThreshold => "environment.file_threshold_bytes must be > 0"
  | .retryAttempts => "batch.retry_attempts must be in 1..=10"
  | .relativePath setting path => s!"{setting} must be absolute, got {path.text}"
  | .malformedMount entry => s!"local mount '{entry}' must look like fs-12345678=/mnt/efs"
  | .noLocalMount fileSystem => s!"no local mount for file system {fileSystem}"
  | .noInventory => "built without the aws feature; pass --inventory"
  | .other text => text

/-- Why staging a job failed. -/
inductive Error where
  | invalidInput (cause : Rejection)
  | resolution (resource : String) (cause : LookupFailure)
  | serialization (cause : DecodeFault)
  | io (cause : IoFault)
  /-- A configuration file is no TOML or holds a setting of the wrong type. -/
  | toml
  | config (cause : ConfigFault)
  /-- An object store failed. -/
  | s3 (text : String)
  deriving DecidableEq, Repr

namespace Error

/-- The kind and the words of an error, if it has words. -/
def message : Error → Option String
  | .invalidInput cause => some cause.message
  | .resolution resource cause => some s!"Failed to resolve {resource}: {cause.text}"
  | .serialization cause => cause.text.map fun text => "Serialization error: " ++ text
  | .io cause => some ("I/O error: " ++ cause.text)
  | .toml => none
  | .config cause => some ("Configuration error: " ++ cause.text)
  | .s3 text => some ("S3 error: " ++ text)

/-- Whether the fault lies in the request and not in the surroundings. -/
def isClientError : Error → Bool
  | .invalidInput _ | .serialization _ => true
  | _ => false

end Error

end JobStaging
