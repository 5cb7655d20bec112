import JobStaging.Execution

/-!
# Names of variables

The variables that staging sets itself, the names that a shell can export, and the variables that
carry the parameters of an execution.
-/

set_option autoImplicit false

namespace JobStaging.Environment

/-- Holds the identifier of the execution. -/
def executionId : String := "EXECUTION_ID"

/-- Holds the path of the file with the variables. -/
def environmentFile : String := "_ENVIRONMENT_FILE"

/-- Holds the label of the environment. -/
def envBase : String := "ENV_BASE"

/-- Holds the region. -/
def region : String := "AWS_REGION"

/-- Holds the path of the working directory. -/
def workingDir : String := "WORKING_DIR"

/-- Holds the path of the temporary directory. -/
def tmpDir : String := "TMPDIR"

/-- The names that parameters may not have. -/
def reservedNames : List String :=
  [executionId, environmentFile, envBase, region, workingDir, tmpDir]

/-- Whether a character may stand first in a name. -/
def isNameStart (c : Char) : Bool :=
  ('A' ≤ c && c ≤ 'Z') || ('a' ≤ c && c ≤ 'z') || c == '_'

/-- Whether a character may stand in a name. -/
def isNameChar (c : Char) : Bool := isNameStart c || ('0' ≤ c && c ≤ '9')

/-- Whether a shell can export a variable of a name: ASCII letters, digits and underscores, and no
digit first. -/
def isValidName (name : String) : Bool :=
  match name.toList with
  | [] => false
  | c :: rest => isNameStart c && rest.all isNameChar

/-- A parameter's name must be valid and not reserved. -/
def checkName (name : String) : Except Rejection Unit :=
  if !isValidName name then .error (.invalidVariableName name)
  else if reservedNames.contains name then .error (.reservedVariableName name)
  else .ok ()

/-- The variables of an execution's parameters. -/
def jobVariables (p : Parameters) : Except Rejection (OrderedMap String) := do
  p.values.keys.forM checkName
  return p.values.mapValues ParameterValue.envValue

/-- How many bytes variables take as entries `NAME=VALUE` with one byte between them. -/
def size (vars : OrderedMap String) : Nat :=
  vars.entries.foldr (fun e n => e.1.utf8ByteSize + e.2.utf8ByteSize + 1 + n) 0

end JobStaging.Environment
