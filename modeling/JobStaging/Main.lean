import JobStaging.CommandLine.Run

/-!
# The program

The command line on the files and variables of this machine.
-/

set_option autoImplicit false

namespace JobStaging.CommandLine

/-- Why the operating system refused something. -/
def ioFault (e : IO.Error) : IoFault :=
  match e with
  | .noFileOrDirectory .. => .notFound
  | .alreadyExists .. => .exists
  | .resourceBusy .. => .busy
  | other => .other other.toString

/-- What an action gave, or why it was refused. -/
def attempt {α : Type} (action : IO α) : IO (Except IoFault α) := do
  match ← action.toBaseIO with
  | .ok a => return .ok a
  | .error e => return .error (ioFault e)

/-- Adds text to a file of this machine. -/
def appendText (path : Path) (text : String) : IO Unit :=
  IO.FS.withFile path.text .append fun file => file.putStr text

/-- Takes a step on the files of this machine. -/
def takeHere (step : Storage.Step) : IO (Option IoFault) := do
  let done ← attempt (match step with
    | .makeDirectories path => IO.FS.createDirAll path.text
    | .create path => IO.FS.writeFile path.text ""
    | .append path text => appendText path text
    | .rename source target => IO.FS.rename source.text target.text)
  match done with
  | .ok () => return none
  | .error fault => return some fault

/-- The variables that the program looks at. -/
def variableNames : List String :=
  ["ENV_BASE", "AWS_REGION", "AWS_DEFAULT_REGION", "EFS_LOCAL_MOUNTS", "ENV_FILE_THRESHOLD_BYTES"]

/-- The values of the variables that are set. -/
def readVariables : IO (List (String × String)) :=
  variableNames.filterMapM fun name => do
    return (← IO.getEnv name).map fun value => (name, value)

/-- This machine as surroundings. -/
def thisMachine (vars : List (String × String)) : Surroundings IO where
  directory := ⟨""⟩
  setting? name := vars.lookup name
  read path := attempt (IO.FS.readFile path.text)
  take := takeHere

end JobStaging.CommandLine

/-- Runs the program and ends with its exit code. -/
def main (words : List String) : IO UInt32 := do
  let vars ← JobStaging.CommandLine.readVariables
  let report ← JobStaging.CommandLine.run (JobStaging.CommandLine.thisMachine vars) words
  IO.print report.output
  match report.error with
  | some fault => IO.eprintln ((fault.message).getD "The input could not be read.")
  | none => pure ()
  return report.exitCode
