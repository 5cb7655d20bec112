import JobStaging.Environment.Names

/-!
# Commands

The command of a job is run by a shell that first makes the working and the temporary directory and
goes to the former.
-/

set_option autoImplicit false

namespace JobStaging.Environment

/-- A variable as a shell reads it. -/
def expansion (name : String) : String := "$\x7b" ++ name ++ "\x7d"

/-- What every job does first. -/
def bootstrap : String :=
  "mkdir -p " ++ expansion workingDir ++ " && mkdir -p " ++ expansion tmpDir ++ " && cd " ++
    expansion workingDir ++ " && "

/-- The script of a job: the bootstrap, what is to be done before the command, and the command. -/
def script (command : List String) (preamble : Option (List String)) : String :=
  bootstrap ++
    (match preamble with
      | some words => " ".intercalate words ++ " && "
      | none => "") ++
    " ".intercalate command

/-- The command that runs a job's script. There must be a command to run. -/
def buildCommand (command : List String) (preamble : Option (List String)) :
    Except Rejection (List String) :=
  if command.isEmpty then .error .emptyCommand
  else .ok ["/bin/bash", "-c", script command preamble]

end JobStaging.Environment
