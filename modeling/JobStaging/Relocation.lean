import JobStaging.Digest.Sha256
import JobStaging.Execution

/-!
# Relocated parameters

The parameters that are inputs or outputs are relocated to paths in the container. An input whose
value names a place outside gets a path below the shared directory, or below the working directory
if inputs are isolated; an output gets a path below the working directory and a place where it goes
afterwards. A value without a local name is named by the digest of its place. Every other value is
kept.
-/

set_option autoImplicit false

namespace JobStaging

/-- A directory as the container sees it and as it lies in a shared file system. -/
structure MountedPath where
  container : Path
  efs : EfsPath
  deriving DecidableEq, Repr

namespace MountedPath

/-- A place below a directory. -/
def join (m : MountedPath) (p : Path) : MountedPath := ⟨m.container.join p, m.efs.join p⟩

end MountedPath

namespace Relocation

/-- A parameter whose data moves: where the job finds it or leaves it, and its place outside. -/
structure DataBinding where
  name : String
  location : MountedPath
  remote : DataPath
  deriving DecidableEq, Repr

/-- Parameters as the job sees them, and the data that moves for them. -/
structure Relocated where
  parameters : Parameters
  inputs : List DataBinding
  outputs : List DataBinding
  deriving DecidableEq, Repr

/-- The first name that was in the list before, given what came earlier. -/
def firstRepeated (earlier : List String) : List String → Option String
  | [] => none
  | name :: rest => if name ∈ earlier then some name else firstRepeated (name :: earlier) rest

/-- Inputs and outputs must be lists without repetition that have no name in common. -/
def checkNames (p : Parameters) : Except Rejection Unit :=
  match firstRepeated [] p.inputs with
  | some name => .error (.repeatedName name "inputs")
  | none =>
    match firstRepeated [] p.outputs with
    | some name => .error (.repeatedName name "outputs")
    | none =>
      match p.inputs.find? fun name => p.outputs.contains name with
      | some name => .error (.inputAndOutput name)
      | none => .ok ()

/-- The halves of a parameter's value. -/
def bindingOf (p : Parameters) (name : String) : Except Rejection Binding :=
  match p.values.get? name with
  | some value => value.binding
  | none => .error (.undefinedParameter name)

/-- A place that data comes from or goes to must lie outside the container. -/
def requireRemote (name : String) : DataPath → Except Rejection DataPath
  | .localPath path => .error (.localRemote name path)
  | remote => .ok remote

/-- The place of a local name below a base; the name must stay inside. -/
def place (base : MountedPath) (name localName : String) : Except Rejection MountedPath :=
  if (Path.mk localName).staysInside then .ok (base.join ⟨localName⟩)
  else .error (.straysOutside name localName)

/-- The local name of data that has none of its own. -/
def digestName (remote : DataPath) : String := Digest.sha256Hex remote.text

/-- The data that moves for an input: none if it is in the container already. -/
def input (p : Parameters) (base : MountedPath) (name : String) :
    Except Rejection (Option DataBinding) := do
  let binding ← bindingOf p name
  match binding.remote with
  | none => return none
  | some remote =>
    let remote ← requireRemote name remote
    let location ← place base name (binding.localName.getD (digestName remote))
    return some ⟨name, location, remote⟩

/-- The local name of an output. -/
def outputName (name : String) (binding : Binding) : Except Rejection String :=
  match binding.localName, binding.remote with
  | some localName, _ => .ok localName
  | none, some remote => .ok (digestName remote)
  | none, none => .error (.outputWithoutValue name)

/-- Where an output goes: to the place it names, or below the common root under its local name. -/
def outputRemote (p : Parameters) (name localName : String) (binding : Binding) :
    Except Rejection DataPath :=
  match binding.remote with
  | some remote => requireRemote name remote
  | none =>
    match p.outputRoot with
    | some root => .ok (.s3 (root.join localName))
    | none => .error (.outputWithoutDestination name)

/-- The data that moves for an output. -/
def output (p : Parameters) (working : MountedPath) (name : String) :
    Except Rejection DataBinding := do
  let binding ← bindingOf p name
  let localName ← outputName name binding
  let remote ← outputRemote p name localName binding
  let location ← place working name localName
  return ⟨name, location, remote⟩

/-- The value that a parameter gets for its data: the path in the container. -/
def DataBinding.entry (b : DataBinding) : String × ParameterValue :=
  (b.name, .literal b.location.container.text)

/-- Relocates parameters to a shared and a working directory. Inputs are looked at before outputs,
each in the order in which they are listed. -/
def relocate (p : Parameters) (shared working : MountedPath) (isolateInputs : Bool) :
    Except Rejection Relocated := do
  checkNames p
  let base := if isolateInputs then working else shared
  let inputs := (← p.inputs.mapM (input p base)).filterMap id
  let outputs ← p.outputs.mapM (output p working)
  let values := p.values.insertAll ((inputs ++ outputs).map DataBinding.entry)
  return ⟨{ p with values := values }, inputs, outputs⟩

end Relocation

end JobStaging
