import JobStaging.Location.Efs
import JobStaging.Storage.Steps

/-!
# Writing to mounted file systems

Each file system that can be written to has a root directory on this machine. A place in a file
system lies below its root; a place that leads up could leave the root and is refused.
-/

set_option autoImplicit false

namespace JobStaging

/-- What can be written to: a write tells why it failed, if it did. -/
structure Storage (m : Type → Type) where
  write : EfsPath → String → m (Option Error)

namespace Storage

/-- The root directories of the file systems, by identifier. -/
structure Roots where
  directories : OrderedMap Path
  deriving DecidableEq, Repr

/-- The path below a root that components lead to, if none leads up. -/
def under (root : Path) : List Path.Component → Option Path
  | [] => some root
  | .name name :: rest => under (root.join ⟨name⟩) rest
  | .up :: _ => none
  | _ :: rest => under root rest

namespace Roots

/-- Whether a file system can be written to. -/
def isMounted (roots : Roots) (fileSystem : String) : Bool := roots.directories.contains fileSystem

/-- The path on this machine of a place in a file system. -/
def localPath (roots : Roots) (e : EfsPath) : Except Error Path :=
  match roots.directories.get? e.fileSystem with
  | none => .error (.config (.noLocalMount e.fileSystem))
  | some root =>
    match under root e.path.components with
    | some path => .ok path
    | none => .error (.invalidInput (.escapesMountRoot e.text))

/-- The mounted file systems as something to write to, where a step is taken in a given way. -/
def storage {m : Type → Type} [Monad m] (take : Step → m (Option IoFault)) (roots : Roots) :
    Storage m where
  write e content :=
    match roots.localPath e with
    | .error fault => pure (some fault)
    | .ok target => do
      let fault ← takeSteps take (writeSteps target [content])
      return fault.map .io

end Roots

end Storage

end JobStaging
