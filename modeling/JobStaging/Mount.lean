import JobStaging.Lookup
import JobStaging.Placement
import JobStaging.Batch
import JobStaging.Location.Efs
import JobStaging.Path.Slug

/-!
# Mounts

A mount shows an access point of a shared file system at a path in the container. It turns a
path that the container sees into the place in the file system: the components below the mount are
appended to the access point's root.
-/

set_option autoImplicit false

namespace JobStaging

/-- An access point and where the container sees it. -/
structure Mount where
  /-- Where the container sees it. -/
  path : Path
  volumeName : String
  readOnly : Bool
  /-- The identifier of the file system. -/
  fileSystem : String
  /-- The identifier of the access point. -/
  accessPoint : String
  /-- The directory of the file system that is seen. -/
  root : Path
  deriving DecidableEq, Repr

namespace Mount

/-- The name of the volume that shows a file system at a path. -/
def volumeNameOf (fileSystem : String) (path : Path) : String :=
  fileSystem ++ "-" ++ path.slug ++ "-vol"

/-- The volume of a mount. The access point sets the root, so the volume itself starts at the top.
-/
def volume (m : Mount) : Batch.Volume :=
  ⟨m.volumeName, ⟨m.fileSystem, "/", "ENABLED", some ⟨m.accessPoint, "DISABLED"⟩⟩⟩

/-- The mount point of a mount. -/
def mountPoint (m : Mount) : Batch.MountPoint := ⟨m.path.text, m.readOnly, m.volumeName⟩

/-- The place in the file system of a path that the container sees. -/
def efsPath (m : Mount) (p : Path) : Except Rejection EfsPath :=
  match m.path.below? p with
  | none => .error (.notUnderMount p m.path)
  | some rest =>
    EfsPath.ofParts m.fileSystem (if rest.text = "" then m.root else m.root.join rest)

/-- The mount of an access point. -/
def ofAccessPoint (path : Path) (readOnly : Bool) (a : AccessPoint) : Mount :=
  { path := path
    volumeName := volumeNameOf a.fileSystem path
    readOnly := readOnly
    fileSystem := a.fileSystem
    accessPoint := a.id
    root := a.root }

/-- Asks for a file system if a candidate names one. -/
def askOwner (r : Resolver) (envBase : Option String) (name : Option String) :
    Traced (Option FileSystem) :=
  match name with
  | some name => some <$> r.askFileSystem name envBase
  | none => pure none

/-- An access point must belong to the file system that was asked for, if one was. -/
def checkOwner (owner : Option FileSystem) (a : AccessPoint) : Except Rejection Unit :=
  match owner with
  | some f =>
    if f.id = a.fileSystem then .ok () else .error (.foreignAccessPoint a.id a.fileSystem f.id)
  | none => .ok ()

/-- The mount of a candidate, at its own path or else at a default one. The candidate must name an
access point; the file system is looked up before it. -/
def resolve (r : Resolver) (envBase : Option String) (c : Candidate) (defaultPath : Path)
    (readOnly : Bool) : Traced Mount := do
  let path := c.containerPath.getD defaultPath
  if path.isAbsolute then
    match c.accessPoint with
    | none => Traced.fail (.invalidInput (.noAccessPoint path))
    | some name =>
      let owner ← askOwner r envBase c.fileSystem
      let a ← r.askAccessPoint name (owner.map FileSystem.id) envBase
      Traced.check (checkOwner owner a)
      return ofAccessPoint path readOnly a
  else Traced.fail (.invalidInput (.relativeContainerPath path))

end Mount

end JobStaging
