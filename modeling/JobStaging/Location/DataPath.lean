import JobStaging.Location.S3
import JobStaging.Location.Efs

/-!
# Places where data lies

A place is an object, a path in a shared file system, or a path in the container. The text alone
decides which: the S3 scheme makes an object, an identifier of a file system followed by a colon
and an absolute path makes a shared path, and every other text is local.
-/

set_option autoImplicit false

namespace JobStaging

/-- Where data lies. -/
inductive DataPath where
  | s3 (uri : S3Uri)
  | efs (path : EfsPath)
  | localPath (path : Path)
  deriving DecidableEq, Repr

namespace DataPath

/-- Whether the data lies outside the container. -/
def isRemote : DataPath → Bool
  | .localPath _ => false
  | _ => true

/-- The text of a place. -/
def text : DataPath → String
  | .s3 uri => uri.text
  | .efs path => path.text
  | .localPath path => path.text

/-- The shared path that a text spells, if it has the form of one: the identifier of a file system
before the first colon and an absolute path after it. -/
def efs? (text : String) : Option EfsPath :=
  match Text.cutAt ':' text.toList with
  | some (fileSystem, path) =>
    if h : EfsPath.isFileSystemId (String.ofList fileSystem) = true ∧
        (Path.mk (String.ofList path)).isAbsolute = true then
      some ⟨String.ofList fileSystem, ⟨String.ofList path⟩, h.1, h.2⟩
    else none
  | none => none

/-- Reads a place. -/
def parse (text : String) : Except Rejection DataPath :=
  if S3Uri.scheme.toList.isPrefixOf text.toList then (S3Uri.parse text).map .s3
  else match efs? text with
    | some path => .ok (.efs path)
    | none => .ok (.localPath ⟨text⟩)

end DataPath

end JobStaging
