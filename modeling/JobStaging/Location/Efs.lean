import JobStaging.Error

/-!
# Places in a shared file system

`fs-1:/path`. The identifier of a file system starts with `fs-` and the path is absolute; both are
part of the type.
-/

set_option autoImplicit false

namespace JobStaging

/-- A file system and an absolute path in it. -/
structure EfsPath where
  fileSystem : String
  path : Path
  isId : "fs-".toList.isPrefixOf fileSystem.toList = true
  absolute : path.isAbsolute = true
  deriving DecidableEq, Repr

namespace Path

/-- What is under an absolute path is absolute. -/
theorem isAbsolute_join {base : Path} (p : Path) (h : base.isAbsolute = true) :
    (base.join p).isAbsolute = true := by
  unfold join
  split
  · assumption
  · cases hb : base.text.toList with
    | nil => simp [isAbsolute, chars, hb] at h
    | cons c cs =>
      split <;> simp_all [isAbsolute, chars]

end Path

namespace EfsPath

/-- Whether a text is the identifier of a file system. -/
def isFileSystemId (id : String) : Bool := "fs-".toList.isPrefixOf id.toList

/-- The place of a file system and a path, if they are proper ones. -/
def ofParts (fileSystem : String) (path : Path) : Except Rejection EfsPath :=
  if hf : isFileSystemId fileSystem = true then
    if hp : path.isAbsolute = true then .ok ⟨fileSystem, path, hf, hp⟩
    else .error (.relativeEfsPath path)
  else .error (.notFileSystemId fileSystem)

/-- Reads `id:path`, cut at the first colon. -/
def parse (text : String) : Except Rejection EfsPath :=
  match Text.cutAt ':' text.toList with
  | some (fileSystem, path) => ofParts (String.ofList fileSystem) ⟨String.ofList path⟩
  | none => .error (.notEfsPath text)

/-- The text of a place. -/
def text (e : EfsPath) : String := e.fileSystem ++ ":" ++ e.path.text

/-- A place below another. -/
def join (e : EfsPath) (p : Path) : EfsPath :=
  { e with path := e.path.join p, absolute := Path.isAbsolute_join p e.absolute }

/-- Whether two places are the same: equal file systems and equal components. -/
def sameAs (e f : EfsPath) : Bool := e.fileSystem == f.fileSystem && e.path.sameAs f.path

/-- Below a place the file system is the same. -/
@[simp] theorem fileSystem_join (e : EfsPath) (p : Path) : (e.join p).fileSystem = e.fileSystem :=
  rfl

/-- Below a place the path is joined. -/
@[simp] theorem path_join (e : EfsPath) (p : Path) : (e.join p).path = e.path.join p := rfl

end EfsPath

end JobStaging
