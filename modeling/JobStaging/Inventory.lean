import JobStaging.Json.Record
import JobStaging.Json.Skim

/-!
# Inventories of file systems

The file systems that there are and the access points through which they are used. A resource is
asked for by its identifier or by its name. An identifier wins at once; a name must be the value of
the tag `Name` of exactly one resource, among those of one environment if one is given.
-/

set_option autoImplicit false

namespace JobStaging

/-- A shared file system. -/
structure FileSystem where
  id : String
  name : Option String
  /-- How many bytes it holds. -/
  usedBytes : UInt64
  tags : OrderedMap String
  deriving DecidableEq, Repr

namespace FileSystem

/-- How a file system is read. -/
def record : Record FileSystem :=
  FileSystem.mk <$> Record.field "id" Decoder.string
    <*> Record.optional ["name"] Decoder.string
    <*> Record.fieldOr ["used_bytes"] Decoder.word64 0
    <*> Record.fieldOr ["tags"] (Decoder.map Decoder.string) .empty

/-- The members of a file system's text that are read. -/
def interest : Json.Interest :=
  .members [("id", .all), ("name", .all), ("used_bytes", .all), ("tags", .all)]

/-- The file system as JSON. -/
def toJson (f : FileSystem) : Json :=
  .object ([("id", .string f.id)] ++ Json.optionalMember "name" .string f.name ++
    [("used_bytes", .ofNat f.usedBytes.toNat), ("tags", .stringMap f.tags)])

end FileSystem

/-- A directory of a file system through which it is used. -/
structure AccessPoint where
  id : String
  /-- The identifier of the file system that it belongs to. -/
  fileSystem : String
  name : Option String
  /-- The directory that is seen as the root. -/
  root : Path
  tags : OrderedMap String
  deriving DecidableEq, Repr

namespace AccessPoint

/-- How an access point is read. -/
def record : Record AccessPoint :=
  AccessPoint.mk <$> Record.field "id" Decoder.string
    <*> Record.field "file_system_id" Decoder.string
    <*> Record.optional ["name"] Decoder.string
    <*> Record.fieldOr ["root_directory"] Decoder.path ⟨"/"⟩
    <*> Record.fieldOr ["tags"] (Decoder.map Decoder.string) .empty

/-- The members of an access point's text that are read. -/
def interest : Json.Interest :=
  .members [("id", .all), ("file_system_id", .all), ("name", .all), ("root_directory", .all),
    ("tags", .all)]

/-- The access point as JSON. -/
def toJson (a : AccessPoint) : Json :=
  .object ([("id", .string a.id), ("file_system_id", .string a.fileSystem)] ++
    Json.optionalMember "name" .string a.name ++
    [("root_directory", .string a.root.text), ("tags", .stringMap a.tags)])

end AccessPoint

/-- What a resource is found by. -/
structure Labels where
  id : String
  tags : OrderedMap String
  deriving DecidableEq, Repr

namespace Labels

/-- The tag that holds the name of a resource. -/
def nameTag : String := "Name"

/-- The tag that holds the environment of a resource. -/
def envBaseTag : String := "env_base"

/-- Whether a resource goes by a name in an environment, or in any if none is given. -/
def goesBy (name : String) (envBase : Option String) (l : Labels) : Bool :=
  l.tags.get? nameTag == some name &&
    match envBase with
    | some env => l.tags.get? envBaseTag == some env
    | none => true

end Labels

/-- What a file system is found by. -/
def FileSystem.labels (f : FileSystem) : Labels := ⟨f.id, f.tags⟩

/-- What an access point is found by. -/
def AccessPoint.labels (a : AccessPoint) : Labels := ⟨a.id, a.tags⟩

/-- The resource that is meant by an identifier or a name: the first with the identifier, else the
only one that goes by the name. -/
def matchOne {α : Type} (labels : α → Labels) (items : List α) (nameOrId : String)
    (envBase : Option String) : Except LookupFailure α :=
  match items.find? fun item => (labels item).id == nameOrId with
  | some item => .ok item
  | none =>
    match items.filter fun item => (labels item).goesBy nameOrId envBase with
    | [] => .error (.notFound envBase)
    | [one] => .ok one
    | many => .error (.ambiguous (many.map fun item => (labels item).id))

/-- The file systems and access points that there are. -/
structure Inventory where
  fileSystems : List FileSystem
  accessPoints : List AccessPoint
  deriving DecidableEq, Repr

namespace Inventory

/-- No resources. -/
def empty : Inventory := ⟨[], []⟩

/-- How an inventory is read. -/
def record : Record Inventory :=
  Inventory.mk <$> Record.fieldOr ["file_systems"] (Decoder.list FileSystem.record.decode) []
    <*> Record.fieldOr ["access_points"] (Decoder.list AccessPoint.record.decode) []

/-- The inventory as JSON. -/
def toJson (i : Inventory) : Json :=
  .object [("file_systems", .list FileSystem.toJson i.fileSystems),
    ("access_points", .list AccessPoint.toJson i.accessPoints)]

/-- The members of an inventory's text that are read. -/
def interest : Json.Interest :=
  .members [("file_systems", .each FileSystem.interest),
    ("access_points", .each AccessPoint.interest)]

/-- Reads an inventory from its text. Here a member given twice is a fault, and no fault has words
of its own. What the text holds beside an inventory is passed over. -/
def ofText (text : String) : Except Error Inventory :=
  match Json.skim interest text with
  | none => .error (.serialization .malformed)
  | some j =>
    match record.decode j with
    | .ok inventory => .ok inventory
    | .error _ => .error (.serialization .shape)

/-- The file system that is meant by an identifier or a name. -/
def fileSystem (i : Inventory) (nameOrId : String) (envBase : Option String) :
    Except Error FileSystem :=
  (matchOne FileSystem.labels i.fileSystems nameOrId envBase).mapError
    (.resolution ("file system " ++ nameOrId))

/-- The access points of a file system, or all if none is given. -/
def accessPointsOf (i : Inventory) (fileSystem : Option String) : List AccessPoint :=
  match fileSystem with
  | some id => i.accessPoints.filter fun a => a.fileSystem == id
  | none => i.accessPoints

/-- The access point that is meant by an identifier or a name, among those of a file system if one
is given. -/
def accessPoint (i : Inventory) (nameOrId : String) (fileSystem envBase : Option String) :
    Except Error AccessPoint :=
  (matchOne AccessPoint.labels (i.accessPointsOf fileSystem) nameOrId envBase).mapError
    (.resolution ("access point " ++ nameOrId))

end Inventory

end JobStaging
