import JobStaging.Json.Record
import JobStaging.Text.Blank

/-!
# Placements

Where an execution's directories are to lie. Each role (shared inputs, the working directory, the
temporary directory) has candidates, and a strategy picks among several.
-/

set_option autoImplicit false

namespace JobStaging

/-- One way to provide a directory: a file system or access point, by identifier or name, and where
the container sees it. -/
structure Candidate where
  fileSystem : Option String
  accessPoint : Option String
  containerPath : Option Path
  deriving DecidableEq, Repr

namespace Candidate

/-- How a candidate is read. -/
def record : Record Candidate :=
  Candidate.mk <$> Record.optional ["file_system", "file_system_id"] Decoder.string
    <*> Record.optional ["access_point", "access_point_id"] Decoder.string
    <*> Record.optional ["container_path"] Decoder.path

/-- Reads a candidate. -/
def decode : Decoder Candidate := record.decode

/-- The candidate as JSON. -/
def toJson (c : Candidate) : Json :=
  .object (Json.optionalMember "file_system" .string c.fileSystem ++
    Json.optionalMember "access_point" .string c.accessPoint ++
    Json.optionalMember "container_path" (fun p : Path => .string p.text) c.containerPath)

/-- Whether a candidate names a file system or an access point. -/
def hasIdentifier (c : Candidate) : Bool := c.fileSystem.isSome || c.accessPoint.isSome

end Candidate

/-- How to pick among several candidates. -/
inductive Strategy where
  | random
  | leastUtilized
  deriving DecidableEq, Repr

namespace Strategy

/-- The names of the strategies. -/
def names : List (String × Strategy) := [("RANDOM", .random), ("LEAST_UTILIZED", .leastUtilized)]

/-- The name of a strategy. -/
def name : Strategy → String
  | .random => "RANDOM"
  | .leastUtilized => "LEAST_UTILIZED"

/-- A spelling without blanks around it and in capitals. -/
def normalized (text : String) : String :=
  String.ofList ((Text.trim text.toList).map Char.toUpper)

/-- The strategy that a text names in any mixture of capitals and small letters. -/
def parse (text : String) : Except Rejection Strategy :=
  match names.lookup (normalized text) with
  | some s => .ok s
  | none => .error (.unknownStrategy (normalized text))

end Strategy

/-- The candidates of each role and the strategy that picks among them. -/
structure Placement where
  shared : List Candidate
  scratch : List Candidate
  tmp : Option (List Candidate)
  strategy : Strategy
  deriving DecidableEq, Repr

namespace Placement

/-- A placement without candidates. -/
def empty : Placement := ⟨[], [], none, .random⟩

/-- How a placement is read. Each role takes one candidate or a list. -/
def record : Record Placement :=
  Placement.mk <$> Record.fieldOr ["shared"] (Decoder.oneOrMany Candidate.decode) []
    <*> Record.fieldOr ["scratch"] (Decoder.oneOrMany Candidate.decode) []
    <*> Record.optional ["tmp"] (Decoder.oneOrMany Candidate.decode)
    <*> Record.fieldOr ["selection_strategy"] (Decoder.choice Strategy.names) .random

/-- The placement as JSON. -/
def toJson (p : Placement) : Json :=
  .object ([("shared", .list Candidate.toJson p.shared),
    ("scratch", .list Candidate.toJson p.scratch)] ++
    Json.optionalMember "tmp" (Json.list Candidate.toJson) p.tmp ++
    [("selection_strategy", .string p.strategy.name)])

/-- Both the working directory and the shared directory need a candidate. -/
def validate (p : Placement) : Except Rejection Unit :=
  if p.scratch.isEmpty then .error (.emptyRole "scratch")
  else if p.shared.isEmpty then .error (.emptyRole "shared")
  else .ok ()

/-- The candidates for the temporary directory; an empty list is none at all. -/
def tmpCandidates (p : Placement) : Option (List Candidate) :=
  p.tmp.filter fun candidates => !candidates.isEmpty

end Placement

end JobStaging
