import JobStaging.Error
import JobStaging.OrderedMap
import JobStaging.Text.Blank

/-!
# Files of variables

A file has one line `export NAME="VALUE"` for each variable. In a value the characters that a shell
would act upon between double quotes are written with a backslash before them. Reading takes a
backslash away from any character and skips blank lines.
-/

set_option autoImplicit false

namespace JobStaging.Environment

/-- Whether a shell acts upon a character between double quotes. -/
def isActive (c : Char) : Bool := c == '\\' || c == '"' || c == '$' || c == '\x60'

/-- A value with a backslash before every active character. -/
def escapeValue (value : List Char) : List Char :=
  value.flatMap fun c => if isActive c then ['\\', c] else [c]

/-- Texts are escaped one after the other. -/
theorem escapeValue_append (value more : List Char) :
    escapeValue (value ++ more) = escapeValue value ++ escapeValue more :=
  List.flatMap_append

/-- A single character gets a backslash if it is active. -/
theorem escapeValue_singleton (c : Char) :
    escapeValue [c] = if isActive c then ['\\', c] else [c] := by
  unfold escapeValue
  rw [List.flatMap_singleton]

/-- A value is escaped character by character. -/
theorem escapeValue_cons (c : Char) (value : List Char) :
    escapeValue (c :: value) = escapeValue [c] ++ escapeValue value := by
  rw [← escapeValue_append, List.singleton_append]

/-- How a line begins. -/
def exportWord : List Char := ['e', 'x', 'p', 'o', 'r', 't', ' ']

/-- The line of a variable. -/
def renderLine (entry : String × String) : List Char :=
  exportWord ++ entry.1.toList ++ '=' :: '"' :: (escapeValue entry.2.toList ++ ['"'])

/-- The text of a file with variables: their lines, with line feeds between them. -/
def render (vars : OrderedMap String) : String :=
  String.ofList (Text.joinWith '\n' (vars.entries.map renderLine))

/-- A line without a carriage return at its end. -/
def dropReturn (line : List Char) : List Char := (Text.dropLast? '\r' line).getD line

/-- The lines of the pieces between line feeds. A carriage return before a line feed belongs to
the end of the line; after the last line feed there is a line only if anything stands there. -/
def linesOfPieces : List (List Char) → List (List Char)
  | [] => []
  | [last] => if last = [] then [] else [last]
  | piece :: next :: rest => dropReturn piece :: linesOfPieces (next :: rest)

/-- The lines of a text. -/
def lines (cs : List Char) : List (List Char) := linesOfPieces (Text.split '\n' cs)

/-- A value without the backslashes that stand before its characters. A backslash at the end
stands before nothing. -/
def unescape : List Char → Option (List Char)
  | [] => some []
  | '\\' :: [] => none
  | '\\' :: c :: rest => (unescape rest).map (c :: ·)
  | c :: rest => (unescape rest).map (c :: ·)

/-- What stands between two double quotes. -/
def unquote : List Char → Option (List Char)
  | '"' :: rest => Text.dropLast? '"' rest
  | _ => none

/-- What stands after the word that begins a line. -/
def afterExport (line : List Char) : Option (List Char) :=
  if exportWord.isPrefixOf line then some (line.drop exportWord.length) else none

/-- Behind the word that begins a line stands the rest of it. -/
theorem afterExport_append (rest : List Char) : afterExport (exportWord ++ rest) = some rest := by
  simp [afterExport, exportWord]

/-- The variable of a line. -/
def parseLine (line : List Char) : Option (String × String) := do
  let (name, quotedValue) ← Text.cutAt '=' (← afterExport line)
  let value ← unescape (← unquote quotedValue)
  return (String.ofList name, String.ofList value)

/-- The variable of a line, or the line as malformed. -/
def checkLine (line : List Char) : Except Rejection (String × String) :=
  match parseLine line with
  | some entry => .ok entry
  | none => .error (.malformedLine (String.ofList line))

/-- The variables of a file. -/
def parse (content : String) : Except Rejection (OrderedMap String) := do
  let entries ← ((lines content.toList).filter fun line => !Text.allBlank line).mapM checkLine
  return OrderedMap.ofList entries

end JobStaging.Environment
