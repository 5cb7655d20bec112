import JobStaging.Json.Basic
import JobStaging.Decimal.Notation
import JobStaging.Text.Hex

/-!
# JSON texts

The text of a JSON value, without blanks or with one member to a line. In strings the quote, the
backslash and the characters below U+0020 are escaped, and nothing else.
-/

set_option autoImplicit false

namespace JobStaging.Json

/-- Doubles are written in place if their leading digit has a power from `10^-5` to `10^15`. -/
def numberNotation : Decimal.Notation := ⟨-5, 15⟩

/-- The text of a number. -/
def Number.text : Number → String
  | .whole n => String.ofList ((if n < 0 then ['-'] else []) ++ Decimal.digitsOf n.natAbs)
  | .double d => numberNotation.render d

/-- How a character is written inside a string. -/
def escapeChar (c : Char) : List Char :=
  if c = '"' then ['\\', '"']
  else if c = '\\' then ['\\', '\\']
  else if c = '\x08' then ['\\', 'b']
  else if c = '\t' then ['\\', 't']
  else if c = '\n' then ['\\', 'n']
  else if c = '\x0c' then ['\\', 'f']
  else if c = '\r' then ['\\', 'r']
  else if c.toNat < 0x20 then ['\\', 'u', '0', '0'] ++ Text.hexByte (UInt8.ofNat c.toNat)
  else [c]

/-- A string between quotes. -/
def quoteChars (s : String) : List Char := '"' :: (s.toList.flatMap escapeChar ++ ['"'])

/-- The text of a value that has no parts. -/
def atomChars : Json → List Char
  | .null => ['n', 'u', 'l', 'l']
  | .bool true => ['t', 'r', 'u', 'e']
  | .bool false => ['f', 'a', 'l', 's', 'e']
  | .number n => n.text.toList
  | .string s => quoteChars s
  | _ => []

mutual

/-- The characters of a value without blanks. -/
def compactChars : Json → List Char
  | .array elements => '[' :: (compactElements elements ++ [']'])
  | .object members => '\x7b' :: (compactMembers members ++ ['\x7d'])
  | j => atomChars j

/-- Elements with commas between them. -/
def compactElements : List Json → List Char
  | [] => []
  | [j] => compactChars j
  | j :: next :: rest => compactChars j ++ ',' :: compactElements (next :: rest)

/-- Members with commas between them. -/
def compactMembers : List (String × Json) → List Char
  | [] => []
  | [(name, j)] => quoteChars name ++ ':' :: compactChars j
  | (name, j) :: next :: rest =>
    quoteChars name ++ ':' :: (compactChars j ++ ',' :: compactMembers (next :: rest))

end

/-- The text of a value without blanks. -/
def compact (j : Json) : String := String.ofList (compactChars j)

/-- The beginning of a line at a depth of nesting: two blanks for each level. -/
def lineStart (depth : Nat) : List Char := '\n' :: List.replicate (2 * depth) ' '

mutual

/-- The characters of a value with each part on a line of its own. -/
def prettyChars (depth : Nat) : Json → List Char
  | .array [] => ['[', ']']
  | .array elements => '[' :: (prettyElements (depth + 1) elements ++ lineStart depth ++ [']'])
  | .object [] => ['\x7b', '\x7d']
  | .object members =>
    '\x7b' :: (prettyMembers (depth + 1) members ++ lineStart depth ++ ['\x7d'])
  | j => atomChars j

/-- Elements, each on a line. -/
def prettyElements (depth : Nat) : List Json → List Char
  | [] => []
  | [j] => lineStart depth ++ prettyChars depth j
  | j :: next :: rest =>
    lineStart depth ++ prettyChars depth j ++ ',' :: prettyElements depth (next :: rest)

/-- Members, each on a line. -/
def prettyMembers (depth : Nat) : List (String × Json) → List Char
  | [] => []
  | [(name, j)] => lineStart depth ++ quoteChars name ++ ':' :: ' ' :: prettyChars depth j
  | (name, j) :: next :: rest =>
    lineStart depth ++ quoteChars name ++
      ':' :: ' ' :: (prettyChars depth j ++ ',' :: prettyMembers depth (next :: rest))

end

/-- The text of a value with each part on a line of its own. -/
def pretty (j : Json) : String := String.ofList (prettyChars 0 j)

end JobStaging.Json
