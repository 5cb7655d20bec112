import JobStaging.Toml.Numbers
import JobStaging.Toml.Strings

/-!
# Reading TOML

A document is read line by line. A header says to which table the lines after it belong; a line with
a key adds to that table. Arrays and tables in braces may be nested to a given depth, and a key may
have as many parts.
-/

set_option autoImplicit false

namespace JobStaging.Toml

/-- Containers may be nested less deep than this, and keys have fewer parts. -/
def depthLimit : Nat := 80

/-- Whether a character may stand in a key without quotes. -/
def isKeyChar (c : Char) : Bool :=
  Json.isDigit c || ('a' ≤ c && c ≤ 'z') || ('A' ≤ c && c ≤ 'Z') || c == '-' || c == '_'

/-- One part of a key. -/
def keyPart (cs : List Char) : Option (String × List Char) :=
  match cs with
  | '"' :: _ => shortString cs
  | '\'' :: _ => shortString cs
  | _ =>
    match cs.takeWhile isKeyChar with
    | [] => none
    | word => some (String.ofList word, cs.dropWhile isKeyChar)

/-- The parts of a key, with dots between them and blanks around each. -/
def keyParts : Nat → List Char → Option (List String × List Char)
  | 0, _ => none
  | parts + 1, cs =>
    match keyPart (skipBlanks cs) with
    | none => none
    | some (word, rest) =>
      match skipBlanks rest with
      | '.' :: rest => (keyParts parts rest).map fun r => (word :: r.1, r.2)
      | rest => some ([word], rest)

/-- The key at the front of a text. -/
def readKey (cs : List Char) : Option (List String × List Char) := keyParts (depthLimit - 1) cs

/-- Adds what a key names to a table. -/
def addPath (key : List String) (value : Node) (members : Members) : Option Members :=
  match key.getLast? with
  | some name => addKey name value key.dropLast members
  | none => none

mutual

/-- The value at the front of a text. The first number bounds the steps, the second the nesting. -/
def readValue : Nat → Nat → List Char → Option (Node × List Char)
  | 0, _, _ => none
  | steps + 1, depth, cs =>
    match cs with
    | [] => none
    | c :: rest =>
      if c = '"' ∨ c = '\'' then (readString cs).map fun r => (.string r.1, r.2)
      else if c = '[' then
        match depth with
        | 0 => none
        | depth + 1 => (readElements steps depth rest).map fun r => (.array r.1, r.2)
      else if c = '\x7b' then
        match depth with
        | 0 => none
        | depth + 1 =>
          match skipBlanks rest with
          | '\x7d' :: rest => some (.table .braces [], rest)
          | _ => (readMembers steps depth [] rest).map fun r => (.table .braces r.1, r.2)
      else if c = 't' then (Json.afterWord "true" cs).map fun r => (.boolean true, r)
      else if c = 'f' then (Json.afterWord "false" cs).map fun r => (.boolean false, r)
      else readNumber cs

/-- The elements of an array up to its end, with lines and comments between them. -/
def readElements : Nat → Nat → List Char → Option (List Node × List Char)
  | 0, _, _ => none
  | steps + 1, depth, cs =>
    match skipLines cs.length cs with
    | ']' :: rest => some ([], rest)
    | cs =>
      match readValue steps depth cs with
      | none => none
      | some (value, rest) =>
        match skipLines rest.length rest with
        | ']' :: rest => some ([value], rest)
        | ',' :: rest => (readElements steps depth rest).map fun r => (value :: r.1, r.2)
        | _ => none

/-- The members of a table in braces up to its end, added to those read before. -/
def readMembers : Nat → Nat → Members → List Char → Option (Members × List Char)
  | 0, _, _, _ => none
  | steps + 1, depth, done, cs =>
    match readKey cs with
    | some (key, '=' :: rest) =>
      match readValue steps depth (skipBlanks rest) with
      | none => none
      | some (value, rest) =>
        match addPath key value done with
        | none => none
        | some done =>
          match skipBlanks rest with
          | '\x7d' :: rest => some (done, rest)
          | ',' :: rest => readMembers steps depth done rest
          | _ => none
    | _ => none

end

/-- The value of a line at the front of a text. -/
def readLineValue (cs : List Char) : Option (Node × List Char) :=
  readValue (2 * cs.length + 1) (depthLimit - 1) cs

/-- A document while it is read: what it holds, and the table that lines add to. -/
structure Draft where
  members : Members
  header : List String

/-- The header at the front of a text, after its first bracket. -/
def readHeader (draft : Draft) (cs : List Char) : Option (Draft × List Char) :=
  let (double, body) := match cs with
    | '[' :: rest => (true, rest)
    | rest => (false, rest)
  match readKey body with
  | some (key, ']' :: rest) => do
    let rest ← if double then after? ']' rest else some rest
    let rest ← endLine rest
    let name ← key.getLast?
    let change := if double then openElement name else openTable name
    let members ← under change key.dropLast draft.members
    return (⟨members, key⟩, rest)
  | _ => none

/-- The line with a key at the front of a text. -/
def readEntry (draft : Draft) (cs : List Char) : Option (Draft × List Char) :=
  match readKey cs with
  | some (key, '=' :: rest) => do
    let (value, rest) ← readLineValue (skipBlanks rest)
    let rest ← endLine rest
    let members ← under (addPath key value) draft.header draft.members
    return (⟨members, draft.header⟩, rest)
  | _ => none

/-- The lines of a document, added to a draft. The number bounds the lines. -/
def readLines : Nat → Draft → List Char → Option Draft
  | 0, _, _ => none
  | steps + 1, draft, cs =>
    match skipBlanks cs with
    | [] => some draft
    | '[' :: rest =>
      match readHeader draft rest with
      | some (draft, rest) => readLines steps draft rest
      | none => none
    | c :: rest =>
      if c = '#' ∨ c = '\n' ∨ c = '\r' then
        match endLine (c :: rest) with
        | some rest => readLines steps draft rest
        | none => none
      else
        match readEntry draft (c :: rest) with
        | some (draft, rest) => readLines steps draft rest
        | none => none

/-- A text without the mark of its byte order. -/
def dropMark : List Char → List Char
  | '\ufeff' :: rest => rest
  | cs => cs

/-- The document of a text, as a JSON object. -/
def parse (text : String) : Option Json :=
  let cs := dropMark text.toList
  (readLines (cs.length + 1) ⟨[], []⟩ cs).map fun draft => .object (membersToJson draft.members)

end JobStaging.Toml
