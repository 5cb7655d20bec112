/-!
# Blanks, comments and line ends in TOML

Blanks are spaces and tabs. A line ends with a line feed, before which a carriage return may stand,
or with the text. Comments run to the end of the line and hold no control characters but tabs.
-/

set_option autoImplicit false

namespace JobStaging.Toml

/-- Whether a character is a blank. -/
def isBlank (c : Char) : Bool := c == ' ' || c == '\t'

/-- A text without the blanks at its front. -/
def skipBlanks (cs : List Char) : List Char := cs.dropWhile isBlank

/-- Whether a character may stand in a comment or between quotes, quotes and backslashes aside. -/
def isPrintable (c : Char) : Bool := c == '\t' || (0x20 ≤ c.toNat && c.toNat ≠ 0x7F)

/-- What follows a line end. -/
def afterNewline : List Char → Option (List Char)
  | '\n' :: rest => some rest
  | '\r' :: '\n' :: rest => some rest
  | _ => none

/-- What follows a comment, if one stands at the front. -/
def skipComment : List Char → List Char
  | '#' :: rest => rest.dropWhile isPrintable
  | cs => cs

/-- What follows the end of a line, where blanks and a comment may come before it. -/
def endLine (cs : List Char) : Option (List Char) :=
  match skipComment (skipBlanks cs) with
  | [] => some []
  | rest => afterNewline rest

/-- What follows blanks, comments and line ends. The number bounds the steps. -/
def skipLines : Nat → List Char → List Char
  | 0, cs => cs
  | steps + 1, cs =>
    match afterNewline (skipComment (skipBlanks cs)) with
    | some rest => skipLines steps rest
    | none => skipBlanks cs

/-- What follows blanks and line ends, without comments. The number bounds the steps. -/
def skipEmptyLines : Nat → List Char → List Char
  | 0, cs => cs
  | steps + 1, cs =>
    match afterNewline (skipBlanks cs) with
    | some rest => skipEmptyLines steps rest
    | none => skipBlanks cs

end JobStaging.Toml
