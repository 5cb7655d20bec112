import JobStaging.Json.Reader
import JobStaging.Toml.Lines

/-!
# Strings in TOML

A string stands between double quotes, with escapes, or between single quotes, as it is. Between
tripled quotes it may run over several lines; a line end right after the opening quotes does not
count, and up to two quotes may stand right before the closing ones.
-/

set_option autoImplicit false

namespace JobStaging.Toml

/-- The number that hexadecimal digits spell. -/
def hexNumber? (digits : List Char) : Option Nat :=
  digits.foldlM (fun n c => (Json.hexValue? c).map fun d => n * 16 + d) 0

/-- The character with a given code, if there is one. -/
def charOfCode? (n : Nat) : Option Char := if n.isValidChar then some (Char.ofNat n) else none

/-- The character that so many hexadecimal digits at the front of a text spell. -/
def hexEscape (count : Nat) (cs : List Char) : Option (Char × List Char) :=
  if (cs.take count).length = count then do
    let c ← charOfCode? (← hexNumber? (cs.take count))
    return (c, cs.drop count)
  else none

/-- The character that a letter stands for after a backslash. -/
def shortEscape? (c : Char) : Option Char :=
  match c with
  | 'b' => some '\x08'
  | 'f' => some '\x0c'
  | 'n' => some '\n'
  | 'r' => some '\r'
  | 't' => some '\t'
  | '"' => some '"'
  | '\\' => some '\\'
  | _ => none

/-- The character that is spelled after a backslash. -/
def escape : List Char → Option (Char × List Char)
  | 'u' :: rest => hexEscape 4 rest
  | 'U' :: rest => hexEscape 8 rest
  | c :: rest => (shortEscape? c).map fun x => (x, rest)
  | [] => none

/-- The rest of a string between double quotes. The characters read so far come in reverse; the
number bounds the steps. -/
def basicBody : Nat → List Char → List Char → Option (String × List Char)
  | 0, _, _ => none
  | steps + 1, done, cs =>
    match cs with
    | '"' :: rest => some (String.ofList done.reverse, rest)
    | '\\' :: rest =>
      match escape rest with
      | some (c, rest) => basicBody steps (c :: done) rest
      | none => none
    | c :: rest => if isPrintable c then basicBody steps (c :: done) rest else none
    | [] => none

/-- The rest of a string between single quotes. -/
def literalBody : List Char → Option (String × List Char) := fun cs =>
  match cs.dropWhile fun c => isPrintable c && c ≠ '\'' with
  | '\'' :: rest => some (String.ofList (cs.takeWhile fun c => isPrintable c && c ≠ '\''), rest)
  | _ => none

/-- The rest of a string after tripled quotes. Escapes are read only between double quotes. The
characters read so far come in reverse; the number bounds the steps. -/
def longBody (quote : Char) : Nat → List Char → List Char → Option (String × List Char)
  | 0, _, _ => none
  | steps + 1, done, cs =>
    match cs with
    | [] => none
    | c :: rest =>
      if c = quote then
        let run := (cs.takeWhile (· == quote)).length
        if run < 3 then longBody quote steps (quote :: done) rest
        else
          let kept := min (run - 3) 2
          some (String.ofList (List.replicate kept quote ++ done).reverse, cs.drop (kept + 3))
      else if c = '\\' ∧ quote = '"' then
        match afterNewline (skipBlanks rest) with
        | some next => longBody quote steps done (skipEmptyLines next.length next)
        | none =>
          match escape rest with
          | some (x, rest) => longBody quote steps (x :: done) rest
          | none => none
      else if isPrintable c then longBody quote steps (c :: done) rest
      else
        match afterNewline cs with
        | some rest => longBody quote steps ('\n' :: done) rest
        | none => none

/-- The string after tripled quotes, without a line end right behind them. -/
def longString (quote : Char) (cs : List Char) : Option (String × List Char) :=
  let body := (afterNewline cs).getD cs
  longBody quote (body.length + 1) [] body

/-- A string of one line at the front of a text. -/
def shortString : List Char → Option (String × List Char)
  | '"' :: rest => basicBody (rest.length + 1) [] rest
  | '\'' :: rest => literalBody rest
  | _ => none

/-- The string at the front of a text. -/
def readString : List Char → Option (String × List Char)
  | '"' :: '"' :: '"' :: rest => longString '"' rest
  | '\'' :: '\'' :: '\'' :: rest => longString '\'' rest
  | cs => shortString cs

end JobStaging.Toml
