import JobStaging.Json.Basic
import JobStaging.Decimal.Rounding

/-!
# Reading JSON texts

A reader takes what it needs from the front of the text and leaves the rest. A text is a value with
blanks around it; containers may be nested to a given depth only. What is read keeps repeated
names; `parse` merges them.
-/

set_option autoImplicit false

namespace JobStaging.Json

/-- The greatest depth of nesting of a value. -/
def maxDepth : Nat := 127

/-- A text without the blanks at its front. -/
def skipBlanks (cs : List Char) : List Char :=
  cs.dropWhile fun c => c == ' ' || c == '\n' || c == '\t' || c == '\r'

/-- Whether a character is a decimal digit. -/
def isDigit (c : Char) : Bool := '0' ≤ c && c ≤ '9'

/-- The value of a hexadecimal digit. -/
def hexValue? (c : Char) : Option Nat :=
  if isDigit c then some (c.toNat - 48)
  else if 'a' ≤ c && c ≤ 'f' then some (c.toNat - 87)
  else if 'A' ≤ c && c ≤ 'F' then some (c.toNat - 55)
  else none

/-- The number of four hexadecimal digits. -/
def hexUnit? (a b c d : Char) : Option Nat := do
  let a ← hexValue? a
  let b ← hexValue? b
  let c ← hexValue? c
  let d ← hexValue? d
  return ((a * 16 + b) * 16 + c) * 16 + d

/-- The character that a backslash and another character stand for. -/
def escaped? (c : Char) : Option Char :=
  if c = '"' ∨ c = '\\' ∨ c = '/' then some c
  else if c = 'b' then some '\x08'
  else if c = 'f' then some '\x0c'
  else if c = 'n' then some '\n'
  else if c = 'r' then some '\r'
  else if c = 't' then some '\t'
  else none

/-- Whether a unit is the first half of a pair. -/
def isHighUnit (n : Nat) : Bool := 0xD800 ≤ n && n < 0xDC00

/-- Whether a unit is the second half of a pair. -/
def isLowUnit (n : Nat) : Bool := 0xDC00 ≤ n && n < 0xE000

/-- The rest of a string after its opening quote. The characters read so far come in reverse. -/
def stringBody (done : List Char) : List Char → Option (String × List Char)
  | '"' :: rest => some (String.ofList done.reverse, rest)
  | '\\' :: 'u' :: a :: b :: c :: d :: '\\' :: 'u' :: e :: f :: g :: h :: rest =>
    match hexUnit? a b c d with
    | none => none
    | some unit =>
      if isHighUnit unit then
        match hexUnit? e f g h with
        | some second =>
          if isLowUnit second then
            let code := 0x10000 + (unit - 0xD800) * 0x400 + (second - 0xDC00)
            stringBody (Char.ofNat code :: done) rest
          else none
        | none => none
      else if isLowUnit unit then none
      else stringBody (Char.ofNat unit :: done) ('\\' :: 'u' :: e :: f :: g :: h :: rest)
  | '\\' :: 'u' :: a :: b :: c :: d :: rest =>
    match hexUnit? a b c d with
    | some unit =>
      if isHighUnit unit || isLowUnit unit then none
      else stringBody (Char.ofNat unit :: done) rest
    | none => none
  | '\\' :: c :: rest =>
    match escaped? c with
    | some x => stringBody (x :: done) rest
    | none => none
  | c :: rest => if c.toNat < 0x20 ∨ c = '\\' then none else stringBody (c :: done) rest
  | [] => none

/-- The digits at the front of a text and the rest. -/
def spanDigits (cs : List Char) : List Char × List Char :=
  (cs.takeWhile isDigit, cs.dropWhile isDigit)

/-- The exponent at the front of a text: none, or a mark, a sign and digits. -/
def exponentPart (cs : List Char) : Option (Option Int × List Char) :=
  match cs with
  | c :: rest =>
    if c = 'e' ∨ c = 'E' then
      let (negative, rest) := match rest with
        | '+' :: rest => (false, rest)
        | '-' :: rest => (true, rest)
        | rest => (false, rest)
      let (digits, rest) := spanDigits rest
      if digits = [] then none
      else
        let n : Int := digits.foldl (fun n d => n * 10 + Decimal.digitValue d) 0
        some (some (if negative then -n else n), rest)
    else some (none, cs)
  | [] => some (none, [])

/-- A whole number, kept as such if it fits sixty-four bits, else rounded to a double. -/
def wholeNumber (negative : Bool) (g : Decimal.Gathered) : Option Number :=
  let n := g.significand.toNat
  if g.exponent ≠ 0 then (g.toDouble? negative).map .double
  else if negative then
    if n = 0 ∨ Int64.minValue.toInt.natAbs < n then (g.toDouble? true).map .double
    else some (.whole (-n))
  else some (.whole n)

/-- The number at the front of a text, after its sign. -/
def unsignedNumber (negative : Bool) (cs : List Char) : Option (Number × List Char) :=
  let (digits, rest) := spanDigits cs
  if digits = [] ∨ (digits.head? = some '0' ∧ digits.length ≠ 1) then none
  else
    let whole := Decimal.gatherWhole digits ⟨0, 0⟩
    let fraction : Option (Option Decimal.Gathered × List Char) := match rest with
      | '.' :: rest =>
        let (digits, rest) := spanDigits rest
        if digits = [] then none else some (some (Decimal.gatherFraction digits whole), rest)
      | rest => some (none, rest)
    match fraction with
    | none => none
    | some (fraction, rest) =>
      match exponentPart rest with
      | none => none
      | some (exponent, rest) =>
        let number := match fraction, exponent with
          | none, none => wholeNumber negative whole
          | _, _ =>
            let g := fraction.getD whole
            let scaled : Decimal.Gathered := ⟨g.significand, g.exponent + exponent.getD 0⟩
            (scaled.toDouble? negative).map .double
        number.map fun n => (n, rest)

/-- The number at the front of a text. -/
def readNumber (cs : List Char) : Option (Number × List Char) :=
  match cs with
  | '-' :: rest => unsignedNumber true rest
  | rest => unsignedNumber false rest

/-- The rest of a text that begins with a word. -/
def afterWord (word : String) (cs : List Char) : Option (List Char) :=
  if word.toList.isPrefixOf cs then some (cs.drop word.toList.length) else none

mutual

/-- The value at the front of a text without leading blanks. The first number bounds the steps,
the second the nesting. -/
def readValue : Nat → Nat → List Char → Option (Json × List Char)
  | 0, _, _ => none
  | steps + 1, depth, cs =>
    match cs with
    | [] => none
    | c :: rest =>
      if c = '"' then (stringBody [] rest).map fun r => (.string r.1, r.2)
      else if c = '[' then
        match depth with
        | 0 => none
        | depth + 1 =>
          match skipBlanks rest with
          | ']' :: rest => some (.array [], rest)
          | rest => (readElements steps depth rest).map fun r => (.array r.1, r.2)
      else if c = '\x7b' then
        match depth with
        | 0 => none
        | depth + 1 =>
          match skipBlanks rest with
          | '\x7d' :: rest => some (.object [], rest)
          | rest => (readMembers steps depth rest).map fun r => (.object r.1, r.2)
      else if c = 'n' then (afterWord "null" cs).map fun r => (.null, r)
      else if c = 't' then (afterWord "true" cs).map fun r => (.bool true, r)
      else if c = 'f' then (afterWord "false" cs).map fun r => (.bool false, r)
      else (readNumber cs).map fun r => (.number r.1, r.2)

/-- The elements of an array up to its end; at least one. -/
def readElements : Nat → Nat → List Char → Option (List Json × List Char)
  | 0, _, _ => none
  | steps + 1, depth, cs =>
    match readValue steps depth cs with
    | none => none
    | some (j, rest) =>
      match skipBlanks rest with
      | ']' :: rest => some ([j], rest)
      | ',' :: rest => (readElements steps depth (skipBlanks rest)).map fun r => (j :: r.1, r.2)
      | _ => none

/-- The members of an object up to its end; at least one. -/
def readMembers : Nat → Nat → List Char → Option (List (String × Json) × List Char)
  | 0, _, _ => none
  | steps + 1, depth, cs =>
    match cs with
    | '"' :: rest =>
      match stringBody [] rest with
      | none => none
      | some (name, rest) =>
        match skipBlanks rest with
        | ':' :: rest =>
          match readValue steps depth (skipBlanks rest) with
          | none => none
          | some (j, rest) =>
            match skipBlanks rest with
            | '\x7d' :: rest => some ([(name, j)], rest)
            | ',' :: rest =>
              (readMembers steps depth (skipBlanks rest)).map fun r => ((name, j) :: r.1, r.2)
            | _ => none
        | _ => none
    | _ => none

end

/-- The tree of a whole text, nested to a given depth at most, with repeated names. -/
def parseTree (depth : Nat) (text : String) : Option Json :=
  let cs := text.toList
  match readValue (2 * cs.length + 1) depth (skipBlanks cs) with
  | some (j, rest) => if skipBlanks rest = [] then some j else none
  | none => none

/-- The value of a whole text. -/
def parse (text : String) : Option Json := (parseTree maxDepth text).map mergeRepeated

end JobStaging.Json
