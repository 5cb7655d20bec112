import JobStaging.Json.Reader
import JobStaging.Toml.Document

/-!
# Numbers and dates in TOML

Whole numbers fit sixty-four bits and may be written with the bases ten, sixteen, eight and two. A
number with a fraction or an exponent is a double. Single underscores may stand between digits. A
date and a time are checked against the calendar and the clock.
-/

set_option autoImplicit false

namespace JobStaging.Toml

/-- The digits that follow a digit, where one underscore may stand between two of them. -/
def moreDigits (isDigit : Char → Bool) : List Char → Option (List Char × List Char)
  | [] => some ([], [])
  | ['_'] => none
  | '_' :: d :: rest =>
    if isDigit d then (moreDigits isDigit rest).map fun r => (d :: r.1, r.2) else none
  | c :: rest =>
    if isDigit c then (moreDigits isDigit rest).map fun r => (c :: r.1, r.2)
    else some ([], c :: rest)

/-- The digits at the front of a text, where one underscore may stand between two of them. -/
def groupedDigits (isDigit : Char → Bool) : List Char → Option (List Char × List Char)
  | [] => none
  | c :: rest =>
    if isDigit c then (moreDigits isDigit rest).map fun r => (c :: r.1, r.2) else none

/-- The sign at the front of a text. -/
def readSign : List Char → Bool × List Char
  | '+' :: rest => (false, rest)
  | '-' :: rest => (true, rest)
  | cs => (false, cs)

/-- The digits of a whole number in base ten: a zero, or digits without a zero before them. -/
def decimalDigits : List Char → Option (List Char × List Char)
  | '0' :: rest => some (['0'], rest)
  | cs => groupedDigits Json.isDigit cs

/-- The number of digits in a base. -/
def numberOf (base : Nat) (digits : List Char) : Nat :=
  digits.foldl (fun n c => n * base + (Json.hexValue? c).getD 0) 0

/-- A whole number, if it fits. -/
def integer? (n : Int) : Option Node :=
  if Int64.minValue.toInt ≤ n ∧ n ≤ Int64.maxValue.toInt then some (.integer n) else none

/-- The number of digits in a base that is not ten. -/
def basedInteger (base : Nat) (cs : List Char) : Option (Node × List Char) := do
  let digits ← groupedDigits (fun c => (Json.hexValue? c).any fun d => d < base) cs
  let n ← integer? (numberOf base digits.1)
  return (n, digits.2)

/-- The double next to `n · 10^exponent`, where `n` has so many digits. -/
def scientific (digits : List Char) (exponent : Int) : Float :=
  let n := numberOf 10 digits
  let magnitude := (digits.dropWhile (· == '0')).length + exponent
  if n = 0 ∨ magnitude < -400 then 0.0
  else if 400 < magnitude then 1.0 / 0.0
  else if exponent < 0 then Float.ofScientific n true exponent.natAbs
  else Float.ofScientific n false exponent.natAbs

/-- A double; a number too large for one is refused, unless it is negative. -/
def float? (negative : Bool) (x : Float) : Option Node :=
  if negative then some (.float (.ofFloat (-x)))
  else if x.isInf then none
  else some (.float (.ofFloat x))

/-- The exponent at the front of a text that begins with its mark. -/
def readExponent (cs : List Char) : Option (Int × List Char) := do
  let (negative, rest) := readSign cs
  let (digits, rest) ← groupedDigits Json.isDigit rest
  let n : Int := numberOf 10 digits
  return (if negative then -n else n, rest)

/-- The exponent at the front of a text, or zero. -/
def optionalExponent : List Char → Option (Int × List Char)
  | c :: rest => if c = 'e' ∨ c = 'E' then readExponent rest else some (0, c :: rest)
  | [] => some (0, [])

/-- The number in base ten at the front of a text. -/
def decimalNumber (cs : List Char) : Option (Node × List Char) := do
  let (negative, rest) := readSign cs
  let (whole, rest) ← decimalDigits rest
  match rest with
  | '.' :: rest =>
    let (fraction, rest) ← groupedDigits Json.isDigit rest
    let (exponent, rest) ← optionalExponent rest
    let n ← float? negative (scientific (whole ++ fraction) (exponent - fraction.length))
    return (n, rest)
  | c :: next =>
    if c = 'e' ∨ c = 'E' then
      let (exponent, rest) ← readExponent next
      let n ← float? negative (scientific whole exponent)
      return (n, rest)
    else
      let n ← integer? (if negative then -(numberOf 10 whole) else numberOf 10 whole)
      return (n, rest)
  | [] =>
    let n ← integer? (if negative then -(numberOf 10 whole) else numberOf 10 whole)
    return (n, [])

/-- The infinity or the undefined number at the front of a text, after a sign. -/
def specialNumber (cs : List Char) : Option (Node × List Char) := do
  let (negative, rest) := readSign cs
  let sign : Float := if negative then -1.0 else 1.0
  match Json.afterWord "inf" rest with
  | some rest => return (.float (.ofFloat (sign / 0.0)), rest)
  | none =>
    let rest ← Json.afterWord "nan" rest
    return (.float (.ofFloat (sign * (0.0 / 0.0))), rest)

/-- So many digits at the front of a text, and the number that they spell. -/
def fixedDigits (count : Nat) (cs : List Char) : Option (Nat × List Char) :=
  let digits := cs.take count
  if digits.length = count ∧ digits.all Json.isDigit then some (numberOf 10 digits, cs.drop count)
  else none

/-- A text without the given character at its front. -/
def after? (mark : Char) : List Char → Option (List Char)
  | c :: rest => if c = mark then some rest else none
  | [] => none

/-- Whether February has a twenty-ninth day. -/
def isLeapYear (year : Nat) : Bool := year % 4 == 0 && (year % 100 != 0 || year % 400 == 0)

/-- How many days a month has. -/
def daysIn (year month : Nat) : Nat :=
  if month = 2 then if isLeapYear year then 29 else 28
  else if month ∈ [4, 6, 9, 11] then 30
  else 31

/-- A number with leading zeros. -/
def paddedDigits (width n : Nat) : String :=
  let digits := Nat.toDigits 10 n
  String.ofList (List.replicate (width - digits.length) '0' ++ digits)

/-- The day at the front of a text, in its usual spelling. -/
def readDay (cs : List Char) : Option (String × List Char) := do
  let (year, rest) ← fixedDigits 4 cs
  let (month, rest) ← fixedDigits 2 (← after? '-' rest)
  let (day, rest) ← fixedDigits 2 (← after? '-' rest)
  if 1 ≤ month ∧ month ≤ 12 ∧ 1 ≤ day ∧ day ≤ daysIn year month then
    return (paddedDigits 4 year ++ "-" ++ paddedDigits 2 month ++ "-" ++ paddedDigits 2 day, rest)
  else none

/-- The fraction of a second at the front of a text: nine places at most, without zeros at the
end. -/
def readFraction (cs : List Char) : String × List Char :=
  match cs with
  | '.' :: rest =>
    let digits := rest.takeWhile Json.isDigit
    if digits = [] then ("", cs)
    else
      let kept := ((digits.take 9).reverse.dropWhile (· == '0')).reverse
      (if kept = [] then "" else String.ofList ('.' :: kept), rest.dropWhile Json.isDigit)
  | _ => ("", cs)

/-- The time of day at the front of a text, in its usual spelling. -/
def readTime (cs : List Char) : Option (String × List Char) := do
  let (hour, rest) ← fixedDigits 2 cs
  let (minute, rest) ← fixedDigits 2 (← after? ':' rest)
  let (second, rest) ← fixedDigits 2 (← after? ':' rest)
  if hour < 24 ∧ minute < 60 ∧ second ≤ 60 then
    let (fraction, rest) := readFraction rest
    return (paddedDigits 2 hour ++ ":" ++ paddedDigits 2 minute ++ ":" ++ paddedDigits 2 second ++
      fraction, rest)
  else none

/-- The offset from universal time at the front of a text, in its usual spelling. -/
def readOffset (cs : List Char) : Option (String × List Char) :=
  match cs with
  | c :: rest =>
    if c = 'Z' ∨ c = 'z' then some ("Z", rest)
    else if c = '+' ∨ c = '-' then do
      let (hour, rest) ← fixedDigits 2 rest
      let (minute, rest) ← fixedDigits 2 (← after? ':' rest)
      if hour < 24 ∧ minute < 60 then
        let sign := if c = '-' ∧ (0 < hour ∨ 0 < minute) then "-" else "+"
        return (sign ++ paddedDigits 2 hour ++ ":" ++ paddedDigits 2 minute, rest)
      else none
    else some ("", cs)
  | [] => some ("", [])

/-- The time behind a day, with an offset, if there is one. -/
def timeAfterDay (cs : List Char) : Option (String × List Char) :=
  match cs with
  | c :: rest =>
    if c = 'T' ∨ c = 't' ∨ c = ' ' then do
      let (time, rest) ← readTime rest
      let (offset, rest) ← readOffset rest
      return ("T" ++ time ++ offset, rest)
    else none
  | [] => none

/-- The date at the front of a text. -/
def readDate (cs : List Char) : Option (Node × List Char) :=
  match readDay cs with
  | some (day, rest) =>
    match timeAfterDay rest with
    | some (time, rest) => some (.date (day ++ time), rest)
    | none => some (.date day, rest)
  | none => (readTime cs).map fun r => (.date r.1, r.2)

/-- The number or date at the front of a text. -/
def readNumber (cs : List Char) : Option (Node × List Char) :=
  match cs with
  | '0' :: 'x' :: rest => basedInteger 16 rest
  | '0' :: 'o' :: rest => basedInteger 8 rest
  | '0' :: 'b' :: rest => basedInteger 2 rest
  | _ =>
    match readDate cs with
    | some r => some r
    | none =>
      match specialNumber cs with
      | some r => some r
      | none => decimalNumber cs

end JobStaging.Toml
