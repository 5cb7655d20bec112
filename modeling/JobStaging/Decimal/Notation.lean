import JobStaging.Decimal.Shortest

/-!
# Decimal notation

The text of a number in decimal digits: in place if its leading digit stands near the point, else
with an exponent. Where the one notation ends and the other begins is a `Notation` value.
-/

set_option autoImplicit false

namespace JobStaging.Decimal

/-- Which numbers are written in place: those whose leading digit has a power of ten from `least`
to `greatest`. -/
structure Notation where
  least : Int
  greatest : Int
  deriving DecidableEq, Repr

/-- The digits of a number in base ten. -/
def digitsOf (n : Nat) : List Char := Nat.toDigits 10 n

/-- Digits with the point after so many of them, with zeros where digits are wanting. -/
def inPlace (digits : List Char) (before : Int) : List Char :=
  if before ≤ 0 then ['0', '.'] ++ List.replicate (-before).toNat '0' ++ digits
  else if (digits.length : Int) ≤ before then
    digits ++ List.replicate (before.toNat - digits.length) '0' ++ ['.', '0']
  else digits.take before.toNat ++ '.' :: digits.drop before.toNat

/-- Digits with the point after the first and the exponent behind, always with its sign. -/
def withExponent (digits : List Char) (exponent : Int) : List Char :=
  let body := match digits with
    | [] => []
    | [one] => [one]
    | first :: rest => first :: '.' :: rest
  body ++ 'e' :: (if exponent < 0 then '-' else '+') :: digitsOf exponent.natAbs

/-- The text of a decimal. -/
def Notation.layout (style : Notation) (x : Scaled) : List Char :=
  let digits := digitsOf x.digits
  let exponent := x.power + digits.length - 1
  if style.least ≤ exponent ∧ exponent ≤ style.greatest then
    inPlace digits (exponent + 1)
  else withExponent digits exponent

/-- The text of a finite double: zero as `0.0`, every other by its shortest decimal. -/
def Notation.render (style : Notation) (d : Double) : String :=
  let size := if d.mantissa = 0 then ['0', '.', '0'] else style.layout (shortest d)
  String.ofList (if d.isNegative then '-' :: size else size)

end JobStaging.Decimal
