import JobStaging.Decimal.Double

/-!
# Doubles from decimal texts

A decimal number is read as a whole number of at most sixty-four bits and a power of ten: digits of
the whole part that no longer fit are counted into the power, digits of the fraction that no longer
fit are dropped. The double is the whole number, rounded, times or divided by the power of ten, in
at most two steps of 308 places each; whatever is smaller still is zero.
-/

set_option autoImplicit false

namespace JobStaging.Decimal

/-- A whole number and a power of ten, as they are gathered from the digits of a text. -/
structure Gathered where
  significand : UInt64
  exponent : Int
  deriving DecidableEq, Repr

/-- The significand with one more digit, if it still fits. -/
def appendDigit? (significand : UInt64) (digit : Nat) : Option UInt64 :=
  let n := significand.toNat * 10 + digit
  if n < UInt64.size then some (UInt64.ofNat n) else none

/-- The value of a decimal digit. -/
def digitValue (c : Char) : Nat := c.toNat - 48

/-- Reads the digits before the point. After the first that does not fit, each counts as a place. -/
def gatherWhole : List Char → Gathered → Gathered
  | [], g => g
  | c :: cs, g =>
    if g.exponent = 0 then
      match appendDigit? g.significand (digitValue c) with
      | some n => gatherWhole cs ⟨n, 0⟩
      | none => gatherWhole cs ⟨g.significand, 1⟩
    else gatherWhole cs ⟨g.significand, g.exponent + 1⟩

/-- Reads the digits after the point, up to the first that does not fit. -/
def gatherFraction : List Char → Gathered → Gathered
  | [], g => g
  | c :: cs, g =>
    match appendDigit? g.significand (digitValue c) with
    | some n => gatherFraction cs ⟨n, g.exponent - 1⟩
    | none => g

/-- A power of ten of at most 308 places. -/
def tenTo (n : Nat) : Float := Float.ofScientific 1 false n

/-- Multiplies or divides a size below `2^65` by a power of ten. Nothing comes of a number too large
for a double. -/
def scaleBy (x : Float) (exponent : Int) : Option Float :=
  if 0 ≤ exponent then
    if exponent ≤ 308 then
      let y := x * tenTo exponent.toNat
      if y.isInf then none else some y
    else if x == 0.0 then some x else none
  else if -308 ≤ exponent then some (x / tenTo (-exponent).toNat)
  else if -616 ≤ exponent then some (x / tenTo 308 / tenTo (-exponent - 308).toNat)
  else some 0.0

/-- The double of the gathered digits with the sign of the text. -/
def Gathered.toDouble? (g : Gathered) (negative : Bool) : Option Double :=
  (scaleBy g.significand.toFloat g.exponent).map fun x =>
    Double.ofFloat (if negative then -x else x)

end JobStaging.Decimal
