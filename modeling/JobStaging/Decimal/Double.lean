/-!
# Doubles

A double is kept as its sixty-four bits. A finite one has a sign and the size `m · 2^q` for two
whole numbers; the reals that round to it lie between the points halfway to its neighbours, the
two ends included exactly when `m` is even.
-/

set_option autoImplicit false

namespace JobStaging.Decimal

/-- A floating point number of sixty-four bits. -/
structure Double where
  bits : UInt64
  deriving DecidableEq, Repr, Inhabited

namespace Double

/-- The double of a computed value. -/
def ofFloat (x : Float) : Double := ⟨x.toBits⟩

/-- Whether the sign bit is set; it also is for the negative zero. -/
def isNegative (d : Double) : Bool := d.bits >>> 63 != 0

/-- The field of the exponent. -/
def exponentField (d : Double) : Nat := ((d.bits >>> 52) &&& 0x7FF).toNat

/-- The field of the fraction. -/
def fractionField (d : Double) : Nat := (d.bits &&& 0xFFFFFFFFFFFFF).toNat

/-- The whole number `m` of the size `m · 2^q`. -/
def mantissa (d : Double) : Nat :=
  if d.exponentField = 0 then d.fractionField else 1 <<< 52 + d.fractionField

/-- The power `q` of the size `m · 2^q`. -/
def power (d : Double) : Int :=
  if d.exponentField = 0 then -1074 else (d.exponentField : Int) - 1075

/-- Whether the neighbour below is only half as far away as the one above: so it is at the powers
of two, the least one with a full mantissa excepted. -/
def narrowBelow (d : Double) : Bool := d.fractionField == 0 && 1 < d.exponentField

/-- The lower end of the reals that round to a double, in units of `2^(q-2)`. -/
def lowEnd (d : Double) : Nat := 4 * d.mantissa - if d.narrowBelow then 1 else 2

/-- The upper end of the reals that round to a double, in units of `2^(q-2)`. -/
def highEnd (d : Double) : Nat := 4 * d.mantissa + 2

/-- Whether the ends themselves round to the double. -/
def endsIncluded (d : Double) : Bool := d.mantissa % 2 == 0

end Double

end JobStaging.Decimal
