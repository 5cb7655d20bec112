import JobStaging.Decimal.Double

/-!
# The shortest decimal of a double

Among the decimals that round to a double, the one with the fewest digits; of several with that
many digits the one nearest to the double. On the grid of decimals with a given last place only
the two neighbours of the double need to be tried. All arithmetic is exact.
-/

set_option autoImplicit false

namespace JobStaging.Decimal

/-- The number `digits · 10^power`. -/
structure Scaled where
  digits : Nat
  power : Int
  deriving DecidableEq, Repr

/-- Compares `n · 10^i` with `m · 2^j`. -/
def compareScaled (n : Nat) (i : Int) (m : Nat) (j : Int) : Ordering :=
  compare (n * Nat.pow 10 i.toNat * Nat.pow 2 (-j).toNat)
    (m * Nat.pow 2 j.toNat * Nat.pow 10 (-i).toNat)

/-- Whether a decimal rounds to the size of a double. -/
def roundsTo (d : Double) (x : Scaled) : Bool :=
  let low := compareScaled x.digits x.power d.lowEnd (d.power - 2)
  let high := compareScaled x.digits x.power d.highEnd (d.power - 2)
  (low == .gt || (d.endsIncluded && low == .eq)) && (high == .lt || (d.endsIncluded && high == .eq))

/-- The number of decimal digits of a positive number. -/
def digitCount (n : Nat) : Nat := (Nat.toDigits 10 n).length

/-- The least power of ten above the fraction of two positive numbers. -/
def leadingPower (num den : Nat) : Int :=
  if den ≤ num then digitCount (num / den)
  else 1 - (digitCount ((den + num - 1) / num - 1) : Int)

/-- The decimal with a given last place next to a fraction that rounds to the double; if both
neighbours do, the nearer, and in the middle the even one. -/
def onGrid (d : Double) (num den : Nat) (place : Int) : Option Scaled :=
  let scaledNum := num * Nat.pow 10 (-place).toNat
  let scaledDen := den * Nat.pow 10 place.toNat
  let low := scaledNum / scaledDen
  let lowFits := roundsTo d ⟨low, place⟩
  let highFits := roundsTo d ⟨low + 1, place⟩
  if lowFits && highFits then
    let upper := match compare (2 * (scaledNum % scaledDen)) scaledDen with
      | .lt => false
      | .gt => true
      | .eq => low % 2 == 1
    some ⟨if upper then low + 1 else low, place⟩
  else if lowFits then some ⟨low, place⟩
  else if highFits then some ⟨low + 1, place⟩
  else none

/-- The digits without zeros at their end, which go into the power; tried so many times. -/
def stripZeros : Nat → Scaled → Scaled
  | 0, x => x
  | n + 1, x =>
    if x.digits ≠ 0 ∧ x.digits % 10 = 0 then stripZeros n ⟨x.digits / 10, x.power + 1⟩ else x

/-- The shortest decimal of the size of a finite double that is not zero. If no decimal of
seventeen digits rounded to it, the exact value would be taken. -/
def shortest (d : Double) : Scaled :=
  let num := d.mantissa * Nat.pow 2 d.power.toNat
  let den := Nat.pow 2 (-d.power).toNat
  let k := leadingPower num den
  let found := (List.range 17).findSome? fun n : Nat => onGrid d num den (k - (n + 1))
  let exact : Scaled := ⟨num * Nat.pow 5 (-d.power).toNat, min d.power 0⟩
  let x := found.getD exact
  stripZeros (digitCount x.digits) x

end JobStaging.Decimal
