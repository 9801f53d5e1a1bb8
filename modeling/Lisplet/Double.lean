/-!
Finite double-precision numbers.

Every finite double is a whole multiple of 2⁻¹⁰⁷⁴, so it is kept as that multiple and a sign; zero has both signs. A
multiple is a double if it has at most 53 significant binary digits and is below 2²⁰⁹⁸. A number is rounded to the
nearest double, and to the one with an even last digit if two are equally near.
-/
namespace Lisplet

/-- A number `units · 2⁻¹⁰⁷⁴`, with a sign of its own. -/
structure Double where
  negative : Bool
  units : Nat
  deriving DecidableEq, Repr

namespace Double

/-- The number of units in one. -/
def one : Nat := Nat.pow 2 1074

/-- The first number of units that is too large. -/
def limit : Nat := Nat.pow 2 2098

/-- The quotient to the nearest whole number, a half to the even neighbour. -/
def roundDiv (num den : Nat) : Nat :=
  let q := num / den
  let r := num % den
  if 2 * r < den then q
  else if 2 * r > den then q + 1
  else if q % 2 = 0 then q else q + 1

/-- The number of binary digits of `n`. -/
def bitLength (n : Nat) : Nat :=
  if n = 0 then 0 else n.log2 + 1

/-- The exponent of the distance between neighbouring doubles around `units`. -/
def spacing (units : Nat) : Nat :=
  bitLength units - 53

/-- The multiple of a unit nearest to `num / den` units among those with at most 53 binary digits. -/
def roundUnits (num den : Nat) : Nat :=
  let step := Nat.pow 2 (spacing (num / den))
  roundDiv num (den * step) * step

/-- The number of decimal digits of `n`, one for zero. -/
def digitCount (n : Nat) : Nat :=
  (Nat.toDigits 10 n).length

/-! ### Arithmetic

Magnitudes are given in units here. They have no largest one: a result from `limit` on is beyond all doubles. -/

/-- The magnitude nearest to a whole number. -/
def ofNat (n : Nat) : Nat :=
  roundUnits (n * one) 1

/-- The magnitude nearest to a product. -/
def times (a b : Nat) : Nat :=
  roundUnits (a * b) one

/-- The magnitude nearest to a quotient. -/
def dividedBy (a b : Nat) : Nat :=
  roundUnits (a * one) b

/-- The exponent of the largest power of ten below all that is beyond the doubles. -/
def maxPower : Nat := 308

/-- The quotient by that power of ten, again and again, until that was done `count` times or nothing is left. -/
def lower : (count : Nat) → Nat → Nat
  | 0, units => units
  | count + 1, units => if units = 0 then 0 else lower count (dividedBy units (ofNat (Nat.pow 10 maxPower)))

/-- The double that `significand · 10 ^ exponent` is read as: the significand and the power of ten are rounded first,
    and then their product or quotient. A power that is too small to be divided by is taken in parts; none is beyond the
    doubles but for zero. -/
def ofParts? (negative : Bool) (significand : Nat) (exponent : Int) : Option Double :=
  let units := ofNat significand
  if exponent < 0 then
    let n := (-exponent).toNat - 1
    some ⟨negative, dividedBy (lower (n / maxPower) units) (ofNat (Nat.pow 10 (n % maxPower + 1)))⟩
  else if units = 0 then some ⟨negative, 0⟩
  else if exponent > maxPower then none
  else
    let product := times units (ofNat (Nat.pow 10 exponent.toNat))
    if product < limit then some ⟨negative, product⟩ else none

/-- The double nearest to an integer of 64 bits. -/
def ofInt (n : Int) : Double :=
  ⟨n < 0, ofNat n.natAbs⟩

/-! ### Comparison and whole parts -/

/-- Equality of numbers: the two zeros are equal. -/
def sameNumber (a b : Double) : Bool :=
  a.units == b.units && (a.units == 0 || a.negative == b.negative)

/-- Whether the number is whole. -/
def isWhole (a : Double) : Bool :=
  a.units % one == 0

/-- The whole part, toward zero. -/
def toInt (a : Double) : Int :=
  let n : Int := ((a.units / one : Nat) : Int)
  if a.negative then -n else n

end Double

end Lisplet
