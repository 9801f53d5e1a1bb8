import Lisplet.Double

/-!
The text of a double.

A double is written with the fewest decimal digits that read back as it, and of the numbers with that many digits
the nearest one; a tie goes up. The digits are always written out, without an exponent and without a fraction of zero.
-/
namespace Lisplet.Double

/-- A power of ten that makes every decimal digit which can matter a whole one. -/
def scale : Nat := Nat.pow 10 400

/-- Whether `x`, in quarters of a unit times `scale`, is nearer to `units` than to any other double. The ends of the
    interval count if the last binary digit of the double is even. -/
def readsBack (units x : Nat) : Bool :=
  let step := Nat.pow 2 (spacing units)
  let below := if spacing units > 0 ∧ units = Nat.pow 2 units.log2 then step else 2 * step
  let low := (4 * units - below) * scale
  let high := (4 * units + 2 * step) * scale
  if units / step % 2 = 0 then low ≤ x && x ≤ high else low < x && x < high

/-- The number with decimal exponent `exponent` that is nearest to `units` and reads back as it, if there is one. -/
def onGrid? (units : Nat) (exponent : Int) : Option Nat :=
  let value := 4 * units * scale
  let grid := 4 * one * Nat.pow 10 (exponent + 400).toNat
  let down := value / grid
  let downFits := readsBack units (down * grid)
  let upFits := readsBack units ((down + 1) * grid)
  if upFits && (!downFits || 2 * (value % grid) ≥ grid) then some (down + 1)
  else if downFits then some down
  else none

/-- The exponent of the first decimal digit of a number of units other than zero. -/
def decimalExponent (units : Nat) : Int :=
  (digitCount (units * scale / one) : Int) - 401

/-- The first of the exponents `exponent`, `exponent - 1`, … with a number that reads back. -/
def searchDigits (units : Nat) : (tries : Nat) → (exponent : Int) → Nat × Int
  | 0, exponent => (units * scale / (one * Nat.pow 10 (exponent + 400).toNat), exponent)
  | tries + 1, exponent =>
    match onGrid? units exponent with
    | some digits => (digits, exponent)
    | none => searchDigits units tries (exponent - 1)

/-- The shortest decimal `digits · 10 ^ exponent` that reads back as `units`. -/
def shortest (units : Nat) : Nat × Int :=
  searchDigits units 17 (decimalExponent units)

/-- The text without zeros at its end. -/
def dropTrailingZeros (cs : List Char) : List Char :=
  (cs.reverse.dropWhile (· == '0')).reverse

/-- The decimal `digits · 10 ^ exponent` written out. -/
def positional (digits : Nat) (exponent : Int) : List Char :=
  if 0 ≤ exponent then Nat.toDigits 10 (digits * Nat.pow 10 exponent.toNat)
  else
    let places := (-exponent).toNat
    let whole := digits / Nat.pow 10 places
    let part := Nat.toDigits 10 (digits % Nat.pow 10 places)
    let fraction := dropTrailingZeros (List.replicate (places - part.length) '0' ++ part)
    Nat.toDigits 10 whole ++ (if fraction.isEmpty then [] else '.' :: fraction)

/-- The text of a double. -/
def print (a : Double) : String :=
  let magnitude := if a.units = 0 then ['0'] else positional (shortest a.units).1 (shortest a.units).2
  String.ofList (if a.negative then '-' :: magnitude else magnitude)

end Lisplet.Double
