import Lisplet.Double
import Lisplet.Text.Quoted

/-!
The meaning of literals.

Numbers follow the grammar of JSON numbers: no superfluous leading zero, and digits on both sides of a point. An
integer of 64 bits is exact. Every other number is read as a double, which is near to it but not always the nearest: of
its digits only those count that fit into a significand of 64 bits, and the significand is rounded before it is
multiplied or divided by a power of ten. A number is refused if the product is beyond the doubles. Strings are JSON
strings in which line breaks and tabs may stand for themselves.
-/
namespace Lisplet.Literal

/-- A number of a script. -/
inductive Number where
  | int (n : Int64)
  | double (d : Double)
  deriving DecidableEq, Repr

/-- The value of decimal digits. -/
def ofDigits (cs : List Char) : Nat :=
  cs.foldl (fun n c => n * 10 + (c.toNat - 48)) 0

/-- `n` as an integer of 64 bits, if it is one. -/
def int64? (n : Int) : Option Int64 :=
  if Int64.minValue.toInt ≤ n ∧ n ≤ Int64.maxValue.toInt then some (Int64.ofInt n) else none

/-- An optional minus sign, and what follows it. -/
def takeSign : List Char → Bool × List Char
  | '-' :: rest => (true, rest)
  | cs => (false, cs)

/-- Digits and what follows them. There must be a digit, and no superfluous zero at the start. -/
def takeWhole? (cs : List Char) : Option (List Char × List Char) :=
  match cs.takeWhile Char.isDigit with
  | [] => none
  | '0' :: _ :: _ => none
  | digits => some (digits, cs.dropWhile Char.isDigit)

/-- An optional point with digits after it, and what follows. -/
def takeFraction? : List Char → Option (List Char × List Char)
  | '.' :: cs =>
    match cs.takeWhile Char.isDigit with
    | [] => none
    | digits => some (digits, cs.dropWhile Char.isDigit)
  | cs => some ([], cs)

/-- Digits up to the end of the text. -/
def allDigits? (cs : List Char) : Option Nat :=
  if !cs.isEmpty && cs.all Char.isDigit then some (ofDigits cs) else none

/-- An optional exponent, up to the end of the text; zero if there is none. -/
def exponent? : List Char → Option Int
  | [] => some 0
  | e :: cs =>
    if e = 'e' ∨ e = 'E' then
      match cs with
      | '+' :: digits => (allDigits? digits).map fun n => (n : Int)
      | '-' :: digits => (allDigits? digits).map fun n => -(n : Int)
      | digits => (allDigits? digits).map fun n => (n : Int)
    else none

/-- Takes digits into a significand as long as it stays within 64 bits; gives it and the digits that are left. -/
def absorb (significand : Nat) : List Char → Nat × List Char
  | [] => (significand, [])
  | c :: rest =>
    let next := significand * 10 + (c.toNat - 48)
    if next < 18446744073709551616 then absorb next rest else (significand, c :: rest)

/-- The double that a decimal is read as. A digit of the whole part that is left over raises the exponent, and a digit
    of the fraction that is taken lowers it. -/
def toDouble? (negative : Bool) (whole fraction : List Char) (exponent : Int) : Option Double :=
  let (significand, dropped) := absorb 0 whole
  let (significand, rest) := absorb significand fraction
  Double.ofParts? negative significand (exponent + dropped.length - (fraction.length - rest.length))

/-- The number with sign `negative` and decimal digits `whole`, without fraction and exponent. -/
def ofWhole? (negative : Bool) (whole : List Char) : Option Number :=
  let n := ofDigits whole
  let value : Int := if negative then -(n : Int) else n
  if negative ∧ n = 0 then some (.double ⟨true, 0⟩)
  else
    match int64? value with
    | some i => some (.int i)
    | none => (toDouble? negative whole [] 0).map .double

/-- Reads a decimal number. -/
def number? (text : String) : Option Number := do
  let (negative, cs) := takeSign (Quoted.trimJson text.toList)
  let (whole, rest) ← takeWhole? cs
  if rest.isEmpty then ofWhole? negative whole
  else
    let (fraction, rest) ← takeFraction? rest
    let exponent ← exponent? rest
    (toDouble? negative whole fraction exponent).map .double

/-- The value of hexadecimal digits; there must be one. -/
def hexDigits? (cs : List Char) : Option Nat :=
  if cs.isEmpty then none
  else cs.foldlM (fun n c => (Quoted.hexValue? c).map (n * 16 + ·)) 0

/-- Reads a hexadecimal integer of 64 bits after its `0x`, with an optional sign. -/
def hexBody? : List Char → Option Int64
  | '-' :: cs => (hexDigits? cs).bind fun n => int64? (-(n : Int))
  | '+' :: cs => (hexDigits? cs).bind fun n => int64? n
  | cs => (hexDigits? cs).bind fun n => int64? n

/-- Reads a hexadecimal integer. -/
def hex? (text : String) : Option Int64 :=
  match text.toList with
  | '0' :: 'x' :: cs | '0' :: 'X' :: cs => hexBody? cs
  | _ => none

/-- Writes a line break or a tab as its escape. -/
def escapeBreak (c : Char) : List Char :=
  match c with
  | '\n' => ['\\', 'n']
  | '\r' => ['\\', 'r']
  | '\t' => ['\\', 't']
  | c => [c]

/-- Reads a string literal, quotes included. -/
def string? (text : String) : Option String :=
  (Quoted.decode? (text.toList.flatMap escapeBreak)).map String.ofList

end Lisplet.Literal
