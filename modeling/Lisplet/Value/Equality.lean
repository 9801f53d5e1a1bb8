import Lisplet.Value.Basic

/-!
Equality of values.

Data is equal if its parts are. An integer is equal to a float if the float is the double nearest to it. Sets are
equal if they have equally many items and the right one has an equal item for each item of the left one. Forms, vars,
functions and objects are equal to themselves only.

For sets it matters which side a value stands on, so the recursion carries it along: `same false x y` asks whether `x`
equals `y`, and `same true x y` whether `y` equals `x`.
-/
namespace Lisplet.Value

mutual

/-- Whether the left of two values equals the right one; `x` is the left one unless they are `swapped`. -/
def same (swapped : Bool) : (x y : Value) → Bool
  | nil, nil => true
  | bool a, bool b => a == b
  | int a, int b => a == b
  | double a, double b => a.sameNumber b
  | int a, double b => (Double.ofInt a.toInt).sameNumber b
  | double a, int b => (Double.ofInt b.toInt).sameNumber a
  | string a, string b => a == b
  | keyword a, keyword b => a == b
  | vector xs, vector ys => sameAll swapped xs ys
  | set xs, set ys =>
    xs.length == ys.length && (if swapped then ys.all (fun y => anySame false xs y) else eachIn true xs ys)
  | map xs, map ys => sameEntries swapped xs ys
  | form a, form b => a.id == b.id
  | var a, var b => a.index == b.index
  | function a _, function b _ => a == b
  | object a, object b => a.identity == b.identity
  | _, _ => false

/-- Whether two lists are equal, item by item. -/
def sameAll (swapped : Bool) : (xs ys : List Value) → Bool
  | [], [] => true
  | x :: xs, y :: ys => same swapped x y && sameAll swapped xs ys
  | _, _ => false

/-- Whether some item of `xs` is the same as `y`. -/
def anySame (swapped : Bool) : (xs : List Value) → (y : Value) → Bool
  | [], _ => false
  | x :: xs, y => same swapped x y || anySame swapped xs y

/-- Whether each item of `xs` is the same as some item of `ys`. -/
def eachIn (swapped : Bool) : (xs ys : List Value) → Bool
  | [], _ => true
  | x :: xs, ys => ys.any (fun y => same swapped x y) && eachIn swapped xs ys

/-- Whether two lists have the same keys with equal values. -/
def sameEntries (swapped : Bool) : (xs ys : List (Key × Value)) → Bool
  | [], [] => true
  | (k, x) :: xs, (l, y) :: ys => k == l && same swapped x y && sameEntries swapped xs ys
  | _, _ => false

end

/-- Whether `x` equals `y`. -/
def equals (x y : Value) : Bool :=
  same false x y

instance : BEq Value := ⟨equals⟩

/-- Whether some item equals `v`. -/
def contains (items : List Value) (v : Value) : Bool :=
  items.any (fun item => item.equals v)

/-- The position of the first item that equals `v`. -/
def position? (items : List Value) (v : Value) : Option Nat :=
  items.findIdx? (fun item => item.equals v)

/-- Adds to `kept` those values that equal nothing kept before them. -/
def distinctOnto (kept : List Value) : List Value → List Value
  | [] => kept
  | v :: rest => if contains kept v then distinctOnto kept rest else distinctOnto (kept ++ [v]) rest

/-- The set of the given values: the first of equal ones is kept. -/
def ofItems (values : List Value) : Value :=
  set (distinctOnto [] values)

end Lisplet.Value
