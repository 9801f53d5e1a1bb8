import Lisplet.Value.Basic

/-!
Printing values.

Data is printed the way it is written in a source. Functions and objects are shown in angle brackets.
-/
namespace Lisplet

/-- A text between quotes. -/
def quoteText (text : String) : String :=
  String.ofList (Quoted.encode text.toList)

/-- The text of a key. -/
def Key.print : Key → String
  | .keyword name => ":" ++ name
  | .string text => quoteText text

/-- The text of an integer. -/
def printInt (n : Int64) : String :=
  let i := n.toInt
  if i < 0 then "-" ++ Nat.repr i.natAbs else Nat.repr i.natAbs

namespace Value

mutual

/-- The text of a value. -/
def print : Value → String
  | nil => "nil"
  | bool b => if b then "true" else "false"
  | int n => printInt n
  | double d => d.print
  | string text => quoteText text
  | keyword name => ":" ++ name
  | vector items => "[" ++ joinTexts " " (printAll items) ++ "]"
  | set items => "#\x7b" ++ joinTexts " " (printAll items) ++ "\x7d"
  | map entries => "\x7b" ++ joinTexts " " (printEntries entries) ++ "\x7d"
  | form f => f.print
  | var v => v.print
  | function _ callable => "#<fn " ++ callable.name ++ ">"
  | object o => "#<" ++ o.typeName ++ ">"

/-- The texts of values. -/
def printAll : List Value → List String
  | [] => []
  | item :: rest => item.print :: printAll rest

/-- The texts of entries, keys and values apart by a blank. -/
def printEntries : List (Key × Value) → List String
  | [] => []
  | (key, value) :: rest => (key.print ++ " " ++ value.print) :: printEntries rest

end

/-- The text that a value contributes to a longer text: strings without quotes, and nothing for `nil`. -/
def display : Value → String
  | nil => ""
  | string text => text
  | v => v.print

/-- The value as the key of a map. -/
def asKey : Value → Except Cause Key
  | keyword name => .ok (.keyword name)
  | string text => .ok (.string text)
  | v => .error (.badKey v.print)

/-- The entries that a map says of something: a keyword key keeps its colon. `nil` says nothing. -/
def asMetadata : Value → Except Cause (Metadata Value)
  | nil => .ok .empty
  | map entries =>
    .ok (entries.foldl (fun m entry =>
      match entry.1 with
      | .keyword name => m.insert (":" ++ name) entry.2
      | .string text => m.insert text entry.2) .empty)
  | v => .error (.unexpected "metadata map" v.typeName)

end Value

end Lisplet
