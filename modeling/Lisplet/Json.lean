import Lisplet.Text.Quoted

/-!
JSON texts, as far as settings need them.

A text is cut into tokens, and values that mean nothing to the reader can be skipped. What is skipped must be JSON
too, but is not interpreted: a number may be of any size.
-/
namespace Lisplet.Json

/-- A token of a JSON text. -/
inductive Token where
  | openBrace | closeBrace | openBracket | closeBracket | colon | comma
  /-- A string, and the text it stands for unless an escape names half a character. -/
  | string (text : Option String)
  | bool (b : Bool)
  | null
  | number
  deriving DecidableEq, Repr

/-- The length of a string after its opening quote, the closing quote included. -/
def stringLength? : List Char → Option Nat
  | [] => none
  | '"' :: _ => some 1
  | '\\' :: 'u' :: a :: b :: c :: d :: rest =>
    if (Quoted.hexWord? a b c d).isSome then (stringLength? rest).map (· + 6) else none
  | '\\' :: c :: rest => if (Quoted.letter? c).isSome then (stringLength? rest).map (· + 2) else none
  | c :: rest => if c.toNat < 32 ∨ c = '\\' then none else (stringLength? rest).map (· + 1)

/-- The number of digits at the start of a text, if there is one. -/
def digits? (cs : List Char) : Option Nat :=
  match (cs.takeWhile Char.isDigit).length with
  | 0 => none
  | n => some n

/-- The length of the whole part of a number, which has no superfluous zero. -/
def wholeLength? (cs : List Char) : Option Nat :=
  match cs with
  | '0' :: c :: _ => if c.isDigit then none else some 1
  | cs => digits? cs

/-- The length of a fraction: none at all, or a point and digits. -/
def fractionLength? : List Char → Option Nat
  | '.' :: cs => (digits? cs).map (· + 1)
  | _ => some 0

/-- The length of an exponent: none at all, or its letter, an optional sign and digits. -/
def exponentLength? : List Char → Option Nat
  | c :: cs =>
    if c = 'e' ∨ c = 'E' then
      match cs with
      | '+' :: ds | '-' :: ds => (digits? ds).map (· + 2)
      | ds => (digits? ds).map (· + 1)
    else some 0
  | [] => some 0

/-- The length of an unsigned number. -/
def numberLength? (cs : List Char) : Option Nat := do
  let whole ← wholeLength? cs
  let fraction ← fractionLength? (cs.drop whole)
  let exponent ← exponentLength? (cs.drop (whole + fraction))
  return whole + fraction + exponent

/-- A word with the given letters after its first one. -/
def word? (token : Token) (letters : String) (cs : List Char) : Option (Option Token × Nat) :=
  if letters.toList.isPrefixOf cs then some (some token, letters.length) else none

/-- The token that starts at `c`, before `cs`, and how many characters of `cs` belong to it. Blanks give none. -/
def first? (c : Char) (cs : List Char) : Option (Option Token × Nat) :=
  match c with
  | '\x7b' => some (some .openBrace, 0)
  | '\x7d' => some (some .closeBrace, 0)
  | '[' => some (some .openBracket, 0)
  | ']' => some (some .closeBracket, 0)
  | ':' => some (some .colon, 0)
  | ',' => some (some .comma, 0)
  | '"' =>
    (stringLength? cs).map fun n =>
      (some (.string ((Quoted.decodeBody cs).map fun read => String.ofList read.1)), n)
  | 't' => word? (.bool true) "rue" cs
  | 'f' => word? (.bool false) "alse" cs
  | 'n' => word? .null "ull" cs
  | '-' => (numberLength? cs).map fun n => (some .number, n)
  | c =>
    if c.isDigit then (numberLength? (c :: cs)).map fun n => (some .number, n - 1)
    else if Quoted.isJsonBlank c then some (none, 0)
    else none

/-- The tokens of `cs`, whose first `skip` characters still belong to the token before them. -/
def tokensFrom? : (skip : Nat) → List Char → Option (List Token)
  | _, [] => some []
  | skip + 1, _ :: cs => tokensFrom? skip cs
  | 0, c :: cs =>
    match first? c cs with
    | some (some token, length) => (tokensFrom? length cs).map (token :: ·)
    | some (none, length) => tokensFrom? length cs
    | none => none

/-- The tokens of a text, if it has no other parts. -/
def tokens? (text : String) : Option (List Token) :=
  tokensFrom? 0 text.toList

/-- The two kinds of values with parts. -/
inductive Container where
  | object | array
  deriving DecidableEq, Repr

/-- What may stand next in a value. -/
inductive Expect where
  /-- A value. -/
  | value
  /-- A value, or the end of an empty array. -/
  | item
  /-- A name, or the end of an empty object. -/
  | name
  /-- A name. -/
  | nextName
  | colon
  /-- A comma, or the end of the innermost container. -/
  | separator
  deriving DecidableEq, Repr

/-- Skips a value of which the containers `inside` are still open, innermost first. -/
def skipFrom? : (inside : List Container) → Expect → List Token → Option (List Token)
  | _, _, [] => none
  | inside, expect, token :: rest =>
    let finish (outer : List Container) : Option (List Token) :=
      if outer.isEmpty then some rest else skipFrom? outer .separator rest
    match expect, token, inside with
    | .item, .closeBracket, .array :: outer => finish outer
    | .name, .closeBrace, .object :: outer => finish outer
    | .separator, .closeBracket, .array :: outer => finish outer
    | .separator, .closeBrace, .object :: outer => finish outer
    | .separator, .comma, .array :: _ => skipFrom? inside .value rest
    | .separator, .comma, .object :: _ => skipFrom? inside .nextName rest
    | .name, .string _, _ => skipFrom? inside .colon rest
    | .nextName, .string _, _ => skipFrom? inside .colon rest
    | .colon, .colon, _ => skipFrom? inside .value rest
    | .value, token, _ | .item, token, _ =>
      match token with
      | .openBracket => skipFrom? (.array :: inside) .item rest
      | .openBrace => skipFrom? (.object :: inside) .name rest
      | .string _ | .bool _ | .null | .number => finish inside
      | _ => none
    | _, _, _ => none

/-- What follows the value at the start of the tokens. -/
def skipValue? (tokens : List Token) : Option (List Token) :=
  skipFrom? [] .value tokens

end Lisplet.Json
