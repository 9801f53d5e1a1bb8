/-!
Quoted text.

A text is written between double quotes. Quotes, backslashes and control characters are escaped, everything else
stands for itself. Reading accepts every escape of a JSON string: a few letters, and four hexadecimal digits, of which
two may together name a character beyond the first plane.
-/
namespace Lisplet.Quoted

/-- A hexadecimal digit, in lower case. -/
def hexDigit (n : Nat) : Char :=
  if n < 10 then Char.ofNat (48 + n) else Char.ofNat (87 + n)

/-- What is written for a character. -/
def escape (c : Char) : List Char :=
  match c with
  | '"' => ['\\', '"']
  | '\\' => ['\\', '\\']
  | '\x08' => ['\\', 'b']
  | '\x0c' => ['\\', 'f']
  | '\n' => ['\\', 'n']
  | '\r' => ['\\', 'r']
  | '\t' => ['\\', 't']
  | c => if c.toNat < 32 then ['\\', 'u', '0', '0', hexDigit (c.toNat / 16), hexDigit (c.toNat % 16)] else [c]

/-- The quoted form of a text. -/
def encode (cs : List Char) : List Char :=
  '"' :: (cs.flatMap escape ++ ['"'])

/-- The value of a hexadecimal digit, in either case. -/
def hexValue? (c : Char) : Option Nat :=
  let n := c.toNat
  if 48 ≤ n ∧ n ≤ 57 then some (n - 48)
  else if 97 ≤ n ∧ n ≤ 102 then some (n - 87)
  else if 65 ≤ n ∧ n ≤ 70 then some (n - 55)
  else none

/-- The value of four hexadecimal digits. -/
def hexWord? (a b c d : Char) : Option Nat := do
  return (((← hexValue? a) * 16 + (← hexValue? b)) * 16 + (← hexValue? c)) * 16 + (← hexValue? d)

/-- The character that a letter after a backslash stands for. -/
def letter? (c : Char) : Option Char :=
  match c with
  | '"' => some '"'
  | '\\' => some '\\'
  | '/' => some '/'
  | 'b' => some '\x08'
  | 'f' => some '\x0c'
  | 'n' => some '\n'
  | 'r' => some '\r'
  | 't' => some '\t'
  | _ => none

/-- The first of two words that name a character together. -/
def isHighSurrogate (n : Nat) : Bool :=
  0xD800 ≤ n && n ≤ 0xDBFF

/-- The second of two words that name a character together. -/
def isLowSurrogate (n : Nat) : Bool :=
  0xDC00 ≤ n && n ≤ 0xDFFF

/-- The character named by two words. -/
def ofSurrogates (high low : Nat) : Char :=
  Char.ofNat (0x10000 + (high - 0xD800) * 0x400 + (low - 0xDC00))

/-- Puts a character before a text that was read. -/
def before (c : Char) (read : Option (List Char × List Char)) : Option (List Char × List Char) :=
  read.map fun (text, rest) => (c :: text, rest)

/-- Reads up to the closing quote: the text, and what follows the quote. -/
def decodeBody : List Char → Option (List Char × List Char)
  | [] => none
  | '"' :: rest => some ([], rest)
  | '\\' :: 'u' :: a :: b :: c :: d :: rest =>
    match hexWord? a b c d with
    | none => none
    | some n =>
      if isLowSurrogate n then none
      else if isHighSurrogate n then
        match rest with
        | '\\' :: 'u' :: a' :: b' :: c' :: d' :: rest' =>
          match hexWord? a' b' c' d' with
          | none => none
          | some m => if isLowSurrogate m then before (ofSurrogates n m) (decodeBody rest') else none
        | _ => none
      else before (Char.ofNat n) (decodeBody rest)
  | '\\' :: c :: rest =>
    match letter? c with
    | none => none
    | some x => before x (decodeBody rest)
  | c :: rest => if c.toNat < 32 ∨ c = '\\' then none else before c (decodeBody rest)

/-- The blanks that may stand around a JSON value. -/
def isJsonBlank (c : Char) : Bool :=
  c == ' ' || c == '\n' || c == '\t' || c == '\r'

/-- The text without the blanks around it. -/
def trimJson (cs : List Char) : List Char :=
  ((cs.dropWhile isJsonBlank).reverse.dropWhile isJsonBlank).reverse

/-- Reads a quoted text that may have blanks around it. -/
def decode? (cs : List Char) : Option (List Char) :=
  match cs.dropWhile isJsonBlank with
  | '"' :: rest =>
    match decodeBody rest with
    | some (text, rest) => if rest.all isJsonBlank then some text else none
    | none => none
  | _ => none

end Lisplet.Quoted
