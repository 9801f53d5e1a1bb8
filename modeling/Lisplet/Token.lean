import Lisplet.Text.Blank

/-!
Tokens of the source text.

The tokens of a source tile it: every character belongs to exactly one token, blanks and comments included. Which
token starts at a character is decided by that character and what follows it, so `Token.all` is one pass over the
text. A malformed stretch is a token too, of kind `syntaxError`, or `restSyntaxError` for a string literal that never
ends.
-/
namespace Lisplet

/-- What a stretch of source text is read as. -/
inductive TreeKind where
  | document
  | list | vector | map | set | lambda
  | symbol | keyword | string | number | negNumber | hexLiteral | paramName
  | quote | backtick | unquote | unquoteSplicing | deref | varQuote | tag | discard
  | comment | syntaxError | restSyntaxError
  deriving DecidableEq, Repr, Inhabited

namespace TreeKind

/-- All kinds, in the order of their declaration. -/
def all : List TreeKind :=
  [document, list, vector, map, set, lambda, symbol, keyword, string, number, negNumber, hexLiteral, paramName,
    quote, backtick, unquote, unquoteSplicing, deref, varQuote, tag, discard, comment, syntaxError, restSyntaxError]

/-- The name a kind is written with. -/
def name : TreeKind → String
  | document => "Document"
  | list => "List"
  | vector => "Vector"
  | map => "Map"
  | set => "Set"
  | lambda => "Lambda"
  | symbol => "Symbol"
  | keyword => "Keyword"
  | string => "String"
  | number => "Number"
  | negNumber => "NegNumber"
  | hexLiteral => "HexLiteral"
  | paramName => "ParamName"
  | quote => "Quote"
  | backtick => "Backtick"
  | unquote => "Unquote"
  | unquoteSplicing => "UnquoteSplicing"
  | deref => "Deref"
  | varQuote => "VarQuote"
  | tag => "Tag"
  | discard => "Discard"
  | comment => "Comment"
  | syntaxError => "SyntaxError"
  | restSyntaxError => "RestSyntaxError"

/-- The kind written `text`, if there is one. -/
def ofName? (text : String) : Option TreeKind :=
  all.find? (·.name == text)

/-- Kinds that carry no meaning: comments and discarded forms. -/
def isTrivia (kind : TreeKind) : Bool :=
  kind == discard || kind == comment

/-- Kinds of malformed text. -/
def isError (kind : TreeKind) : Bool :=
  kind == syntaxError || kind == restSyntaxError

end TreeKind

/-- The three pairs of brackets, told apart by how they close. -/
inductive Bracket where
  | round | square | curly
  deriving DecidableEq, Repr

/-- What a token contributes to the tree. -/
inductive Lexeme where
  /-- Blank characters. -/
  | blank
  /-- A comment, up to the end of its line. -/
  | comment
  /-- The start of a collection of the given kind, and the bracket that ends it. -/
  | opening (kind : TreeKind) (closer : Bracket)
  /-- A closing bracket. -/
  | closing (bracket : Bracket)
  /-- A reader mark that stands before one form and `more` after it. -/
  | mark (kind : TreeKind) (more : Nat)
  /-- A form without parts, or a malformed stretch of text. -/
  | leaf (kind : TreeKind)
  deriving DecidableEq, Repr

/-- A lexeme and the half-open span of source characters it was read from. -/
structure Token where
  lexeme : Lexeme
  start : Nat
  stop : Nat
  deriving DecidableEq, Repr

/-- Characters that end a symbol and are no part of one. -/
def isDelimiter (c : Char) : Bool :=
  "()[]\x7b\x7d\"';@^\x60~\\".toList.contains c

/-- Characters that symbols, keywords and parameter names are made of. -/
def isSymbolChar (c : Char) : Bool :=
  c != '\x00' && !isBlank c && !isDelimiter c

/-- A hexadecimal digit, in either case. -/
def isHexDigit (c : Char) : Bool :=
  c.isDigit || ('a' ≤ c && c ≤ 'f') || ('A' ≤ c && c ≤ 'F')

/-- The number of leading characters with property `p`. -/
def runLength (p : Char → Bool) (cs : List Char) : Nat :=
  (cs.takeWhile p).length

/-- How many characters after its opening quote a string literal takes, the closing quote included; a backslash takes
    the character after it along. There is none if the text ends first. -/
def stringLength? : List Char → Option Nat
  | [] => none
  | '"' :: _ => some 1
  | '\\' :: [] => none
  | '\\' :: _ :: cs => (stringLength? cs).map (· + 2)
  | _ :: cs => (stringLength? cs).map (· + 1)

/-- The length of a decimal fraction: a point and at least one digit. -/
def fractionLength : List Char → Nat
  | '.' :: cs => if runLength Char.isDigit cs = 0 then 0 else runLength Char.isDigit cs + 1
  | _ => 0

/-- The length of the digits of an exponent, which a sign may precede. -/
def exponentDigitsLength : List Char → Nat
  | [] => 0
  | c :: cs =>
    if c = '+' ∨ c = '-' then
      if runLength Char.isDigit cs = 0 then 0 else runLength Char.isDigit cs + 1
    else runLength Char.isDigit (c :: cs)

/-- The length of a decimal exponent: its letter, an optional sign and at least one digit. -/
def exponentLength : List Char → Nat
  | [] => 0
  | c :: cs =>
    if c = 'e' ∨ c = 'E' then
      if exponentDigitsLength cs = 0 then 0 else exponentDigitsLength cs + 1
    else 0

/-- The length of an unsigned number: digits, then a fraction and an exponent if there are any. -/
def numberLength (cs : List Char) : Nat :=
  let digits := runLength Char.isDigit cs
  let fraction := fractionLength (cs.drop digits)
  digits + fraction + exponentLength (cs.drop (digits + fraction))

namespace Lexeme

/-- A number of `length` characters in `cs`; symbol characters glued to it spoil it and are taken along. -/
def unglued (kind : TreeKind) (length : Nat) (cs : List Char) : Lexeme × Nat :=
  let glued := runLength isSymbolChar (cs.drop length)
  if glued = 0 then (leaf kind, length) else (leaf .syntaxError, length + glued)

/-- What a hash sign followed by `cs` starts. -/
def ofHash : List Char → Lexeme × Nat
  | '\x7b' :: _ => (opening .set .curly, 1)
  | '(' :: _ => (opening .lambda .round, 1)
  | '\'' :: _ => (mark .varQuote 0, 1)
  | '_' :: _ => (mark .discard 0, 1)
  | cs => (leaf .syntaxError, runLength isSymbolChar cs)

/-- What a tilde followed by `cs` starts. -/
def ofTilde : List Char → Lexeme × Nat
  | '@' :: _ => (mark .unquoteSplicing 0, 1)
  | _ => (mark .unquote 0, 0)

/-- A string literal whose opening quote stands before `cs`; one that never ends takes all the rest. -/
def ofQuote (cs : List Char) : Lexeme × Nat :=
  match stringLength? cs with
  | some length => (leaf .string, length)
  | none => (leaf .restSyntaxError, cs.length)

/-- A keyword whose colon stands before `cs`; the name must not be empty. -/
def ofColon (cs : List Char) : Lexeme × Nat :=
  let length := runLength isSymbolChar cs
  (leaf (if length = 0 then .syntaxError else .keyword), length)

/-- A percent sign followed by `cs`: a parameter name if nothing, `&` or a decimal number follows, else a symbol. -/
def ofPercent (cs : List Char) : Lexeme × Nat :=
  let rest := cs.takeWhile isSymbolChar
  (leaf (if rest == ['&'] || rest.all Char.isDigit then .paramName else .symbol), rest.length)

/-- A zero followed by `cs`: a hexadecimal literal after `x` and a digit, else a decimal number. -/
def ofZero (cs : List Char) : Lexeme × Nat :=
  match cs with
  | x :: h :: _ =>
    if (x = 'x' ∨ x = 'X') ∧ isHexDigit h then
      unglued .hexLiteral (1 + runLength isHexDigit (cs.drop 1)) cs
    else unglued .number (numberLength cs) cs
  | _ => unglued .number (numberLength cs) cs

/-- What a character that is no bracket and no mark starts, before `cs`. -/
def ofPlain (c : Char) (cs : List Char) : Lexeme × Nat :=
  if c = '0' then ofZero cs
  else if c.isDigit then unglued .number (numberLength cs) cs
  else if c = '-' ∧ (cs.head?.any Char.isDigit) then unglued .negNumber (numberLength cs) cs
  else if isSymbolChar c then (leaf .symbol, runLength isSymbolChar cs)
  else (leaf .syntaxError, 0)

/-- The lexeme that starts at `c`, before `cs`, and how many characters of `cs` belong to it. -/
def first (c : Char) (cs : List Char) : Lexeme × Nat :=
  if isBlank c then (blank, runLength isBlank cs)
  else
    match c with
    | ';' => (comment, runLength (· != '\n') cs)
    | '(' => (opening .list .round, 0)
    | '[' => (opening .vector .square, 0)
    | '\x7b' => (opening .map .curly, 0)
    | ')' => (closing .round, 0)
    | ']' => (closing .square, 0)
    | '\x7d' => (closing .curly, 0)
    | '#' => ofHash cs
    | '\'' => (mark .quote 0, 0)
    | '\x60' => (mark .backtick 0, 0)
    | '~' => ofTilde cs
    | '@' => (mark .deref 0, 0)
    | '^' => (mark .tag 1, 0)
    | '"' => ofQuote cs
    | ':' => ofColon cs
    | '%' => ofPercent cs
    | c => ofPlain c cs

end Lexeme

namespace Token

/-- The tokens of `cs`, whose first `skip` characters still belong to the token before them; `pos` is the position of
    the first character. -/
def allFrom : (skip pos : Nat) → List Char → List Token
  | _, _, [] => []
  | skip + 1, pos, _ :: cs => allFrom skip (pos + 1) cs
  | 0, pos, c :: cs =>
    let found := Lexeme.first c cs
    ⟨found.1, pos, pos + 1 + found.2⟩ :: allFrom found.2 (pos + 1) cs

/-- The tokens of a source text, in order. -/
def all (source : List Char) : List Token :=
  allFrom 0 0 source

end Token

end Lisplet
