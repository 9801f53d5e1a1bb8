import Lisplet.Entries
import Lisplet.Name

/-!
Forms: code as the evaluator and scripts see it.

A form has a kind, parts, metadata and an identity. Two forms are the same form if they have the same identity, which
is their place in the document they were read from. A form that is made while scripts run is derived from another one,
and each time it is made it gets a number of its own. Metadata holds where the form was read and further entries, whose
values have type `α`.
-/
namespace Lisplet

/-- What a form is. -/
inductive FormKind where
  | list | vector | map | set
  | symbol | keyword | string | number | negNumber | hexLiteral | paramName
  | lambda
  | quote | backtick | unquote | unquoteSplicing | deref | varQuote | tag
  | syntaxError | document
  /-- A var, put in place of a var quote. -/
  | var
  deriving DecidableEq, Repr

namespace FormKind

/-- All kinds, in the order of their declaration. -/
def all : List FormKind :=
  [list, vector, map, set, symbol, keyword, string, number, negNumber, hexLiteral, paramName, lambda, quote, backtick,
    unquote, unquoteSplicing, deref, varQuote, tag, syntaxError, document, var]

/-- The name a kind is written with. -/
def name : FormKind → String
  | list => "List"
  | vector => "Vector"
  | map => "Map"
  | set => "Set"
  | symbol => "Symbol"
  | keyword => "Keyword"
  | string => "String"
  | number => "Number"
  | negNumber => "NegNumber"
  | hexLiteral => "HexLiteral"
  | paramName => "ParamName"
  | lambda => "Lambda"
  | quote => "Quote"
  | backtick => "Backtick"
  | unquote => "Unquote"
  | unquoteSplicing => "UnquoteSplicing"
  | deref => "Deref"
  | varQuote => "VarQuote"
  | tag => "Tag"
  | syntaxError => "SyntaxError"
  | document => "Document"
  | var => "Var"

/-- The kind written `text`, if there is one. -/
def ofName? (text : String) : Option FormKind :=
  all.find? (·.name == text)

/-- The name of what a form of this kind stands for a call of: `[a b]` stands for `(internal/vec a b)`. -/
def sugarTarget? : FormKind → Option String
  | varQuote => some "internal/macro-var"
  | deref => some "core/deref"
  | unquoteSplicing => some "core/unquote-splicing"
  | unquote => some "core/unquote"
  | keyword => some "core/keyword"
  | map => some "internal/map"
  | set => some "internal/set"
  | vector => some "internal/vec"
  | document => some "do"
  | _ => none

end FormKind

/-- Where something was read, its source text, and further entries by name. Everything may be absent. -/
structure Metadata (α : Type) where
  start : Option Nat := none
  stop : Option Nat := none
  text : Option String := none
  /-- By increasing name. -/
  entries : List (String × α) := []

namespace Metadata

variable {α : Type}

/-- Nothing is known. -/
def empty : Metadata α := {}

/-- Read at `[start, stop)` as `text`. -/
def spanned (start stop : Nat) (text : String) : Metadata α :=
  { start := some start, stop := some stop, text := some text }

/-- Not read anywhere, but written `text`. -/
def withText (text : String) : Metadata α :=
  { text := some text }

/-- The metadata with a further entry, which replaces one of the same name. -/
def insert (name : String) (value : α) (m : Metadata α) : Metadata α :=
  { m with entries := Entries.insert name value m.entries }

/-- The value of the entry `name`. -/
def get? (m : Metadata α) (name : String) : Option α :=
  Entries.get? m.entries name

/-- Lays `other` over `m`: what `other` has wins, what it lacks stays. -/
def merge (m other : Metadata α) : Metadata α where
  start := other.start <|> m.start
  stop := other.stop <|> m.stop
  text := other.text <|> m.text
  entries := Entries.overlay m.entries other.entries

/-- Whether nothing at all is known. -/
def isEmpty (m : Metadata α) : Bool :=
  m.start.isNone && m.stop.isNone && m.text.isNone && m.entries.isEmpty

end Metadata

/-- The identity of a form. -/
inductive FormId where
  /-- The form at `path` of the document with this number; the path lists child positions, innermost first. -/
  | read (document : Nat) (path : List Nat)
  /-- One of the forms that were made together of the form `source`, with a new number: `part` tells them apart. -/
  | derived (source : FormId) (number part : Nat)
  deriving DecidableEq, Repr

/-- A piece of code. Only a form of kind `var` has a `binding`. -/
structure Form (α : Type) where
  id : FormId
  kind : FormKind
  children : List (Form α)
  binding : Option Var
  metadata : Metadata α

instance {α : Type} : Inhabited (Form α) := ⟨⟨.read 0 [], .document, [], none, .empty⟩⟩

namespace Form

variable {α : Type}

/-- The source text of the form. -/
def text? (form : Form α) : Option String :=
  form.metadata.text

/-- The source text, or nothing. -/
def text (form : Form α) : String :=
  form.text?.getD ""

/-- The first part. -/
def first? (form : Form α) : Option (Form α) :=
  form.children[0]?

/-- The second part. -/
def second? (form : Form α) : Option (Form α) :=
  form.children[1]?

/-- The parts that are arguments: in a list or a `#()` form all but the first, in any other form all. -/
def arguments (form : Form α) : List (Form α) :=
  match form.kind with
  | .list | .lambda => form.children.tail
  | _ => form.children

/-- A symbol that was not read anywhere. -/
def symbol (id : FormId) (name : String) : Form α :=
  ⟨id, .symbol, [], none, .withText name⟩

/-- The form with `m` laid over its metadata. -/
def annotate (form : Form α) (m : Metadata α) : Form α :=
  { form with metadata := form.metadata.merge m }

end Form

end Lisplet
