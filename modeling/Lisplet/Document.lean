import Lisplet.Form.Basic
import Lisplet.Tree

/-!
Documents: what a source text says.

A document is the tree of the source without comments and discarded forms. Each form carries its span and the source
text of the span. A malformed tree becomes one `syntaxError` form without parts. Text that reading did not reach
becomes one more such form at the end. `errors` lists these forms from left to right.
-/
namespace Lisplet

/-- The characters of `source` from `start` up to `stop`, as far as there are any. -/
def sliceText (source : List Char) (start stop : Nat) : String :=
  String.ofList ((source.drop start).take (stop - start))

/-- The kind of form that a tree of this kind gives. -/
def TreeKind.toFormKind : TreeKind → FormKind
  | document => .document
  | list => .list
  | vector => .vector
  | map => .map
  | set => .set
  | lambda => .lambda
  | symbol => .symbol
  | keyword => .keyword
  | string => .string
  | number => .number
  | negNumber => .negNumber
  | hexLiteral => .hexLiteral
  | paramName => .paramName
  | quote => .quote
  | backtick => .backtick
  | unquote => .unquote
  | unquoteSplicing => .unquoteSplicing
  | deref => .deref
  | varQuote => .varQuote
  | tag => .tag
  | discard | comment | syntaxError | restSyntaxError => .syntaxError

/-- A source text as forms. -/
structure Document (α : Type) where
  root : Form α
  /-- The malformed parts, from left to right. -/
  errors : List (Form α)

namespace Document

variable {α : Type}

/-- The form for the malformed text at `[start, stop)`. -/
def malformed (source : List Char) (id : FormId) (start stop : Nat) : Form α :=
  ⟨id, .syntaxError, [], none, .spanned start stop (sliceText source start stop)⟩

mutual

/-- The form of a tree, at `path` of document `number`. -/
def formOf (source : List Char) (number : Nat) (path : List Nat) : Tree → Form α
  | .node kind start stop children =>
    if kind.isError then malformed source (.read number path) start stop
    else
      ⟨.read number path, kind.toFormKind, formsOf source number path 0 children, none,
        .spanned start stop (sliceText source start stop)⟩

/-- The forms of the trees that carry meaning; the first of them is child `position` of `path`. -/
def formsOf (source : List Char) (number : Nat) (path : List Nat) (position : Nat) : List Tree → List (Form α)
  | [] => []
  | tree :: rest =>
    if tree.kind.isTrivia then formsOf source number path position rest
    else formOf source number (position :: path) tree :: formsOf source number path (position + 1) rest

end

mutual

/-- The malformed parts of a tree, at `path` of document `number`. -/
def errorsOf (source : List Char) (number : Nat) (path : List Nat) : Tree → List (Form α)
  | .node kind start stop children =>
    if kind.isError then [malformed source (.read number path) start stop]
    else errorsOfAll source number path 0 children

/-- The malformed parts of the trees that carry meaning; the first of them is child `position` of `path`. -/
def errorsOfAll (source : List Char) (number : Nat) (path : List Nat) (position : Nat) : List Tree → List (Form α)
  | [] => []
  | tree :: rest =>
    if tree.kind.isTrivia then errorsOfAll source number path position rest
    else errorsOf source number (position :: path) tree ++ errorsOfAll source number path (position + 1) rest

end

/-- The document of a tree of which `consumed` characters were read; what lies behind them is malformed. -/
def ofScan (number : Nat) (source : List Char) (scan : Scan) : Document α :=
  let root := formOf source number [] scan.root
  let errors := errorsOf source number [] scan.root
  if scan.consumed < source.length then
    let rest := malformed source (.read number [root.children.length]) scan.consumed source.length
    ⟨{ root with kind := .document, children := root.children ++ [rest] }, errors ++ [rest]⟩
  else ⟨root, errors⟩

/-- Reads a source text as document `number`. -/
def read (number : Nat) (source : String) : Document α :=
  ofScan number source.toList (.ofSource source.toList)

/-- Whether nothing is malformed. -/
def isClean (document : Document α) : Bool :=
  document.errors.isEmpty

end Document

end Lisplet
