import Lisplet.Cause
import Lisplet.Double.Shortest
import Lisplet.Literal

/-!
Values of scripts.

A value is plain data, a form, a var, something that can be called, or an object of the host. Collections are kept in
the order they are shown in: vectors and sets as lists, maps by increasing key. Vars, functions and objects carry a
number that is their identity.
-/
namespace Lisplet

/-- The number of a scope of the store. -/
abbrev Scope := Nat

/-- Keys of maps. Keywords, which are named without their colon, come before strings. -/
inductive Key where
  | keyword (name : String)
  | string (text : String)
  deriving DecidableEq, Repr

/-- Keywords before strings, each by the code points of their text. -/
def Key.order : Key → Key → Ordering
  | .keyword a, .keyword b => compare a b
  | .keyword _, .string _ => .lt
  | .string _, .keyword _ => .gt
  | .string a, .string b => compare a b

instance : Ord Key := ⟨Key.order⟩

/-- The special forms of the language, which receive the calling form unevaluated. -/
inductive Special where
  | conditional | sequence | define | member | function | letIn
  | apply | var | quote | keyword | unquote | unquoteSplicing
  | map | macroVar
  deriving DecidableEq, Repr

/-- The name a special form is bound to. -/
def Special.name : Special → String
  | conditional => "if"
  | sequence => "do"
  | define => "def"
  | member => "."
  | function => "fn"
  | letIn => "let"
  | apply => "core/apply"
  | var => "core/var"
  | quote => "core/quote"
  | keyword => "core/keyword"
  | unquote => "core/unquote"
  | unquoteSplicing => "core/unquote-splicing"
  | map => "internal/map"
  | macroVar => "internal/macro-var"

/-- The plain functions of the language. -/
inductive Builtin where
  | get | deref | str | vec | set
  deriving DecidableEq, Repr

/-- The name a plain function is bound to. -/
def Builtin.name : Builtin → String
  | get => "core/get"
  | deref => "core/deref"
  | str => "core/str"
  | vec => "internal/vec"
  | set => "internal/set"

/-- The methods of strings. -/
inductive StringMethod where
  | toUpperCase | toLowerCase | trim | includes | startsWith | endsWith | split | substring
  deriving DecidableEq, Repr

/-- The name a method of strings is called by. -/
def StringMethod.name : StringMethod → String
  | toUpperCase => "toUpperCase"
  | toLowerCase => "toLowerCase"
  | trim => "trim"
  | includes => "includes"
  | startsWith => "startsWith"
  | endsWith => "endsWith"
  | split => "split"
  | substring => "substring"

/-- The methods of vectors. -/
inductive VectorMethod where
  | includes | indexOf | join
  deriving DecidableEq, Repr

/-- The name a method of vectors is called by. -/
def VectorMethod.name : VectorMethod → String
  | includes => "includes"
  | indexOf => "indexOf"
  | join => "join"

/-- A method, with what it needs of the value it was found on. -/
inductive Method (α : Type) where
  /-- Gives the text of the value. -/
  | toString (text : String)
  | ofString (method : StringMethod) (text : String)
  | ofVector (method : VectorMethod) (items : List α)
  /-- Looks for an item of a set. -/
  | hasItem (items : List α)
  /-- Looks for a key of a map. -/
  | hasKey (entries : List (Key × α))

/-- The name a method is called by. -/
def Method.name {α : Type} : Method α → String
  | toString _ => "toString"
  | ofString method _ => method.name
  | ofVector method _ => method.name
  | hasItem _ | hasKey _ => "has"

/-- A function of the host: its name, the number of its arguments if that is fixed, and which of the host's functions it
    is. -/
structure HostFunction where
  name : String
  arity : Option Nat
  entry : String
  deriving DecidableEq, Repr

/-- An object of the host: its identity and its type. -/
structure HostObject where
  identity : Nat
  typeName : String
  deriving DecidableEq, Repr

/-- What is called on values, over values of type `α`. -/
inductive Procedure (α : Type) where
  | builtin (function : Builtin)
  | method (method : Method α)
  /-- A function made by `fn` in `scope`. -/
  | closure (name : Option String) (params : List String) (body : Form α) (scope : Scope)
  /-- A function made by the `#()` form `form` in `scope`, with `params` numbered parameters. -/
  | anonymous (form head : Form α) (args : List (Form α)) (params : Nat) (scope : Scope)
  | host (function : HostFunction)

/-- The name that a procedure is shown with. -/
def Procedure.name {α : Type} : Procedure α → String
  | builtin function => function.name
  | .method m => m.name
  | closure name _ _ _ => name.getD "fn"
  | anonymous .. => "#()"
  | host function => function.name

/-- What can be called: special forms, of which some belong to the host, and procedures. -/
inductive Callable (α : Type) where
  | special (form : Special)
  | hostForm (name : String)
  | procedure (p : Procedure α)

namespace Callable

variable {α : Type}

/-- The name that a callable is shown with. -/
def name : Callable α → String
  | special form => form.name
  | hostForm name => name
  | procedure p => p.name

/-- Whether the callable receives its calling form unevaluated. -/
def isSpecial : Callable α → Bool
  | special _ | hostForm _ => true
  | procedure _ => false

end Callable

/-- A value. -/
inductive Value where
  | nil
  | bool (b : Bool)
  | int (n : Int64)
  | double (d : Double)
  | string (text : String)
  /-- A keyword, without its colon. -/
  | keyword (name : String)
  | vector (items : List Value)
  | set (items : List Value)
  | map (entries : List (Key × Value))
  | form (form : Form Value)
  | var (var : Var)
  | function (identity : Nat) (callable : Callable Value)
  | object (object : HostObject)

instance : Inhabited Value := ⟨.nil⟩

/-- The key as a value. -/
def Key.toValue : Key → Value
  | .keyword name => .keyword name
  | .string text => .string text

/-- Code over values. -/
abbrev Code := Form Value

namespace Value

/-- The name of a keyword written `text`: one leading colon is no part of it. -/
def keywordName (text : String) : String :=
  match text.toList with
  | ':' :: rest => String.ofList rest
  | _ => text

/-- The keyword written `text`, with or without its colon. -/
def ofKeyword (text : String) : Value :=
  keyword (keywordName text)

/-- The number of a literal as a value. -/
def ofNumber : Literal.Number → Value
  | .int n => int n
  | .double d => double d

/-- A length as a value. -/
def ofLength (n : Nat) : Value :=
  int (Int64.ofNat n)

/-- The name of a value's type. -/
def typeName : Value → String
  | nil => "nil"
  | bool _ => "bool"
  | int _ => "int"
  | double _ => "float"
  | string _ => "string"
  | keyword _ => "keyword"
  | vector _ => "vector"
  | set _ => "set"
  | map _ => "map"
  | form _ => "node"
  | var _ => "var"
  | function _ callable => if callable.isSpecial then "special-form" else "function"
  | object o => o.typeName

/-- All values but `nil` and `false` count as true. -/
def isTruthy : Value → Bool
  | nil | bool false => false
  | _ => true

/-- The nearest integer of 64 bits. -/
def saturate (n : Int) : Int64 :=
  Int64.ofInt (max Int64.minValue.toInt (min n Int64.maxValue.toInt))

/-- The value as an integer. Whole floats are integers too; beyond 64 bits they give the nearest limit. -/
def asInt : Value → Except Cause Int64
  | int n => .ok n
  | double d => if d.isWhole then .ok (saturate d.toInt) else .error (.unexpected "int" "float")
  | v => .error (.unexpected "int" v.typeName)

/-- The text of a string. -/
def asString : Value → Except Cause String
  | string text => .ok text
  | v => .error (.unexpected "string" v.typeName)

/-- The items of a vector or a set; `nil` has none. -/
def toSeq : Value → Except Cause (List Value)
  | nil => .ok []
  | vector items | set items => .ok items
  | v => .error (.unexpected "vector" v.typeName)

end Value

end Lisplet
