import Lisplet.Error

/-!
The store: scopes, vars and a record of what happened.

A scope binds names to vars and knows the scopes around it. A var holds one value for ever; binding a name again puts
another var in its place. The store hands out the numbers that are the identities of vars, functions, objects and
documents and that tell apart the forms that are made, and records every binding and every call of a host function,
newest first.
-/
namespace Lisplet

/-- A scope: the scopes around it, innermost first, and the vars it binds by name. -/
structure Frame where
  outer : List Scope
  bindings : List (String × Var)

/-- What a var holds, and what is known about it. The cell of a number that no var has is empty. -/
structure Cell where
  value : Value
  metadata : Metadata Value

/-- Something that happened. -/
inductive Event where
  /-- A scope bound a name to a var. -/
  | bound (scope : Scope) (name : String) (var : Var)
  /-- A function of the host was called and gave a result. -/
  | called (function : HostFunction) (args : List Value) (result : Except Error Value)

/-- Everything that scripts can change. -/
structure Store where
  frames : Array Frame
  cells : Array Cell
  /-- The next identity of a function or an object. -/
  identities : Nat
  /-- The number of the next document. -/
  documents : Nat
  events : List Event

namespace Store

/-- Nothing has happened yet. -/
def empty : Store :=
  ⟨#[], #[], 0, 0, []⟩

/-! ### Scopes -/

/-- The names and vars that a scope itself binds. -/
def bindings (s : Store) (scope : Scope) : List (String × Var) :=
  match s.frames[scope]? with
  | some frame => frame.bindings
  | none => []

/-- The scopes around a scope, innermost first. -/
def outer (s : Store) (scope : Scope) : List Scope :=
  match s.frames[scope]? with
  | some frame => frame.outer
  | none => []

/-- A new scope with nothing around it. -/
def newRoot (s : Store) : Scope × Store :=
  (s.frames.size, { s with frames := s.frames.push ⟨[], []⟩ })

/-- A new scope inside `scope`. -/
def newChild (s : Store) (scope : Scope) : Scope × Store :=
  (s.frames.size, { s with frames := s.frames.push ⟨scope :: s.outer scope, []⟩ })

/-- The scope directly around a scope. -/
def parent? (s : Store) (scope : Scope) : Option Scope :=
  (s.outer scope).head?

/-- How many scopes there are from `scope` outwards. -/
def depth (s : Store) (scope : Scope) : Nat :=
  (s.outer scope).length + 1

/-- The names that a scope itself binds, in order. -/
def localNames (s : Store) (scope : Scope) : List String :=
  Entries.keys (s.bindings scope)

/-- The var that `name` means in `scope`: the one of the nearest scope that binds it. -/
def lookup (s : Store) (scope : Scope) (name : String) : Option Var :=
  (scope :: s.outer scope).findSome? fun frame => Entries.get? (s.bindings frame) name

/-! ### Vars -/

/-- A new var with the given name. -/
def newVar (s : Store) (name : String) (value : Value) (metadata : Metadata Value) : Var × Store :=
  (⟨s.cells.size, .ofString name⟩, { s with cells := s.cells.push ⟨value, metadata⟩ })

/-- A new number for forms that are made. Vars and such forms are numbered together. -/
def newNumber (s : Store) : Nat × Store :=
  (s.cells.size, { s with cells := s.cells.push ⟨.nil, .empty⟩ })

/-- The value that a var holds. -/
def held (s : Store) (var : Var) : Value :=
  match s.cells[var.index]? with
  | some cell => cell.value
  | none => .nil

/-- What is known about a var. -/
def metadata (s : Store) (var : Var) : Metadata Value :=
  match s.cells[var.index]? with
  | some cell => cell.metadata
  | none => .empty

/-- Lays `m` over what is known about a var. -/
def annotate (s : Store) (var : Var) (m : Metadata Value) : Store :=
  { s with cells := s.cells.modify var.index fun cell => { cell with metadata := cell.metadata.merge m } }

/-- Binds `name` to `var` in `scope`, in place of an earlier binding there. -/
def bind (s : Store) (scope : Scope) (name : String) (var : Var) : Store :=
  { s with
    frames := s.frames.modify scope fun frame => { frame with bindings := Entries.insert name var frame.bindings }
    events := .bound scope name var :: s.events }

/-- Binds `name` in `scope` to a new var that holds `value`. -/
def define (s : Store) (scope : Scope) (name : String) (value : Value) (metadata : Metadata Value := .empty) :
    Var × Store :=
  let (var, s) := s.newVar name value metadata
  (var, s.bind scope name var)

/-- Why `name` has no meaning in `scope`. -/
def undefined (s : Store) (scope : Scope) (name : String) : Cause :=
  .undefined name (s.localNames scope)

/-- The value that `name` stands for in `scope`. -/
def get (s : Store) (scope : Scope) (name : String) : Except Cause Value :=
  match s.lookup scope name with
  | some var => .ok (s.held var)
  | none => .error (s.undefined scope name)

/-- The value that a var holds; nothing else holds one. -/
def deref (s : Store) : Value → Except Cause Value
  | .var var => .ok (s.held var)
  | v => .error (.notDerefable v.print)

/-- What is known about a value: forms and vars have metadata, other values none. -/
def metadataOf (s : Store) : Value → Metadata Value
  | .form form => form.metadata
  | .var var => s.metadata var
  | _ => .empty

/-! ### Identities and events -/

/-- A new identity for a function or an object. -/
def newIdentity (s : Store) : Nat × Store :=
  (s.identities, { s with identities := s.identities + 1 })

/-- A new function. -/
def newFunction (s : Store) (callable : Callable Value) : Value × Store :=
  let (identity, s) := s.newIdentity
  (.function identity callable, s)

/-- Records an event. -/
def record (s : Store) (event : Event) : Store :=
  { s with events := event :: s.events }

end Store

end Lisplet
