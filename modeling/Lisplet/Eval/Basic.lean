import Lisplet.Expansion
import Lisplet.Member

/-!
Evaluation as a process on the store.

An evaluation reads and changes the store and gives a value, or stops: because something failed, or because its depth
was exhausted. The store keeps what was done before the stop. What an evaluation may ask for is a `Task`, and the
evaluator is built from one step of a task that is told how to do the tasks below it.
-/
namespace Lisplet

/-- Why an evaluation gives no value. -/
inductive Stop where
  | failed (error : Error)
  /-- The evaluation went deeper than it was allowed to. -/
  | exhausted

/-- A process on the store. -/
abbrev Eval := EStateM Stop Store

/-- The program that scripts run in: what its functions and special forms give, and the fields of its objects. They may
    read the store, and do not change it. -/
structure Host where
  call : HostFunction → List Value → Store → Except Error Value
  invoke : String → Code → Scope → Store → Except Error Value
  fields : Fields

/-- A host without functions, forms and objects. -/
def Host.bare : Host where
  call f _ _ := .error (.ofCause (.runtime f.name))
  invoke name _ _ _ := .error (.ofCause (.runtime name))
  fields _ _ := none

/-- Something the evaluator can be asked to do. -/
inductive Task where
  /-- Find the value of a form in a scope. -/
  | evaluate (form : Code) (scope : Scope)
  /-- Carry out a special form that `form` calls in a scope. -/
  | invoke (special : Special) (form : Code) (scope : Scope)
  /-- Call a procedure on values. -/
  | call (procedure : Procedure Value) (args : List Value)

namespace Eval

variable {α : Type}

/-- Stops with a failure that is not attributed to any form. -/
def fail (cause : Cause) : Eval α :=
  throw (.failed (.ofCause cause))

/-- Stops with a failure attributed to `form`. -/
def failAt (form : Code) (cause : Cause) : Eval α :=
  throw (.failed ((Error.ofCause cause).attributeTo form))

/-- The outcome of a computation that does not need the store. -/
def ofExcept : Except Cause α → Eval α
  | .ok a => pure a
  | .error cause => fail cause

/-- The same, with a failure attributed to `form`. -/
def ofExceptAt (form : Code) : Except Cause α → Eval α
  | .ok a => pure a
  | .error cause => failAt form cause

/-- The outcome of something that the host does. -/
def ofHost (action : Store → Except Error α) : Eval α := fun s =>
  match action s with
  | .ok a => .ok a s
  | .error error => .error (.failed error) s

/-- Changes the failure of a process, if it fails. -/
def mapError (f : Error → Error) (process : Eval α) : Eval α := fun s =>
  match process s with
  | .ok a s => .ok a s
  | .error (.failed error) s => .error (.failed (f error)) s
  | .error .exhausted s => .error .exhausted s

/-- Attributes a failure to `form`, unless it is attributed already. -/
def attributed (form : Code) (process : Eval α) : Eval α :=
  mapError (·.attributeTo form) process

/-- Notes that a failure came out of `form`. -/
def through (form : Code) (process : Eval α) : Eval α :=
  mapError (·.through form) process

/-- A new function. -/
def newFunction (callable : Callable Value) : Eval Value :=
  modifyGet (·.newFunction callable)

/-- A new number for forms that are made. -/
def newNumber : Eval Nat :=
  modifyGet (·.newNumber)

/-- A new scope inside `scope`. -/
def newChild (scope : Scope) : Eval Scope :=
  modifyGet (·.newChild scope)

/-- Binds a name to a new var. -/
def define (scope : Scope) (name : String) (value : Value) : Eval Var :=
  modifyGet (·.define scope name value)

/-- The value that `name` stands for in `scope`. -/
def lookup (scope : Scope) (name : String) : Eval Value := do
  ofExcept ((← get).get scope name)

/-- The var that `name` means in `scope`. -/
def lookupVar (scope : Scope) (name : String) : Eval Value := do
  let s ← get
  match s.lookup scope name with
  | some var => pure (.var var)
  | none => fail (s.undefined scope name)

/-- Expands a form. -/
def expand (scope : Scope) (form : Code) : Eval Code :=
  modifyGet (·.expand scope form)

/-- Expands forms. -/
def expandAll (scope : Scope) (forms : List Code) : Eval (List Code) :=
  modifyGet (·.expandAll scope forms)

/-- The value of a member that was found. -/
def ofMember : Member → Eval Value
  | .value v => pure v
  | .procedure p => newFunction (.procedure p)

end Eval

end Lisplet
