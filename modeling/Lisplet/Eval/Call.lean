import Lisplet.Eval.Apply

/-!
Calls of procedures on values.

A closure runs its body in a new scope inside the one it was made in. Parameters without an argument are `nil`, and
arguments without a parameter are ignored.
-/
namespace Lisplet.Eval

variable (host : Host) (go : Task → Eval Value)

/-- Why a procedure that takes `expected` arguments cannot be called on `args`. -/
def wrongCount (name : String) (expected : Nat) (args : List Value) : Cause :=
  .badArguments name ("expected " ++ Nat.repr expected ++ " arguments, got " ++ Nat.repr args.length)

/-- Calls a plain function of the language. -/
def callBuiltin (function : Builtin) (args : List Value) : Eval Value :=
  match function, args with
  | .get, [target, key] =>
    match target.entry? host.fields key with
    | some found => ofMember found
    | none => pure .nil
  | .get, args => fail (wrongCount function.name 2 args)
  | .deref, [v] => do
    ofExcept ((← get).deref v)
  | .deref, args => fail (wrongCount function.name 1 args)
  | .str, args => pure (.string (joinTexts "" (args.map Value.display)))
  | .vec, args => pure (.vector args)
  | .set, args => pure (.ofItems args)

/-- What a host function gives for the arguments, if their number fits. -/
def hostResult (function : HostFunction) (args : List Value) (s : Store) : Except Error Value :=
  match function.arity with
  | some n =>
    if args.length = n then host.call function args s else .error (.ofCause (wrongCount function.name n args))
  | none => host.call function args s

/-- Calls a function of the host and records the call. -/
def callHost (function : HostFunction) (args : List Value) : Eval Value := fun s =>
  let result := hostResult host function args s
  let s := s.record (.called function args result)
  match result with
  | .ok v => .ok v s
  | .error error => .error (.failed error) s

/-- Binds parameters to arguments. -/
def bindParams (scope : Scope) : List String → List Value → Eval Unit
  | [], _ => pure ()
  | param :: params, args => do
    let _ ← define scope param (firstArgument args)
    bindParams scope params args.tail

/-- Binds the next `count` numbered parameters, from `%n` on, to arguments; `%` is bound along with `%1`. -/
def bindNumbered (scope : Scope) : (n count : Nat) → List Value → Eval Unit
  | _, 0, _ => pure ()
  | n, count + 1, args => do
    let arg := firstArgument args
    if n = 1 then
      let _ ← define scope "%" arg
    let _ ← define scope ("%" ++ Nat.repr n) arg
    bindNumbered scope (n + 1) count args.tail

/-- Binds the name of a closure, if it has one, to a function that is the closure again. -/
def bindSelf (scope : Scope) (name : Option String) (closure : Procedure Value) : Eval Unit :=
  match name with
  | some name => do
    let self ← newFunction (.procedure closure)
    let _ ← define scope name self
  | none => pure ()

/-- Calls a procedure on values. -/
def call (procedure : Procedure Value) (args : List Value) : Eval Value :=
  match procedure with
  | .builtin function => callBuiltin host function args
  | .method method => ofExcept (method.run args)
  | .host function => callHost host function args
  | .closure name params body scope => do
    let inner ← newChild scope
    bindSelf inner name procedure
    bindParams inner params args
    go (.evaluate body inner)
  | .anonymous form head forms params scope =>
    through form do
      let inner ← newChild scope
      bindNumbered inner 1 (max params args.length) args
      let f ← go (.evaluate head scope)
      applyToForms host go form f inner forms

end Lisplet.Eval
