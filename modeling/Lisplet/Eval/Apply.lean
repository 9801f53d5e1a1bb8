import Lisplet.Eval.Basic

/-!
Application.

A special form is given the calling form as it stands. A procedure is given values: those of the argument
forms, evaluated from left to right. A failure is attributed to the calling form unless it is attributed already.
-/
namespace Lisplet.Eval

variable (host : Host) (go : Task → Eval Value)

/-- The values of forms in a scope, from left to right. -/
def evaluateAll (scope : Scope) : List Code → Eval (List Value)
  | [] => pure []
  | form :: rest => do
    let value ← go (.evaluate form scope)
    let values ← evaluateAll scope rest
    return value :: values

/-- Applies `f` as the form `form` in `scope` asks, to the values that `args` gives if `f` takes values. -/
def applyWith (form : Code) (f : Value) (scope : Scope) (args : Eval (List Value)) : Eval Value :=
  attributed form <|
    match f with
    | .function _ (.special special) => go (.invoke special form scope)
    | .function _ (.hostForm name) => ofHost (host.invoke name form scope)
    | .function _ (.procedure p) => do
      let values ← args
      go (.call p values)
    | v => fail (.notCallable v.typeName)

/-- Applies `f` to the values of argument forms. -/
def applyToForms (form : Code) (f : Value) (scope : Scope) (args : List Code) : Eval Value :=
  applyWith host go form f scope (evaluateAll go scope args)

/-- Applies `f` to values. -/
def applyToValues (form : Code) (f : Value) (scope : Scope) (args : List Value) : Eval Value :=
  applyWith host go form f scope (pure args)

end Lisplet.Eval
