import Lisplet.Eval.Call
import Lisplet.Eval.Special

/-!
The evaluator.

`step` does a task by asking for tasks one level down, and `run` allows a number of levels. A script that recurses
without end exhausts them; any other script ends as it would with more.
-/
namespace Lisplet.Eval

/-- The number that a numbered parameter is written with, below 2⁶⁴; a plus sign may precede it. -/
def paramNumber (digits : List Char) : Nat :=
  let digits :=
    match digits with
    | '+' :: rest => rest
    | _ => digits
  if digits.isEmpty || !digits.all Char.isDigit then 0
  else if Literal.ofDigits digits < 18446744073709551616 then Literal.ofDigits digits else 0

/-- The position of the parameter written `text`: 1 for `%`, and 0 if it has none. -/
def paramIndex (text : String) : Nat :=
  match text.toList with
  | ['%'] => 1
  | '%' :: digits => paramNumber digits
  | _ => 0

mutual

/-- The largest position of a parameter in a form. A `#()` form inside it has its own parameters. -/
def maxParam : Code → Nat
  | ⟨_, kind, children, _, metadata⟩ =>
    match kind with
    | .paramName => paramIndex (metadata.text.getD "")
    | .lambda => 0
    | _ => maxParams children

/-- The largest position of a parameter in forms. -/
def maxParams : List Code → Nat
  | [] => 0
  | form :: rest => max (maxParam form) (maxParams rest)

end

variable (host : Host) (go : Task → Eval Value)

/-- The value of a literal, which must stand for one. -/
def ofLiteral (form : Code) (value : Option Value) : Eval Value :=
  match value with
  | some v => pure v
  | none => fail (.badLiteral form.text)

/-- The function that a `#()` form makes. -/
def evalLambda (form : Code) (scope : Scope) : Eval Value := do
  match ← expandAll scope form.children with
  | [] => fail (.badArguments "#()" "missing function position")
  | head :: args => newFunction (.procedure (.anonymous form head args (maxParams form.children) scope))

/-- The value of a list: its head applied to the other parts, after all of them have been expanded. -/
def evalList (form : Code) (scope : Scope) : Eval Value := do
  match ← expandAll scope form.children with
  | [] => fail (.badArguments "()" "cannot call an empty list")
  | head :: args => do
    let f ← go (.evaluate head scope)
    applyToForms host go form f scope args

/-- The value of a form that stands for a call. -/
def evalSugar (form : Code) (scope : Scope) : Eval Value :=
  match form.kind.sugarTarget? with
  | some name => do
    let f ← lookup scope name
    applyToForms host go form f scope form.children
  | none => fail (.notEvaluable form.kind)

/-- The value of a form that has been expanded. -/
def evalForm (form : Code) (scope : Scope) : Eval Value :=
  match form.kind with
  | .var =>
    match form.binding with
    | some var => pure (.var var)
    | none => fail (.notEvaluable .var)
  | .quote =>
    match form.first? with
    | some quoted => pure (.form quoted)
    | none => fail (.badArguments "quote" "nothing to quote")
  | .string => ofLiteral form ((Literal.string? form.text).map .string)
  | .number | .negNumber => ofLiteral form ((Literal.number? form.text).map .ofNumber)
  | .hexLiteral => ofLiteral form ((Literal.hex? form.text).map .int)
  | .symbol | .paramName => lookup scope form.text
  | .lambda => evalLambda form scope
  | .list => evalList host go form scope
  | _ => evalSugar host go form scope

/-- The value of a form. -/
def evaluate (form : Code) (scope : Scope) : Eval Value := do
  let form ← expand scope form
  through form (evalForm host go form scope)

/-- Does a task with the help of `go`. -/
def step : Task → Eval Value
  | .evaluate form scope => evaluate host go form scope
  | .invoke special form scope => invoke host go special form scope
  | .call procedure args => call host go procedure args

/-- Does a task within a number of levels. -/
def run (host : Host) : (levels : Nat) → Task → Eval Value
  | 0, _ => throw .exhausted
  | levels + 1, task => step host (run host levels) task

end Lisplet.Eval
