import Lisplet.Form.Printer

/-!
Why something fails.

`Cause` lists the reasons, each with what is needed to explain it, and `Cause.message` words them.
-/
namespace Lisplet

/-- A reason for a failure. -/
inductive Cause where
  /-- The source is malformed at `[start, stop)`. -/
  | malformed (start stop : Nat) (text : String)
  /-- No scope binds `name`; `inScope` are the names that the innermost scope binds. -/
  | undefined (name : String) (inScope : List String)
  /-- A value of type `typeName` was called. -/
  | notCallable (typeName : String)
  /-- Forms of this kind have no value. -/
  | notEvaluable (kind : FormKind)
  /-- Something else was needed in this place. -/
  | unexpected (expected got : String)
  /-- The arguments of `form` do not fit. -/
  | badArguments (form reason : String)
  /-- A literal stands for nothing. -/
  | badLiteral (text : String)
  /-- A value of type `typeName` has no member `name`. -/
  | missingMember (name typeName : String)
  /-- The value holds no other value. -/
  | notDerefable (value : String)
  /-- The value cannot be the key of a map. -/
  | badKey (key : String)
  /-- A failure that is reported while a script runs. -/
  | runtime (text : String)
  /-- The settings cannot be read. -/
  | settings (text : String)
  deriving DecidableEq, Repr

namespace Cause

/-- The wording of a cause. -/
def message : Cause → String
  | malformed start stop text =>
    "Syntax error at " ++ Nat.repr start ++ ".." ++ Nat.repr stop ++ ": " ++ text
  | undefined name inScope =>
    "Variable not set '" ++ name ++ "' variables in scope: " ++ joinTexts ", " inScope
  | notCallable typeName => "The form does not resolve into a function, got " ++ typeName
  | notEvaluable kind => "Cannot evaluate node of type " ++ kind.name
  | unexpected expected got => "Expected " ++ expected ++ ", got " ++ got
  | badArguments form reason => "Invalid arguments for " ++ form ++ ": " ++ reason
  | badLiteral text => "Invalid literal: " ++ text
  | missingMember name typeName => "Member '" ++ name ++ "' not found on " ++ typeName
  | notDerefable value => "Value " ++ value ++ " does not implement deref"
  | badKey key => "Invalid map key: " ++ key
  | runtime text => "Runtime error: " ++ text
  | settings text => "Configuration error: " ++ text

end Cause

/-- The name that a symbol form stands for. -/
def Form.symbolName {α : Type} (form : Form α) : Except Cause String :=
  if form.kind = .symbol then .ok form.text else .error (.unexpected "symbol" form.kind.name)

end Lisplet
