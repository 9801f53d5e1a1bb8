import Lisplet.Store
import Lisplet.Text.Visible

/-!
Texts for diagnosis: of names, vars, scopes and callables.
-/
namespace Lisplet

/-- A character of a quoted name. Quotes, backslashes and characters that cannot be told on sight are escaped. -/
def describeChar (c : Char) : List Char :=
  match c with
  | '"' => ['\\', '"']
  | '\\' => ['\\', '\\']
  | '\n' => ['\\', 'n']
  | '\r' => ['\\', 'r']
  | '\t' => ['\\', 't']
  | '\x00' => ['\\', '0']
  | c => if isVisible c then [c] else "\\u\x7b".toList ++ Nat.toDigits 16 c.toNat ++ "\x7d".toList

/-- A name between quotes. -/
def describeName (name : String) : String :=
  "\"" ++ String.ofList (name.toList.flatMap describeChar) ++ "\""

/-- A callable with its name. -/
def Callable.describe {α : Type} (callable : Callable α) : String :=
  (if callable.isSpecial then "Special(" else "Function(") ++ callable.name ++ ")"

namespace Store

/-- A var with the value it holds. -/
def describeVar (s : Store) (var : Var) : String :=
  var.print ++ " = " ++ (s.held var).print

/-- A scope with its depth and the names it binds. -/
def describeScope (s : Store) (scope : Scope) : String :=
  "Environment \x7b depth: " ++ Nat.repr (s.depth scope) ++ ", names: [" ++
    joinTexts ", " ((s.localNames scope).map describeName) ++ "] \x7d"

end Store

end Lisplet
