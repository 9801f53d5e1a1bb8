/-!
Qualified names.

A name with text on both sides of its first slash has a namespace, the text before that slash. Any other name has
none, in particular `/` itself.
-/
namespace Lisplet

/-- A name and the namespace it belongs to. -/
structure QualifiedName where
  space : Option String
  base : String
  deriving DecidableEq, Repr

namespace QualifiedName

/-- Splits a name at its first slash, if that leaves text on both sides. -/
def ofString (text : String) : QualifiedName :=
  let before := text.toList.takeWhile (· != '/')
  match text.toList.dropWhile (· != '/') with
  | _ :: c :: rest =>
    if before.isEmpty then ⟨none, text⟩ else ⟨some (String.ofList before), String.ofList (c :: rest)⟩
  | _ => ⟨none, text⟩

/-- The whole name, namespace included. -/
def toString (name : QualifiedName) : String :=
  match name.space with
  | some space => space ++ "/" ++ name.base
  | none => name.base

end QualifiedName

/-- A var: a numbered cell of the store, known by name. -/
structure Var where
  index : Nat
  name : QualifiedName
  deriving DecidableEq, Repr

end Lisplet
