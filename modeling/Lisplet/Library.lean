import Lisplet.Store

/-!
Libraries: named values that are installed in a scope together.

The core library holds what the language itself provides beside its basic special forms.
-/
namespace Lisplet

/-- Values by name, in order. -/
abbrev Library := Entries String Value

namespace Library

/-- A library with nothing in it. -/
def empty : Library := []

/-- The library with a new function under its own name. -/
def register (library : Library) (s : Store) (callable : Callable Value) : Library × Store :=
  let (v, s) := s.newFunction callable
  (library.insert callable.name v, s)

/-- What the core library holds. -/
def coreCallables : List (Callable Value) :=
  [.special .apply, .special .var, .special .quote, .special .keyword, .special .unquote, .special .unquoteSplicing,
    .procedure (.builtin .get), .procedure (.builtin .deref), .procedure (.builtin .str),
    .procedure (.builtin .vec), .procedure (.builtin .set), .special .map, .special .macroVar]

/-- Registers callables one after the other. -/
def registerAll (library : Library) (s : Store) : List (Callable Value) → Library × Store
  | [] => (library, s)
  | callable :: rest =>
    let (library, s) := library.register s callable
    registerAll library s rest

/-- The core library, made anew. -/
def core (s : Store) : Library × Store :=
  registerAll empty s coreCallables

/-- Binds the values of a library in a scope. -/
def install (library : Library) (s : Store) (scope : Scope) : Store :=
  library.foldl (fun s entry => (s.define scope entry.1 entry.2).2) s

end Library

end Lisplet
