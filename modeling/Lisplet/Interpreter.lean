import Lisplet.Document
import Lisplet.Eval.Run
import Lisplet.Library
import Lisplet.Settings

/-!
Interpreters.

An interpreter evaluates sources in a root scope of its own, which starts with the special forms, the core library, a
library of the host and the literals `nil`, `true` and `false`. Several interpreters may share one store.
-/
namespace Lisplet

/-- The special forms that every root scope starts with. -/
def basicForms : List Special :=
  [.conditional, .sequence, .define, .member, .function, .letIn]

/-- The names of literals, and their values. -/
def literalValues : List (String × Value) :=
  [("nil", .nil), ("true", .bool true), ("false", .bool false)]

/-- A new root scope with everything that a script can rely on; literals win over the names of `extra`. -/
def Store.newBase (s : Store) (extra : Library) : Scope × Store :=
  let (scope, s) := s.newRoot
  let (forms, s) := Library.registerAll .empty s (basicForms.map .special)
  let s := forms.install s scope
  let (core, s) := Library.core s
  let s := core.install s scope
  let s := extra.install s scope
  (scope, Library.install literalValues s scope)

/-- An interpreter: the host it runs in, its settings, its root scope, and how deep evaluations may go. -/
structure Interpreter where
  host : Host
  settings : Settings
  scope : Scope
  levels : Nat

namespace Interpreter

/-- How deep evaluations may go if nothing else is asked for. -/
def defaultLevels : Nat := 100000

/-- A new interpreter. -/
def create (host : Host) (settings : Settings) (library : Library) (s : Store) : Interpreter × Store :=
  let (scope, s) := s.newBase library
  (⟨host, settings, scope, defaultLevels⟩, s)

/-- Does a task. -/
def run (i : Interpreter) (task : Task) : Eval Value :=
  Eval.run i.host i.levels task

/-- The value of a form in the root scope. -/
def evaluate (i : Interpreter) (form : Code) : Eval Value :=
  i.run (.evaluate form i.scope)

/-- The failure that a malformed form is. -/
def malformed (form : Code) : Error :=
  (Error.ofCause (.malformed (form.metadata.start.getD 0) (form.metadata.stop.getD 0) form.text)).attributeTo form

/-- Reads a source as the next document. -/
def read (source : String) : Eval (Document Value) :=
  modifyGet fun s => (.read s.documents source, { s with documents := s.documents + 1 })

/-- The value of a source: of its forms in sequence. In strict mode a malformed source is refused, and nothing
    happens. -/
def evalSource (i : Interpreter) (source : String) : Eval Value := do
  let s ← get
  let document : Document Value := .read s.documents source
  match i.settings.strictSyntax, document.errors with
  | true, error :: _ => throw (.failed (malformed error))
  | _, _ => do
    set { s with documents := s.documents + 1 }
    i.evaluate document.root

end Interpreter

end Lisplet
