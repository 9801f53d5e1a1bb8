import Lisplet.Store

/-!
Expansion of forms before they are evaluated.

There are two rules. A var quote `#'name` becomes a var that holds what the name stands for at that time. A list whose
head is a symbol `.member` and that has a target becomes a member form, so `(.m t a)` becomes `(. t m a)`. Only the
form itself is expanded, not its parts, and it keeps its metadata. Expanding a form again makes other forms of it.
-/
namespace Lisplet

/-- The member that a symbol written with a leading point names. -/
def memberName? (text : String) : Option String :=
  match text.toList with
  | '.' :: c :: rest => some (String.ofList (c :: rest))
  | _ => none

namespace Form

/-- The name that a var quote quotes: the source text of its operand. -/
def quotedName? (form : Code) : Option String :=
  form.first?.bind (·.text?)

/-- The member form that a list stands for, made with the number `number`. -/
def memberCall? (form : Code) (number : Nat) : Option Code :=
  match form.children with
  | head :: target :: args =>
    if head.kind = .symbol then
      (head.text?.bind memberName?).map fun member =>
        ⟨.derived form.id number 0, .list,
          symbol (.derived form.id number 1) "." :: target :: symbol (.derived form.id number 2) member :: args, none,
          form.metadata⟩
    else none
  | _ => none

end Form

namespace Store

/-- A new var with the name, value and metadata of what `name` means in `scope`; it holds `nil` if that is nothing. -/
def snapshot (s : Store) (scope : Scope) (name : String) : Var × Store :=
  match s.lookup scope name with
  | some var => s.newVar var.name.toString (s.held var) (s.metadata var)
  | none => s.newVar name .nil .empty

/-- Applies the rule for `form`, if there is one. -/
def expandOnce? (s : Store) (scope : Scope) (form : Code) : Option (Code × Store) :=
  match form.kind with
  | .varQuote =>
    form.quotedName?.map fun name =>
      let (var, s) := s.snapshot scope name
      (⟨.derived form.id var.index 0, .var, [], some var, form.metadata⟩, s)
  | .list =>
    let (number, s) := s.newNumber
    (form.memberCall? number).map fun call => (call, s)
  | _ => none

/-- Applies rules to `form` until none is left, at most `limit` times. -/
def expandWithin (s : Store) (scope : Scope) : (limit : Nat) → Code → Code × Store
  | 0, form => (form, s)
  | limit + 1, form =>
    match s.expandOnce? scope form with
    | some (next, s) => s.expandWithin scope limit next
    | none => (form, s)

/-- Expands `form` as far as possible. No rule applies to what a rule makes, so one expansion is enough. -/
def expand (s : Store) (scope : Scope) (form : Code) : Code × Store :=
  s.expandWithin scope 1 form

/-- Expands each of `forms`, from left to right. -/
def expandAll (s : Store) (scope : Scope) : List Code → List Code × Store
  | [] => ([], s)
  | form :: rest =>
    let (form, s) := s.expand scope form
    let (rest, s) := s.expandAll scope rest
    (form :: rest, s)

end Store

end Lisplet
