import Lisplet.Proofs.Expansion
import Lisplet.Proofs.RootScope

/-! # Evaluating sources

How processes go on when they succeed, what `evalSource` does with what it reads, and what a fresh root scope leaves
as it was. -/

namespace Lisplet

/-! ### Processes -/

namespace Eval

variable {α β : Type} {host : Host} {form : Code} {scope : Scope} {s s' : Store} {v : Value}

theorem bind_ok {x : Eval α} {f : α → Eval β} {a : α} (h : x s = .ok a s') : (x >>= f) s = f a s' := by
  show EStateM.bind x f s = f a s'
  rw [EStateM.bind, h]

theorem mapError_ok {f : Error → Error} {process : Eval α} {a : α} (h : process s = .ok a s') :
    mapError f process s = .ok a s' := by
  rw [mapError, h]

theorem lookup_ok {name : String} (h : s.get scope name = .ok v) : lookup scope name s = .ok v s := by
  show ofExcept (s.get scope name) s = .ok v s
  rw [h]
  rfl

theorem expand_ok (h : s.expandOnce? scope form = none) : expand scope form s = .ok form s := by
  show EStateM.Result.ok (s.expand scope form).1 (s.expand scope form).2 = .ok form s
  rw [s.expand_eq_self h]

theorem run_evaluate_ok {levels : Nat} (hq : form.kind ≠ .varQuote) (hl : form.kind ≠ .list)
    (h : evalForm host (run host levels) form scope s = .ok v s') :
    run host (levels + 1) (.evaluate form scope) s = .ok v s' := by
  show (expand scope form >>= fun form => through form (evalForm host (run host levels) form scope)) s = .ok v s'
  rw [bind_ok (expand_ok (s.expandOnce?_eq_none scope hq hl))]
  exact mapError_ok h

end Eval

/-! ### Fresh root scopes -/

theorem Store.documents_newBase (s : Store) (extra : Library) : (s.newBase extra).2.documents = s.documents :=
  Store.newBase_induction (P := fun t => t.documents = s.documents) rfl id id (fun ht _ _ _ => ht) extra

/-! ### Sources -/

namespace Interpreter

variable {s : Store} {source : String}

theorem evalSource_eq (i : Interpreter) (source : String) (s : Store) :
    evalSource i source s =
      match i.settings.strictSyntax, (Document.read s.documents source : Document Value).errors with
      | true, error :: _ => .error (.failed (malformed error)) s
      | _, _ => i.evaluate (Document.read s.documents source).root { s with documents := s.documents + 1 } := by
  show (match i.settings.strictSyntax, (Document.read s.documents source : Document Value).errors with
    | true, error :: _ => throw (.failed (malformed error))
    | _, _ => do
      set { s with documents := s.documents + 1 }
      i.evaluate (Document.read s.documents source).root : Eval Value) s = _
  cases i.settings.strictSyntax <;> cases (Document.read s.documents source : Document Value).errors <;> rfl

/-- A source without errors is evaluated as the next document. -/
theorem evalSource_of_errors_eq_nil (i : Interpreter)
    (h : (Document.read s.documents source : Document Value).errors = []) :
    evalSource i source s =
      i.evaluate (Document.read s.documents source).root { s with documents := s.documents + 1 } := by
  rw [evalSource_eq, h]
  cases i.settings.strictSyntax <;> rfl

/-- A source is refused and nothing happens, or it is evaluated as the next document. -/
theorem evalSource_cases (i : Interpreter) (source : String) (s : Store) :
    (∃ error, evalSource i source s = .error (.failed error) s) ∨
    evalSource i source s =
      i.evaluate (Document.read s.documents source).root { s with documents := s.documents + 1 } := by
  rw [evalSource_eq]
  split
  · exact .inl ⟨_, rfl⟩
  · exact .inr rfl

end Interpreter

end Lisplet
