import Lisplet.Proofs.Orderly

/-! # Forms evaluated in order

Of forms that are evaluated in order, each is evaluated once, in the store that the one before it has left. Either all
of them give values, or one of them stops and none after it is evaluated. Both are told by relations, so that what
forms do can be spoken of without the process that does it. -/

namespace Lisplet

open EStateM (Result)

namespace Eval

variable {go : Task → Eval Value} {scope : Scope} {s t : Store} {forms : List Code} {values : List Value} {stop : Stop}

/-- The forms give the values, each in the store that the one before has left, and the last leaves the last store. -/
inductive Yields (go : Task → Eval Value) (scope : Scope) : Store → List Code → List Value → Store → Prop
  | nil (s : Store) : Yields go scope s [] [] s
  | cons {s t u : Store} {form : Code} {rest : List Code} {v : Value} {values : List Value}
      (first : go (.evaluate form scope) s = .ok v t) (others : Yields go scope t rest values u) :
      Yields go scope s (form :: rest) (v :: values) u

/-- Some forms give values, and the one after them stops, which leaves the last store. -/
inductive Halts (go : Task → Eval Value) (scope : Scope) : Store → List Code → Stop → Store → Prop
  | here {s t : Store} {form : Code} {stop : Stop} (h : go (.evaluate form scope) s = .error stop t)
      (rest : List Code) : Halts go scope s (form :: rest) stop t
  | later {s t u : Store} {form : Code} {rest : List Code} {v : Value} {stop : Stop}
      (first : go (.evaluate form scope) s = .ok v t) (others : Halts go scope t rest stop u) :
      Halts go scope s (form :: rest) stop u

theorem bind_error {α β : Type} {p : Eval α} {f : α → Eval β} (h : p s = .error stop t) :
    (p >>= f) s = .error stop t := by
  rw [bind_apply, h]
  rfl

theorem Yields.length_eq (h : Yields go scope s forms values t) : values.length = forms.length := by
  induction h with
  | nil => rfl
  | cons _ _ ih => rw [List.length_cons, List.length_cons, ih]

theorem Yields.evaluateAll (h : Yields go scope s forms values t) : evaluateAll go scope forms s = .ok values t := by
  induction h with
  | nil => rfl
  | cons first _ ih =>
    rw [Eval.evaluateAll, bind_apply, first, follow, bind_apply, ih]
    rfl

theorem Halts.evaluateAll (h : Halts go scope s forms stop t) : evaluateAll go scope forms s = .error stop t := by
  induction h with
  | here h => exact bind_error h
  | later first _ ih =>
    rw [Eval.evaluateAll, bind_apply, first]
    exact bind_error ih

theorem yields_or_halts (go : Task → Eval Value) (scope : Scope) (s : Store) (forms : List Code) :
    (∃ values t, Yields go scope s forms values t) ∨ ∃ stop t, Halts go scope s forms stop t := by
  induction forms generalizing s with
  | nil => exact .inl ⟨[], s, .nil s⟩
  | cons form rest ih =>
    cases hfirst : go (.evaluate form scope) s with
    | error stop t => exact .inr ⟨stop, t, .here hfirst rest⟩
    | ok v t =>
      rcases ih t with ⟨values, u, hrest⟩ | ⟨stop, u, hrest⟩
      · exact .inl ⟨v :: values, u, .cons hfirst hrest⟩
      · exact .inr ⟨stop, u, .later hfirst hrest⟩

end Eval

/-! ### Out of a form -/

/-- The stop of something that a form applies, when it comes out of the form. -/
def Stop.outOf (form : Code) : Stop → Stop
  | .failed error => .failed ((error.attributeTo form).through form)
  | .exhausted => .exhausted

namespace Eval

/-- The outcome of something that a form applies, when it comes out of the form. -/
def outOf (form : Code) : Result Stop Store Value → Result Stop Store Value
  | .ok v s => .ok v s
  | .error stop s => .error (stop.outOf form) s

theorem through_attributed (form : Code) (p : Eval Value) (s : Store) :
    through form (attributed form p) s = outOf form (p s) := by
  unfold through attributed mapError
  cases p s with
  | ok v t => rfl
  | error stop t => cases stop <;> rfl

end Eval

end Lisplet
