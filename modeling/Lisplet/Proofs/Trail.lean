import Lisplet.Proofs.Course

/-! # Where failures came from

A failure is attributed to the first form that is named for it, and its trail holds the source texts of the forms it has
passed. So the failure of a form ends in the source text of that form, and whatever failed in its course is what it
failed for: of the same cause, attributed to the same form, with a trail that starts with the earlier one. -/

namespace Lisplet

open EStateM (Result)

theorem Error.exists_place_through (form : Code) (error : Error) :
    ∃ place, (error.through form).place = some place ∧ place.trail.getLast? = some (form.text?.getD "???") := by
  unfold Error.through
  dsimp only
  split
  · exact ⟨_, rfl, List.getLast?_concat ..⟩
  · exact ⟨_, rfl, rfl⟩

namespace Eval

variable {host : Host} {form : Code} {scope : Scope} {s t : Store} {error : Error}

/-- A failure comes out of a form through what the form was expanded to. -/
theorem exists_of_run_evaluate_failed {levels : Nat}
    (h : run host levels (.evaluate form scope) s = .error (.failed error) t) :
    ∃ inner : Error, error = inner.through (s.expand scope form).1 := by
  cases levels with
  | zero => cases h
  | succ levels =>
    -- the form is expanded first, and all that can fail after that passes `through` what it became
    change mapError (·.through (s.expand scope form).1)
      (evalForm host (run host levels) (s.expand scope form).1 scope) (s.expand scope form).2 = _ at h
    unfold mapError at h
    split at h
    · cases h
    · next inner _ _ =>
      cases h
      exact ⟨inner, rfl⟩
    · cases h

theorem exists_place_of_run_evaluate_failed {levels : Nat}
    (h : run host levels (.evaluate form scope) s = .error (.failed error) t) :
    ∃ place, error.place = some place ∧ place.trail.getLast? = some (form.text?.getD "???") := by
  obtain ⟨inner, rfl⟩ := exists_of_run_evaluate_failed h
  obtain ⟨place, hplace, hlast⟩ := inner.exists_place_through (s.expand scope form).1
  refine ⟨place, hplace, hlast.trans ?_⟩
  rw [Form.text?, Form.text?, s.metadata_expand scope form]

/-- If a form fails, the failure is attributed and its trail ends in the source text of the form. If a form fails that
    is evaluated in its course, it fails with that failure: cause and attribution are those, and the trail goes on from
    there. -/
theorem run_evaluate_located (host : Host) (levels : Nat) (form : Code) (scope : Scope) (s : Store) :
    (∀ error t, run host levels (.evaluate form scope) s = .error (.failed error) t →
      ∃ place, error.place = some place ∧ place.trail.getLast? = some (form.text?.getD "???")) ∧
    ∀ left part inner u error t, Begins host levels (.evaluate form scope) s left (.evaluate part inner) u →
      run host left (.evaluate part inner) u = .error (.failed error) t →
      ∃ place later further, error.place = some place ∧
        run host levels (.evaluate form scope) s = .error (.failed later) t ∧ later.cause = error.cause ∧
        later.place = some further ∧ further.form = place.form ∧ place.trail <+: further.trail := by
  refine ⟨fun error t h => exists_place_of_run_evaluate_failed h, ?_⟩
  intro left part inner u error t hbegins hfails
  obtain ⟨place, hplace, -⟩ := exists_place_of_run_evaluate_failed hfails
  obtain ⟨later, hlater, hbecomes⟩ := hbegins.fails hfails
  obtain ⟨further, hfurther, hform, htrail⟩ := hbecomes.place place hplace
  exact ⟨place, later, further, hplace, hlater, hbecomes.cause, hfurther, hform, htrail⟩

/-! ### A failing body -/

/-- A symbol that nothing is bound to. -/
def unboundSymbol : Code := .symbol (.read 0 [0]) "missing"

/-- A function whose body is that symbol. -/
def failingClosure : Procedure Value := .closure none [] unboundSymbol 0

/-- A store in which `f` is that function. -/
def closureStore : Store := (Store.empty.newRoot.2.define 0 "f" (.function 0 (.procedure failingClosure))).2

/-- A call of `f`. -/
def closureCall : Code := ⟨.read 1 [], .list, [.symbol (.read 1 [0]) "f"], none, .withText "(f)"⟩

/-- After the head the call asks for what the head gives. -/
theorem asks_closureCall :
    Asks (fun go => step Host.bare go (.evaluate closureCall 0) closureStore) (run Host.bare 2)
      (.call failingClosure []) closureStore := by
  have hhead : run Host.bare 2 (.evaluate (.symbol (.read 1 [0]) "f") 0) closureStore =
      .ok (.function 0 (.procedure failingClosure)) closureStore := rfl
  refine .after (·.through closureCall)
    (fun go f => through closureCall (applyToForms Host.bare go closureCall f 0 [])) ?_ hhead (by simp) ?_
  · intro go
    show mapError _ (go _ >>= _) closureStore = _
    rw [mapError, bind_apply]
    cases go (.evaluate (.symbol (.read 1 [0]) "f") 0) closureStore with
    | ok v t => rfl
    | error stop t => cases stop <;> rfl
  · refine .first (fun error => (error.attributeTo closureCall).through closureCall) (fun _ v => pure v) ?_ rfl
    intro go
    show mapError _ (mapError _ (go (.call failingClosure []))) closureStore = _
    rw [mapError, mapError]
    cases go (.call failingClosure []) closureStore with
    | ok v t => rfl
    | error stop t => cases stop <;> rfl

/-- Calling the function asks for its body, in a scope of its own. -/
theorem asks_failingClosure :
    Asks (fun go => step Host.bare go (.call failingClosure []) closureStore) (run Host.bare 1)
      (.evaluate unboundSymbol 1) (closureStore.newChild 0).2 := by
  refine .first id (fun _ v => pure v) ?_ rfl
  intro go
  show go (.evaluate unboundSymbol 1) (closureStore.newChild 0).2 = _
  cases go (.evaluate unboundSymbol 1) (closureStore.newChild 0).2 with
  | ok v t => rfl
  | error stop t => cases stop <;> rfl

theorem run_evaluate_located_closureCall :
    ∃ cause t later further, run Host.bare 1 (.evaluate unboundSymbol 1) (closureStore.newChild 0).2 =
        .error (.failed ⟨cause, some ⟨unboundSymbol, ["missing"]⟩⟩) t ∧
      run Host.bare 3 (.evaluate closureCall 0) closureStore = .error (.failed later) t ∧ later.cause = cause ∧
      later.place = some further ∧ further.form = unboundSymbol ∧ ["missing"] <+: further.trail ∧
      further.trail.getLast? = some "(f)" := by
  have hbody : run Host.bare 1 (.evaluate unboundSymbol 1) (closureStore.newChild 0).2 =
      .error (.failed ⟨.undefined "missing" [], some ⟨unboundSymbol, ["missing"]⟩⟩) (closureStore.newChild 0).2 := rfl
  have hbegins : Begins Host.bare 3 (.evaluate closureCall 0) closureStore 1 (.evaluate unboundSymbol 1)
      (closureStore.newChild 0).2 := .asks asks_closureCall (.asks asks_failingClosure (.refl _ _ _))
  have hlocated := run_evaluate_located Host.bare 3 closureCall 0 closureStore
  obtain ⟨place, later, further, hplace, hlater, hcause, hfurther, hform, htrail⟩ :=
    hlocated.2 1 unboundSymbol 1 _ _ _ hbegins hbody
  obtain rfl := Option.some.inj hplace
  obtain ⟨last, hlast, hend⟩ := hlocated.1 later _ hlater
  obtain rfl := Option.some.inj (hfurther.symm.trans hlast)
  exact ⟨_, _, later, further, hbody, hlater, hcause, hfurther, hform, htrail, hend⟩

end Eval

end Lisplet
