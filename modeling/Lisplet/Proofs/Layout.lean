import Lisplet.Proofs.Alike
import Lisplet.Proofs.Simulation

/-! # Evaluation does not see layout

Code in another layout comes to the same up to layout, without a host. Nothing that the evaluator does by itself looks
further than skeletons, so layout is a lawful comparison: stores, values and forms that are alike are counterparts, and
so are failures for causes of one kind. -/

namespace Lisplet

/-- Counterparts differ in the layout of code only; failures have causes of one kind. -/
def Comparison.layout : Comparison where
  within _ := True
  within_of_le _ _ := trivial
  store := Store.Alike
  number := Eq
  value := Value.Alike
  given := Value.Alike
  method m n := m.skeleton = n.skeleton
  metadata _ _ := True
  form := Form.Alike
  caller := Form.Alike
  cause c d := c.ctorIdx = d.ctorIdx
  failure a b := a.cause.ctorIdx = b.cause.ctorIdx

namespace Comparison.Layout

/-! ### Counterparts -/

theorem vars_eq {v w : Var} (h : layout.Vars v w) : v = w := by
  obtain ⟨name, index⟩ := v
  obtain ⟨name', index'⟩ := w
  obtain ⟨rfl, rfl⟩ := h
  rfl

theorem vars_refl (v : Var) : layout.Vars v v := ⟨rfl, rfl⟩

theorem skeleton_of_procedures {p q : Procedure Value} (h : layout.Procedures p q) : p.skeleton = q.skeleton := by
  cases h with
  | builtin function => rfl
  | method h => rw [Procedure.skeleton, Procedure.skeleton, show Method.skeleton _ = _ from h]
  | host function => rfl
  | closure name params h scope => rw [Procedure.skeleton, Procedure.skeleton, Form.Alike.skeleton h]
  | anonymous hform hhead hargs params scope =>
    rw [Procedure.skeleton, Procedure.skeleton, Form.Alike.skeleton hform, Form.Alike.skeleton hhead,
      Form.map_of_forall₂ hargs]

/-- A skeleton keeps the constructor, and the code in it has its skeleton. -/
theorem procedures_of_skeleton {p q : Procedure Value} (h : p.skeleton = q.skeleton) : layout.Procedures p q := by
  cases p <;> cases q <;>
    simp only [Procedure.skeleton, Procedure.builtin.injEq, Procedure.method.injEq, Procedure.closure.injEq,
      Procedure.anonymous.injEq, Procedure.host.injEq, reduceCtorEq] at h
  case builtin.builtin function _ =>
    subst h
    exact .builtin function
  case method.method m n => exact .method h
  case host.host function _ =>
    subst h
    exact .host function
  case closure.closure name params body scope _ _ body' _ =>
    obtain ⟨rfl, rfl, hbody, rfl⟩ := h
    exact .closure name params hbody scope
  case anonymous.anonymous form head args params scope form' head' args' _ _ =>
    obtain ⟨hform, hhead, hargs, rfl, rfl⟩ := h
    exact .anonymous hform hhead (Form.forall₂_of_map hargs) params scope

theorem skeleton_of_callables {c d : Callable Value} (h : layout.Callables c d) : c.skeleton = d.skeleton := by
  cases h with
  | special special => rfl
  | hostForm name => rfl
  | procedure h => exact congrArg Callable.procedure (skeleton_of_procedures h)

theorem callables_of_skeleton {c d : Callable Value} (h : c.skeleton = d.skeleton) : layout.Callables c d := by
  cases c <;> cases d <;>
    simp only [Callable.skeleton, Callable.special.injEq, Callable.hostForm.injEq, Callable.procedure.injEq,
      reduceCtorEq] at h
  case special.special special _ =>
    subst h
    exact .special special
  case hostForm.hostForm name _ =>
    subst h
    exact .hostForm name
  case procedure.procedure p q => exact .procedure (procedures_of_skeleton h)

theorem members_of_skeleton {m n : Member} (h : m.skeleton = n.skeleton) : layout.Members m n := by
  cases m <;> cases n <;>
    simp only [Member.skeleton, Member.value.injEq, Member.procedure.injEq, reduceCtorEq] at h
  · exact .value h
  · exact .procedure (procedures_of_skeleton h)

theorem rel_members {m n : Option Member} (h : m.map Member.skeleton = n.map Member.skeleton) :
    Option.Rel layout.Members m n := by
  cases m <;> cases n <;> simp only [Option.map_some, Option.map_none, reduceCtorEq, Option.some.injEq] at h
  · exact .none
  · exact .some (members_of_skeleton h)

/-- Results that are the same after `k`: what they give agrees after it, and they fail for the same cause. -/
theorem endsAlike_of_map {α γ : Type} {k : α → γ} {x y : Except Cause α} (h : x.map k = y.map k) :
    EndsAlike layout.cause (fun a b => k a = k b) x y := by
  cases x <;> cases y <;> simp only [Except.map, Except.ok.injEq, Except.error.injEq, reduceCtorEq] at h
  · exact .error (congrArg Cause.ctorIdx h)
  · exact .ok h

theorem skeletons_of_forall₂ {vs ws : List Value} (h : List.Forall₂ Value.Alike vs ws) :
    Value.skeletons vs = Value.skeletons ws := by
  rw [Value.skeletons_eq_map, Value.skeletons_eq_map, ← List.forall₂_eq_eq_eq, List.forall₂_map_left_iff,
    List.forall₂_map_right_iff]
  exact h

theorem callee {v w : Value} (h : v.Alike w) :
    (∃ identity c d, v = .function identity c ∧ w = .function identity d ∧ layout.Callables c d) ∨
      (∀ identity c, v ≠ .function identity c) ∧ ∀ identity c, w ≠ .function identity c := by
  by_cases hfun : ∃ identity c, v = .function identity c
  · obtain ⟨identity, c, rfl⟩ := hfun
    obtain ⟨d, rfl, hcallable⟩ := h.eq_function
    exact .inl ⟨identity, c, d, rfl, rfl, callables_of_skeleton hcallable⟩
  · refine .inr ⟨fun identity c hv => hfun ⟨identity, c, hv⟩, ?_⟩
    rintro identity c rfl
    obtain ⟨d, rfl, -⟩ := h.symm.eq_function
    exact hfun ⟨identity, d, rfl⟩

theorem map {vs ws : List Value} (h : Value.skeletons vs = Value.skeletons ws) :
    EndsAlike layout.cause Value.Alike ((Eval.mapEntries [] vs).map .map) ((Eval.mapEntries [] ws).map .map) := by
  have hentries : (Eval.mapEntries [] vs).map Value.skeletonEntries =
      (Eval.mapEntries [] ws).map Value.skeletonEntries := by
    rw [← Value.mapEntries_skeletons vs [], h, Value.mapEntries_skeletons ws []]
  generalize Eval.mapEntries [] vs = x at hentries ⊢
  generalize Eval.mapEntries [] ws = y at hentries ⊢
  cases endsAlike_of_map hentries with
  | ok hsame => exact .ok (congrArg Value.map hsame)
  | error hcause => exact .error hcause

theorem method {m n : Method Value} (h : m.skeleton = n.skeleton) {args others : List Value}
    (hargs : Value.skeletons args = Value.skeletons others) :
    EndsAlike layout.cause Value.Alike (m.run args) (n.run others) :=
  endsAlike_of_map (by rw [← Method.run_skeleton, h, hargs, Method.run_skeleton])

/-! ### The laws -/

theorem lawful : layout.Lawful Host.bare where
  numbers := leftTotal_eq
  values v := ⟨v, rfl⟩
  known _ := ⟨.empty, trivial⟩
  forms form := ⟨form, rfl⟩
  sameCause _ := rfl
  unquote _ := rfl
  ofCause h := h
  attributeTo _ h := by
    show Cause.ctorIdx _ = Cause.ctorIdx _
    rw [(Error.Becomes.attributeTo _ _).cause, (Error.Becomes.attributeTo _ _).cause]
    exact h
  through _ h := by
    show Cause.ctorIdx _ = Cause.ctorIdx _
    rw [(Error.Becomes.through _ _).cause, (Error.Becomes.through _ _).cause]
    exact h
  kind h := h.kind
  word h := h.text?
  children h := h.children
  binding {f g} h := by
    rw [h.binding]
    cases g.binding with
    | none => exact .none
    | some var => exact .some (vars_refl var)
  params h := by rw [← Eval.maxParam_skeleton, Form.Alike.skeleton h, Eval.maxParam_skeleton]
  caller h := h
  arguments h := h.arguments
  keyword h := ⟨by rw [h.kind], fun hkeyword => h.text (by rw [hkeyword]; rfl)⟩
  scalar _ := rfl
  quoted h := congrArg Value.form h
  var h := by
    rw [vars_eq h]
    rfl
  vector h := congrArg Value.vector (skeletons_of_forall₂ h)
  set h := by
    show Value.skeleton _ = Value.skeleton _
    rw [← Value.ofItems_skeletons, skeletons_of_forall₂ h, Value.ofItems_skeletons]
  map h := map (skeletons_of_forall₂ h)
  function h identity := congrArg (Value.function identity) (skeleton_of_callables h)
  given h := h
  closure h hnumber hbody identity name params scope := by
    obtain rfl := hnumber
    exact congrArg (Value.function identity) (skeleton_of_callables
      (.procedure (.closure name params (Form.Alike.implicitDo _ h hbody) scope)))
  callee h := callee h
  typeName {v w} h := by rw [← Value.typeName_skeleton v, h.skeleton, Value.typeName_skeleton]
  isTruthy h := h.isTruthy
  display {v w} h := by rw [← Value.display_skeleton v, h.skeleton, Value.display_skeleton]
  asKey h := h.asKey
  toSeq h := (endsAlike_of_map h.toSeq).imp Value.forall₂_of_skeletons
  member h name := rel_members (h.member? name)
  entry h hkey := rel_members (h.entry? hkey)
  method h hargs := method h (skeletons_of_forall₂ hargs)
  noMetadata := trivial
  docMetadata _ := trivial
  asMetadata h := (endsAlike_of_map h.asMetadata).imp fun _ => trivial
  merge _ _ := trivial
  lookup {s t} h scope name := by
    rw [h.lookup]
    cases t.lookup scope name with
    | none => exact .none
    | some var => exact .some (vars_refl var)
  undefined h := h.undefined
  held h hvar := by
    rw [← vars_eq hvar]
    exact h.held _
  deref h hv := endsAlike_of_map (h.deref hv)
  identity h := ⟨h.identities, h.frames, h.cells, congrArg (· + 1) h.identities, h.documents⟩
  newNumber h _ := h.newNumber
  newChild h scope := h.newChild scope
  define h hv _ scope name _ := by
    obtain ⟨hvar, hstore⟩ := h.define scope name hv _ _
    refine ⟨?_, hstore⟩
    rw [hvar]
    exact vars_refl _
  expand h hform scope _ := h.expand scope hform
  record h _ _ := ⟨h.frames, h.cells, h.identities, h.documents⟩
  call _ _ _ := .error rfl
  invoke _ _ _ _ := .error rfl

theorem isFull : layout.IsFull where
  value h := h
  implicitDo h hnumber hbody := by
    obtain rfl := hnumber
    exact h.implicitDo _ hbody

end Comparison.Layout

end Lisplet
