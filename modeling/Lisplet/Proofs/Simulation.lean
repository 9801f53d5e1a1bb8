import Lisplet.Proofs.Comparison

/-! # Two runs of the evaluator

What the evaluator does with counterparts comes to counterparts, for any lawful comparison. The proof goes through the
evaluator part by part, each part given that the tasks it asks for are treated so, and ends with an induction on the
levels. A special form may come to something that is less than a counterpart as a value; if that does not happen, all
tasks are treated so, whatever the number of levels. -/

namespace Lisplet.Comparison

open Eval
open Relator (LeftTotal)

/-- A way to do tasks that comes to counterparts for counterparts. -/
structure Treats (C : Comparison) (go : Task → Eval Value) : Prop where
  evaluate : ∀ {f g : Code}, C.form f g → ∀ scope, C.Sim C.value (go (.evaluate f scope)) (go (.evaluate g scope))
  invoke : ∀ {f g : Code}, C.caller f g → ∀ special scope,
    C.Sim C.given (go (.invoke special f scope)) (go (.invoke special g scope))
  call : ∀ {p q : Procedure Value} {args args' : List Value}, C.Procedures p q → List.Forall₂ C.value args args' →
    C.Sim C.value (go (.call p args)) (go (.call q args'))
  /-- The sequence that a body of several forms is made into. -/
  body : ∀ {f g : Code} {m n : Nat} {body body' : List Code}, C.caller f g → C.number m n →
    List.Forall₂ C.form body body' → ∀ scope,
    C.Sim C.given (go (.evaluate (f.implicitDo m body) scope)) (go (.evaluate (g.implicitDo n body') scope))

variable {C : Comparison} {host : Host} {go : Task → Eval Value} {f g : Code} {scope : Scope}

/-! ### Counterparts -/

namespace Lawful

variable (hC : C.Lawful host)
include hC

theorem total_vars : LeftTotal C.Vars := fun v => (hC.numbers v.index).imp' (⟨·, v.name⟩) fun _ h => ⟨rfl, h⟩

theorem text (h : C.form f g) (hword : f.kind.isWord = true) : f.text = g.text := by
  rw [Form.text, Form.text, hC.word h hword]

theorem symbolName (h : C.form f g) : EndsAlike C.cause Eq f.symbolName g.symbolName := by
  have hsame : f.symbolName = g.symbolName := by
    unfold Form.symbolName
    rw [← hC.kind h]
    split
    · next hsymbol => rw [hC.text h (by rw [hsymbol]; rfl)]
    · rfl
  rw [hsame]
  cases g.symbolName with
  | ok name => exact .ok rfl
  | error cause => exact .error (hC.sameCause cause)

theorem maxParams {forms forms' : List Code} (h : List.Forall₂ C.form forms forms') :
    Eval.maxParams forms = Eval.maxParams forms' := by
  induction h with
  | nil => rfl
  | cons hform _ ih => rw [Eval.maxParams, Eval.maxParams, hC.params hform, ih]

theorem get {s t : Store} (hs : C.store s t) (scope : Scope) (name : String) :
    EndsAlike C.cause C.value (s.get scope name) (t.get scope name) := by
  have hlookup := hC.lookup hs scope name
  unfold Store.get
  generalize s.lookup scope name = x at hlookup ⊢
  generalize t.lookup scope name = y at hlookup ⊢
  cases hlookup with
  | none => exact .error (by rw [hC.undefined hs]; exact hC.sameCause _)
  | some hvar => exact .ok (hC.held hs hvar)

theorem firstArgument {args args' : List Value} (h : List.Forall₂ C.value args args') :
    C.value (firstArgument args) (Lisplet.firstArgument args') := by
  cases h with
  | nil => exact hC.scalar rfl
  | cons h _ => exact h

theorem getLast {vs ws : List Value} (h : List.Forall₂ C.value vs ws) :
    C.value (vs.getLast?.getD .nil) (ws.getLast?.getD .nil) := by
  induction h with
  | nil => exact hC.scalar rfl
  | cons hfirst hrest ih =>
    cases hrest with
    | nil => exact hfirst
    | cons hnext hmore =>
      rw [List.getLast?_cons_cons, List.getLast?_cons_cons]
      exact ih

theorem expandAll {s t : Store} (hs : C.store s t) (scope : Scope) {forms forms' : List Code}
    (h : List.Forall₂ C.form forms forms') (hw : C.within (s.expandAll scope forms).2.cells.size) :
    List.Forall₂ C.form (s.expandAll scope forms).1 (t.expandAll scope forms').1 ∧
      C.store (s.expandAll scope forms).2 (t.expandAll scope forms').2 := by
  induction h generalizing s t with
  | nil => exact ⟨.nil, hs⟩
  | @cons form form' rest rest' hform _ ih =>
    have hgrows := (s.expand scope form).2.size_le_expandAll scope rest
    obtain ⟨hfirst, hs⟩ := hC.expand hs hform scope (C.within_of_le hgrows hw)
    obtain ⟨hrest, ht⟩ := ih hs hw
    exact ⟨.cons hfirst hrest, ht⟩

end Lawful

/-! ### Elementary processes -/

section Elementary

variable (hC : C.Lawful host)
include hC

theorem sim_newFunction {c d : Callable Value} (h : C.Callables c d) :
    C.Sim C.value (newFunction c) (newFunction d) := by
  refine .modifyGet (fun _ => Nat.le_refl _) fun s t hs _ => ?_
  obtain ⟨hsame, hstore⟩ := hC.identity hs
  refine ⟨?_, hstore⟩
  show C.value (.function s.identities c) (.function t.identities d)
  rw [hsame]
  exact hC.function h _

theorem sim_newNumber : C.Sim C.number newNumber newNumber :=
  .modifyGet (fun s => s.size_le_newVar "" .nil .empty) fun _ _ hs hw => hC.newNumber hs hw

theorem sim_newChild (scope : Scope) : C.Sim Eq (newChild scope) (newChild scope) :=
  .modifyGet (fun _ => Nat.le_refl _) fun _ _ hs _ => hC.newChild hs scope

theorem sim_defineWith (scope : Scope) (name : String) {v w : Value} (h : C.value v w) {m m' : Metadata Value}
    (hm : C.metadata m m') :
    C.Sim C.Vars (modifyGet fun s => s.define scope name v m) (modifyGet fun s => s.define scope name w m') :=
  .modifyGet (fun s => s.size_le_newVar name v m) fun _ _ hs hw => hC.define hs h hm scope name hw

theorem sim_define (scope : Scope) (name : String) {v w : Value} (h : C.value v w) :
    C.Sim C.Vars (define scope name v) (define scope name w) :=
  sim_defineWith hC scope name h hC.noMetadata

theorem sim_lookup (scope : Scope) (name : String) : C.Sim C.value (lookup scope name) (lookup scope name) :=
  .read hC fun _ _ hs => hC.get hs scope name

omit hC in
theorem lookupVar_eq (scope : Scope) (name : String) :
    lookupVar scope name = MonadState.get >>= fun s => Eval.ofExcept
      (match s.lookup scope name with
        | some var => .ok (.var var)
        | none => .error (s.undefined scope name)) := by
  unfold lookupVar
  congr 1
  funext s
  cases s.lookup scope name <;> rfl

theorem sim_lookupVar (scope : Scope) (name : String) :
    C.Sim C.value (lookupVar scope name) (lookupVar scope name) := by
  rw [lookupVar_eq]
  refine .read hC fun s t hs => ?_
  have hlookup := hC.lookup hs scope name
  generalize s.lookup scope name = x at hlookup ⊢
  generalize t.lookup scope name = y at hlookup ⊢
  cases hlookup with
  | none => exact .error (by rw [hC.undefined hs]; exact hC.sameCause _)
  | some hvar => exact .ok (hC.var hvar)

theorem sim_expandAll (scope : Scope) {forms forms' : List Code} (h : List.Forall₂ C.form forms forms') :
    C.Sim (List.Forall₂ C.form) (expandAll scope forms) (expandAll scope forms') :=
  .modifyGet (fun s => s.size_le_expandAll scope forms) fun _ _ hs hw => hC.expandAll hs scope h hw

theorem sim_ofMember {m n : Member} (h : C.Members m n) : C.Sim C.value (ofMember m) (ofMember n) := by
  cases h with
  | value h => exact .pure h
  | procedure h => exact sim_newFunction hC (.procedure h)

end Elementary

/-! ### Application -/

section Application

variable (hC : C.Lawful host)
include hC

theorem sim_evaluateAll (hgo : C.Treats go) (scope : Scope) {forms forms' : List Code}
    (h : List.Forall₂ C.form forms forms') :
    C.Sim (List.Forall₂ C.value) (evaluateAll go scope forms) (evaluateAll go scope forms') := by
  induction h with
  | nil => exact .pure .nil
  | cons hform _ ih =>
    refine .bind hC.values (hgo.evaluate hform scope) fun v w hv => ?_
    exact .bind (leftTotal_forall₂ hC.values) ih fun vs ws hvs => .pure (.cons hv hvs)

theorem sim_applyWith (hgo : C.Treats go) (hform : C.caller f g) {callee callee' : Value} (h : C.value callee callee')
    (scope : Scope) {args args' : Eval (List Value)} (hargs : C.Sim (List.Forall₂ C.value) args args') :
    C.Sim C.given (applyWith host go f callee scope args) (applyWith host go g callee' scope args') := by
  refine .attributed hC hform ?_
  rcases hC.callee h with ⟨identity, c, d, rfl, rfl, hcallable⟩ | ⟨hnot, hnot'⟩
  · cases hcallable with
    | special special => exact hgo.invoke hform special scope
    | hostForm name => exact .ofHost fun s t hs => hC.invoke hs hform name scope
    | procedure hp =>
      refine .bind (leftTotal_forall₂ hC.values) hargs fun values values' hvalues => ?_
      exact (hgo.call hp hvalues).imp hC.given
  · -- neither of the two can be called, so both applications fail
    split
    · exact absurd rfl (hnot _ _)
    · exact absurd rfl (hnot _ _)
    · exact absurd rfl (hnot _ _)
    · split
      · exact absurd rfl (hnot' _ _)
      · exact absurd rfl (hnot' _ _)
      · exact absurd rfl (hnot' _ _)
      · rw [hC.typeName h]
        exact .fail hC (hC.sameCause _)

theorem sim_applyToForms (hgo : C.Treats go) (hform : C.caller f g) {callee callee' : Value}
    (h : C.value callee callee') (scope : Scope) {args args' : List Code} (hargs : List.Forall₂ C.form args args') :
    C.Sim C.given (applyToForms host go f callee scope args) (applyToForms host go g callee' scope args') :=
  sim_applyWith hC hgo hform h scope (sim_evaluateAll hC hgo scope hargs)

theorem sim_applyToValues (hgo : C.Treats go) (hform : C.caller f g) {callee callee' : Value}
    (h : C.value callee callee') (scope : Scope) {args args' : List Value} (hargs : List.Forall₂ C.value args args') :
    C.Sim C.given (applyToValues host go f callee scope args) (applyToValues host go g callee' scope args') :=
  sim_applyWith hC hgo hform h scope (.pure hargs)

end Application

/-! ### Calls -/

section Calls

variable (hC : C.Lawful host)
include hC

theorem sim_wrongCount {r : Value → Value → Prop} (name : String) (expected : Nat) {args args' : List Value}
    (h : args.length = args'.length) :
    C.Sim r (fail (wrongCount name expected args)) (fail (wrongCount name expected args')) := by
  simp only [wrongCount, h]
  exact .fail hC (hC.sameCause _)

theorem sim_callBuiltin (function : Builtin) {args args' : List Value} (h : List.Forall₂ C.value args args') :
    C.Sim C.value (callBuiltin host function args) (callBuiltin host function args') := by
  have hlength := h.length_eq
  cases function with
  | get =>
    match args, args', h with
    | [target, key], [target', key'], .cons htarget (.cons hkey .nil) =>
      have hentry := hC.entry htarget hkey
      simp only [callBuiltin]
      generalize target.entry? host.fields key = x at hentry ⊢
      generalize target'.entry? host.fields key' = y at hentry ⊢
      cases hentry with
      | none => exact .pure (hC.scalar rfl)
      | some hfound => exact sim_ofMember hC hfound
    | [], [], _ => exact sim_wrongCount hC _ _ hlength
    | [_], [_], _ => exact sim_wrongCount hC _ _ hlength
    | _ :: _ :: _ :: _, _ :: _ :: _ :: _, _ => exact sim_wrongCount hC _ _ hlength
  | deref =>
    match args, args', h with
    | [v], [w], .cons hv .nil => exact .read hC fun s t hs => hC.deref hs hv
    | [], [], _ => exact sim_wrongCount hC _ _ hlength
    | _ :: _ :: _, _ :: _ :: _, _ => exact sim_wrongCount hC _ _ hlength
  | str =>
    have htexts : args.map Value.display = args'.map Value.display := by
      induction h with
      | nil => rfl
      | cons hv _ ih => rw [List.map_cons, List.map_cons, hC.display hv, ih (by simpa using hlength)]
    simp only [callBuiltin, htexts]
    exact .pure (hC.scalar rfl)
  | vec => exact .pure (hC.vector h)
  | set => exact .pure (hC.set h)

theorem sim_callHost (function : HostFunction) {args args' : List Value} (h : List.Forall₂ C.value args args') :
    C.Sim C.value (callHost host function args) (callHost host function args') := by
  have hresult : ∀ s t, C.store s t →
      EndsAlike C.failure C.value (hostResult host function args s) (hostResult host function args' t) := by
    intro s t hs
    unfold hostResult
    cases function.arity with
    | none => exact hC.call hs h function
    | some n =>
      simp only [wrongCount, h.length_eq]
      split
      · exact hC.call hs h function
      · exact .error (hC.ofCause (hC.sameCause _))
  refine ⟨fun s => ?_, fun s t hs _ => ?_⟩
  · simp only [left, callHost]
    cases hostResult host function args s <;> exact Nat.le_refl _
  · have hgiven := hresult s t hs
    have hrecord := hC.record hs h hgiven
    simp only [callHost]
    generalize hostResult host function args s = x at hgiven hrecord ⊢
    generalize hostResult host function args' t = y at hgiven hrecord ⊢
    cases hgiven with
    | ok hv => exact .ok hv hrecord
    | error he => exact .failed he hrecord

theorem sim_bindParams (scope : Scope) (params : List String) {args args' : List Value}
    (h : List.Forall₂ C.value args args') :
    C.Sim Eq (bindParams scope params args) (bindParams scope params args') := by
  induction params generalizing args args' with
  | nil => exact .pure rfl
  | cons param params ih =>
    refine .bind hC.total_vars (sim_define hC scope param (hC.firstArgument h)) fun _ _ _ => ?_
    exact ih (forall₂_tail h)

theorem sim_bindNumbered (scope : Scope) (n count : Nat) {args args' : List Value}
    (h : List.Forall₂ C.value args args') :
    C.Sim Eq (bindNumbered scope n count args) (bindNumbered scope n count args') := by
  induction count generalizing n args args' with
  | zero => exact .pure rfl
  | succ count ih =>
    have hfirst := hC.firstArgument h
    have hrest : C.Sim Eq
        (do let _ ← define scope ("%" ++ Nat.repr n) (firstArgument args)
            bindNumbered scope (n + 1) count args.tail)
        (do let _ ← define scope ("%" ++ Nat.repr n) (firstArgument args')
            bindNumbered scope (n + 1) count args'.tail) :=
      .bind hC.total_vars (sim_define hC scope _ hfirst) fun _ _ _ => ih (n + 1) (forall₂_tail h)
    unfold bindNumbered
    by_cases hn : n = 1
    · simp only [if_pos hn]
      exact .bind hC.total_vars (sim_define hC scope "%" hfirst) fun _ _ _ => hrest
    · simp only [if_neg hn]
      exact hrest

theorem sim_bindSelf (scope : Scope) (name : Option String) {p q : Procedure Value} (h : C.Procedures p q) :
    C.Sim Eq (bindSelf scope name p) (bindSelf scope name q) := by
  cases name with
  | none => exact .pure rfl
  | some name =>
    refine .bind hC.values (sim_newFunction hC (.procedure h)) fun self self' hself => ?_
    exact .bind hC.total_vars (sim_define hC scope name hself) fun _ _ _ => .pure rfl

theorem sim_call (hgo : C.Treats go) {p q : Procedure Value} (hp : C.Procedures p q) {args args' : List Value}
    (h : List.Forall₂ C.value args args') : C.Sim C.given (call host go p args) (call host go q args') := by
  cases hp with
  | builtin function => exact (sim_callBuiltin hC function h).imp hC.given
  | method hm => exact (Sim.ofExcept hC (hC.method hm h)).imp hC.given
  | host function => exact (sim_callHost hC function h).imp hC.given
  | closure name params hbody scope =>
    refine .bind leftTotal_eq (sim_newChild hC scope) fun inner _ hinner => ?_
    subst hinner
    refine .bind leftTotal_eq (sim_bindSelf hC inner name (.closure name params hbody scope)) fun _ _ _ => ?_
    refine .bind leftTotal_eq (sim_bindParams hC inner params h) fun _ _ _ => ?_
    exact (hgo.evaluate hbody inner).imp hC.given
  | anonymous hform hhead hargs params scope =>
    simp only [call, h.length_eq]
    refine .through hC (hC.caller hform) (.bind leftTotal_eq (sim_newChild hC scope) fun inner _ hinner => ?_)
    subst hinner
    refine .bind leftTotal_eq (sim_bindNumbered hC inner 1 _ h) fun _ _ _ => ?_
    refine .bind hC.values (hgo.evaluate hhead scope) fun callee callee' hcallee => ?_
    exact sim_applyToForms hC hgo (hC.caller hform) hcallee inner hargs

end Calls

/-! ### Special forms -/

section Special

variable (hC : C.Lawful host)
include hC

theorem sim_badArguments {r : Value → Value → Prop} (special : Special) (reason : String) :
    C.Sim r (badArguments special reason) (badArguments special reason) := .fail hC (hC.sameCause _)

theorem sim_unexpected {α β : Type} {r : α → β → Prop} (expected : String) (h : C.form f g) :
    C.Sim r (unexpected expected f) (unexpected expected g) := by
  unfold unexpected
  rw [hC.kind h]
  exact .failAt hC h (hC.sameCause _)

theorem sim_evaluateOrNil (hgo : C.Treats go) (scope : Scope) {value value' : Option Code}
    (h : Option.Rel C.form value value') :
    C.Sim C.value (evaluateOrNil go value scope) (evaluateOrNil go value' scope) := by
  cases h with
  | none => exact .pure (hC.scalar rfl)
  | some hvalue => exact hgo.evaluate hvalue scope

theorem sim_evalIf (hgo : C.Treats go) (h : C.caller f g) (scope : Scope) :
    C.Sim C.value (evalIf go f scope) (evalIf go g scope) := by
  have hargs := hC.arguments h
  unfold evalIf
  generalize f.arguments = args at hargs ⊢
  generalize g.arguments = args' at hargs ⊢
  cases hargs with
  | nil => exact sim_badArguments hC _ _
  | cons hcondition hbranches =>
    refine .bind hC.values (hgo.evaluate hcondition scope) fun v w hv => ?_
    rw [hC.isTruthy hv]
    exact sim_evaluateOrNil hC hgo scope (rel_getElem? hbranches _)

theorem sim_evalDo (hgo : C.Treats go) (h : C.caller f g) (scope : Scope) :
    C.Sim C.value (evalDo go f scope) (evalDo go g scope) :=
  .bind (leftTotal_forall₂ hC.values) (sim_evaluateAll hC hgo scope (hC.arguments h)) fun _ _ hvs =>
    .pure (hC.getLast hvs)

/-- A tag, if there is one, and a symbol with the same text. -/
def Defined (C : Comparison) (defined defined' : Option Code × Code) : Prop :=
  Option.Rel C.form defined.1 defined'.1 ∧ defined.2.text = defined'.2.text

theorem total_defined : LeftTotal (Defined C) := fun defined =>
  (leftTotal_option hC.forms defined.1).imp' (·, defined.2) fun _ h => ⟨h, rfl⟩

theorem sim_definedName (h : C.form f g) : C.Sim (Defined C) (definedName f) (definedName g) := by
  have hfirst : Option.Rel C.form f.first? g.first? := rel_getElem? (hC.children h) 0
  have hsecond : Option.Rel C.form f.second? g.second? := rel_getElem? (hC.children h) 1
  unfold definedName
  rw [← hC.kind h]
  split
  · next hsymbol => exact .pure ⟨.none, hC.text h (by rw [hsymbol]; rfl)⟩
  · generalize f.first? = first at hfirst ⊢
    generalize g.first? = first' at hfirst ⊢
    generalize f.second? = second at hsecond ⊢
    generalize g.second? = second' at hsecond ⊢
    cases hfirst with
    | none => exact sim_unexpected hC "symbol" h
    | some htag =>
      cases hsecond with
      | none => exact sim_unexpected hC "symbol" h
      | some htarget =>
        simp only [← hC.kind htarget]
        split
        · next hsymbol => exact .pure ⟨.some htag, hC.text htarget (by rw [hsymbol]; rfl)⟩
        · exact sim_unexpected hC "symbol" h
  · exact sim_unexpected hC "symbol" h

theorem sim_docMetadata (hgo : C.Treats go) (scope : Scope) {doc doc' : Option Code} (h : Option.Rel C.form doc doc') :
    C.Sim C.metadata (docMetadata go doc scope) (docMetadata go doc' scope) := by
  cases h with
  | none => exact .pure hC.noMetadata
  | some hdoc =>
    simp only [docMetadata, ← hC.kind hdoc]
    split
    · exact .bind hC.values (hgo.evaluate hdoc scope) fun _ _ htext => .pure (hC.docMetadata htext)
    · exact .pure hC.noMetadata

theorem sim_tagMetadata (hgo : C.Treats go) (scope : Scope) {tag tag' : Option Code} (h : Option.Rel C.form tag tag') :
    C.Sim C.metadata (tagMetadata go tag scope) (tagMetadata go tag' scope) := by
  cases h with
  | none => exact .pure hC.noMetadata
  | some htag =>
    exact .bind hC.values (hgo.evaluate htag scope) fun _ _ hv => .ofExceptAt hC htag (hC.asMetadata hv)

theorem sim_evalDefine (hgo : C.Treats go) (scope : Scope) {name name' : Code} (hname : C.form name name')
    {doc doc' value value' : Option Code} (hdoc : Option.Rel C.form doc doc')
    (hvalue : Option.Rel C.form value value') :
    C.Sim C.value (evalDefine go name doc value scope) (evalDefine go name' doc' value' scope) := by
  refine .bind (total_defined hC) (sim_definedName hC hname) ?_
  rintro ⟨tag, symbol⟩ ⟨tag', symbol'⟩ ⟨htag, htext⟩
  refine .bind hC.known (sim_docMetadata hC hgo scope hdoc) fun said said' hsaid => ?_
  refine .bind hC.known (sim_tagMetadata hC hgo scope htag) fun tagged tagged' htagged => ?_
  refine .bind hC.values (sim_evaluateOrNil hC hgo scope hvalue) fun v w hv => ?_
  simp only at htext
  rw [htext]
  exact .bind hC.total_vars (sim_defineWith hC scope symbol'.text hv (hC.merge hsaid htagged)) fun _ _ hvar =>
    .pure (hC.var hvar)

theorem sim_evalDef (hgo : C.Treats go) (h : C.caller f g) (scope : Scope) :
    C.Sim C.value (evalDef go f scope) (evalDef go g scope) := by
  have hargs := hC.arguments h
  unfold evalDef
  match f.arguments, g.arguments, hargs with
  | [], [], .nil => exact sim_badArguments hC _ _
  | [_], [_], .cons hname .nil => exact sim_evalDefine hC hgo scope hname .none .none
  | [_, _], [_, _], .cons hname (.cons hvalue .nil) => exact sim_evalDefine hC hgo scope hname .none (.some hvalue)
  | [_, _, _], [_, _, _], .cons hname (.cons hdoc (.cons hvalue .nil)) =>
    exact sim_evalDefine hC hgo scope hname (.some hdoc) (.some hvalue)
  | _ :: _ :: _ :: _ :: _, _ :: _ :: _ :: _ :: _, _ => exact sim_badArguments hC _ _

theorem sim_readMember {v w : Value} (h : C.value v w) (name : String) :
    C.Sim C.value
      (match v.member? host.fields name with
        | some found => ofMember found
        | none => pure .nil)
      (match w.member? host.fields name with
        | some found => ofMember found
        | none => pure .nil) := by
  have hmember := hC.member h name
  generalize v.member? host.fields name = m at hmember ⊢
  generalize w.member? host.fields name = n at hmember ⊢
  cases hmember with
  | none => exact .pure (hC.scalar rfl)
  | some hfound => exact sim_ofMember hC hfound

theorem sim_callMember (hgo : C.Treats go) (hform : C.caller f g) (scope : Scope) {args args' : List Code}
    (hargs : List.Forall₂ C.form args args') {v w : Value} (h : C.value v w) (name : String) :
    C.Sim C.given
      (match v.member? host.fields name with
        | some found => do
          let method ← ofMember found
          let values ← evaluateAll go scope args
          applyToValues host go f method scope values
        | none => fail (.missingMember name v.typeName))
      (match w.member? host.fields name with
        | some found => do
          let method ← ofMember found
          let values ← evaluateAll go scope args'
          applyToValues host go g method scope values
        | none => fail (.missingMember name w.typeName)) := by
  have hmember := hC.member h name
  rw [hC.typeName h]
  generalize v.member? host.fields name = m at hmember ⊢
  generalize w.member? host.fields name = n at hmember ⊢
  cases hmember with
  | none => exact .fail hC (hC.sameCause _)
  | some hfound =>
    refine .bind hC.values (sim_ofMember hC hfound) fun method method' hmethod => ?_
    refine .bind (leftTotal_forall₂ hC.values) (sim_evaluateAll hC hgo scope hargs) fun values values' hvalues => ?_
    exact sim_applyToValues hC hgo hform hmethod scope hvalues

theorem sim_evalMember (hgo : C.Treats go) (h : C.caller f g) (scope : Scope) :
    C.Sim C.given (evalMember host go f scope) (evalMember host go g scope) := by
  have hargs := hC.arguments h
  unfold evalMember
  match f.arguments, g.arguments, hargs with
  | [], [], .nil => exact sim_badArguments hC _ _
  | [_], [_], .cons _ .nil => exact sim_badArguments hC _ _
  | _ :: _ :: _, _ :: _ :: _, .cons htarget (.cons hmember hrest) =>
    refine .bind leftTotal_eq (.ofExceptAt hC hmember (hC.symbolName hmember)) fun name _ hname => ?_
    subst hname
    refine .bind hC.values (hgo.evaluate htarget scope) fun v w hv => ?_
    split
    · exact (sim_readMember hC hv _).imp hC.given
    · exact sim_callMember hC hgo h scope hrest hv name

theorem sim_paramNames {forms forms' : List Code} (h : List.Forall₂ C.form forms forms') :
    C.Sim Eq (paramNames forms) (paramNames forms') := by
  induction h with
  | nil => exact .pure rfl
  | cons hform _ ih =>
    refine .bind leftTotal_eq (.ofExceptAt hC hform (hC.symbolName hform)) fun name _ hname => ?_
    refine .bind leftTotal_eq ih fun names _ hnames => .pure ?_
    rw [hname, hnames]

theorem sim_evalClosure (h : C.caller f g) (name : Option String) {rest rest' : List Code}
    (hrest : List.Forall₂ C.form rest rest') (scope : Scope) :
    C.Sim C.given (evalClosure f name rest scope) (evalClosure g name rest' scope) := by
  cases hrest with
  | nil => exact sim_badArguments hC _ _
  | cons hparams hbody =>
    simp only [evalClosure, ← hC.kind hparams]
    split
    · refine .bind leftTotal_eq (sim_paramNames hC (hC.children hparams)) fun names _ hnames => ?_
      subst hnames
      cases hbody with
      | nil => exact sim_badArguments hC _ _
      | cons hfirst hmore =>
        cases hmore with
        | nil => exact (sim_newFunction hC (.procedure (.closure name names hfirst scope))).imp hC.given
        | cons hsecond hmore =>
          refine .bind hC.numbers (sim_newNumber hC) fun m n hnumber => ?_
          refine .modifyGet (fun _ => Nat.le_refl _) fun s t hs _ => ?_
          obtain ⟨hsame, hstore⟩ := hC.identity hs
          refine ⟨?_, hstore⟩
          show C.given (.function s.identities _) (.function t.identities _)
          rw [hsame]
          exact hC.closure h hnumber (.cons hfirst (.cons hsecond hmore)) _ name names scope
    · exact sim_unexpected hC "parameters vector" hparams

theorem sim_evalFn (h : C.caller f g) (scope : Scope) : C.Sim C.given (evalFn f scope) (evalFn g scope) := by
  have hargs := hC.arguments h
  unfold evalFn
  generalize f.arguments = args at hargs ⊢
  generalize g.arguments = args' at hargs ⊢
  cases hargs with
  | nil => exact sim_evalClosure hC h none .nil scope
  | cons hfirst hrest =>
    simp only [← hC.kind hfirst]
    split
    · next hsymbol =>
      rw [hC.text hfirst (by rw [hsymbol]; rfl)]
      exact sim_evalClosure hC h _ hrest scope
    · exact sim_evalClosure hC h none (.cons hfirst hrest) scope

theorem sim_bindAll (hgo : C.Treats go) (scope : Scope) : {forms forms' : List Code} →
    List.Forall₂ C.form forms forms' → C.Sim Eq (bindAll go scope forms) (bindAll go scope forms')
  | _, _, .nil => .pure rfl
  | _, _, .cons _ .nil => .pure rfl
  | _, _, .cons hname (.cons hvalue hrest) => by
    refine .bind leftTotal_eq (.ofExceptAt hC hname (hC.symbolName hname)) fun text _ htext => ?_
    subst htext
    refine .bind hC.values (hgo.evaluate hvalue scope) fun v w hv => ?_
    exact .bind hC.total_vars (sim_define hC scope text hv) fun _ _ _ => sim_bindAll hgo scope hrest

theorem sim_evalBody (hgo : C.Treats go) (h : C.caller f g) {body body' : List Code}
    (hbody : List.Forall₂ C.form body body') (scope : Scope) :
    C.Sim C.given (evalBody go f body scope) (evalBody go g body' scope) := by
  match hbody with
  | .nil => exact .pure (hC.given (hC.scalar rfl))
  | .cons hsingle .nil => exact (hgo.evaluate hsingle scope).imp hC.given
  | .cons hfirst (.cons hsecond hmore) =>
    exact .bind hC.numbers (sim_newNumber hC) fun m n hnumber =>
      hgo.body h hnumber (.cons hfirst (.cons hsecond hmore)) scope

theorem sim_evalLet (hgo : C.Treats go) (h : C.caller f g) (scope : Scope) :
    C.Sim C.given (evalLet go f scope) (evalLet go g scope) := by
  have hargs := hC.arguments h
  unfold evalLet
  generalize f.arguments = args at hargs ⊢
  generalize g.arguments = args' at hargs ⊢
  cases hargs with
  | nil => exact sim_badArguments hC _ _
  | cons hbindings hbody =>
    simp only [← hC.kind hbindings, ← (hC.children hbindings).length_eq]
    split
    · split
      · refine .bind leftTotal_eq (sim_newChild hC scope) fun inner _ hinner => ?_
        subst hinner
        refine .bind leftTotal_eq (sim_bindAll hC hgo inner (hC.children hbindings)) fun _ _ _ => ?_
        exact sim_evalBody hC hgo h hbody inner
      · exact .failAt hC hbindings (hC.sameCause _)
    · exact sim_unexpected hC "bindings vector" hbindings

theorem sim_evalApply (hgo : C.Treats go) (h : C.caller f g) (scope : Scope) :
    C.Sim C.given (evalApply host go f scope) (evalApply host go g scope) := by
  have hargs := sim_evaluateAll hC hgo scope (hC.arguments h)
  refine .bind (leftTotal_forall₂ hC.values) hargs fun values values' hvs => ?_
  match values, values', hvs with
  | [_, _], [_, _], .cons hcallee (.cons hargs .nil) =>
    refine .bind (leftTotal_forall₂ hC.values) (.ofExcept hC (hC.toSeq hargs)) fun items items' hitems => ?_
    exact sim_applyToValues hC hgo h hcallee scope hitems
  | [], [], _ => exact sim_badArguments hC _ _
  | [_], [_], _ => exact sim_badArguments hC _ _
  | _ :: _ :: _ :: _, _ :: _ :: _ :: _, _ => exact sim_badArguments hC _ _

theorem sim_evalVar (special : Special) (h : C.caller f g) (scope : Scope) :
    C.Sim C.value (evalVar special f scope) (evalVar special g scope) := by
  have hargs := hC.arguments h
  unfold evalVar
  generalize f.arguments = args at hargs ⊢
  generalize g.arguments = args' at hargs ⊢
  cases hargs with
  | nil => exact sim_badArguments hC _ _
  | cons hsymbol _ =>
    refine .bind leftTotal_eq (.ofExcept hC (hC.symbolName hsymbol)) fun name _ hname => ?_
    subst hname
    exact sim_lookupVar hC scope name

theorem sim_evalQuote (h : C.caller f g) : C.Sim C.value (evalQuote f) (evalQuote g) := by
  have hargs := hC.arguments h
  unfold evalQuote
  generalize f.arguments = args at hargs ⊢
  generalize g.arguments = args' at hargs ⊢
  cases hargs with
  | nil => exact .pure (hC.scalar rfl)
  | cons hquoted _ => exact .pure (hC.quoted hquoted)

/-- The keyword that values name: one string or keyword does. -/
def keywordOf : List Value → Eval Value
  | [v] =>
    match v.asKey with
    | .ok (.string name) => pure (.ofKeyword name)
    | .ok (.keyword name) => pure (.keyword name)
    | .error _ => badArguments .keyword "expected a name string"
  | _ => badArguments .keyword "expected a name string"

omit hC in
theorem evalKeyword_eq (h : f.kind ≠ .keyword) :
    evalKeyword go f scope = evaluateAll go scope f.arguments >>= keywordOf := by
  rw [evalKeyword, if_neg h]
  congr 1
  funext values
  rcases values with _ | ⟨v, _ | ⟨w, rest⟩⟩
  · rfl
  · cases v <;> rfl
  · cases v <;> rfl

theorem sim_keywordOf {vs ws : List Value} (h : List.Forall₂ C.value vs ws) :
    C.Sim C.value (keywordOf vs) (keywordOf ws) := by
  match h with
  | .nil => exact sim_badArguments hC _ _
  | .cons hv .nil =>
    simp only [keywordOf, hC.asKey hv]
    split
    · exact .pure (hC.scalar rfl)
    · exact .pure (hC.scalar rfl)
    · exact sim_badArguments hC _ _
  | .cons _ (.cons _ _) => exact sim_badArguments hC _ _

theorem sim_evalKeyword (hgo : C.Treats go) (h : C.caller f g) (scope : Scope) :
    C.Sim C.value (evalKeyword go f scope) (evalKeyword go g scope) := by
  obtain ⟨hiff, htext⟩ := hC.keyword h
  by_cases hkeyword : f.kind = .keyword
  · simp only [evalKeyword, if_pos hkeyword, if_pos (hiff.mp hkeyword), htext hkeyword]
    exact .pure (hC.scalar rfl)
  · rw [evalKeyword_eq hkeyword, evalKeyword_eq (mt hiff.mpr hkeyword)]
    exact .bind (leftTotal_forall₂ hC.values) (sim_evaluateAll hC hgo scope (hC.arguments h)) fun _ _ hvs =>
      sim_keywordOf hC hvs

omit hC in
theorem ofExcept_map {α β : Type} (k : α → β) (x : Except Cause α) :
    (Eval.ofExcept x >>= fun a => pure (k a)) = Eval.ofExcept (x.map k) := by
  cases x <;> rfl

theorem sim_evalMap (hgo : C.Treats go) (h : C.caller f g) (scope : Scope) :
    C.Sim C.value (evalMap go f scope) (evalMap go g scope) := by
  have hargs := hC.arguments h
  unfold evalMap
  rw [hargs.length_eq]
  split
  · refine .bind (leftTotal_forall₂ hC.values) (sim_evaluateAll hC hgo scope hargs) fun vs ws hvs => ?_
    rw [ofExcept_map, ofExcept_map]
    exact .ofExcept hC (hC.map hvs)
  · exact sim_badArguments hC _ _

theorem sim_invoke (hgo : C.Treats go) (h : C.caller f g) (special : Special) (scope : Scope) :
    C.Sim C.given (invoke host go special f scope) (invoke host go special g scope) := by
  cases special with
  | conditional => exact (sim_evalIf hC hgo h scope).imp hC.given
  | sequence => exact (sim_evalDo hC hgo h scope).imp hC.given
  | define => exact (sim_evalDef hC hgo h scope).imp hC.given
  | member => exact sim_evalMember hC hgo h scope
  | function => exact sim_evalFn hC h scope
  | letIn => exact sim_evalLet hC hgo h scope
  | apply => exact sim_evalApply hC hgo h scope
  | var => exact (sim_evalVar hC .var h scope).imp hC.given
  | quote => exact (sim_evalQuote hC h).imp hC.given
  | keyword => exact (sim_evalKeyword hC hgo h scope).imp hC.given
  | unquote | unquoteSplicing => exact .fail hC (hC.unquote h)
  | map => exact (sim_evalMap hC hgo h scope).imp hC.given
  | macroVar => exact (sim_evalVar hC .macroVar h scope).imp hC.given

end Special

/-! ### The evaluator -/

section Evaluator

variable (hC : C.Lawful host)
include hC

/-- Words of the same text are the same literal. -/
theorem sim_ofLiteral (h : C.form f g) (hword : f.kind.isWord = true) (literal : String → Option Value)
    (hscalar : ∀ text v, literal text = some v → v.isScalar = true) :
    C.Sim C.value (ofLiteral f (literal f.text)) (ofLiteral g (literal g.text)) := by
  rw [← hC.text h hword]
  unfold ofLiteral
  rw [← hC.text h hword]
  cases hliteral : literal f.text with
  | none => exact .fail hC (hC.sameCause _)
  | some v => exact .pure (hC.scalar (hscalar _ v hliteral))

theorem sim_evalLambda (h : C.form f g) (scope : Scope) : C.Sim C.value (evalLambda f scope) (evalLambda g scope) := by
  refine .bind (leftTotal_forall₂ hC.forms) (sim_expandAll hC scope (hC.children h)) fun forms forms' hforms => ?_
  cases hforms with
  | nil => exact .fail hC (hC.sameCause _)
  | cons hhead hargs =>
    dsimp only
    rw [hC.maxParams (hC.children h)]
    exact sim_newFunction hC (.procedure (.anonymous h hhead hargs _ scope))

theorem sim_evalList (hgo : C.Treats go) (h : C.form f g) (scope : Scope) :
    C.Sim C.given (evalList host go f scope) (evalList host go g scope) := by
  refine .bind (leftTotal_forall₂ hC.forms) (sim_expandAll hC scope (hC.children h)) fun forms forms' hforms => ?_
  cases hforms with
  | nil => exact .fail hC (hC.sameCause _)
  | cons hhead hargs =>
    exact .bind hC.values (hgo.evaluate hhead scope) fun _ _ hcallee =>
      sim_applyToForms hC hgo (hC.caller h) hcallee scope hargs

theorem sim_evalSugar (hgo : C.Treats go) (h : C.form f g) (scope : Scope) :
    C.Sim C.given (evalSugar host go f scope) (evalSugar host go g scope) := by
  unfold evalSugar
  rw [← hC.kind h]
  cases f.kind.sugarTarget? with
  | none => exact .fail hC (hC.sameCause _)
  | some name =>
    exact .bind hC.values (sim_lookup hC scope name) fun _ _ hcallee =>
      sim_applyToForms hC hgo (hC.caller h) hcallee scope (hC.children h)

theorem sim_evalForm (hgo : C.Treats go) (h : C.form f g) (scope : Scope) :
    C.Sim C.given (evalForm host go f scope) (evalForm host go g scope) := by
  have hsugar := sim_evalSugar hC hgo h scope
  unfold evalForm
  rw [← hC.kind h]
  cases hkind : f.kind with
  | var =>
    have hbinding := hC.binding h
    dsimp only
    generalize f.binding = x at hbinding ⊢
    generalize g.binding = y at hbinding ⊢
    cases hbinding with
    | none => exact .fail hC (hC.sameCause _)
    | some hvar => exact .pure (hC.given (hC.var hvar))
  | quote =>
    have hfirst : Option.Rel C.form f.first? g.first? := rel_getElem? (hC.children h) 0
    dsimp only
    generalize f.first? = x at hfirst ⊢
    generalize g.first? = y at hfirst ⊢
    cases hfirst with
    | none => exact .fail hC (hC.sameCause _)
    | some hquoted => exact .pure (hC.given (hC.quoted hquoted))
  | string =>
    refine (sim_ofLiteral hC h (by rw [hkind]; rfl) (fun text => (Literal.string? text).map .string)
      fun text v hv => ?_).imp hC.given
    obtain ⟨_, -, rfl⟩ := Option.map_eq_some_iff.mp hv
    rfl
  | hexLiteral =>
    refine (sim_ofLiteral hC h (by rw [hkind]; rfl) (fun text => (Literal.hex? text).map .int)
      fun text v hv => ?_).imp hC.given
    obtain ⟨_, -, rfl⟩ := Option.map_eq_some_iff.mp hv
    rfl
  | number | negNumber =>
    refine (sim_ofLiteral hC h (by rw [hkind]; rfl) (fun text => (Literal.number? text).map .ofNumber)
      fun text v hv => ?_).imp hC.given
    obtain ⟨number, -, rfl⟩ := Option.map_eq_some_iff.mp hv
    cases number <;> rfl
  | symbol | paramName =>
    dsimp only
    rw [hC.text h (by rw [hkind]; rfl)]
    exact (sim_lookup hC scope g.text).imp hC.given
  | lambda => exact (sim_evalLambda hC h scope).imp hC.given
  | list => exact sim_evalList hC hgo h scope
  | _ => exact hsugar

theorem sim_evaluate (hgo : C.Treats go) (h : C.form f g) (scope : Scope) :
    C.Sim C.given (evaluate host go f scope) (evaluate host go g scope) := by
  have hexpand : C.Sim C.form (expand scope f) (expand scope g) :=
    .modifyGet (fun s => s.size_le_expand scope f) fun _ _ hs hw => hC.expand hs h scope hw
  exact .bind hC.forms hexpand fun _ _ hform => .through hC (hC.caller hform) (sim_evalForm hC hgo hform scope)

theorem treats_step (hfull : C.IsFull) (hgo : C.Treats go) : C.Treats (step host go) where
  evaluate h scope := (sim_evaluate hC hgo h scope).imp hfull.value
  invoke h special scope := sim_invoke hC hgo h special scope
  call hp h := (sim_call hC hgo hp h).imp hfull.value
  body h hnumber hbody scope := sim_evaluate hC hgo (hfull.implicitDo h hnumber hbody) scope

/-- All tasks come to counterparts for counterparts, whatever the number of levels. -/
theorem treats_run (hfull : C.IsFull) (levels : Nat) : C.Treats (run host levels) := by
  induction levels with
  | zero =>
    have hzero : ∀ (r : Value → Value → Prop) (task task' : Task), C.Sim r (run host 0 task) (run host 0 task') :=
      fun _ _ _ => ⟨fun _ => Nat.le_refl _, fun _ _ hs _ => .exhausted hs⟩
    exact ⟨fun _ _ => hzero _ _ _, fun _ _ _ => hzero _ _ _, fun _ _ => hzero _ _ _, fun _ _ _ _ => hzero _ _ _⟩
  | succ levels ih => exact treats_step hC hfull ih

end Evaluator

end Lisplet.Comparison
