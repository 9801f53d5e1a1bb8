import Lisplet.Proofs.Lawful

/-! # The course of a task

Every step is orderly: under a lawful discipline it asks only for tasks that keep to the discipline and lie below its
own (`keeps_step`). So whatever is begun in the course of a task keeps to the discipline, and so does its outcome. -/

namespace Lisplet.Eval

variable {d : Discipline} {A : Task → Prop} {host : Host} {form : Code} {scope : Scope}

/-! ### What may be asked for -/

/-- Forms lighter than `form` may be evaluated. -/
def Hands (d : Discipline) (A : Task → Prop) (form : Code) : Prop :=
  ∀ ⦃part : Code⦄, d.form part → part.weight < form.weight → ∀ scope, A (.evaluate part scope)

/-- A value may be applied as `form` asks in `scope`. -/
structure Applies (d : Discipline) (A : Task → Prop) (form : Code) (scope : Scope) : Prop where
  special : ∀ {special : Special}, (∀ identity, d.value (.function identity (.special special))) →
    A (.invoke special form scope)
  procedure : ∀ {p : Procedure Value} {args : List Value}, (∀ identity, d.value (.function identity (.procedure p))) →
    (∀ arg ∈ args, d.value arg) → A (.call p args)

theorem Hands.part (hA : Hands d A form) (hd : d.Lawful host) (hform : d.form form) {part : Code}
    (h : part ∈ form.children) (scope : Scope) : A (.evaluate part scope) :=
  hA (hd.part hform h) (Form.weight_lt_of_mem h) scope

theorem Hands.argument (hA : Hands d A form) (hd : d.Lawful host) (hform : d.form form) {part : Code}
    (h : part ∈ form.arguments) (scope : Scope) : A (.evaluate part scope) :=
  hA.part hd hform (Form.mem_children_of_mem_arguments h) scope

/-! ### Application -/

theorem keeps_evaluateAll {forms : List Code} (h : ∀ part ∈ forms, A (.evaluate part scope)) :
    Keeps d A (fun values => ∀ v ∈ values, d.value v) fun go => evaluateAll go scope forms := by
  induction forms with
  | nil => exact .pure (by simp)
  | cons form rest ih =>
    refine .bind (.ask (h form (by simp))) fun v hv => ?_
    refine .bind (ih fun part hp => h part (List.mem_cons_of_mem _ hp)) fun vs hvs => .pure ?_
    simpa using ⟨hv, hvs⟩

theorem keeps_applyWith (hd : d.Lawful host) (hform : d.form form) (hA : Applies d A form scope) {f : Value}
    (hf : d.value f) {args : (Task → Eval Value) → Eval (List Value)}
    (hargs : Keeps d A (fun values => ∀ v ∈ values, d.value v) args) :
    Keeps d A d.value fun go => applyWith host go form f scope (args go) := by
  refine .attributed form ?_
  cases f with
  | function identity callable =>
    cases callable with
    | special special => exact .ask (hA.special fun _ => hd.function hf)
    | hostForm name =>
      intro s hs
      show Orderly d A d.value fun _ => ofHost (host.invoke name form scope) s
      unfold ofHost
      cases hr : host.invoke name form scope s with
      | ok v => exact .ok (hd.invoke hs hform hr) hs
      | error error => exact .failed (d.fails hs error)
    | procedure p =>
      exact .bind hargs fun values hvalues => .ask (hA.procedure (fun _ => hd.function hf) hvalues)
  | _ => exact .fail _

theorem keeps_applyToForms (hd : d.Lawful host) (hform : d.form form) (hA : Applies d A form scope) {f : Value}
    (hf : d.value f) {args : List Code} (hargs : ∀ part ∈ args, A (.evaluate part scope)) :
    Keeps d A d.value fun go => applyToForms host go form f scope args :=
  keeps_applyWith hd hform hA hf (keeps_evaluateAll hargs)

theorem keeps_applyToValues (hd : d.Lawful host) (hform : d.form form) (hA : Applies d A form scope) {f : Value}
    (hf : d.value f) {args : List Value} (hargs : ∀ arg ∈ args, d.value arg) :
    Keeps d A d.value fun go => applyToValues host go form f scope args :=
  keeps_applyWith hd hform hA hf (.pure hargs)

/-! ### Calls -/

theorem keeps_callBuiltin (hd : d.Lawful host) (function : Builtin) {args : List Value}
    (h : ∀ arg ∈ args, d.value arg) : Keeps d A d.value fun _ => callBuiltin host function args := by
  unfold callBuiltin
  split
  · next target key =>
    cases hfound : target.entry? host.fields key with
    | some found => exact keeps_ofMember hd (hd.values.entry? hd.fields (h target (by simp)) hfound)
    | none => exact .pure (hd.values.plain rfl)
  · exact .fail _
  · next v =>
    refine .get_bind fun s hs => .ofExcept fun held hheld => ?_
    cases v with
    | var var =>
      obtain rfl := Except.ok.inj hheld
      exact hd.held hs (h _ (by simp))
    | _ => cases hheld
  · exact .fail _
  · exact .pure (hd.values.plain rfl)
  · exact .pure (hd.values.vector.mpr h)
  · exact .pure (hd.values.ofItems h)

theorem keeps_callHost (hd : d.Lawful host) (function : HostFunction) {args : List Value}
    (h : ∀ arg ∈ args, d.value arg) : Keeps d A d.value fun _ => callHost host function args := by
  intro s hs
  have hresult : ∀ v, hostResult host function args s = .ok v → d.value v := by
    intro v hv
    unfold hostResult at hv
    split at hv
    · split at hv
      · exact hd.call hs h hv
      · cases hv
    · exact hd.call hs h hv
  show Orderly d A d.value fun _ => callHost host function args s
  unfold callHost
  cases hr : hostResult host function args s with
  | ok v => exact .ok (hresult v hr) (hd.called hs function args v)
  | error error => exact .failed (hd.refused hs function args error)

theorem keeps_bindParams (hd : d.Lawful host) (scope : Scope) {params : List String}
    (hparams : ∀ name ∈ params, d.name name) {args : List Value} (h : ∀ arg ∈ args, d.value arg) :
    Keeps d A (fun _ => True) fun _ => bindParams scope params args := by
  induction params generalizing args with
  | nil => exact .pure trivial
  | cons param params ih =>
    obtain ⟨hfirst, hrest⟩ := List.forall_mem_cons.mp hparams
    refine .bind (keeps_define hd scope hfirst (hd.values.firstArgument h)) fun _ _ => ih hrest ?_
    exact fun arg ha => h arg (List.mem_of_mem_tail ha)

theorem keeps_bindSelf (hd : d.Lawful host) (scope : Scope) {self : Option String} (hself : ∀ name ∈ self, d.name name)
    {p : Procedure Value} (h : ∀ identity, d.value (.function identity (.procedure p))) :
    Keeps d A (fun _ => True) fun _ => bindSelf scope self p := by
  cases self with
  | none => exact .pure trivial
  | some name =>
    refine .bind (keeps_newFunction hd h) fun f hf => ?_
    exact .bind (keeps_define hd scope (hself name rfl) hf) fun _ _ => .pure trivial

/-- A call asks for something only if the procedure was made by a script. -/
theorem keeps_call (hd : d.Lawful host) {p : Procedure Value} {args : List Value} (h : d.Allows (.call p args))
    (hA : p.isScripted = true → ∀ task, d.Allows task → A task) :
    Keeps d A d.value fun go => call host go p args := by
  obtain ⟨hp, hargs⟩ := h
  cases p with
  | builtin function => exact keeps_callBuiltin hd function hargs
  | method method => exact .ofExcept fun _ hv => hd.values.of_run hv
  | host function => exact keeps_callHost hd function hargs
  | closure self params body scope =>
    obtain ⟨hself, hparams, hbody⟩ := hd.body (hp 0)
    refine .bind (keeps_newChild hd scope) fun inner _ => ?_
    refine .bind (keeps_bindSelf hd inner hself hp) fun _ _ => ?_
    refine .bind (keeps_bindParams hd inner hparams hargs) fun _ _ => ?_
    exact .ask (hA rfl (.evaluate body inner) hbody)
  | anonymous form head forms params scope =>
    -- the head is evaluated where the function was made, its arguments in the scope of the call
    obtain ⟨hform, hhead, hforms⟩ := hd.forms (hp 0)
    refine .through form (.openCall hd hargs scope _ fun inner => ?_)
    refine .bind (.ask (hA rfl (.evaluate head scope) hhead)) fun f hf => ?_
    have happlies : Applies d A form inner :=
      ⟨fun hspecial => hA rfl _ ⟨hspecial, hform⟩, fun hp hargs => hA rfl _ ⟨hp, hargs⟩⟩
    exact keeps_applyToForms hd hform happlies hf fun part hpart => hA rfl (.evaluate part inner) (hforms part hpart)

/-! ### Special forms -/

theorem keeps_evaluateOrNil (hd : d.Lawful host) {value : Option Code}
    (h : ∀ code ∈ value, A (.evaluate code scope)) : Keeps d A d.value fun go => evaluateOrNil go value scope := by
  cases value with
  | none => exact .pure (hd.values.plain rfl)
  | some code => exact .ask (h code rfl)

theorem keeps_evalIf (hd : d.Lawful host) (hform : d.form form) (hA : Hands d A form) :
    Keeps d A d.value fun go => evalIf go form scope := by
  have hargs : ∀ part ∈ form.arguments, A (.evaluate part scope) := fun part h => hA.argument hd hform h scope
  unfold evalIf
  generalize form.arguments = args at hargs ⊢
  cases args with
  | nil => exact .fail _
  | cons condition branches =>
    refine .bind (.ask (hargs condition (by simp))) fun v _ => ?_
    refine keeps_evaluateOrNil hd fun branch hb => ?_
    exact hargs branch (List.mem_cons_of_mem _ (List.mem_of_getElem? hb))

theorem keeps_evalDo (hd : d.Lawful host) (hform : d.form form) (hA : Hands d A form) :
    Keeps d A d.value fun go => evalDo go form scope := by
  refine .bind (keeps_evaluateAll fun part h => hA.argument hd hform h scope) fun values hvalues => .pure ?_
  cases hlast : values.getLast? with
  | none => exact hd.values.plain rfl
  | some v => exact hvalues v (List.mem_of_getLast? hlast)

theorem keeps_definedName (hd : d.Lawful host) {name : Code} (hname : d.form name) :
    Keeps d A (fun defined : Option Code × Code => (∀ tag ∈ defined.1, tag ∈ name.children) ∧ d.name defined.2.text)
      fun _ => definedName name := by
  unfold definedName
  split
  · next hkind => exact .pure ⟨by simp, hd.symbol hname (by simp [Form.symbolName, hkind])⟩
  · split
    · next tag target hfirst hsecond =>
      split
      · next hkind =>
        have htarget : d.form target := hd.part hname (List.mem_of_getElem? hsecond)
        exact .pure ⟨by simpa using List.mem_of_getElem? hfirst, hd.symbol htarget (by simp [Form.symbolName, hkind])⟩
      · exact .failAt _ _
    · exact .failAt _ _
  · exact .failAt _ _

theorem keeps_docMetadata {doc : Option Code} (h : ∀ code ∈ doc, A (.evaluate code scope)) :
    Keeps d A (fun _ => True) fun go => docMetadata go doc scope := by
  cases doc with
  | none => exact .pure trivial
  | some code =>
    unfold docMetadata
    by_cases hk : code.kind = .string
    · simp only [if_pos hk]
      exact .bind (.ask (h code rfl)) fun text _ => .pure trivial
    · simp only [if_neg hk]
      exact .pure trivial

theorem keeps_tagMetadata {tag : Option Code} (h : ∀ code ∈ tag, A (.evaluate code scope)) :
    Keeps d A (fun _ => True) fun go => tagMetadata go tag scope := by
  cases tag with
  | none => exact .pure trivial
  | some code => exact .bind (.ask (h code rfl)) fun v _ => .ofExceptAt code fun _ _ => trivial

theorem keeps_evalDefine (hd : d.Lawful host) {name : Code} (hname : d.form name)
    (htag : ∀ tag ∈ name.children, A (.evaluate tag scope)) {doc value : Option Code}
    (hdoc : ∀ code ∈ doc, A (.evaluate code scope)) (hvalue : ∀ code ∈ value, A (.evaluate code scope)) :
    Keeps d A d.value fun go => evalDefine go name doc value scope := by
  refine .bind (keeps_definedName hd hname) fun defined ⟨hparts, hdefined⟩ => ?_
  refine .bind (keeps_docMetadata hdoc) fun said _ => ?_
  refine .bind (keeps_tagMetadata fun tag hmem => htag tag (hparts tag hmem)) fun tagged _ => ?_
  refine .bind (keeps_evaluateOrNil hd hvalue) fun v hv => ?_
  refine .bind (.modifyGet (P := fun var => d.value (.var var)) fun s hs => ?_) fun var hvar => .pure hvar
  exact hd.define hs hv hdefined scope _

theorem keeps_evalDef (hd : d.Lawful host) (hform : d.form form) (hA : Hands d A form) :
    Keeps d A d.value fun go => evalDef go form scope := by
  have hargs : ∀ part ∈ form.arguments, A (.evaluate part scope) := fun part h => hA.argument hd hform h scope
  -- the parts of the name may be evaluated because they are lighter than the name
  have htag : ∀ name ∈ form.arguments, ∀ tag ∈ name.children, A (.evaluate tag scope) := by
    intro name hname tag htag
    have hmem := Form.mem_children_of_mem_arguments hname
    have hweight := Nat.lt_trans (Form.weight_lt_of_mem htag) (Form.weight_lt_of_mem hmem)
    exact hA (hd.part (hd.part hform hmem) htag) hweight scope
  have hforms : ∀ part ∈ form.arguments, d.form part :=
    fun part h => hd.part hform (Form.mem_children_of_mem_arguments h)
  unfold evalDef
  generalize form.arguments = args at hargs htag hforms ⊢
  match args with
  | [] => exact .fail _
  | [name] => exact keeps_evalDefine hd (hforms name (by simp)) (htag name (by simp)) (by simp) (by simp)
  | [name, value] =>
    refine keeps_evalDefine hd (hforms name (by simp)) (htag name (by simp)) (by simp) ?_
    simpa using hargs value (by simp)
  | [name, doc, value] =>
    refine keeps_evalDefine hd (hforms name (by simp)) (htag name (by simp)) ?_ ?_
    · simpa using hargs doc (by simp)
    · simpa using hargs value (by simp)
  | _ :: _ :: _ :: _ :: _ => exact .fail _

theorem keeps_evalMember (hd : d.Lawful host) (hform : d.form form) (hA : Hands d A form)
    (happlies : Applies d A form scope) : Keeps d A d.value fun go => evalMember host go form scope := by
  have hargs : ∀ part ∈ form.arguments, A (.evaluate part scope) := fun part h => hA.argument hd hform h scope
  unfold evalMember
  generalize form.arguments = args at hargs ⊢
  match args with
  | [] | [_] => exact .fail _
  | target :: member :: args =>
    refine .bind (P := fun _ => True) (.ofExceptAt member fun _ _ => trivial) fun name _ => ?_
    refine .bind (.ask (hargs target (by simp))) fun receiver hreceiver => ?_
    -- only a member that is called can ask for anything further
    by_cases hproperty : ∃ property, name.toList = '-' :: property
    · obtain ⟨property, hproperty⟩ := hproperty
      simp only [hproperty]
      cases hfound : receiver.member? host.fields (String.ofList property) with
      | some found => exact keeps_ofMember hd (hd.values.member? hd.fields hreceiver hfound)
      | none => exact .pure (hd.values.plain rfl)
    · have hcall : ∀ property, (name.toList = '-' :: property) = False := fun property =>
        eq_false fun h => hproperty ⟨property, h⟩
      simp only [hcall, imp_self, implies_true]
      cases hfound : receiver.member? host.fields name with
      | none => exact .fail _
      | some found =>
        refine .bind (keeps_ofMember hd (hd.values.member? hd.fields hreceiver hfound)) fun method hmethod => ?_
        refine .bind (keeps_evaluateAll fun part h => hargs part (by simp [h])) fun values hvalues => ?_
        exact keeps_applyToValues hd hform happlies hmethod hvalues

theorem keeps_paramNames (hd : d.Lawful host) {params : List Code} (h : ∀ param ∈ params, d.form param) :
    Keeps d A (fun names => ∀ name ∈ names, d.name name) fun _ => paramNames params := by
  induction params with
  | nil => exact .pure (by simp)
  | cons param rest ih =>
    obtain ⟨hparam, hrest⟩ := List.forall_mem_cons.mp h
    refine .bind (.ofExceptAt (P := d.name) param fun _ hname => hd.symbol hparam hname) fun name hname => ?_
    exact .bind (ih hrest) fun names hnames => .pure (List.forall_mem_cons.mpr ⟨hname, hnames⟩)

theorem keeps_evalClosure (hd : d.Lawful host) (hform : d.form form)
    (hspecial : ∀ identity, d.value (.function identity (.special .function))) {self : Option String}
    (hself : ∀ name ∈ self, d.name name) {rest : List Code} (h : ∀ part ∈ rest, d.form part) :
    Keeps d A d.value fun _ => evalClosure form self rest scope := by
  have hnew : ∀ {names : List String} {body : Code}, (∀ name ∈ names, d.name name) → d.form body →
      Keeps d A d.value fun _ => newFunction (.procedure (.closure self names body scope)) := fun hnames hbody =>
    keeps_newFunction hd fun identity => hd.closure (hspecial 0) hself hnames hbody identity scope
  unfold evalClosure
  split
  · exact .fail _
  · next params body =>
    split
    · have hparams : d.form params := h params (by simp)
      refine .bind (keeps_paramNames hd fun param hmem => hd.part hparams hmem) fun names hnames => ?_
      match body with
      | [] => exact .fail _
      | [single] => exact hnew hnames (h single (by simp))
      | first :: second :: more =>
        refine .bind (keeps_newNumber hd) fun number _ => hnew hnames ?_
        exact hd.implicitDo hform (fun part hpart => h part (List.mem_cons_of_mem _ hpart)) number
    · exact .failAt _ _

theorem keeps_evalFn (hd : d.Lawful host) (hform : d.form form)
    (hspecial : ∀ identity, d.value (.function identity (.special .function))) :
    Keeps d A d.value fun _ => evalFn form scope := by
  have hargs : ∀ part ∈ form.arguments, d.form part :=
    fun part h => hd.part hform (Form.mem_children_of_mem_arguments h)
  unfold evalFn
  split
  · exact keeps_evalClosure hd hform hspecial (by simp) (by simp)
  · next first rest hrest =>
    rw [hrest] at hargs
    split
    · next hkind =>
      have hname : d.name first.text := hd.symbol (hargs first (by simp)) (by simp [Form.symbolName, hkind])
      have hrest : ∀ part ∈ rest, d.form part := fun part h => hargs part (List.mem_cons_of_mem _ h)
      exact keeps_evalClosure hd hform hspecial (by simpa using hname) hrest
    · exact keeps_evalClosure hd hform hspecial (by simp) hargs

theorem keeps_bindAll (hd : d.Lawful host) {forms : List Code} (hforms : ∀ part ∈ forms, d.form part)
    (h : ∀ part ∈ forms, A (.evaluate part scope)) : Keeps d A (fun _ => True) fun go => bindAll go scope forms := by
  match forms with
  | [] | [_] => exact .pure trivial
  | name :: value :: rest =>
    have hname : d.form name := hforms name (by simp)
    refine .bind (.ofExceptAt (P := d.name) name fun _ hsymbol => hd.symbol hname hsymbol) fun text htext => ?_
    refine .bind (.ask (h value (by simp))) fun v hv => ?_
    refine .bind (keeps_define hd scope htext hv) fun _ _ => ?_
    exact keeps_bindAll hd (fun part hpart => hforms part (by simp [hpart])) fun part hpart => h part (by simp [hpart])

theorem keeps_evalBody (hd : d.Lawful host) (hform : d.form form) (hA : Hands d A form) {first : Code}
    {body : List Code} (hargs : form.arguments = first :: body) (hfirst : first.kind ≠ .symbol) :
    Keeps d A d.value fun go => evalBody go form body scope := by
  have hmem : ∀ part ∈ body, part ∈ form.children := fun part hpart =>
    Form.mem_children_of_mem_arguments (by simp [hargs, hpart])
  match body with
  | [] => exact .pure (hd.values.plain rfl)
  | [single] => exact .ask (hA.part hd hform (hmem single (by simp)) scope)
  | one :: two :: more =>
    -- the new sequence is no part of the form, but lighter, since the bindings are not in it
    refine .bind (keeps_newNumber hd) fun number _ => ?_
    refine .ask (hA ?_ (Form.weight_implicitDo_lt hargs hfirst number) scope)
    exact hd.implicitDo hform (fun part hpart => hd.part hform (hmem part hpart)) number

theorem keeps_evalLet (hd : d.Lawful host) (hform : d.form form) (hA : Hands d A form) :
    Keeps d A d.value fun go => evalLet go form scope := by
  unfold evalLet
  cases hargs : form.arguments with
  | nil => exact .fail _
  | cons bindings body =>
    have hmem : bindings ∈ form.children := Form.mem_children_of_mem_arguments (by simp [hargs])
    by_cases hkind : bindings.kind = .vector
    · simp only [if_pos hkind]
      by_cases heven : bindings.children.length % 2 = 0
      · simp only [if_pos heven]
        refine .bind (keeps_newChild hd scope) fun inner _ => ?_
        have hforms : ∀ part ∈ bindings.children, d.form part := fun part hpart => hd.part (hd.part hform hmem) hpart
        refine .bind (keeps_bindAll hd hforms fun part hpart => ?_) fun _ _ => ?_
        · exact hA (hforms part hpart)
            (Nat.lt_trans (Form.weight_lt_of_mem hpart) (Form.weight_lt_of_mem hmem)) inner
        · exact keeps_evalBody hd hform hA hargs (by simp [hkind])
      · simp only [if_neg heven]
        exact .failAt _ _
    · simp only [if_neg hkind]
      exact .failAt _ _

theorem keeps_evalApply (hd : d.Lawful host) (hform : d.form form) (hA : Hands d A form)
    (happlies : Applies d A form scope) : Keeps d A d.value fun go => evalApply host go form scope := by
  refine .bind (keeps_evaluateAll fun part h => hA.argument hd hform h scope) fun values hvalues => ?_
  match values with
  | [f, args] =>
    refine .bind (.ofExcept fun items hitems => hd.values.toSeq (hvalues args (by simp)) hitems) fun items hitems => ?_
    exact keeps_applyToValues hd hform happlies (hvalues f (by simp)) hitems
  | [] | [_] | _ :: _ :: _ :: _ => exact .fail _

theorem keeps_evalVar (hd : d.Lawful host) (hform : d.form form) (special : Special) :
    Keeps d A d.value fun _ => evalVar special form scope := by
  unfold evalVar
  split
  · exact .fail _
  · next symbol rest hargs =>
    have hsymbol : d.form symbol := hd.part hform (Form.mem_children_of_mem_arguments (by simp [hargs]))
    unfold Form.symbolName
    split
    · exact keeps_lookupVar hd hsymbol
    · exact .fail _

theorem keeps_evalQuote (hd : d.Lawful host) (form : Code) : Keeps d A d.value fun _ => evalQuote form := by
  unfold evalQuote
  split
  · exact .pure (hd.values.plain rfl)
  · exact .pure (hd.values.plain rfl)

theorem keeps_evalKeyword (hd : d.Lawful host) (hform : d.form form) (hA : Hands d A form) :
    Keeps d A d.value fun go => evalKeyword go form scope := by
  unfold evalKeyword
  by_cases hkind : form.kind = .keyword
  · simp only [if_pos hkind]
    exact .pure (hd.values.plain rfl)
  · simp only [if_neg hkind]
    refine .bind (keeps_evaluateAll fun part h => hA.argument hd hform h scope) fun values _ => ?_
    split
    · exact .pure (hd.values.plain rfl)
    · exact .pure (hd.values.plain rfl)
    · exact .fail _

theorem keeps_evalMap (hd : d.Lawful host) (hform : d.form form) (hA : Hands d A form) :
    Keeps d A d.value fun go => evalMap go form scope := by
  unfold evalMap
  by_cases heven : form.arguments.length % 2 = 0
  · simp only [if_pos heven]
    refine .bind (keeps_evaluateAll fun part h => hA.argument hd hform h scope) fun values hvalues => ?_
    refine .bind (.ofExcept fun entries h => hd.values.mapEntries hvalues h) fun entries hentries => ?_
    exact .pure hentries
  · simp only [if_neg heven]
    exact .fail _

/-- A special form asks for parts of its form; two of them may also apply a value as the form asks. -/
theorem keeps_invoke (hd : d.Lawful host) {special : Special} (h : d.Allows (.invoke special form scope))
    (hA : Hands d A form) (happlies : special.isApplying = true → Applies d A form scope) :
    Keeps d A d.value fun go => invoke host go special form scope := by
  obtain ⟨hspecial, hform⟩ := h
  cases special with
  | conditional => exact keeps_evalIf hd hform hA
  | sequence => exact keeps_evalDo hd hform hA
  | define => exact keeps_evalDef hd hform hA
  | member => exact keeps_evalMember hd hform hA (happlies rfl)
  | function => exact keeps_evalFn hd hform hspecial
  | letIn => exact keeps_evalLet hd hform hA
  | apply => exact keeps_evalApply hd hform hA (happlies rfl)
  | var | macroVar => exact keeps_evalVar hd hform _
  | quote => exact keeps_evalQuote hd form
  | keyword => exact keeps_evalKeyword hd hform hA
  | unquote | unquoteSplicing => exact .fail _
  | map => exact keeps_evalMap hd hform hA

/-! ### Forms -/

theorem keeps_ofLiteral {α : Type} (hd : d.Lawful host) (form : Code) (literal : Option α) {value : α → Value}
    (h : ∀ a, (value a).isPlain = true) : Keeps d A d.value fun _ => ofLiteral form (literal.map value) := by
  cases literal with
  | none => exact .fail _
  | some a => exact .pure (hd.values.plain (h a))

theorem keeps_evalLambda (hd : d.Lawful host) (hform : d.form form) (hkind : form.kind = .lambda) :
    Keeps d A d.value fun _ => evalLambda form scope := by
  refine .bind (keeps_expandAll hd form.weight fun part h => ?_) fun all hall => ?_
  · exact ⟨hd.part hform h, Form.weight_lt_of_mem h⟩
  · split
    · exact .fail _
    · refine keeps_newFunction hd fun identity => hd.anonymous hkind hform ?_ ?_ identity _ scope
      · exact (hall _ (by simp)).1
      · exact fun arg harg => (hall arg (by simp [harg])).1

theorem keeps_evalList (hd : d.Lawful host) (hform : d.form form) (hA : Hands d A form)
    (happlies : Applies d A form scope) : Keeps d A d.value fun go => evalList host go form scope := by
  refine .bind (keeps_expandAll hd form.weight fun part h => ?_) fun all hall => ?_
  · exact ⟨hd.part hform h, Form.weight_lt_of_mem h⟩
  · have hevaluate : ∀ part ∈ all, A (.evaluate part scope) := fun part h => hA (hall part h).1 (hall part h).2 scope
    cases all with
    | nil => exact .fail _
    | cons head args =>
      refine .bind (.ask (hevaluate head (by simp))) fun f hf => ?_
      exact keeps_applyToForms hd hform happlies hf fun part h => hevaluate part (by simp [h])

theorem keeps_evalSugar (hd : d.Lawful host) (hform : d.form form) (hA : Hands d A form)
    (happlies : Applies d A form scope) : Keeps d A d.value fun go => evalSugar host go form scope := by
  unfold evalSugar
  cases htarget : form.kind.sugarTarget? with
  | none => exact .fail _
  | some name =>
    refine .bind (P := d.value) ?_ fun f hf => ?_
    · exact .get_bind fun _ hs => .ofExcept fun _ hv => hd.target htarget hs hv
    · exact keeps_applyToForms hd hform happlies hf fun part h => hA.part hd hform h scope

theorem keeps_evalForm (hd : d.Lawful host) (hform : d.form form) (hA : Hands d A form)
    (happlies : Applies d A form scope) : Keeps d A d.value fun go => evalForm host go form scope := by
  unfold evalForm
  cases hkind : form.kind with
  | var =>
    cases hbinding : form.binding with
    | some var => exact .pure (hd.binding hform hbinding)
    | none => exact .fail _
  | quote =>
    cases form.first? with
    | some quoted => exact .pure (hd.values.plain rfl)
    | none => exact .fail _
  | string => exact keeps_ofLiteral hd form _ fun _ => rfl
  | number | negNumber =>
    refine keeps_ofLiteral hd form _ fun number => ?_
    cases number <;> rfl
  | hexLiteral => exact keeps_ofLiteral hd form _ fun _ => rfl
  | symbol | paramName => exact keeps_lookup hd hform
  | lambda => exact keeps_evalLambda hd hform hkind
  | list => exact keeps_evalList hd hform hA happlies
  | _ => exact keeps_evalSugar hd hform hA happlies

theorem keeps_evaluate (hd : d.Lawful host) (hform : d.form form) :
    Keeps d (fun asked => d.Allows asked ∧ asked.Below (.evaluate form scope)) d.value fun go =>
      evaluate host go form scope := by
  refine .bind (P := fun next => d.form next ∧ next.weight ≤ form.weight) ?_ fun next hnext => .through next ?_
  · exact .modifyGet fun s hs =>
      ⟨⟨(hd.expand hs hform scope).1, s.weight_expand_le scope form⟩, (hd.expand hs hform scope).2⟩
  · obtain ⟨hnext, hweight⟩ := hnext
    refine keeps_evalForm hd hnext ?_ ⟨?_, ?_⟩
    · exact fun part hpart hlt inner => ⟨hpart, .part (Nat.lt_of_lt_of_le hlt hweight) inner scope⟩
    · exact fun hspecial => ⟨⟨hspecial, hnext⟩, .handed _ hweight scope scope⟩
    · exact fun hp hargs => ⟨⟨hp, hargs⟩, .called _ _ form scope⟩

/-! ### Tasks -/

/-- What a step asks for keeps to the discipline and lies below what it does. -/
theorem keeps_step (hd : d.Lawful host) {task : Task} (h : d.Allows task) :
    Keeps d (fun asked => d.Allows asked ∧ asked.Below task) d.value fun go => step host go task := by
  cases task with
  | evaluate form scope => exact keeps_evaluate hd h
  | invoke special form scope =>
    refine keeps_invoke hd h ?_ fun hspecial => ⟨?_, ?_⟩
    · exact fun part hpart hlt inner => ⟨hpart, .operand hlt inner special scope⟩
    · exact fun hinner => ⟨⟨hinner, h.2⟩, .again _ hspecial form scope⟩
    · exact fun hp hargs => ⟨⟨hp, hargs⟩, .applied _ _ hspecial form scope⟩
  | call p args => exact keeps_call hd h fun hscripted asked hasked => ⟨hasked, .scripted asked hscripted args⟩

namespace Discipline.Lawful

theorem serves (hd : d.Lawful host) (levels : Nat) : Serves d d.Allows (run host levels) := by
  induction levels with
  | zero => exact fun task s _ hs => .exhausted hs
  | succ levels ih =>
    intro task s htask hs
    exact (keeps_step hd htask s hs).meets fun asked t hasked ht => ih hasked.1 ht

/-- What a step asks for, for a way to do tasks that allows a number of levels. -/
theorem asks (hd : d.Lawful host) {levels : Nat} {task asked : Task} {s t : Store} (htask : d.Allows task)
    (hs : d.store s) (h : Asks (fun go => step host go task s) (run host levels) asked t) :
    (d.Allows asked ∧ asked.Below task) ∧ d.store t ∧
      ∀ error u, run host levels asked t = .error (.failed error) u →
        ∃ later, run host (levels + 1) task s = .error (.failed later) u ∧ error.Becomes later :=
  (keeps_step hd htask s hs).asks (fun _ _ hother hu => hd.serves levels hother.1 hu) h

/-- Whatever is begun in the course of a task keeps to the discipline; and if it fails, so does the task. -/
theorem begins (hd : d.Lawful host) {levels left : Nat} {task later : Task} {s u : Store}
    (h : Begins host levels task s left later u) (htask : d.Allows task) (hs : d.store s) :
    d.Allows later ∧ d.store u ∧
      ∀ error x, run host left later u = .error (.failed error) x →
        ∃ last, run host levels task s = .error (.failed last) x ∧ error.Becomes last := by
  induction h with
  | refl levels task s => exact ⟨htask, hs, fun error x hx => ⟨error, hx, .refl error⟩⟩
  | asks hasks _ ih =>
    obtain ⟨⟨hasked, -⟩, ht, hfails⟩ := hd.asks htask hs hasks
    obtain ⟨hlater, hu, hends⟩ := ih hasked ht
    refine ⟨hlater, hu, fun error x hx => ?_⟩
    obtain ⟨mid, hmid, hbecomes⟩ := hends error x hx
    obtain ⟨last, hlast, hbecomes'⟩ := hfails mid x hmid
    exact ⟨last, hlast, hbecomes.trans hbecomes'⟩

end Discipline.Lawful

/-- To keep to nothing. -/
def free : Discipline where
  store _ := True
  failure _ _ := True
  value _ := True
  form _ := True
  name _ := True
  fails _ _ := trivial
  passes _ _ := trivial

theorem isOpen_free : free.IsOpen := ⟨fun _ => trivial, fun _ => trivial, fun _ => trivial⟩

theorem lawful_free (host : Host) : free.Lawful host :=
  isOpen_free.lawful host (fun _ => trivial) (fun _ _ => trivial) (fun _ _ _ _ => trivial) (fun _ _ _ _ => trivial)
    (fun _ _ _ _ => trivial) fun _ _ _ _ => trivial

/-- More levels do not change what comes to an end. -/
theorem run_eq_of_le {levels more : Nat} (hle : levels ≤ more) {task : Task} {s : Store}
    (hends : ∀ t, run host levels task s ≠ .error .exhausted t) : run host more task s = run host levels task s := by
  induction levels generalizing more task s with
  | zero => exact absurd rfl (hends s)
  | succ levels ih =>
    obtain ⟨more, rfl⟩ := Nat.exists_eq_add_of_le' (Nat.lt_of_lt_of_le (Nat.succ_pos levels) hle)
    have hstep := keeps_step (lawful_free host) (isOpen_free.allows task) s trivial
    refine hstep.mono (fun asked t hasked ht => (lawful_free host).serves levels hasked.1 ht) ?_ hends
    exact fun asked t hasked => ih (Nat.le_of_succ_le_succ hle) hasked

/-- If something fails that is begun in the course of a task, the task fails with it. -/
theorem Begins.fails {levels left : Nat} {task later : Task} {s u x : Store} {error : Error}
    (h : Begins host levels task s left later u) (hlater : run host left later u = .error (.failed error) x) :
    ∃ last, run host levels task s = .error (.failed last) x ∧ error.Becomes last :=
  ((lawful_free host).begins h (isOpen_free.allows task) trivial).2.2 error x hlater

end Lisplet.Eval
