import Lisplet.Proofs.Writes

/-! # Evaluation writes only the scope it runs in

A special form writes no scope but the one it is carried out in, and a call of a procedure on values writes none at
all of those that were there. `let` opens a scope of its own, and a closure runs in one; a `#()` function looks its
head up, which writes nothing because the head is a symbol. -/

namespace Lisplet

variable {W : Scope → Prop} {host : Host} {go : Task → Eval Value} {form : Code} {scope : Scope}

namespace Eval


/-! ### Calls -/

theorem writes_callBuiltin (hhost : host.Headed) (function : Builtin) {args : List Value}
    (h : ∀ arg ∈ args, arg.Headed) : Writes W Value.Headed (callBuiltin host function args) := by
  unfold callBuiltin
  split
  · next target key =>
    split
    · next found hfound => exact writes_ofMember (Member.Headed.entry? hhost.fields (h target (by simp)) hfound)
    · exact .pure .nil
  · exact .fail _
  · exact .get_bind fun _ hs => .ofExcept fun _ hv => hs.deref hv
  · exact .fail _
  · exact .pure (.string _)
  · exact .pure (.vector h)
  · exact .pure (.ofItems h)

theorem writes_callHost (hhost : host.Headed) (function : HostFunction) {args : List Value}
    (h : ∀ arg ∈ args, arg.Headed) : Writes W Value.Headed (callHost host function args) := by
  intro s hs
  have hresult : ∀ v, hostResult host function args s = .ok v → v.Headed := by
    intro v hv
    unfold hostResult at hv
    split at hv
    · split at hv
      · exact hhost.call function args s v h hs hv
      · cases hv
    · exact hhost.call function args s v h hs hv
  unfold callHost
  cases hr : hostResult host function args s with
  | ok v => exact .ok (hresult v hr) (hs.of_cells rfl) (.of_frames W rfl)
  | error e => exact .error (hs.of_cells rfl) (.of_frames W rfl)

theorem writes_bindParams (hW : W scope) (params : List String) {args : List Value} (h : ∀ arg ∈ args, arg.Headed) :
    Writes W (fun _ => True) (bindParams scope params args) := by
  induction params generalizing args with
  | nil => exact .pure trivial
  | cons param params ih =>
    refine .bind (writes_define param (.firstArgument h) hW) fun _ _ => ih ?_
    exact fun arg ha => h arg (List.mem_of_mem_tail ha)

theorem writes_bindNumbered (hW : W scope) (n count : Nat) {args : List Value} (h : ∀ arg ∈ args, arg.Headed) :
    Writes W (fun _ => True) (bindNumbered scope n count args) := by
  induction count generalizing n args with
  | zero => exact .pure trivial
  | succ count ih =>
    have hfirst := Value.Headed.firstArgument h
    have hrest : Writes W (fun _ => True)
        (do let _ ← define scope ("%" ++ Nat.repr n) (firstArgument args)
            bindNumbered scope (n + 1) count args.tail) :=
      .bind (writes_define _ hfirst hW) fun _ _ => ih (n + 1) fun arg ha => h arg (List.mem_of_mem_tail ha)
    unfold bindNumbered
    by_cases hn : n = 1
    · simp only [if_pos hn]
      exact .bind (writes_define "%" hfirst hW) fun _ _ => hrest
    · simp only [if_neg hn]
      exact hrest

theorem writes_bindSelf (hW : W scope) (name : Option String) {p : Procedure Value} (h : p.Headed) :
    Writes W (fun _ => True) (bindSelf scope name p) := by
  cases name with
  | none => exact .pure trivial
  | some name =>
    refine .bind (writes_procedure h) fun f hf => ?_
    exact .bind (writes_define name hf hW) fun _ _ => .pure trivial

/-- A call on values writes no scope that was there: a function of the language runs in a new one. -/
theorem writes_call (hhost : host.Headed) (hgo : Obeys go) {p : Procedure Value} (hp : p.Headed) {args : List Value}
    (h : ∀ arg ∈ args, arg.Headed) : Writes W Value.Headed (call host go p args) := by
  cases hp with
  | builtin function => exact writes_callBuiltin hhost function h
  | method _ => exact .ofExcept fun _ hv => Method.headed_run hv
  | host function => exact writes_callHost hhost function h
  | closure name params hbody scope =>
    refine .newChild_bind scope fun inner => ?_
    refine .bind (writes_bindSelf (.inr rfl) name (.closure name params hbody scope)) fun _ _ => ?_
    refine .bind (writes_bindParams (.inr rfl) params h) fun _ _ => ?_
    exact hgo.evaluate hbody (.inr rfl)
  | anonymous hform hhead hsymbol hargs params scope =>
    refine .mapError (.newChild_bind scope fun inner => ?_)
    refine .bind (writes_bindNumbered (.inr rfl) 1 _ h) fun _ _ => ?_
    -- the head is evaluated in `scope`, which may not be written; it is a symbol, so it is only looked up
    refine .bind (hgo.symbol hhead hsymbol) fun f hf => ?_
    exact writes_applyToForms hhost hgo hform hf (.inr rfl) hargs

/-! ### Special forms -/

theorem writes_evaluateOrNil (hgo : Obeys go) (hW : W scope) {value : Option Code}
    (h : ∀ code ∈ value, code.Headed) : Writes W Value.Headed (evaluateOrNil go value scope) := by
  cases value with
  | none => exact .pure .nil
  | some code => exact hgo.evaluate (h code rfl) hW

theorem writes_evalIf (hgo : Obeys go) (h : form.Headed) (hW : W scope) :
    Writes W Value.Headed (evalIf go form scope) := by
  have hargs := h.arguments
  unfold evalIf
  generalize form.arguments = args at hargs ⊢
  cases args with
  | nil => exact .fail _
  | cons condition branches =>
    refine .bind (hgo.evaluate (hargs condition (by simp)) hW) fun v _ => ?_
    refine writes_evaluateOrNil hgo hW fun branch hb => ?_
    exact hargs branch (List.mem_cons_of_mem _ (List.mem_of_getElem? hb))

theorem writes_evalDo (hgo : Obeys go) (h : form.Headed) (hW : W scope) :
    Writes W Value.Headed (evalDo go form scope) := by
  refine .bind (writes_evaluateAll hgo h.arguments hW) fun values hvalues => .pure ?_
  cases hlast : values.getLast? with
  | none => exact .nil
  | some v => exact hvalues v (List.mem_of_getLast? hlast)

theorem writes_definedName (h : form.Headed) :
    Writes W (fun defined : Option Code × Code => ∀ tag ∈ defined.1, tag.Headed) (definedName form) := by
  unfold definedName
  split
  · exact .pure (by simp)
  · split
    · next tag target hfirst hsecond =>
      split
      · refine .pure fun code hcode => ?_
        obtain rfl := Option.some.inj hcode
        exact h.parts _ (List.mem_of_getElem? hfirst)
      · exact .failAt _ _
    · exact .failAt _ _
  · exact .failAt _ _

theorem writes_docMetadata (hgo : Obeys go) (hW : W scope) {doc : Option Code} (h : ∀ code ∈ doc, code.Headed) :
    Writes W Metadata.Headed (docMetadata go doc scope) := by
  cases doc with
  | none => exact .pure .empty
  | some code =>
    simp only [docMetadata]
    split
    · exact .bind (hgo.evaluate (h code rfl) hW) fun text ht => .pure (Metadata.Headed.empty.insert ":doc" ht)
    · exact .pure .empty

theorem writes_tagMetadata (hgo : Obeys go) (hW : W scope) {tag : Option Code} (h : ∀ code ∈ tag, code.Headed) :
    Writes W Metadata.Headed (tagMetadata go tag scope) := by
  cases tag with
  | none => exact .pure .empty
  | some code =>
    exact .bind (hgo.evaluate (h code rfl) hW) fun v hv => .ofExceptAt code fun _ hm => hv.asMetadata hm

theorem writes_evalDefine (hgo : Obeys go) (hW : W scope) {name : Code} (hname : name.Headed) {doc value : Option Code}
    (hdoc : ∀ code ∈ doc, code.Headed) (hvalue : ∀ code ∈ value, code.Headed) :
    Writes W Value.Headed (evalDefine go name doc value scope) := by
  refine .bind (writes_definedName hname) fun defined hdefined => ?_
  refine .bind (writes_docMetadata hgo hW hdoc) fun said hsaid => ?_
  refine .bind (writes_tagMetadata hgo hW hdefined) fun tagged htagged => ?_
  refine .bind (writes_evaluateOrNil hgo hW hvalue) fun v hv => ?_
  refine .bind (.modifyGet (P := fun _ => True) fun s hs => ?_) fun var _ => .pure (.var var)
  exact ⟨trivial, hs.define scope _ hv (hsaid.merge htagged), .define s scope _ v _ hW⟩

theorem writes_evalDef (hgo : Obeys go) (h : form.Headed) (hW : W scope) :
    Writes W Value.Headed (evalDef go form scope) := by
  have hargs := h.arguments
  unfold evalDef
  split
  · exact .fail _
  · next name hform =>
    rw [hform] at hargs
    exact writes_evalDefine hgo hW (hargs name (by simp)) (by simp) (by simp)
  · next name value hform =>
    rw [hform] at hargs
    exact writes_evalDefine hgo hW (hargs name (by simp)) (by simp) (by simpa using hargs value (by simp))
  · next name doc value hform =>
    rw [hform] at hargs
    exact writes_evalDefine hgo hW (hargs name (by simp)) (by simpa using hargs doc (by simp))
      (by simpa using hargs value (by simp))
  · exact .fail _

theorem writes_evalMember (hhost : host.Headed) (hgo : Obeys go) (h : form.Headed) (hW : W scope) :
    Writes W Value.Headed (evalMember host go form scope) := by
  have hargs := h.arguments
  unfold evalMember
  split
  · next target member args hform =>
    rw [hform] at hargs
    have hrest : ∀ part ∈ args, part.Headed := fun part hp => hargs part (by simp [hp])
    refine .bind (.ofExceptAt (P := fun _ => True) member fun _ _ => trivial) fun name _ => ?_
    refine .bind (hgo.evaluate (hargs target (by simp)) hW) fun receiver hreceiver => ?_
    split
    · split
      · next found hfound => exact writes_ofMember (.member? hhost.fields hreceiver hfound)
      · exact .pure .nil
    · split
      · next found hfound =>
        refine .bind (writes_ofMember (.member? hhost.fields hreceiver hfound)) fun f hf => ?_
        refine .bind (writes_evaluateAll hgo hrest hW) fun values hvalues => ?_
        exact writes_applyToValues hhost hgo h hf hW hvalues
      · exact .fail _
  · exact .fail _

theorem writes_paramNames (forms : List Code) : Writes W (fun _ => True) (paramNames forms) := by
  induction forms with
  | nil => exact .pure trivial
  | cons form rest ih =>
    refine .bind (.ofExceptAt (P := fun _ => True) form fun _ _ => trivial) fun name _ => ?_
    exact .bind ih fun names _ => .pure trivial

theorem writes_evalClosure (h : form.Headed) (name : Option String) {rest : List Code}
    (hrest : ∀ part ∈ rest, part.Headed) (scope : Scope) :
    Writes W Value.Headed (evalClosure form name rest scope) := by
  cases rest with
  | nil => exact .fail _
  | cons params body =>
    have hbody : ∀ part ∈ body, part.Headed := fun part hp => hrest part (List.mem_cons_of_mem _ hp)
    simp only [evalClosure]
    split
    · refine .bind (writes_paramNames params.children) fun names _ => ?_
      split
      · exact .fail _
      · next single => exact writes_procedure (.closure name names (hbody single (by simp)) scope)
      · exact .bind writes_newNumber fun number _ =>
          writes_procedure (.closure name names (h.implicitDo number hbody) scope)
    · exact .failAt _ _

theorem writes_evalFn (h : form.Headed) (scope : Scope) : Writes W Value.Headed (evalFn form scope) := by
  have hargs := h.arguments
  unfold evalFn
  split
  · exact .fail _
  · next first rest hform =>
    rw [hform] at hargs
    split
    · exact writes_evalClosure h _ (fun part hp => hargs part (List.mem_cons_of_mem _ hp)) scope
    · exact writes_evalClosure h none hargs scope

theorem writes_bindAll (hgo : Obeys go) (hW : W scope) {forms : List Code} (h : ∀ part ∈ forms, part.Headed) :
    Writes W (fun _ => True) (bindAll go scope forms) := by
  fun_induction bindAll go scope forms with
  | case1 name value rest ih =>
    refine .bind (.ofExceptAt (P := fun _ => True) name fun _ _ => trivial) fun text _ => ?_
    refine .bind (hgo.evaluate (h value (by simp)) hW) fun v hv => ?_
    exact .bind (writes_define text hv hW) fun _ _ => ih fun part hp => h part (by simp [hp])
  | case2 => exact .pure trivial

theorem writes_evalBody (hgo : Obeys go) (h : form.Headed) {body : List Code} (hbody : ∀ part ∈ body, part.Headed)
    (hW : W scope) : Writes W Value.Headed (evalBody go form body scope) := by
  unfold evalBody
  split
  · exact .pure .nil
  · next single => exact hgo.evaluate (hbody single (by simp)) hW
  · exact .bind writes_newNumber fun number _ => hgo.evaluate (h.implicitDo number hbody) hW

/-- `let` writes a scope of its own only. -/
theorem writes_evalLet (hgo : Obeys go) (h : form.Headed) (scope : Scope) :
    Writes W Value.Headed (evalLet go form scope) := by
  have hargs := h.arguments
  unfold evalLet
  split
  · exact .fail _
  · next bindings body hform =>
    rw [hform] at hargs
    have hbody : ∀ part ∈ body, part.Headed := fun part hp => hargs part (List.mem_cons_of_mem _ hp)
    split
    · split
      · refine .newChild_bind scope fun inner => ?_
        refine .bind (writes_bindAll hgo (.inr rfl) (hargs bindings (by simp)).parts) fun _ _ => ?_
        exact writes_evalBody hgo h hbody (.inr rfl)
      · exact .failAt _ _
    · exact .failAt _ _

theorem writes_evalApply (hhost : host.Headed) (hgo : Obeys go) (h : form.Headed) (hW : W scope) :
    Writes W Value.Headed (evalApply host go form scope) := by
  refine .bind (writes_evaluateAll hgo h.arguments hW) fun values hvalues => ?_
  split
  · next f args =>
    refine .bind (.ofExcept fun items hitems => (hvalues args (by simp)).toSeq hitems) fun items hitems => ?_
    exact writes_applyToValues hhost hgo h (hvalues f (by simp)) hW hitems
  · exact .fail _

theorem writes_evalVar (special : Special) (form : Code) (scope : Scope) :
    Writes W Value.Headed (evalVar special form scope) := by
  unfold evalVar
  split
  · exact .fail _
  · exact .bind (.ofExcept (P := fun _ => True) fun _ _ => trivial) fun name _ => writes_lookupVar scope name

theorem writes_evalQuote (h : form.Headed) : Writes W Value.Headed (evalQuote form) := by
  have hargs := h.arguments
  unfold evalQuote
  split
  · exact .pure .nil
  · next quoted rest hform =>
    rw [hform] at hargs
    exact .pure (.form (hargs quoted (by simp)))

theorem writes_evalKeyword (hgo : Obeys go) (h : form.Headed) (hW : W scope) :
    Writes W Value.Headed (evalKeyword go form scope) := by
  unfold evalKeyword
  split
  · exact .pure (.keyword _)
  · refine .bind (writes_evaluateAll hgo h.arguments hW) fun values _ => ?_
    split
    · exact .pure (.keyword _)
    · exact .pure (.keyword _)
    · exact .fail _

theorem writes_evalMap (hgo : Obeys go) (h : form.Headed) (hW : W scope) :
    Writes W Value.Headed (evalMap go form scope) := by
  unfold evalMap
  split
  · refine .bind (writes_evaluateAll hgo h.arguments hW) fun values hvalues => ?_
    refine .bind (.ofExcept fun entries he => Value.Headed.mapEntries hvalues (by simp) he) fun entries he => ?_
    exact .pure (.map he)
  · exact .fail _

/-- A special form writes no scope but the one it is carried out in. -/
theorem writes_invoke (hhost : host.Headed) (hgo : Obeys go) (special : Special) (h : form.Headed)
    (hW : special ≠ .letIn → W scope) : Writes W Value.Headed (invoke host go special form scope) := by
  cases special with
  | conditional => exact writes_evalIf hgo h (hW nofun)
  | sequence => exact writes_evalDo hgo h (hW nofun)
  | define => exact writes_evalDef hgo h (hW nofun)
  | member => exact writes_evalMember hhost hgo h (hW nofun)
  | function => exact writes_evalFn h scope
  | letIn => exact writes_evalLet hgo h scope
  | apply => exact writes_evalApply hhost hgo h (hW nofun)
  | var => exact writes_evalVar .var form scope
  | quote => exact writes_evalQuote h
  | keyword => exact writes_evalKeyword hgo h (hW nofun)
  | unquote => exact .fail _
  | unquoteSplicing => exact .fail _
  | map => exact writes_evalMap hgo h (hW nofun)
  | macroVar => exact writes_evalVar .macroVar form scope

/-! ### The evaluator -/

theorem writes_ofLiteral {β : Type} (form : Code) (literal : Option β) {f : β → Value} (h : ∀ b, (f b).Headed) :
    Writes W Value.Headed (ofLiteral form (literal.map f)) := by
  cases literal with
  | none => exact .fail _
  | some b => exact .pure (h b)

theorem writes_evalLambda (h : form.Headed) (hk : form.kind = .lambda) (scope : Scope) :
    Writes W Value.Headed (evalLambda form scope) := by
  have hexpand : Writes W (fun all : List Code => (∀ part ∈ all, part.Headed) ∧ ∀ head ∈ all.head?, head.kind = .symbol)
      (expandAll scope form.children) := by
    refine .modifyGet fun s hs => ⟨⟨(hs.expandAll scope h.parts).1, fun head hhead => ?_⟩,
      (hs.expandAll scope h.parts).2, .of_frames W (s.frames_expandAll scope form.children)⟩
    exact s.kind_of_head?_expandAll (h.kind_of_head? hk) hhead
  refine .bind hexpand fun all ⟨hall, hsymbol⟩ => ?_
  cases all with
  | nil => exact .fail _
  | cons head args =>
    have hargs : ∀ arg ∈ args, arg.Headed := fun arg ha => hall arg (List.mem_cons_of_mem _ ha)
    exact writes_procedure (.anonymous h (hall head (by simp)) (hsymbol head rfl) hargs _ scope)

theorem writes_evalList (hhost : host.Headed) (hgo : Obeys go) (h : form.Headed) (hW : W scope) :
    Writes W Value.Headed (evalList host go form scope) := by
  refine .bind (writes_expandAll h.parts) fun all hall => ?_
  cases all with
  | nil => exact .fail _
  | cons head args =>
    have hargs : ∀ arg ∈ args, arg.Headed := fun arg ha => hall arg (List.mem_cons_of_mem _ ha)
    refine .bind (hgo.evaluate (hall head (by simp)) hW) fun f hf => ?_
    exact writes_applyToForms hhost hgo h hf hW hargs

theorem writes_evalSugar (hhost : host.Headed) (hgo : Obeys go) (h : form.Headed) (hW : W scope) :
    Writes W Value.Headed (evalSugar host go form scope) := by
  unfold evalSugar
  split
  · exact .bind (writes_lookup scope _) fun f hf => writes_applyToForms hhost hgo h hf hW h.parts
  · exact .fail _

theorem writes_evalForm (hhost : host.Headed) (hgo : Obeys go) (h : form.Headed)
    (hW : form.kind ≠ .symbol → W scope) : Writes W Value.Headed (evalForm host go form scope) := by
  unfold evalForm
  split
  · split
    · exact .pure (.var _)
    · exact .fail _
  · split
    · next quoted hfirst => exact .pure (.form (h.parts quoted (List.mem_of_getElem? hfirst)))
    · exact .fail _
  · exact writes_ofLiteral form _ .string
  · exact writes_ofLiteral form _ .ofNumber
  · exact writes_ofLiteral form _ .ofNumber
  · exact writes_ofLiteral form _ .int
  · exact writes_lookup scope _
  · exact writes_lookup scope _
  · next hk => exact writes_evalLambda h hk scope
  · next hk => exact writes_evalList hhost hgo h (hW (by simp [hk]))
  · next hsymbol _ _ _ => exact writes_evalSugar hhost hgo h (hW hsymbol)

/-- A form writes no scope but the one it is evaluated in, and a symbol not even that. -/
theorem writes_evaluate (hhost : host.Headed) (hgo : Obeys go) (h : form.Headed)
    (hW : form.kind ≠ .symbol → W scope) : Writes W Value.Headed (evaluate host go form scope) := by
  have hexpand : Writes W (fun next : Code => next.Headed ∧ (form.kind = .symbol → next.kind = .symbol))
      (expand scope form) := by
    refine .modifyGet fun s hs => ⟨⟨(hs.expand scope h).1, fun hk => ?_⟩, (hs.expand scope h).2,
      .of_frames W (s.frames_expand scope form)⟩
    rw [s.expand_symbol hk]
    exact hk
  refine .bind hexpand fun next ⟨hnext, hsymbol⟩ => .mapError ?_
  exact writes_evalForm hhost hgo hnext fun hne => hW fun hk => hne (hsymbol hk)

theorem obeys_step (hhost : host.Headed) (hgo : Obeys go) : Obeys (step host go) := by
  intro task htask
  cases htask with
  | evaluate h scope => exact writes_evaluate hhost hgo h fun hne => ⟨rfl, hne⟩
  | invoke special h scope => exact writes_invoke hhost hgo special h fun hne => ⟨rfl, hne⟩
  | call hp ha => exact writes_call hhost hgo hp ha

/-- However many levels are allowed, a task writes only what it may write. -/
theorem obeys_run (hhost : host.Headed) (levels : Nat) : Obeys (run host levels) := by
  induction levels with
  | zero => exact fun task _ s hs => .error hs (.refl _ s)
  | succ levels ih => exact obeys_step hhost ih

end Eval

/-! ### Lists that call `let` -/

/-- Whether a form is a list whose head is a symbol that stands for the built-in `let`. A symbol with a leading point
    does not count, as it names a member. -/
def Form.callsLet (form : Code) (s : Store) (scope : Scope) : Bool :=
  form.kind == .list &&
    match form.children with
    | head :: _ =>
      head.kind == .symbol && (memberName? head.text).isNone &&
        match s.get scope head.text with
        | .ok (.function _ (.special .letIn)) => true
        | _ => false
    | [] => false

theorem Form.exists_of_callsLet {s : Store} (h : form.callsLet s scope = true) :
    ∃ head args identity, form.children = head :: args ∧ head.kind = .symbol ∧ memberName? head.text = none ∧
      s.get scope head.text = .ok (.function identity (.special .letIn)) := by
  obtain ⟨-, h⟩ := Bool.and_eq_true_iff.mp h
  split at h
  · next head args hchildren =>
    obtain ⟨h, hstands⟩ := Bool.and_eq_true_iff.mp h
    obtain ⟨hsymbol, hmember⟩ := Bool.and_eq_true_iff.mp h
    split at hstands
    · next identity hget =>
      exact ⟨head, args, identity, hchildren, eq_of_beq hsymbol, Option.isNone_iff_eq_none.mp hmember, hget⟩
    · cases hstands
  · cases h

theorem Form.kind_of_callsLet {s : Store} (h : form.callsLet s scope = true) : form.kind = .list :=
  eq_of_beq (Bool.and_eq_true_iff.mp h).1

namespace Store

variable {s : Store}

theorem cells_expandAll {i : Nat} {cell : Cell} (h : s.cells[i]? = some cell) (scope : Scope) (forms : List Code) :
    (s.expandAll scope forms).2.cells[i]? = some cell := by
  refine expandAll_induction (P := fun t => t.cells[i]? = some cell) h (fun {t} ht name v m => ?_) scope forms
  have hi : i < t.cells.size := (Array.getElem?_eq_some_iff.mp ht).1
  simp [Store.newVar, Array.getElem?_push, Nat.ne_of_lt hi, ht]

/-- A name that means the same var stands for the same function, if the vars are still there. -/
theorem get_of_lookup_eq {t : Store} {inner : Scope} {name : String} {identity : Nat} {c : Callable Value}
    (hlookup : t.lookup inner name = s.lookup scope name)
    (hcells : ∀ {i : Nat} {cell : Cell}, s.cells[i]? = some cell → t.cells[i]? = some cell)
    (h : s.get scope name = .ok (.function identity c)) : t.get inner name = .ok (.function identity c) := by
  unfold Store.get at h ⊢
  rw [hlookup]
  cases hv : s.lookup scope name with
  | none =>
    rw [hv] at h
    cases h
  | some var =>
    rw [hv] at h
    -- a var without a cell would hold `nil`, not a function
    cases hcell : s.cells[var.index]? with
    | none => simp [Store.held, hcell] at h
    | some cell =>
      simp only [Store.held, hcell, hcells hcell] at h ⊢
      exact h

/-- A name that stands for a function stands for it still after expansions. -/
theorem get_expandAll {name : String} {identity : Nat} {c : Callable Value}
    (h : s.get scope name = .ok (.function identity c)) (forms : List Code) :
    (s.expandAll scope forms).2.get scope name = .ok (.function identity c) := by
  refine get_of_lookup_eq ?_ (fun hcell => cells_expandAll hcell scope forms) h
  simp only [Store.lookup, Store.outer, Store.bindings, frames_expandAll]

end Store

/-- A list whose head is a symbol that names no member calls none. -/
theorem Form.memberCall?_of_head {form head : Code} {args : List Code} (hchildren : form.children = head :: args)
    (hsymbol : head.kind = .symbol) (hmember : memberName? head.text = none) (number : Nat) :
    form.memberCall? number = none := by
  unfold memberCall?
  rw [hchildren]
  cases args with
  | nil => rfl
  | cons target args =>
    unfold text at hmember
    cases htext : head.text? with
    | none => simp [hsymbol, htext]
    | some text => simpa [hsymbol, htext] using hmember

theorem Store.expandOnce?_of_head (s : Store) (scope : Scope) {form head : Code} {args : List Code}
    (hkind : form.kind = .list) (hchildren : form.children = head :: args) (hsymbol : head.kind = .symbol)
    (hmember : memberName? head.text = none) : s.expandOnce? scope form = none := by
  rw [s.expandOnce?_of_list scope hkind, Form.memberCall?_of_head hchildren hsymbol hmember, Option.map_none]

theorem Store.expandOnce?_of_callsLet {s : Store} (h : form.callsLet s scope = true) :
    s.expandOnce? scope form = none := by
  obtain ⟨head, args, identity, hchildren, hsymbol, hmember, -⟩ := Form.exists_of_callsLet h
  exact s.expandOnce?_of_head scope (Form.kind_of_callsLet h) hchildren hsymbol hmember

namespace Eval

theorem run_symbol_ok {levels : Nat} {s : Store} {v : Value} (hk : form.kind = .symbol)
    (h : s.get scope form.text = .ok v) : run host (levels + 1) (.evaluate form scope) s = .ok v s := by
  refine run_evaluate_ok (by simp [hk]) (by simp [hk]) ?_
  simp only [evalForm, hk]
  exact lookup_ok h

/-- A list that calls `let` writes no scope that was there, not even the one it is evaluated in. -/
theorem ends_run_let (hhost : host.Headed) (levels : Nat) {s : Store} (hs : s.Headed) (h : form.Headed)
    (hlet : form.callsLet s scope = true) : Ends W Value.Headed s (run host levels (.evaluate form scope) s) := by
  cases levels with
  | zero => exact .error hs (.refl W s)
  | succ levels =>
    show Ends W Value.Headed s
      ((expand scope form >>= fun form => through form (evalForm host (run host levels) form scope)) s)
    rw [bind_ok (expand_ok (Store.expandOnce?_of_callsLet hlet))]
    refine .mapError ?_
    obtain ⟨head, args, identity, hchildren, hsymbol, -, hget⟩ := Form.exists_of_callsLet hlet
    have hall : s.expandAll scope form.children = (head :: (s.expandAll scope args).1, (s.expandAll scope args).2) := by
      rw [hchildren, Store.expandAll, s.expand_symbol hsymbol]
    have hargs : ∀ part ∈ args, part.Headed := fun part hp => h.parts part (by simp [hchildren, hp])
    have ht := (hs.expandAll scope hargs).2
    have hget := Store.get_expandAll hget args
    have hk : s.Kept W (s.expandAll scope args).2 := .of_frames W (s.frames_expandAll scope args)
    generalize s.expandAll scope args = expanded at hall ht hget hk
    have hexpand : expandAll scope form.children s = .ok (head :: expanded.1) expanded.2 := by
      show EStateM.Result.ok (s.expandAll scope form.children).1 (s.expandAll scope form.children).2 = _
      rw [hall]
    simp only [evalForm, Form.kind_of_callsLet hlet, evalList]
    rw [bind_ok hexpand]
    refine .trans hk ?_
    cases levels with
    | zero => exact .error ht (.refl W _)
    | succ levels =>
      dsimp only
      rw [bind_ok (run_symbol_ok hsymbol hget)]
      refine .mapError ?_
      exact (obeys_run hhost (levels + 1) (.invoke .letIn h scope)).mono (fun _ hf => absurd rfl hf.2) _ ht

end Eval

end Lisplet
