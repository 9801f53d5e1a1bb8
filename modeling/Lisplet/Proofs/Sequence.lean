import Lisplet.Proofs.History
import Lisplet.Proofs.Sugar

/-! # Bodies of several forms

Forms are evaluated in turn: from left to right, up to the first one that fails, and the value of the last one is kept.
This is what `do` does with its arguments. A body of several forms is made into a list that calls `do` by this name, in
the scope that was opened for the body. There the list expands all its parts before `do` is called, and `do` is given
the parts as they were. So the body is evaluated in turn, but for the numbers of vars and the forms that a failure
passes, as long as the name means `do` in that scope. No other name makes a difference, but a binding or a parameter
that is called `do` takes the place of the special form. -/

namespace Lisplet

open EStateM (Result)
open Function (Injective)

namespace Eval

/-! ### Forms in turn -/

section Turn

variable {go : Task → Eval Value} {scope : Scope}

/-- The value of the last of some forms, after those before it have been evaluated from left to right. -/
def inTurn (go : Task → Eval Value) (scope : Scope) : List Code → Eval Value
  | [] => pure .nil
  | [last] => go (.evaluate last scope)
  | form :: next :: rest => do
    let _ ← go (.evaluate form scope)
    inTurn go scope (next :: rest)

theorem evaluateAll_getLast : (forms : List Code) →
    (evaluateAll go scope forms >>= fun values => pure (values.getLast?.getD .nil)) = inTurn go scope forms
  | [] => rfl
  | [last] => by
    simp only [evaluateAll, bind_assoc, pure_bind, List.getLast?_singleton, Option.getD_some, bind_pure]
    rfl
  | form :: next :: rest => by
    have hrest := evaluateAll_getLast (next :: rest)
    simp only [evaluateAll, bind_assoc, pure_bind] at hrest ⊢
    simp only [List.getLast?_cons_cons, hrest]
    rfl

theorem evalDo_eq (form : Code) : evalDo go form scope = inTurn go scope form.arguments :=
  evaluateAll_getLast form.arguments

theorem inTurn_append (form : Code) (rest : List Code) : (forms : List Code) →
    inTurn go scope (forms ++ form :: rest) = inTurn go scope forms >>= fun _ => inTurn go scope (form :: rest)
  | [] => rfl
  | [_] => rfl
  | first :: next :: more => by
    have hmore := inTurn_append form rest (next :: more)
    show (go (.evaluate first scope) >>= fun _ => inTurn go scope (next :: more ++ form :: rest)) =
      (go (.evaluate first scope) >>= fun _ => inTurn go scope (next :: more)) >>= _
    rw [hmore, bind_assoc]

end Turn

/-- The numbers of vars and made forms make no difference to forms in turn. -/
theorem mirrors_inTurn {f : Nat → Nat} {bound : Nat} {host : Host} (hf : Injective f) (hhost : host.Uniform)
    (levels : Nat) (scope : Scope) (forms : List Code) :
    Mirrors f bound (Value.rename f) (inTurn (run host levels) scope forms)
      (inTurn (run host levels) scope (forms.map (Form.rename f))) := by
  have hlaws : (Comparison.renamed f bound).Lawful host := Comparison.Renamed.lawful hf hhost
  rw [← evaluateAll_getLast, ← evaluateAll_getLast]
  exact .bind (leftTotal_forall₂ hlaws.values)
    (Comparison.sim_evaluateAll hlaws (treats_renamed hf hhost levels) scope (Comparison.Renamed.forall₂_iff.mpr rfl))
    fun _ _ hvalues => .pure (hlaws.getLast hvalues)

/-! ### Further out -/

/-- Outcomes of which the second is the first one further out: vars are numbered by `f`, and a failure has gone on its
    way. -/
inductive Emerges (f : Nat → Nat) : Result Stop Store Value → Result Stop Store Value → Prop
  | ok (v : Value) {s t : Store} (hs : s.Tied f 0 t) : Emerges f (.ok v s) (.ok (v.rename f) t)
  | failed {error later : Error} (hbecomes : (error.rename f).Becomes later) {s t : Store} (hs : s.Tied f 0 t) :
    Emerges f (.error (.failed error) s) (.error (.failed later) t)
  | exhausted {s t : Store} (hs : s.Tied f 0 t) : Emerges f (.error .exhausted s) (.error .exhausted t)

section Emerges

variable {f : Nat → Nat} {bound : Nat} {p : Eval Value} {s : Store} {x y : Result Stop Store Value}

theorem Matches.emerges (h : Matches f bound (Value.rename f) x y) : Emerges f x y := by
  cases h with
  | ok hsame hs =>
    rw [hsame]
    exact .ok _ (Store.Tied.mono hs (Nat.zero_le _))
  | @failed error _ _ _ hsame hs =>
    rw [show _ = error.rename f from hsame]
    exact .failed (.refl _) (Store.Tied.mono hs (Nat.zero_le _))
  | exhausted hs => exact .exhausted (Store.Tied.mono hs (Nat.zero_le _))

theorem Emerges.mapError {change : Error → Error} (hchange : ∀ error : Error, error.Becomes (change error))
    (h : Emerges f x (p s)) : Emerges f x (mapError change p s) := by
  unfold Eval.mapError
  generalize p s = y at h ⊢
  cases h with
  | ok v hs => exact .ok v hs
  | failed hbecomes hs => exact .failed (hbecomes.trans (hchange _)) hs
  | exhausted hs => exact .exhausted hs

end Emerges

/-! ### The list that a body becomes -/

variable {host : Host} {scope inner : Scope} {s t u : Store} {body : List Code} {identity : Nat}

/-- The list expands its parts, finds what its head means and gives the parts as they are to `do`. -/
theorem run_evaluate_implicitDo (hdo : t.get inner "do" = .ok (.function identity (.special .sequence)))
    (form : Code) (number : Nat) (body : List Code) (levels : Nat) :
    run host (levels + 2) (.evaluate (form.implicitDo number body) inner) t =
      through (form.implicitDo number body) (attributed (form.implicitDo number body)
        (inTurn (run host levels) inner body)) (t.expandAll inner body).2 := by
  have hself : t.expandOnce? inner (form.implicitDo number body) = none :=
    t.expandOnce?_of_head inner rfl rfl rfl (show memberName? "do" = none by decide)
  have hexpand : expandAll inner (form.implicitDo number body).children t =
      .ok (.symbol (.derived form.id number 1) "do" :: (t.expandAll inner body).1) (t.expandAll inner body).2 := by
    show Result.ok (t.expandAll inner (.symbol (.derived form.id number 1) "do" :: body)).1
      (t.expandAll inner (.symbol (.derived form.id number 1) "do" :: body)).2 = _
    rw [Store.expandAll, t.expand_symbol rfl]
  have hhead : run host (levels + 1) (.evaluate (.symbol (.derived form.id number 1) "do") inner)
      (t.expandAll inner body).2 = .ok (.function identity (.special .sequence)) (t.expandAll inner body).2 :=
    run_symbol_ok rfl (Store.get_expandAll hdo body)
  have hturn : run host (levels + 1) (.invoke .sequence (form.implicitDo number body) inner) =
      inTurn (run host levels) inner body := evalDo_eq (form.implicitDo number body)
  rw [run_evaluate_of_expand (t.expand_eq_self hself)]
  refine mapError_congr ?_ _
  show evalList host (run host (levels + 1)) (form.implicitDo number body) inner t = _
  rw [evalList, bind_ok hexpand]
  dsimp only
  rw [bind_ok hhead, ← hturn]
  rfl

/-- The list may have been given a number, in a store that has further vars then. -/
theorem exists_emerges_implicitDo (hhost : host.Uniform) (ht : t.Closed) (hgrown : t.Extends u)
    (hcells : ∃ cells, u = { t with cells := cells })
    (hdo : t.get inner "do" = .ok (.function identity (.special .sequence)))
    (hbody : ∀ form ∈ body, form.Bounded t.cells.size) (form : Code) (number levels : Nat) :
    ∃ f, Injective f ∧ (∀ i < t.cells.size, f i = i) ∧
      Emerges f (inTurn (run host levels) inner body t)
        (run host (levels + 2) (.evaluate (form.implicitDo number body) inner) u) := by
  have hmeans : u.get inner "do" = .ok (.function identity (.special .sequence)) := by
    refine Store.get_of_lookup_eq ?_ hgrown.cells hdo
    obtain ⟨cells, rfl⟩ := hcells
    rfl
  have hexpanded : ∃ cells, (u.expandAll inner body).2 = { t with cells := cells } := by
    obtain ⟨cells, rfl⟩ := hcells
    exact exists_expandAll_eq _ inner body
  obtain ⟨htied, hinjective⟩ := tied_of_extends ht (hgrown.trans (u.extends_expandAll inner body)) hexpanded
  have hmirrors : ∀ g bound, Injective g →
      (∀ i < t.cells.size, g i = graft id t.cells.size (u.expandAll inner body).2.cells.size i) →
      Mirrors g bound (Value.rename g) (inTurn (run host levels) inner body) (inTurn (run host levels) inner body) := by
    intro g bound hg hsame
    have hturn : Mirrors g bound (Value.rename g) (inTurn (run host levels) inner body) _ :=
      mirrors_inTurn hg hhost levels inner body
    rwa [Form.map_rename_of_bounded hbody fun i hi => (hsame i hi).trans (graft_of_lt hi)] at hturn
  obtain ⟨f, bound, hf, hkept, -, hmatches⟩ := exists_matches ht htied hinjective hmirrors
  refine ⟨f, hf, fun i hi => (hkept i hi).trans (graft_of_lt hi), ?_⟩
  rw [run_evaluate_implicitDo hmeans]
  exact (hmatches.emerges.mapError (Error.Becomes.attributeTo _)).mapError (Error.Becomes.through _)

end Eval

/-! ### Scopes for bodies -/

/-- A `fn` form and its parts: the name it has for itself, if it has one, its parameter vector and its body. -/
inductive Form.FnParts : Code → Option String → Code → List Code → Prop
  | named {form symbol params : Code} {body : List Code} (harguments : form.arguments = symbol :: params :: body)
      (hsymbol : symbol.kind = .symbol) (hparams : params.kind = .vector) : FnParts form (some symbol.text) params body
  | unnamed {form params : Code} {body : List Code} (harguments : form.arguments = params :: body)
      (hparams : params.kind = .vector) : FnParts form none params body

namespace Eval

/-- A task that opens a scope for a body: it carries out a `let` form, or calls what a `fn` form has made. In the store
    `t` it has bound all names in the scope `inner`. -/
inductive Opens (host : Host) (levels : Nat) : Task → Store → List Code → Scope → Store → Prop
  | letIn {form bindings : Code} {body : List Code} {scope : Scope} {s t : Store}
      (hparts : form.arguments = bindings :: body) (hbindings : bindings.kind = .vector)
      (heven : bindings.children.length % 2 = 0)
      (hbound : bindAll (run host levels) (s.newChild scope).1 bindings.children (s.newChild scope).2 = .ok () t) :
      Opens host levels (.invoke .letIn form scope) s body (s.newChild scope).1 t
  | call {form params code : Code} {name : Option String} {names : List String} {body : List Code} {scope : Scope}
      {identity : Nat} {args : List Value} {made made' s t : Store} (hparts : form.FnParts name params body)
      (hmade : evalFn form scope made =
        .ok (.function identity (.procedure (.closure name names code scope))) made')
      (hbound : (bindSelf (s.newChild scope).1 name (.closure name names code scope) >>= fun _ =>
        bindParams (s.newChild scope).1 names args) (s.newChild scope).2 = .ok () t) :
      Opens host levels (.call (.closure name names code scope) args) s body (s.newChild scope).1 t

variable {host : Host} {scope inner : Scope} {s t : Store} {form params code : Code} {name : Option String}
  {names : List String} {body : List Code} {args : List Value} {identity levels : Nat} {task : Task}

theorem evalFn_eq (h : form.FnParts name params body) (hmany : 2 ≤ body.length) (scope : Scope) :
    evalFn form scope = (do
      let names ← paramNames params.children
      let number ← newNumber
      newFunction (.procedure (.closure name names (form.implicitDo number body) scope))) := by
  obtain ⟨first, second, more, rfl⟩ : ∃ first second more, body = first :: second :: more := by
    match body, hmany with
    | first :: second :: more, _ => exact ⟨first, second, more, rfl⟩
  cases h with
  | named harguments hsymbol hparams => rw [evalFn, harguments]; simp only [hsymbol, if_true, evalClosure, hparams]
  | unnamed harguments hparams => rw [evalFn, harguments]; simp [evalClosure, hparams]

theorem paramNames_eq {params : List Code} (h : ∀ param ∈ params, param.kind = .symbol) :
    paramNames params = pure (params.map Form.text) := by
  induction params with
  | nil => rfl
  | cons param rest ih =>
    obtain ⟨hparam, hrest⟩ := List.forall_mem_cons.mp h
    simp only [paramNames, ih hrest, Form.symbolName, hparam, if_true, ofExceptAt, pure_bind, List.map_cons]

theorem evalFn_ok (h : form.FnParts name params body) (hmany : 2 ≤ body.length)
    (hparams : ∀ param ∈ params.children, param.kind = .symbol) (scope : Scope) (s : Store) :
    evalFn form scope s = .ok
      (.function s.identities
        (.procedure (.closure name (params.children.map Form.text) (form.implicitDo s.newNumber.1 body) scope)))
      { s.newNumber.2 with identities := s.identities + 1 } := by
  rw [evalFn_eq h hmany, paramNames_eq hparams, pure_bind]
  rfl

theorem exists_implicitDo_of_evalFn (h : form.FnParts name params body) (hmany : 2 ≤ body.length)
    (hmade : evalFn form scope s = .ok (.function identity (.procedure (.closure name names code scope))) t) :
    ∃ number, code = form.implicitDo number body := by
  rw [evalFn_eq h hmany, bind_apply] at hmade
  cases hnames : paramNames params.children s with
  | ok found u =>
    rw [hnames] at hmade
    have hvalue := (Result.ok.inj hmade).1
    simp only [Value.function.injEq, Callable.procedure.injEq, Procedure.closure.injEq] at hvalue
    exact ⟨_, hvalue.2.2.2.1.symm⟩
  | error stop u =>
    rw [hnames] at hmade
    cases hmade

/-! ### Stores in which names are bound -/

theorem closed_of_bound {p : Eval Unit} (hs : s.Closed) (hp : p s = .ok () t)
    (h : ∀ n, s.cells.size ≤ n → (Comparison.renamed (skip n) n).Sim Eq p p) :
    t.Closed ∧ s.cells.size ≤ t.cells.size := by
  have hleft : p.left s = t := by rw [left, hp]
  have hclosed := (closed_of_mirrors (r := fun _ => id) hs fun n hn => (h n hn).imp Eq.symm).1
  have hgrows := (h _ (Nat.le_refl _)).grows s
  rw [hleft] at hclosed hgrows
  exact ⟨hclosed, hgrows⟩

theorem closed_of_bindAll (hhost : host.Uniform) (hs : s.Closed) {bindings : Code}
    (hbindings : bindings.Bounded s.cells.size)
    (h : bindAll (run host levels) inner bindings.children s = .ok () t) :
    t.Closed ∧ s.cells.size ≤ t.cells.size := by
  refine closed_of_bound hs h fun n hn => ?_
  have hforms : List.Forall₂ (Comparison.renamed (skip n) n).form bindings.children bindings.children :=
    Comparison.Renamed.forall₂_iff.mpr (hbindings.mono hn).children.symm
  exact Comparison.sim_bindAll (Comparison.Renamed.lawful (skip_injective n) hhost)
    (treats_renamed (skip_injective n) hhost levels) inner hforms

theorem closed_of_bindParams {p : Procedure Value} (hhost : host.Uniform) (hs : s.Closed)
    (htask : (Task.call p args).Bounded s.cells.size)
    (h : (bindSelf inner name p >>= fun _ => bindParams inner names args) s = .ok () t) :
    t.Closed ∧ s.cells.size ≤ t.cells.size := by
  refine closed_of_bound hs h fun n hn => ?_
  obtain ⟨hp, hargs⟩ := Task.call.inj (htask.rename fun i hi => skip_of_lt (Nat.lt_of_lt_of_le hi hn))
  have hlaws : (Comparison.renamed (skip n) n).Lawful host := Comparison.Renamed.lawful (skip_injective n) hhost
  have hsame : (Comparison.renamed (skip n) n).Procedures p (p.rename (skip n)) :=
    Comparison.Renamed.procedures_rename p
  rw [hp] at hsame
  refine .bind leftTotal_eq (Comparison.sim_bindSelf hlaws inner name hsame) fun _ _ _ => ?_
  exact Comparison.sim_bindParams hlaws inner names (Comparison.Renamed.forall₂_iff.mpr hargs.symm)

/-- When all names are bound, what is left is to evaluate the list that the body becomes then or has become before. -/
theorem Opens.exists_implicitDo (hhost : host.Uniform) (hs : s.Closed) (htask : task.Bounded s.cells.size)
    (h : Opens host levels task s body inner t) (hmany : 2 ≤ body.length) :
    t.Closed ∧ (∀ form ∈ body, form.Bounded t.cells.size) ∧
    ∃ (form : Code) (number : Nat) (u : Store), t.Extends u ∧ (∃ cells, u = { t with cells := cells }) ∧
      run host (levels + 1) task s = run host levels (.evaluate (form.implicitDo number body) inner) u := by
  cases h with
  | @letIn form bindings _ scope _ _ hparts hkind heven hbound =>
    have hform : form.Bounded s.cells.size := (Task.invoke.inj htask).2.1
    have harguments := hform.arguments
    rw [hparts] at harguments
    obtain ⟨hbindings, hbody⟩ := List.cons.inj harguments
    obtain ⟨hclosed, hle⟩ := closed_of_bindAll hhost (hs.newChild scope) hbindings hbound
    refine ⟨hclosed, fun part hpart => .mono (eq_of_map_eq_self hbody part hpart) hle, form, t.newNumber.1,
      t.newNumber.2, .newVar t "" .nil .empty, ⟨_, rfl⟩, ?_⟩
    show evalLet (run host levels) form scope s = _
    simp only [evalLet, hparts, if_pos hkind, if_pos heven]
    rw [bind_ok (show newChild scope s = .ok (s.newChild scope).1 (s.newChild scope).2 from rfl), bind_ok hbound]
    match body, hmany with
    | first :: second :: more, _ => rfl
  | @call form params code name names _ scope identity args made made' _ _ hparts hmade hbound =>
    obtain ⟨number, rfl⟩ := exists_implicitDo_of_evalFn hparts hmany hmade
    have hnode : (form.implicitDo number body).Bounded s.cells.size :=
      (Procedure.closure.inj (Task.call.inj htask).1).2.2.1
    obtain ⟨hclosed, hle⟩ := closed_of_bindParams hhost (hs.newChild scope) htask hbound
    have hbody : ∀ part ∈ body, part.Bounded s.cells.size := fun part hpart =>
      eq_of_map_eq_self hnode.children part (List.mem_cons_of_mem _ hpart)
    refine ⟨hclosed, fun part hpart => (hbody part hpart).mono hle, form, number, t, .refl t, ⟨_, rfl⟩, ?_⟩
    show Eval.call host (run host levels) (.closure name names (form.implicitDo number body) scope) args s = _
    rw [Eval.call, bind_ok (show newChild scope s = .ok (s.newChild scope).1 (s.newChild scope).2 from rfl),
      ← bind_assoc, bind_ok hbound]

/-! ### Calls whose names are not `do` -/

end Eval

namespace Store

variable {s : Store} {scope inner : Scope} {name other : String} {identity : Nat} {callable : Callable Value}

theorem lookup_newChild (s : Store) (scope : Scope) (name : String) :
    (s.newChild scope).2.lookup (s.newChild scope).1 name = s.lookup scope name := by
  have hnone : s.bindings s.frames.size = [] := by simp [bindings]
  simp only [lookup, newChild, outer_push, bindings_push, if_true, List.findSome?_cons, hnone]
  rfl

theorem get_define_of_ne (hscope : scope < s.frames.size) (hne : other ≠ name) (v : Value)
    (h : s.get inner other = .ok (.function identity callable)) :
    (s.define scope name v).2.get inner other = .ok (.function identity callable) := by
  refine get_of_lookup_eq ?_ (Extends.define s scope name v .empty).cells h
  show ((s.newVar name v .empty).2.bind scope name (s.newVar name v .empty).1).lookup inner other = _
  rw [lookup_bind (s := (s.newVar name v .empty).2) hscope]
  simp only [hne, and_false, if_false]
  rfl

end Store

namespace Eval

variable {host : Host} {scope inner : Scope} {s t : Store} {form params code : Code} {name : Option String}
  {names : List String} {body : List Code} {identity levels : Nat} {other : String} {callable : Callable Value}

theorem exists_bindParams (hinner : inner < s.frames.size) (hother : other ∉ names) (args : List Value)
    (h : s.get inner other = .ok (.function identity callable)) :
    ∃ t, bindParams inner names args s = .ok () t ∧ t.get inner other = .ok (.function identity callable) := by
  induction names generalizing s args with
  | nil => exact ⟨s, rfl, h⟩
  | cons name rest ih =>
    obtain ⟨hne, hrest⟩ := List.ne_and_not_mem_of_not_mem_cons hother
    have hsize : (s.define inner name (firstArgument args)).2.frames.size = s.frames.size := by
      simp [Store.define, Store.newVar, Store.bind]
    exact ih (hsize ▸ hinner) hrest args.tail (Store.get_define_of_ne hinner hne _ h)

theorem exists_bindSelf (hinner : inner < s.frames.size) (hother : name ≠ some other) (p : Procedure Value)
    (h : s.get inner other = .ok (.function identity callable)) :
    ∃ t, bindSelf inner name p s = .ok () t ∧ t.frames.size = s.frames.size ∧
      t.get inner other = .ok (.function identity callable) := by
  cases name with
  | none => exact ⟨s, rfl, rfl, h⟩
  | some name =>
    have hne : other ≠ name := fun heq => hother (congrArg some heq.symm)
    refine ⟨((s.newFunction (.procedure p)).2.define inner name (s.newFunction (.procedure p)).1).2, rfl, ?_, ?_⟩
    · simp [Store.define, Store.newVar, Store.bind, Store.newFunction, Store.newIdentity]
    · exact Store.get_define_of_ne (s := (s.newFunction (.procedure p)).2) hinner hne _ h

/-- A call binds its names whatever the arguments are, and `do` means in the scope of the call what it means where the
    function was made, if neither the function nor a parameter is called so. -/
theorem exists_opens_call (hparts : form.FnParts name params body) (hmany : 2 ≤ body.length)
    (hparams : ∀ param ∈ params.children, param.kind = .symbol) (hself : name ≠ some "do")
    (hnames : "do" ∉ params.children.map Form.text)
    (hdo : s.get scope "do" = .ok (.function identity (.special .sequence))) (host : Host) (levels : Nat)
    (args : List Value) (made : Store) :
    ∃ t, Opens host levels
        (.call (.closure name (params.children.map Form.text) (form.implicitDo made.newNumber.1 body) scope) args) s body
        (s.newChild scope).1 t ∧
      t.get (s.newChild scope).1 "do" = .ok (.function identity (.special .sequence)) := by
  have hinner : (s.newChild scope).1 < (s.newChild scope).2.frames.size := by simp [Store.newChild]
  have hchild : (s.newChild scope).2.get (s.newChild scope).1 "do" = .ok (.function identity (.special .sequence)) :=
    Store.get_of_lookup_eq (s.lookup_newChild scope "do") id hdo
  obtain ⟨u, hu, hsize, hget⟩ := exists_bindSelf hinner hself
    (.closure name (params.children.map Form.text) (form.implicitDo made.newNumber.1 body) scope) hchild
  obtain ⟨t, ht, hget⟩ := exists_bindParams (hsize ▸ hinner) hnames args hget
  exact ⟨t, .call hparts (evalFn_ok hparts hmany hparams scope made) ((bind_ok hu).trans ht), hget⟩

/-- Once a `let` form or a call of what a `fn` form has made has bound its names, a body of several forms is evaluated
    in turn in the scope that was opened for it, with the same outcome but for the numbers of vars that are made and the
    forms that a failure passes on its way. This is so whatever names are bound, as long as `do` still means the special
    form in that scope. -/
theorem run_inTurn_of_opens {host : Host} (hhost : host.Uniform) {s : Store} (hs : s.Reachable host) {levels : Nat}
    {task : Task} (htask : task.Bounded s.cells.size) {body : List Code} (hmany : 2 ≤ body.length) {inner : Scope}
    {t : Store} (hopens : Opens host (levels + 2) task s body inner t) {identity : Nat}
    (hdo : t.get inner "do" = .ok (.function identity (.special .sequence))) :
    ∃ f, Injective f ∧ (∀ i < t.cells.size, f i = i) ∧
      Emerges f (inTurn (run host levels) inner body t) (run host (levels + 3) task s) := by
  obtain ⟨hclosed, hbody, form, number, u, hgrown, hcells, hrun⟩ :=
    hopens.exists_implicitDo hhost (hs.closed hhost) htask hmany
  rw [hrun]
  exact exists_emerges_implicitDo hhost hclosed hgrown hcells hdo hbody form number levels

/-! ### Forms that bind and are evaluated in turn -/

/-- Whether `do` means the special form. -/
def meansDo (s : Store) (scope : Scope) : Bool :=
  match s.get scope "do" with
  | .ok (.function _ (.special .sequence)) => true
  | _ => false

theorem exists_of_meansDo (h : meansDo s scope = true) :
    ∃ identity, s.get scope "do" = .ok (.function identity (.special .sequence)) := by
  unfold meansDo at h
  split at h
  · next identity hget => exact ⟨identity, hget⟩
  · cases h

/-- What came out of an evaluation, as it is printed. -/
def printed : Result Stop Store Value → Option String
  | .ok v _ => some v.print
  | .error _ _ => none

theorem Emerges.printed_eq {f : Nat → Nat} {x y : Result Stop Store Value} (h : Emerges f x y) :
    printed y = printed x := by
  cases h with
  | ok v => exact congrArg some v.print_rename
  | failed | exhausted => rfl

/-- A scope inside a fresh scope of the command line, and the store. -/
def freshChild : Scope × Store := freshCommand.2.newChild freshCommand.1.scope

/-- How a `let` form binds its names, within twelve levels. -/
def bindLet (form : Code) : Eval Unit :=
  bindAll (run Command.host 12) freshChild.1 (form.arguments.headD default).children

/-- Whether a form has a vector of bindings that a `let` form can bind. -/
def bindsLet (form : Code) : Bool :=
  match form.arguments, bindLet form freshChild.2 with
  | bindings :: _, .ok _ _ => bindings.kind == .vector && bindings.children.length % 2 == 0
  | _, _ => false

theorem opens_of_bindsLet (h : bindsLet form = true) :
    Opens Command.host 12 (.invoke .letIn form freshCommand.1.scope) freshCommand.2 form.arguments.tail freshChild.1
      ((bindLet form).left freshChild.2) := by
  unfold bindsLet at h
  split at h
  · next bindings body u hparts hbound =>
    obtain ⟨hkind, heven⟩ := Bool.and_eq_true_iff.mp h
    have hleft : (bindLet form).left freshChild.2 = u := by rw [left, hbound]
    rw [hparts, List.tail_cons, hleft]
    rw [bindLet, hparts, List.headD_cons] at hbound
    exact .letIn hparts (eq_of_beq hkind) (eq_of_beq heven) hbound
  · cases h

/-- What a `let` form comes to, within thirteen levels. -/
def outcomeOfLet (form : Code) : Result Stop Store Value :=
  run Command.host 13 (.invoke .letIn form freshCommand.1.scope) freshCommand.2

/-- What its body comes to in turn, once its names are bound. -/
def bodyInTurn (form : Code) : Result Stop Store Value :=
  inTurn (run Command.host 10) freshChild.1 form.arguments.tail ((bindLet form).left freshChild.2)

/-- A `let` form with a body that binds a further name. -/
def definingLet : Code := sourceForm "(let [a 1] (def b a) b)"

/-- The same as a function of `a`. -/
def definingFn : Code := sourceForm "(fn [a] (def b a) b)"

/-- The store in which the function has been made. -/
def definingStore : Store :=
  (run Command.host 1 (.invoke .function definingFn freshCommand.1.scope)).left freshCommand.2

/-- The function is made of no vars and forms but those of the store it is made in. -/
theorem bounded_of_made {p : Procedure Value} (hform : form.Bounded freshCommand.2.cells.size)
    (hmade : evalFn form freshCommand.1.scope freshCommand.2 = .ok (.function identity (.procedure p)) t) :
    p.rename (skip t.cells.size) = p := by
  have htask : (Task.invoke .function form freshCommand.1.scope).Bounded freshCommand.2.cells.size :=
    congrArg (Task.invoke .function · freshCommand.1.scope) hform
  have hclosed := Store.reachable_freshCommand.closed Command.uniform_host
  have hbounded := (closed_run Command.uniform_host hclosed htask 1).2 _ t hmade
  rw [Value.Bounded, Value.rename_function, Value.function.injEq, Callable.rename, Callable.procedure.injEq] at hbounded
  exact hbounded.2

theorem run_inTurn_of_opens_defining :
    (Opens Command.host 12 (.invoke .letIn definingLet freshCommand.1.scope) freshCommand.2 definingLet.arguments.tail
        freshChild.1 ((bindLet definingLet).left freshChild.2) ∧
      printed (bodyInTurn definingLet) = some "1" ∧
      ∃ f, Injective f ∧ (∀ i < ((bindLet definingLet).left freshChild.2).cells.size, f i = i) ∧
        Emerges f (bodyInTurn definingLet) (outcomeOfLet definingLet)) ∧
    ∃ p inner t, Opens Command.host 12 (.call p [.int 7]) definingStore definingFn.arguments.tail inner t ∧
      ∃ f, Injective f ∧ (∀ i < t.cells.size, f i = i) ∧
        Emerges f (inTurn (run Command.host 10) inner definingFn.arguments.tail t)
          (run Command.host 13 (.call p [.int 7]) definingStore) := by
  have hcheck : bindsLet definingLet = true ∧ definingLet.all Form.isBare = true ∧
      2 ≤ definingLet.arguments.tail.length ∧ meansDo ((bindLet definingLet).left freshChild.2) freshChild.1 = true ∧
      meansDo definingStore freshCommand.1.scope = true ∧ printed (bodyInTurn definingLet) = some "1" := by
    decide +kernel
  obtain ⟨hlet, hbare, hmany, hinner, hmade, hprinted⟩ := hcheck
  obtain ⟨_, hdo⟩ := exists_of_meansDo hinner
  obtain ⟨_, hroot⟩ := exists_of_meansDo hmade
  have hopens := opens_of_bindsLet hlet
  have htask : (Task.invoke .letIn definingLet freshCommand.1.scope).Bounded freshCommand.2.cells.size :=
    congrArg (Task.invoke .letIn · freshCommand.1.scope) (Form.bounded_of_isBare hbare _)
  refine ⟨⟨hopens, hprinted, ?_⟩, ?_⟩
  · exact run_inTurn_of_opens Command.uniform_host Store.reachable_freshCommand htask hmany hopens hdo
  · have hfn : definingFn.all Form.isBare = true ∧ (definingFn.arguments.headD default).kind = .vector ∧
        (∀ param ∈ (definingFn.arguments.headD default).children, param.kind = .symbol) ∧
        "do" ∉ (definingFn.arguments.headD default).children.map Form.text ∧
        2 ≤ definingFn.arguments.tail.length := by decide +kernel
    obtain ⟨hbare, hkind, hparams, hnames, hmany⟩ := hfn
    have hparts : definingFn.FnParts none (definingFn.arguments.headD default) definingFn.arguments.tail := by
      refine .unnamed ?_ hkind
      cases harguments : definingFn.arguments with
      | nil => simp [harguments] at hmany
      | cons => rfl
    obtain ⟨t, hcall, hdo⟩ :=
      exists_opens_call hparts hmany hparams (by simp) hnames hroot Command.host 12 [.int 7] freshCommand.2
    have hform : definingFn.Bounded freshCommand.2.cells.size := Form.bounded_of_isBare hbare _
    have hmade := evalFn_ok hparts hmany hparams freshCommand.1.scope freshCommand.2
    have hleft : definingStore = { freshCommand.2.newNumber.2 with identities := freshCommand.2.identities + 1 } := by
      show (evalFn definingFn freshCommand.1.scope).left freshCommand.2 = _
      rw [left, hmade]
    have htask : (Task.call (.closure none ((definingFn.arguments.headD default).children.map Form.text)
        (definingFn.implicitDo freshCommand.2.newNumber.1 definingFn.arguments.tail) freshCommand.1.scope)
        [.int 7]).Bounded definingStore.cells.size := by
      rw [hleft]
      exact congrArg (Task.call · [.int 7]) (bounded_of_made hform hmade)
    have hreachable : definingStore.Reachable Command.host :=
      .ended Store.reachable_freshCommand 1 (congrArg (Task.invoke .function · freshCommand.1.scope) hform)
    exact ⟨_, _, t, hcall, run_inTurn_of_opens Command.uniform_host hreachable htask hmany hcall hdo⟩

/-- A `let` form that binds the name that its body is evaluated by. -/
def shadowingLet : Code := sourceForm "(let [do 1] 2 3)"

/-- The forms of the body have values one after the other, but the body as a whole has none. -/
theorem not_inTurn_shadowingLet :
    freshCommand.2.Reachable Command.host ∧
    (∃ identity, freshCommand.2.get freshCommand.1.scope "do" = .ok (.function identity (.special .sequence))) ∧
    Opens Command.host 12 (.invoke .letIn shadowingLet freshCommand.1.scope) freshCommand.2
      shadowingLet.arguments.tail freshChild.1 ((bindLet shadowingLet).left freshChild.2) ∧
    shadowingLet.arguments.tail.length = 2 ∧ printed (bodyInTurn shadowingLet) = some "3" ∧
    printed (outcomeOfLet shadowingLet) = none ∧
    ¬∃ f, Emerges f (bodyInTurn shadowingLet) (outcomeOfLet shadowingLet) := by
  have hcheck : bindsLet shadowingLet = true ∧ meansDo freshCommand.2 freshCommand.1.scope = true ∧
      shadowingLet.arguments.tail.length = 2 ∧ printed (bodyInTurn shadowingLet) = some "3" ∧
      printed (outcomeOfLet shadowingLet) = none := by decide +kernel
  obtain ⟨hlet, hfresh, hlength, hturn, hrun⟩ := hcheck
  refine ⟨Store.reachable_freshCommand, exists_of_meansDo hfresh, opens_of_bindsLet hlet, hlength, hturn, hrun, ?_⟩
  rintro ⟨f, hemerges⟩
  have hsame := hemerges.printed_eq
  rw [hrun, hturn] at hsame
  cases hsame

end Eval

end Lisplet
