import Lisplet.Proofs.Growth
import Lisplet.Proofs.Simulation
import Lisplet.Proofs.Sugar

/-! # Evaluation sees only the arguments of a calling form

A special form looks only at the arguments of the form that calls it, and passes the form on only in its last step, to
another special form or as what the sequence of a body is made from. So another form with the same arguments goes
through the same stores and ends in the same one: that too is a lawful comparison. What special forms give is the same
but for the metadata that the body of a closure keeps. -/

namespace Lisplet

open EStateM (Result)
open Relator (LeftTotal)

/-- Special forms of the host depend on the form that calls them only by its arguments. -/
def Host.SeesArguments (host : Host) : Prop :=
  ∀ (name : String) {form other : Code}, form.arguments = other.arguments →
    host.invoke name form = host.invoke name other

theorem Command.seesArguments_host : Command.host.SeesArguments := fun _ _ _ _ => rfl

/-- Forms with the same arguments, neither of which is a keyword. -/
structure Form.SameArguments (form other : Code) : Prop where
  arguments : form.arguments = other.arguments
  kind : form.kind ≠ .keyword
  otherKind : other.kind ≠ .keyword

/-- The same value; or closures with the same identity, name, parameters and scope, each of which has as body a
    sequence of the same forms, but made from another form, of which it has identity and metadata. -/
inductive Value.Restated : Value → Value → Prop
  | same (v : Value) : Restated v v
  | closure (identity : Nat) (name : Option String) (params : List String) (form other : Code) (number : Nat)
      (body : List Code) (scope : Scope) :
    Restated (.function identity (.procedure (.closure name params (form.implicitDo number body) scope)))
      (.function identity (.procedure (.closure name params (other.implicitDo number body) scope)))

/-- Counterparts are the same, but special forms may be called by forms that have only their arguments in common. So
    failures have causes of one kind, and what special forms give may be restated. -/
def Comparison.restated : Comparison where
  within _ := True
  within_of_le _ _ := trivial
  store := Eq
  number := Eq
  value := Eq
  given := Value.Restated
  method := Eq
  metadata := Eq
  form := Eq
  caller form other := form = other ∨ form.SameArguments other
  cause c d := c.ctorIdx = d.ctorIdx
  failure a b := a.cause.ctorIdx = b.cause.ctorIdx

namespace Comparison.Restated

/-! ### Counterparts -/

section Counterparts

variable {α : Type} {r : α → α → Prop}

theorem eq_of_forall₂ {as bs : List α} (h : List.Forall₂ Eq as bs) : as = bs := by
  rwa [List.forall₂_eq_eq_eq] at h

theorem forall₂_self (as : List α) : List.Forall₂ Eq as as := by rw [List.forall₂_eq_eq_eq]

theorem rel_self (h : ∀ a, r a a) (a? : Option α) : Option.Rel r a? a? := by
  cases a? with
  | none => exact .none
  | some a => exact .some (h a)

theorem endsAlike_cause (x : Except Cause α) : EndsAlike restated.cause Eq x x := by
  cases x with
  | ok a => exact .ok rfl
  | error cause => exact .error rfl

theorem endsAlike_failure (x : Except Error α) : EndsAlike restated.failure Eq x x := by
  cases x with
  | ok a => exact .ok rfl
  | error error => exact .error rfl

theorem vars_self (v : Var) : restated.Vars v v := ⟨rfl, rfl⟩

theorem eq_of_vars {v w : Var} (h : restated.Vars v w) : v = w := by
  obtain ⟨name, index⟩ := v
  obtain ⟨name', index'⟩ := w
  obtain ⟨rfl, rfl⟩ := h
  rfl

theorem procedures_self (p : Procedure Value) : restated.Procedures p p := by
  cases p with
  | builtin function => exact .builtin function
  | method m => exact .method rfl
  | host function => exact .host function
  | closure name params body scope => exact .closure name params rfl scope
  | anonymous form head args params scope => exact .anonymous rfl rfl (forall₂_self args) params scope

theorem eq_of_procedures {p q : Procedure Value} (h : restated.Procedures p q) : p = q := by
  cases h with
  | builtin function => rfl
  | method h => exact congrArg Procedure.method h
  | host function => rfl
  | closure name params h scope => exact congrArg (Procedure.closure name params · scope) h
  | anonymous hform hhead hargs params scope =>
    obtain rfl := hform
    obtain rfl := hhead
    rw [eq_of_forall₂ hargs]

theorem callables_self (c : Callable Value) : restated.Callables c c := by
  cases c with
  | special special => exact .special special
  | hostForm name => exact .hostForm name
  | procedure p => exact .procedure (procedures_self p)

theorem eq_of_callables {c d : Callable Value} (h : restated.Callables c d) : c = d := by
  cases h with
  | special special => rfl
  | hostForm name => rfl
  | procedure h => exact congrArg Callable.procedure (eq_of_procedures h)

theorem members_self (m : Member) : restated.Members m m := by
  cases m with
  | value v => exact .value rfl
  | procedure p => exact .procedure (procedures_self p)

theorem callee (v : Value) :
    (∃ identity c d, v = .function identity c ∧ v = .function identity d ∧ restated.Callables c d) ∨
      (∀ identity c, v ≠ .function identity c) ∧ ∀ identity c, v ≠ .function identity c := by
  cases v with
  | function identity c => exact .inl ⟨identity, c, c, rfl, rfl, callables_self c⟩
  | _ => exact .inr ⟨nofun, nofun⟩

theorem arguments_eq {form other : Code} (h : restated.caller form other) : form.arguments = other.arguments := by
  rcases h with rfl | h
  · rfl
  · exact h.arguments

end Counterparts

/-! ### The laws -/

theorem lawful {host : Host} (hhost : host.SeesArguments) : restated.Lawful host where
  numbers := leftTotal_eq
  values := leftTotal_eq
  known := leftTotal_eq
  forms := leftTotal_eq
  sameCause _ := rfl
  unquote _ := rfl
  ofCause h := h
  attributeTo _ h := by
    show Cause.ctorIdx _ = Cause.ctorIdx _
    rw [(Error.Becomes.attributeTo _ _).cause, (Error.Becomes.attributeTo _ _).cause]
    exact h
  through _ h := by
    show Cause.ctorIdx _ = Cause.ctorIdx _
    rw [(Error.Becomes.through _ _).cause, (Error.Becomes.through _ _).cause]
    exact h
  kind h := congrArg Form.kind h
  word h _ := congrArg Form.text? h
  children {form other} h := by
    obtain rfl := h
    exact forall₂_self _
  binding {form other} h := by
    obtain rfl := h
    exact rel_self vars_self _
  params h := congrArg Eval.maxParam h
  caller h := .inl h
  arguments h := by
    rw [arguments_eq h]
    exact forall₂_self _
  keyword {form other} h := by
    rcases h with rfl | h
    · exact ⟨Iff.rfl, fun _ => rfl⟩
    · exact ⟨⟨fun hk => absurd hk h.kind, fun hk => absurd hk h.otherKind⟩, fun hk => absurd hk h.kind⟩
  scalar _ := rfl
  quoted h := congrArg Value.form h
  var h := congrArg Value.var (eq_of_vars h)
  vector h := congrArg Value.vector (eq_of_forall₂ h)
  set h := congrArg Value.ofItems (eq_of_forall₂ h)
  map h := by
    rw [eq_of_forall₂ h]
    exact endsAlike_cause _
  function h identity := congrArg (Value.function identity) (eq_of_callables h)
  given {v w} h := by
    obtain rfl := h
    exact .same v
  closure {form other m n body body'} h hnumber hbody identity name params scope := by
    obtain rfl := hnumber
    obtain rfl := eq_of_forall₂ hbody
    exact .closure identity name params form other m body scope
  callee {v w} h := by
    obtain rfl := h
    exact callee v
  typeName h := congrArg Value.typeName h
  isTruthy h := congrArg Value.isTruthy h
  display h := congrArg Value.display h
  asKey h := congrArg Value.asKey h
  toSeq {v w} h := by
    obtain rfl := h
    exact (endsAlike_cause _).imp (by
      rintro vs _ rfl
      exact forall₂_self vs)
  member {v w} h name := by
    obtain rfl := h
    exact rel_self members_self _
  entry {v w key key'} h hkey := by
    obtain rfl := h
    obtain rfl := hkey
    exact rel_self members_self _
  method {m n args args'} h hargs := by
    obtain rfl := h
    obtain rfl := eq_of_forall₂ hargs
    exact endsAlike_cause _
  noMetadata := rfl
  docMetadata h := congrArg (Metadata.empty.insert ":doc" ·) h
  asMetadata {v w} h := by
    obtain rfl := h
    exact endsAlike_cause _
  merge h hother := congrArg₂ Metadata.merge h hother
  lookup {s t} h scope name := by
    obtain rfl := h
    exact rel_self vars_self _
  undefined {s t} h scope name := congrArg (Store.undefined · scope name) h
  held h hvar := congrArg₂ Store.held h (eq_of_vars hvar)
  deref {s t v w} h hv := by
    obtain rfl := h
    obtain rfl := hv
    exact endsAlike_cause _
  identity {s t} h := by
    obtain rfl := h
    exact ⟨rfl, rfl⟩
  newNumber {s t} h _ := by
    obtain rfl := h
    exact ⟨rfl, rfl⟩
  newChild {s t} h scope := by
    obtain rfl := h
    exact ⟨rfl, rfl⟩
  define {s t v w m m'} h hv hm scope name _ := by
    obtain rfl := h
    obtain rfl := hv
    obtain rfl := hm
    exact ⟨vars_self _, rfl⟩
  expand {s t form other} h hform scope _ := by
    obtain rfl := h
    obtain rfl := hform
    exact ⟨rfl, rfl⟩
  record {s t args args' function} h hargs _ := by
    obtain rfl := h
    obtain rfl := eq_of_forall₂ hargs
    exact rfl
  call {s t args args'} h hargs function := by
    obtain rfl := h
    obtain rfl := eq_of_forall₂ hargs
    exact endsAlike_failure _
  invoke {s t form other} h hform name scope := by
    obtain rfl := h
    rw [hhost name (arguments_eq hform)]
    exact (endsAlike_failure _).imp (by
      rintro v _ rfl
      exact .same v)

end Comparison.Restated

namespace Eval

variable {host : Host} {form other : Code} {scope inner : Scope} {s : Store} {levels : Nat}

/-- Outcomes with the same store, in which values are related by `r` and failures have causes of one kind. -/
abbrev Restates (r : Value → Value → Prop) (x y : Result Stop Store Value) : Prop :=
  Comparison.restated.Outcome r x y

open Comparison (Treats sim_invoke sim_applyToForms)
open Comparison.Restated (lawful eq_of_forall₂ forall₂_self eq_of_procedures)

theorem restates_self {r : Value → Value → Prop} (h : ∀ v, r v v) (x : Result Stop Store Value) : Restates r x x :=
  match x with
  | .ok v _ => .ok (h v) rfl
  | .error (.failed _) _ => .failed rfl rfl
  | .error .exhausted _ => .exhausted rfl

theorem size_le_left_run (host : Host) (levels : Nat) (task : Task) (s : Store) :
    s.cells.size ≤ ((run host levels task).left s).cells.size := (extends_left_run host levels task s).size_le

/-! ### Lists -/

/-- Symbols that mean the same var have the same value. -/
theorem restates_symbol (hform : form.kind = .symbol) (hother : other.kind = .symbol)
    (h : s.lookup scope form.text = s.lookup inner other.text) (host : Host) (levels : Nat) :
    Restates Eq (run host levels (.evaluate form scope) s) (run host levels (.evaluate other inner) s) := by
  have hget : Restates Eq (lookup scope form.text s) (lookup inner other.text s) := by
    show Restates Eq (ofExcept (s.get scope form.text) s) (ofExcept (s.get inner other.text) s)
    rw [Store.get, Store.get, h]
    cases s.lookup inner other.text with
    | some var => exact .ok rfl rfl
    | none => exact .failed rfl rfl
  cases levels with
  | zero => exact .exhausted rfl
  | succ levels =>
    rw [run_evaluate_of_expand (s.expand_symbol hform), run_evaluate_of_expand (s.expand_symbol hother)]
    refine Comparison.Outcome.mapError (fun h => ?_) ?_
    · show Cause.ctorIdx _ = Cause.ctorIdx _
      rw [(Error.Becomes.through _ _).cause, (Error.Becomes.through _ _).cause]
      exact h
    · simpa only [evalForm, hform, hother] using hget

/-- A list whose head is a symbol that names no member expands its parts, finds what its head means and applies it. -/
theorem run_evaluate_list {head : Code} {args : List Code} (hkind : form.kind = .list)
    (hchildren : form.children = head :: args) (hsymbol : head.kind = .symbol) (hmember : memberName? head.text = none)
    (host : Host) (levels : Nat) (scope : Scope) (s : Store) :
    run host (levels + 1) (.evaluate form scope) s =
      through form (do
        let f ← run host levels (.evaluate head scope)
        applyToForms host (run host levels) form f scope (s.expandAll scope args).1) (s.expandAll scope args).2 := by
  have hself := s.expandOnce?_of_head scope hkind hchildren hsymbol hmember
  rw [run_evaluate_of_expand (s.expand_eq_self hself)]
  refine mapError_congr ?_ _
  have hexpand : expandAll scope form.children s =
      .ok (head :: (s.expandAll scope args).1) (s.expandAll scope args).2 := by
    show Result.ok (s.expandAll scope form.children).1 (s.expandAll scope form.children).2 = _
    rw [hchildren, Store.expandAll, s.expand_symbol hsymbol]
  simp only [evalForm, hkind]
  rw [evalList, bind_ok hexpand]

/-- A form that calls what a symbol means, and one with the same arguments that calls what another symbol means. -/
theorem restates_application (hhost : host.SeesArguments) (hgo : Treats .restated (run host levels))
    (hform : form.SameArguments other) {head head' : Code} (hhead : head.kind = .symbol) (hhead' : head'.kind = .symbol)
    (h : s.lookup scope head.text = s.lookup inner head'.text) (args : List Code) :
    Restates Value.Restated
      (through form (do
        let f ← run host levels (.evaluate head scope)
        applyToForms host (run host levels) form f inner args) s)
      (through other (do
        let f ← run host levels (.evaluate head' inner)
        applyToForms host (run host levels) other f inner args) s) := by
  have hlawful := lawful hhost
  refine Comparison.Outcome.mapError (hlawful.through (.inr hform)) ?_
  refine Comparison.Outcome.bind (restates_symbol hhead hhead' h host levels) ?_
  rintro f _ t _ rfl rfl
  exact (sim_applyToForms hlawful hgo (.inr hform) rfl inner (forall₂_self args)).meets t t rfl trivial

/-- The sequences that two forms have made of the same body. -/
theorem restates_body (hhost : host.SeesArguments) (hgo : Treats .restated (run host levels)) (form other : Code)
    (number : Nat) (body : List Code) (scope : Scope) (s : Store) :
    Restates Value.Restated (run host (levels + 1) (.evaluate (form.implicitDo number body) scope) s)
      (run host (levels + 1) (.evaluate (other.implicitDo number body) scope) s) := by
  have hmember : ∀ id, memberName? (Form.symbol id "do" : Code).text = none := fun _ =>
    show memberName? "do" = none by decide
  have hsame : (form.implicitDo number body).SameArguments (other.implicitDo number body) :=
    ⟨rfl, FormKind.noConfusion, FormKind.noConfusion⟩
  have hdo : (s.expandAll scope body).2.lookup scope "do" = (s.expandAll scope body).2.lookup scope "do" := rfl
  have hparts : (form.implicitDo number body).children = .symbol (.derived form.id number 1) "do" :: body := rfl
  have hparts' : (other.implicitDo number body).children = .symbol (.derived other.id number 1) "do" :: body := rfl
  rw [run_evaluate_list rfl hparts rfl (hmember _), run_evaluate_list rfl hparts' rfl (hmember _)]
  exact restates_application hhost hgo hsame rfl rfl hdo _

/-- Only what special forms are called by may differ, so all other tasks are the same. -/
theorem treats_restated (hhost : host.SeesArguments) (levels : Nat) : Treats .restated (run host levels) := by
  induction levels with
  | zero =>
    have hzero : ∀ (r : Value → Value → Prop) (task task' : Task),
        Comparison.restated.Sim r (run host 0 task) (run host 0 task') :=
      fun _ _ _ => ⟨fun _ => Nat.le_refl _, fun _ _ hs _ => .exhausted hs⟩
    exact ⟨fun _ _ => hzero _ _ _, fun _ _ _ => hzero _ _ _, fun _ _ => hzero _ _ _, fun _ _ _ _ => hzero _ _ _⟩
  | succ levels ih =>
    have hself : ∀ task, Comparison.restated.Sim Eq (run host (levels + 1) task) (run host (levels + 1) task) :=
      fun task => ⟨size_le_left_run host (levels + 1) task, by
        rintro s _ rfl -
        exact restates_self (fun _ => rfl) _⟩
    refine ⟨?_, fun h special scope => sim_invoke (lawful hhost) ih h special scope, ?_, ?_⟩
    · rintro f _ rfl scope
      exact hself _
    · intro p q args args' hp hargs
      obtain rfl := eq_of_procedures hp
      obtain rfl := eq_of_forall₂ hargs
      exact hself _
    · intro f g m n body body' _ hnumber hbody scope
      obtain rfl := hnumber
      obtain rfl := eq_of_forall₂ hbody
      refine ⟨size_le_left_run host (levels + 1) _, ?_⟩
      rintro s _ rfl -
      exact restates_body hhost ih f g m body scope s

end Eval

end Lisplet
