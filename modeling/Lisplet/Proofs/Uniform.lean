import Lisplet.Proofs.Simulation
import Lisplet.Proofs.Tied

/-! # Evaluation does not see the numbers of vars and made forms

Whatever is done from a store is done in the same way from a store that is tied to it, up to the renaming: renaming is a
lawful comparison, as long as no more vars and forms are made than the renaming is bound for. The host has to be uniform
as well: what it gives may depend on which vars and forms are the same, but not on how they are numbered. -/

namespace Lisplet

open EStateM (Result)
open Function (Injective)

/-- A host for which vars and made forms are the same or not, and nothing else. -/
structure Host.Uniform (host : Host) : Prop where
  call : ∀ {f : Nat → Nat} {bound : Nat} {s t : Store}, Injective f → s.Tied f bound t → ∀ function args,
    host.call function (args.map (Value.rename f)) t = renameGiven f (host.call function args s)
  invoke : ∀ {f : Nat → Nat} {bound : Nat} {s t : Store}, Injective f → s.Tied f bound t → ∀ name form scope,
    host.invoke name (form.rename f) scope t = renameGiven f (host.invoke name form scope s)
  fields : Fields.Uniform host.fields

/-- The task with the code and the values in it renamed. -/
def Task.rename (f : Nat → Nat) : Task → Task
  | .evaluate form scope => .evaluate (form.rename f) scope
  | .invoke special form scope => .invoke special (form.rename f) scope
  | .call p args => .call (p.rename f) (args.map (Value.rename f))

/-- Counterparts are what `f` renames, in stores that are tied. -/
def Comparison.renamed (f : Nat → Nat) (bound : Nat) : Comparison where
  within n := n ≤ bound
  within_of_le := Nat.le_trans
  store s t := s.Tied f bound t
  number i j := j = f i
  value v w := w = v.rename f
  given v w := w = v.rename f
  method m n := n = m.rename f
  metadata m n := n = m.rename f
  form form other := other = form.rename f
  caller form other := other = form.rename f
  cause := Eq
  failure a b := b = a.rename f

namespace Comparison.Renamed

variable {f : Nat → Nat} {bound : Nat} {host : Host}

/-! ### Counterparts -/

section Counterparts

variable {α β : Type}

theorem forall₂_iff {k : α → β} {as : List α} {bs : List β} :
    List.Forall₂ (fun a b => b = k a) as bs ↔ bs = as.map k := by
  constructor
  · intro h
    induction h with
    | nil => rfl
    | cons hfirst _ ih => rw [hfirst, ih, List.map_cons]
  · rintro rfl
    induction as with
    | nil => exact .nil
    | cons a as ih => exact .cons rfl ih

theorem rel_map {r : α → β → Prop} {k : α → β} (h : ∀ a, r a (k a)) (a? : Option α) : Option.Rel r a? (a?.map k) := by
  cases a? with
  | none => exact .none
  | some a => exact .some (h a)

theorem endsAlike_map {ε : Type} {r : α → β → Prop} {k : α → β} (h : ∀ a, r a (k a)) (x : Except ε α) :
    EndsAlike Eq r x (x.map k) := by
  cases x with
  | ok a => exact .ok (h a)
  | error cause => exact .error rfl

theorem vars_rename (v : Var) : (renamed f bound).Vars v (v.rename f) := ⟨rfl, rfl⟩

theorem eq_of_vars {v w : Var} (h : (renamed f bound).Vars v w) : w = v.rename f := by
  obtain ⟨name, index⟩ := v
  obtain ⟨name', index'⟩ := w
  obtain ⟨rfl, rfl⟩ := h
  rfl

theorem procedures_rename (p : Procedure Value) : (renamed f bound).Procedures p (p.rename f) := by
  cases p with
  | builtin function => exact .builtin function
  | method m => exact .method rfl
  | host function => exact .host function
  | closure name params body scope => exact .closure name params rfl scope
  | anonymous form head args params scope =>
    exact .anonymous rfl rfl (forall₂_iff.mpr (Form.renameAll_eq_map args)) params scope

theorem eq_of_procedures {p q : Procedure Value} (h : (renamed f bound).Procedures p q) : q = p.rename f := by
  cases h with
  | builtin function => rfl
  | method h => exact congrArg Procedure.method h
  | host function => rfl
  | closure name params h scope => exact congrArg (Procedure.closure name params · scope) h
  | anonymous hform hhead hargs params scope =>
    obtain rfl := hform
    obtain rfl := hhead
    rw [forall₂_iff.mp hargs, Procedure.rename, Form.renameAll_eq_map]

theorem callables_rename (c : Callable Value) : (renamed f bound).Callables c (c.rename f) := by
  cases c with
  | special special => exact .special special
  | hostForm name => exact .hostForm name
  | procedure p => exact .procedure (procedures_rename p)

theorem eq_of_callables {c d : Callable Value} (h : (renamed f bound).Callables c d) : d = c.rename f := by
  cases h with
  | special special => rfl
  | hostForm name => rfl
  | procedure h => exact congrArg Callable.procedure (eq_of_procedures h)

theorem members_rename (m : Member) : (renamed f bound).Members m (m.rename f) := by
  cases m with
  | value v => exact .value rfl
  | procedure p => exact .procedure (procedures_rename p)

theorem callee {v w : Value} (h : w = v.rename f) :
    (∃ identity c d, v = .function identity c ∧ w = .function identity d ∧ (renamed f bound).Callables c d) ∨
      (∀ identity c, v ≠ .function identity c) ∧ ∀ identity c, w ≠ .function identity c := by
  subst h
  cases v with
  | function identity c => exact .inl ⟨identity, c, c.rename f, rfl, rfl, callables_rename c⟩
  | _ => exact .inr ⟨nofun, nofun⟩

theorem scalar {v : Value} (h : v.isScalar = true) : v = v.rename f := by
  cases v with
  | nil | bool _ | int _ | double _ | string _ | keyword _ => rfl
  | _ => cases h

theorem endsAlike_renameGiven (x : Except Error Value) :
    EndsAlike (renamed f bound).failure (renamed f bound).value x (renameGiven f x) := by
  cases x with
  | ok v => exact .ok rfl
  | error error => exact .error rfl

theorem renameGiven_of_endsAlike {x y : Except Error Value}
    (h : EndsAlike (renamed f bound).failure (renamed f bound).value x y) : y = renameGiven f x := by
  cases h with
  | ok h => exact congrArg Except.ok h
  | error h => exact congrArg Except.error h

end Counterparts

/-! ### The laws -/

theorem lt_of_define {s : Store} {scope : Scope} {name : String} {v : Value} {m : Metadata Value}
    (h : (s.define scope name v m).2.cells.size ≤ bound) : s.cells.size < bound := by
  have hsize : (s.define scope name v m).2.cells.size = s.cells.size + 1 := by
    simp [Store.define, Store.newVar, Store.bind]
  rw [hsize] at h
  exact h

theorem lawful (hf : Injective f) (hhost : host.Uniform) : (renamed f bound).Lawful host where
  numbers i := ⟨f i, rfl⟩
  values v := ⟨v.rename f, rfl⟩
  known m := ⟨m.rename f, rfl⟩
  forms form := ⟨form.rename f, rfl⟩
  sameCause _ := rfl
  unquote {form other} h := by
    obtain rfl := h
    rw [form.text?_rename]
    exact rfl
  ofCause h := by
    obtain rfl := h
    rfl
  attributeTo hform h := by
    obtain rfl := hform
    obtain rfl := h
    exact (Error.rename_attributeTo f _ _).symm
  through hform h := by
    obtain rfl := hform
    obtain rfl := h
    exact (Error.rename_through f _ _).symm
  kind {form other} h := by
    obtain rfl := h
    exact form.kind_rename.symm
  word {form other} h _ := by
    obtain rfl := h
    exact form.text?_rename.symm
  children {form other} h := by
    obtain rfl := h
    exact forall₂_iff.mpr form.children_rename
  binding {form other} h := by
    obtain rfl := h
    rw [form.binding_rename]
    exact rel_map vars_rename _
  params {form other} h := by
    obtain rfl := h
    exact (Eval.maxParam_rename form).symm
  caller h := h
  arguments {form other} h := by
    obtain rfl := h
    exact forall₂_iff.mpr form.arguments_rename
  keyword {form other} h := by
    obtain rfl := h
    rw [form.kind_rename, form.text_rename]
    exact ⟨Iff.rfl, fun _ => rfl⟩
  scalar := scalar
  quoted {form other} h := by
    obtain rfl := h
    exact (Value.rename_form form).symm
  var {v w} h := by
    obtain rfl := eq_of_vars h
    exact (Value.rename_var v).symm
  vector {vs ws} h := by
    obtain rfl := forall₂_iff.mp h
    exact (Value.rename_vector vs).symm
  set {vs ws} h := by
    obtain rfl := forall₂_iff.mp h
    exact Value.ofItems_rename hf vs
  map {vs ws} h := by
    obtain rfl := forall₂_iff.mp h
    have hentries := Value.mapEntries_rename (f := f) vs []
    rw [List.map_nil] at hentries
    rw [hentries]
    cases Eval.mapEntries [] vs with
    | ok entries => exact .ok (Value.rename_map entries).symm
    | error cause => exact .error rfl
  function {c d} h identity := by
    obtain rfl := eq_of_callables h
    exact (Value.rename_function identity c).symm
  given h := h
  closure {form other m n body body'} h hnumber hbody identity name params scope := by
    obtain rfl := h
    obtain rfl := hnumber
    obtain rfl := forall₂_iff.mp hbody
    rw [form.implicitDo_rename]
    exact (Value.rename_function identity (.procedure (.closure name params (form.implicitDo m body) scope))).symm
  callee := callee
  typeName {v w} h := by
    obtain rfl := h
    exact v.typeName_rename.symm
  isTruthy {v w} h := by
    obtain rfl := h
    exact v.isTruthy_rename.symm
  display {v w} h := by
    obtain rfl := h
    exact v.display_rename.symm
  asKey {v w} h := by
    obtain rfl := h
    exact v.asKey_rename.symm
  toSeq {v w} h := by
    obtain rfl := h
    rw [v.toSeq_rename]
    exact endsAlike_map (fun _ => forall₂_iff.mpr rfl) _
  member {v w} h name := by
    obtain rfl := h
    rw [v.member?_rename hf hhost.fields]
    exact rel_map members_rename _
  entry {v w key key'} h hkey := by
    obtain rfl := h
    obtain rfl := hkey
    rw [v.entry?_rename hf hhost.fields]
    exact rel_map members_rename _
  method {m n args args'} h hargs := by
    obtain rfl := h
    obtain rfl := forall₂_iff.mp hargs
    rw [m.run_rename hf]
    exact endsAlike_map (r := (renamed f bound).value) (fun _ => rfl) _
  noMetadata := rfl
  docMetadata {v w} h := by
    obtain rfl := h
    exact Metadata.insert_rename ":doc" v .empty
  asMetadata {v w} h := by
    obtain rfl := h
    rw [v.asMetadata_rename]
    exact endsAlike_map (r := (renamed f bound).metadata) (fun _ => rfl) _
  merge {m m' other other'} h hother := by
    obtain rfl := h
    obtain rfl := hother
    exact m.merge_rename other
  lookup h scope name := by
    rw [Store.Tied.lookup h]
    exact rel_map vars_rename _
  undefined h scope name := (Store.Tied.undefined h scope name).symm
  held {s t v w} h hvar := by
    obtain rfl := eq_of_vars hvar
    exact Store.Tied.held h v
  deref {s t v w} h hv := by
    obtain rfl := hv
    rw [Store.Tied.deref h]
    exact endsAlike_map (r := (renamed f bound).value) (fun _ => rfl) _
  identity h := ⟨h.identities.symm, { h with identities := congrArg (· + 1) h.identities }⟩
  newNumber h hw := Store.Tied.newNumber h hf hw
  newChild h scope := ⟨(Store.Tied.newChild h scope).1.symm, (Store.Tied.newChild h scope).2⟩
  define {s t v w m m'} h hv hm scope name hw := by
    obtain rfl := hv
    obtain rfl := hm
    obtain ⟨hvar, hstore⟩ := Store.Tied.define h hf (lt_of_define hw) scope name v m
    refine ⟨?_, hstore⟩
    rw [hvar]
    exact vars_rename _
  expand {s t form other} h hform scope hw := by
    obtain rfl := hform
    exact Store.Tied.expand h hf scope form hw
  record {s t args args' function} h hargs hresult := by
    obtain rfl := forall₂_iff.mp hargs
    rw [renameGiven_of_endsAlike hresult]
    exact Store.Tied.record h (.called function args _)
  call {s t args args'} h hargs function := by
    obtain rfl := forall₂_iff.mp hargs
    rw [hhost.call hf h]
    exact endsAlike_renameGiven _
  invoke {s t form other} h hform name scope := by
    obtain rfl := hform
    rw [hhost.invoke hf h]
    exact endsAlike_renameGiven _

theorem isFull : (renamed f bound).IsFull where
  value h := h
  implicitDo {form other m n body body'} h hnumber hbody := by
    obtain rfl := h
    obtain rfl := hnumber
    obtain rfl := forall₂_iff.mp hbody
    exact form.implicitDo_rename m body

end Comparison.Renamed

namespace Eval

variable {α : Type} {f : Nat → Nat} {bound : Nat} {host : Host}

/-- Outcomes of which the second is the renamed of the first. -/
abbrev Matches (f : Nat → Nat) (bound : Nat) (r : α → α) (x y : Result Stop Store α) : Prop :=
  (Comparison.renamed f bound).Outcome (fun a b => b = r a) x y

/-- From stores that are tied `q` does the renamed of what `p` does, if `p` makes nothing beyond the bound. -/
abbrev Mirrors (f : Nat → Nat) (bound : Nat) (r : α → α) (p q : Eval α) : Prop :=
  (Comparison.renamed f bound).Sim (fun a b => b = r a) p q

open Comparison (Treats treats_run sim_evaluateAll)
open Comparison.Renamed (lawful isFull forall₂_iff procedures_rename)

theorem treats_renamed (hf : Injective f) (hhost : host.Uniform) (levels : Nat) :
    Treats (.renamed f bound) (run host levels) :=
  treats_run (lawful hf hhost) isFull levels

/-- Evaluation in a uniform host does not see the numbers of vars and made forms, whatever the number of levels. -/
theorem mirrors_run (hf : Injective f) (hhost : host.Uniform) (levels : Nat) (task : Task) :
    Mirrors f bound (Value.rename f) (run host levels task) (run host levels (task.rename f)) := by
  have hgo : Treats (.renamed f bound) (run host levels) := treats_renamed hf hhost levels
  cases task with
  | evaluate form scope => exact hgo.evaluate rfl scope
  | invoke special form scope => exact hgo.invoke rfl special scope
  | call p args => exact hgo.call (procedures_rename p) (forall₂_iff.mpr rfl)

theorem mirrors_evaluateAll (hf : Injective f) (hhost : host.Uniform) (levels : Nat) (scope : Scope)
    (forms : List Code) :
    Mirrors f bound (List.map (Value.rename f)) (evaluateAll (run host levels) scope forms)
      (evaluateAll (run host levels) scope (forms.map (Form.rename f))) :=
  (sim_evaluateAll (lawful hf hhost) (treats_renamed hf hhost levels) scope (forall₂_iff.mpr rfl)).imp forall₂_iff.mp

end Eval

/-- The functions of the command line give `nil`, and it has no objects. -/
theorem Command.uniform_host : Command.host.Uniform where
  call _ _ function args := by
    simp only [Command.host, Value.firstArgument_rename, Value.asInt_rename]
    split
    · split <;> rfl
    · rfl
  invoke _ _ _ _ _ := rfl
  fields _ _ _ _ := rfl

end Lisplet
