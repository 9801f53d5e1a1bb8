import Lisplet.Proofs.Headed

/-! # What evaluation writes

`Kept W s t` says that from `s` to `t` scopes were only added and only those in `W` changed, and `Writes W P` says of
a process that it keeps a store of headed code so, whether it succeeds or fails, and gives what has `P`. There is a
rule for each way in which processes are put together; the one for a new scope lets what follows write that scope
freely. With them each part of the evaluator is followed once. -/

namespace Lisplet

open EStateM (Result)

/-! ### Stores -/

/-- Scopes were only added, and only those in `W` changed. -/
structure Store.Kept (W : Scope → Prop) (s t : Store) : Prop where
  size : s.frames.size ≤ t.frames.size
  frames : ∀ f < s.frames.size, ¬W f → t.frames[f]? = s.frames[f]?

namespace Store.Kept

variable {W W' : Scope → Prop} {s t u : Store}

theorem refl (W : Scope → Prop) (s : Store) : Kept W s s := ⟨Nat.le_refl _, fun _ _ _ => rfl⟩

theorem trans (h : Kept W s t) (h' : Kept W t u) : Kept W s u where
  size := Nat.le_trans h.size h'.size
  frames f hf hW := by rw [h'.frames f (Nat.lt_of_lt_of_le hf h.size) hW, h.frames f hf hW]

theorem mono (h : Kept W s t) (hW : ∀ f, W f → W' f) : Kept W' s t :=
  ⟨h.size, fun f hf hf' => h.frames f hf fun hw => hf' (hW f hw)⟩

theorem of_frames (W : Scope → Prop) (h : t.frames = s.frames) : Kept W s t :=
  ⟨Nat.le_of_eq (by rw [h]), fun _ _ _ => by rw [h]⟩

theorem bind (s : Store) (scope : Scope) (name : String) (var : Var) (hW : W scope) :
    Kept W s (s.bind scope name var) := by
  refine ⟨by simp [Store.bind], fun f _ hf => ?_⟩
  have hne : scope ≠ f := fun h => hf (h ▸ hW)
  simp [Store.bind, Array.getElem?_modify, hne]

theorem define (s : Store) (scope : Scope) (name : String) (v : Value) (m : Metadata Value) (hW : W scope) :
    Kept W s (s.define scope name v m).2 := by
  have hnew : Kept W s (s.newVar name v m).2 := of_frames W rfl
  exact hnew.trans (bind (s.newVar name v m).2 scope name (s.newVar name v m).1 hW)

theorem bindings (h : Kept W s t) {f : Scope} (hf : f < s.frames.size) (hW : ¬W f) : t.bindings f = s.bindings f := by
  rw [Store.bindings, Store.bindings, h.frames f hf hW]

end Store.Kept

theorem Store.frames_expand (s : Store) (scope : Scope) (form : Code) : (s.expand scope form).2.frames = s.frames :=
  expand_induction (P := fun t => t.frames = s.frames) rfl (fun h _ _ _ => h) scope form

theorem Store.frames_expandAll (s : Store) (scope : Scope) (forms : List Code) :
    (s.expandAll scope forms).2.frames = s.frames :=
  expandAll_induction (P := fun t => t.frames = s.frames) rfl (fun h _ _ _ => h) scope forms

theorem Store.expand_symbol (s : Store) {scope : Scope} {form : Code} (h : form.kind = .symbol) :
    s.expand scope form = (form, s) :=
  s.expand_eq_self (s.expandOnce?_eq_none scope (by simp [h]) (by simp [h]))

theorem Store.kind_of_head?_expandAll (s : Store) {scope : Scope} {forms : List Code}
    (h : ∀ head ∈ forms.head?, head.kind = .symbol) {head : Code}
    (hhead : head ∈ (s.expandAll scope forms).1.head?) : head.kind = .symbol := by
  cases forms with
  | nil => cases hhead
  | cons first rest =>
    have hfirst := h first rfl
    simp only [Store.expandAll, s.expand_symbol hfirst, List.head?_cons, Option.mem_some] at hhead
    exact hhead ▸ hfirst

/-! ### Processes -/

namespace Eval

variable {α β : Type} {W W' : Scope → Prop} {P : α → Prop} {Q : β → Prop} {p : Eval α}

/-- An end, from `s`, in a store of headed code that is kept but for `W`; what is given has `P`. -/
inductive Ends (W : Scope → Prop) (P : α → Prop) (s : Store) : Result Stop Store α → Prop
  | ok {a : α} {t : Store} (ha : P a) (ht : t.Headed) (hk : s.Kept W t) : Ends W P s (.ok a t)
  | error {stop : Stop} {t : Store} (ht : t.Headed) (hk : s.Kept W t) : Ends W P s (.error stop t)

/-- The process keeps stores of headed code, writes no scope outside `W`, and gives what has `P`. -/
def Writes (W : Scope → Prop) (P : α → Prop) (p : Eval α) : Prop := ∀ s : Store, s.Headed → Ends W P s (p s)

namespace Ends

variable {s t : Store} {result : Result Stop Store α}

theorem mono (h : Ends W P s result) (hW : ∀ f, W f → W' f) : Ends W' P s result := by
  cases h with
  | ok ha ht hk => exact .ok ha ht (hk.mono hW)
  | error ht hk => exact .error ht (hk.mono hW)

theorem trans (hk : s.Kept W t) (h : Ends W P t result) : Ends W P s result := by
  cases h with
  | ok ha hu hk' => exact .ok ha hu (hk.trans hk')
  | error hu hk' => exact .error hu (hk.trans hk')

theorem mapError {f : Error → Error} (h : Ends W P s (p s)) : Ends W P s (mapError f p s) := by
  unfold Eval.mapError
  generalize p s = result at h ⊢
  cases h with
  | ok ha ht hk => exact .ok ha ht hk
  | @error stop t ht hk =>
    cases stop with
    | failed error => exact .error ht hk
    | exhausted => exact .error ht hk

end Ends

namespace Writes

theorem mono (h : Writes W P p) (hW : ∀ f, W f → W' f) : Writes W' P p := fun s hs => (h s hs).mono hW

theorem pure {a : α} (h : P a) : Writes W P (pure a) := fun s hs => .ok h hs (.refl W s)

theorem bind {f : α → Eval β} (hp : Writes W P p) (hf : ∀ a, P a → Writes W Q (f a)) : Writes W Q (p >>= f) := by
  intro s hs
  have hend := hp s hs
  show Ends W Q s (EStateM.bind p f s)
  unfold EStateM.bind
  generalize p s = result at hend ⊢
  cases hend with
  | ok ha ht hk => exact .trans hk (hf _ ha _ ht)
  | error ht hk => exact .error ht hk

theorem fail (c : Cause) : Writes W P (fail c) := fun s hs => .error hs (.refl W s)

theorem failAt (form : Code) (c : Cause) : Writes W P (failAt form c) := fun s hs => .error hs (.refl W s)

theorem mapError {f : Error → Error} (hp : Writes W P p) : Writes W P (mapError f p) :=
  fun s hs => (hp s hs).mapError

theorem ofExcept {x : Except Cause α} (h : ∀ a, x = .ok a → P a) : Writes W P (ofExcept x) := by
  cases x with
  | ok a => exact .pure (h a rfl)
  | error c => exact .fail c

theorem ofExceptAt {x : Except Cause α} (form : Code) (h : ∀ a, x = .ok a → P a) : Writes W P (ofExceptAt form x) := by
  cases x with
  | ok a => exact .pure (h a rfl)
  | error c => exact .failAt form c

theorem modifyGet {f : Store → α × Store}
    (h : ∀ s : Store, s.Headed → P (f s).1 ∧ (f s).2.Headed ∧ s.Kept W (f s).2) : Writes W P (modifyGet f) :=
  fun s hs => .ok (h s hs).1 (h s hs).2.1 (h s hs).2.2

theorem get_bind {f : Store → Eval α} (h : ∀ s : Store, s.Headed → Writes W P (f s)) : Writes W P (get >>= f) :=
  fun s hs => h s hs s hs

/-- What follows a new scope may write it: nobody had it before. -/
theorem newChild_bind {f : Scope → Eval α} (scope : Scope) (h : ∀ inner, Writes (fun x => W x ∨ x = inner) P (f inner)) :
    Writes W P (newChild scope >>= f) := by
  intro s hs
  have hnew : (s.newChild scope).2.Headed := hs.of_cells rfl
  have hend := h s.frames.size (s.newChild scope).2 hnew
  -- the new scope is numbered past all scopes of `s`, so none of those is given up
  have hkept : ∀ {t : Store}, (s.newChild scope).2.Kept (fun x => W x ∨ x = s.frames.size) t → s.Kept W t := by
    intro t hk
    have hsize : (s.newChild scope).2.frames.size = s.frames.size + 1 := by simp [Store.newChild]
    refine ⟨by have := hk.size; omega, fun x hx hW => ?_⟩
    have hother : ¬(W x ∨ x = s.frames.size) := by
      rintro (hw | rfl)
      · exact hW hw
      · exact Nat.lt_irrefl _ hx
    rw [hk.frames x (by omega) hother]
    simp [Store.newChild, Array.getElem?_push, Nat.ne_of_lt hx]
  show Ends W P s (f s.frames.size (s.newChild scope).2)
  generalize f s.frames.size (s.newChild scope).2 = result at hend ⊢
  cases hend with
  | ok ha ht hk => exact .ok ha ht (hkept hk)
  | error ht hk => exact .error ht (hkept hk)

end Writes

/-! ### Elementary processes -/

variable {host : Host} {go : Task → Eval Value} {form : Code} {scope : Scope}

theorem writes_newFunction {c : Callable Value} (h : ∀ identity, (Value.function identity c).Headed) :
    Writes W Value.Headed (newFunction c) :=
  .modifyGet fun s hs => ⟨h s.identities, hs.of_cells rfl, .of_frames W rfl⟩

theorem writes_procedure {p : Procedure Value} (h : p.Headed) : Writes W Value.Headed (newFunction (.procedure p)) :=
  writes_newFunction fun identity => .procedure identity h

theorem writes_newNumber : Writes W (fun _ => True) newNumber :=
  .modifyGet fun _ hs => ⟨trivial, hs.newNumber, .of_frames W rfl⟩

theorem writes_define (name : String) {v : Value} (hv : v.Headed) (hW : W scope) :
    Writes W (fun _ => True) (define scope name v) :=
  .modifyGet fun s hs => ⟨trivial, hs.define scope name hv .empty, .define s scope name v .empty hW⟩

theorem writes_lookup (scope : Scope) (name : String) : Writes W Value.Headed (lookup scope name) :=
  .get_bind fun _ hs => .ofExcept fun _ hv => hs.get hv

theorem writes_lookupVar (scope : Scope) (name : String) : Writes W Value.Headed (lookupVar scope name) := by
  refine .get_bind fun s _ => ?_
  cases s.lookup scope name with
  | some var => exact .pure (.var var)
  | none => exact .fail _

theorem writes_expandAll {forms : List Code} (h : ∀ part ∈ forms, part.Headed) :
    Writes W (fun all => ∀ part ∈ all, part.Headed) (expandAll scope forms) :=
  .modifyGet fun s hs =>
    ⟨(hs.expandAll scope h).1, (hs.expandAll scope h).2, .of_frames W (s.frames_expandAll scope forms)⟩

theorem writes_ofMember {m : Member} (h : m.Headed) : Writes W Value.Headed (ofMember m) := by
  cases h with
  | value hv => exact .pure hv
  | procedure hp => exact writes_procedure hp

/-! ### Application -/

end Eval

namespace Task

/-- A task of headed code. -/
inductive Headed : Task → Prop
  | evaluate {form : Code} (h : form.Headed) (scope : Scope) : Headed (.evaluate form scope)
  | invoke (special : Special) {form : Code} (h : form.Headed) (scope : Scope) : Headed (.invoke special form scope)
  | call {p : Procedure Value} {args : List Value} (hp : p.Headed) (ha : ∀ arg ∈ args, arg.Headed) :
    Headed (.call p args)

/-- The scopes that a task may write: the one it runs in, unless it looks up a symbol or opens a scope of its own. -/
def writes : Task → Scope → Prop
  | .evaluate form scope => fun f => f = scope ∧ form.kind ≠ .symbol
  | .invoke special _ scope => fun f => f = scope ∧ special ≠ .letIn
  | .call _ _ => fun _ => False

end Task

namespace Eval

/-- A way to do tasks that writes only what they may write. -/
def Obeys (go : Task → Eval Value) : Prop := ∀ ⦃task : Task⦄, task.Headed → Writes task.writes Value.Headed (go task)

section Parts

variable {W : Scope → Prop} {host : Host} {go : Task → Eval Value} {form : Code} {scope : Scope}

namespace Obeys

theorem evaluate (hgo : Obeys go) (h : form.Headed) (hW : W scope) :
    Writes W Value.Headed (go (.evaluate form scope)) := by
  refine (hgo (.evaluate h scope)).mono ?_
  rintro f ⟨rfl, -⟩
  exact hW

theorem symbol (hgo : Obeys go) (h : form.Headed) (hk : form.kind = .symbol) :
    Writes W Value.Headed (go (.evaluate form scope)) := by
  refine (hgo (.evaluate h scope)).mono ?_
  rintro f ⟨-, hne⟩
  exact absurd hk hne

theorem invoke (hgo : Obeys go) (special : Special) (h : form.Headed) (hW : W scope) :
    Writes W Value.Headed (go (.invoke special form scope)) := by
  refine (hgo (.invoke special h scope)).mono ?_
  rintro f ⟨rfl, -⟩
  exact hW

theorem call (hgo : Obeys go) {p : Procedure Value} (hp : p.Headed) {args : List Value}
    (ha : ∀ arg ∈ args, arg.Headed) : Writes W Value.Headed (go (.call p args)) :=
  (hgo (.call hp ha)).mono fun _ hf => hf.elim

end Obeys

theorem writes_evaluateAll (hgo : Obeys go) {forms : List Code} (h : ∀ part ∈ forms, part.Headed) (hW : W scope) :
    Writes W (fun values => ∀ v ∈ values, v.Headed) (evaluateAll go scope forms) := by
  induction forms with
  | nil => exact .pure (by simp)
  | cons form rest ih =>
    refine .bind (hgo.evaluate (h form (by simp)) hW) fun v hv => ?_
    refine .bind (ih fun part hp => h part (List.mem_cons_of_mem _ hp)) fun vs hvs => .pure ?_
    simpa using ⟨hv, hvs⟩

theorem writes_applyWith (hhost : host.Headed) (hgo : Obeys go) (hform : form.Headed) {f : Value} (hf : f.Headed)
    (hW : W scope) {args : Eval (List Value)} (ha : Writes W (fun values => ∀ v ∈ values, v.Headed) args) :
    Writes W Value.Headed (applyWith host go form f scope args) := by
  refine .mapError ?_
  cases hf with
  | special identity special => exact hgo.invoke special hform hW
  | hostForm identity name =>
    intro s hs
    show Ends W Value.Headed s (ofHost (host.invoke name form scope) s)
    unfold ofHost
    cases hr : host.invoke name form scope s with
    | ok v => exact .ok (hhost.invoke name form scope s v hform hs hr) hs (.refl W s)
    | error e => exact .error hs (.refl W s)
  | procedure identity hp => exact .bind ha fun values hvalues => hgo.call hp hvalues
  | _ => exact .fail _

theorem writes_applyToForms (hhost : host.Headed) (hgo : Obeys go) (hform : form.Headed) {f : Value} (hf : f.Headed)
    (hW : W scope) {args : List Code} (ha : ∀ part ∈ args, part.Headed) :
    Writes W Value.Headed (applyToForms host go form f scope args) :=
  writes_applyWith hhost hgo hform hf hW (writes_evaluateAll hgo ha hW)

theorem writes_applyToValues (hhost : host.Headed) (hgo : Obeys go) (hform : form.Headed) {f : Value} (hf : f.Headed)
    (hW : W scope) {args : List Value} (ha : ∀ arg ∈ args, arg.Headed) :
    Writes W Value.Headed (applyToValues host go form f scope args) :=
  writes_applyWith hhost hgo hform hf hW (.pure ha)

end Parts

end Eval

end Lisplet
