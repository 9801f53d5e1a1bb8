import Lisplet.Proofs.Orderly
import Lisplet.Proofs.Reached
import Mathlib.Data.List.Forall2

/-! # Comparing two runs

A comparison says what the counterparts are of what a run works with: of its stores, forms and values, and of its
failures. It is lawful if what the evaluator does by itself, such as reading a store or taking a value apart, gives
counterparts for counterparts. `Sim` says of two processes that they come to counterparts from stores that are, with a
rule for each way in which processes are put together. -/

namespace Lisplet

open EStateM (Result)
open Relator (LeftTotal)

/-- Whether a value holds no code and no other value. -/
def Value.isScalar : Value → Bool
  | nil | bool _ | int _ | double _ | string _ | keyword _ => true
  | _ => false

/-- Both of two results are there and related by `r`, or both are missing for related reasons. -/
inductive EndsAlike {ε α β : Type} (e : ε → ε → Prop) (r : α → β → Prop) : Except ε α → Except ε β → Prop
  | ok {a : α} {b : β} (h : r a b) : EndsAlike e r (.ok a) (.ok b)
  | error {x y : ε} (h : e x y) : EndsAlike e r (.error x) (.error y)

theorem EndsAlike.imp {ε α β : Type} {e : ε → ε → Prop} {r r' : α → β → Prop} {x : Except ε α} {y : Except ε β}
    (h : EndsAlike e r x y) (hr : ∀ {a b}, r a b → r' a b) : EndsAlike e r' x y := by
  cases h with
  | ok h => exact .ok (hr h)
  | error h => exact .error h

/-- What a run works with, and its counterparts in another run. -/
structure Comparison where
  /-- Whether so many numbers of vars and made forms are not too many. -/
  within : Nat → Prop
  within_of_le : ∀ {m n : Nat}, m ≤ n → within n → within m
  store : Store → Store → Prop
  /-- The numbers of vars and made forms. -/
  number : Nat → Nat → Prop
  value : Value → Value → Prop
  /-- What special forms may give. -/
  given : Value → Value → Prop
  method : Method Value → Method Value → Prop
  metadata : Metadata Value → Metadata Value → Prop
  form : Code → Code → Prop
  /-- Forms that come to the same when they call a special form. -/
  caller : Code → Code → Prop
  cause : Cause → Cause → Prop
  failure : Error → Error → Prop

namespace Comparison

section Counterparts

variable (C : Comparison)

/-- Vars with the same name. -/
structure Vars (v w : Var) : Prop where
  name : v.name = w.name
  index : C.number v.index w.index

/-- Procedures made of counterparts. -/
inductive Procedures : Procedure Value → Procedure Value → Prop
  | builtin (function : Builtin) : Procedures (.builtin function) (.builtin function)
  | method {m n : Method Value} (h : C.method m n) : Procedures (.method m) (.method n)
  | host (function : HostFunction) : Procedures (.host function) (.host function)
  | closure (name : Option String) (params : List String) {body body' : Code} (h : C.form body body') (scope : Scope) :
    Procedures (.closure name params body scope) (.closure name params body' scope)
  | anonymous {form form' head head' : Code} {args args' : List Code} (hform : C.form form form')
      (hhead : C.form head head') (hargs : List.Forall₂ C.form args args') (params : Nat) (scope : Scope) :
    Procedures (.anonymous form head args params scope) (.anonymous form' head' args' params scope)

/-- The same special form, or procedures made of counterparts. -/
inductive Callables : Callable Value → Callable Value → Prop
  | special (special : Special) : Callables (.special special) (.special special)
  | hostForm (name : String) : Callables (.hostForm name) (.hostForm name)
  | procedure {p q : Procedure Value} (h : C.Procedures p q) : Callables (.procedure p) (.procedure q)

/-- Members made of counterparts. -/
inductive Members : Member → Member → Prop
  | value {v w : Value} (h : C.value v w) : Members (.value v) (.value w)
  | procedure {p q : Procedure Value} (h : C.Procedures p q) : Members (.procedure p) (.procedure q)

end Counterparts

/-- What the evaluator does by itself gives counterparts for counterparts. -/
structure Lawful (C : Comparison) (host : Host) : Prop where
  /- Everything in the first run has a counterpart. -/
  numbers : LeftTotal C.number
  values : LeftTotal C.value
  known : LeftTotal C.metadata
  forms : LeftTotal C.form
  /- Failures -/
  sameCause : ∀ cause, C.cause cause cause
  unquote : ∀ {f g : Code}, C.caller f g →
    C.cause (.runtime (f.text?.getD "unquote" ++ " is only valid inside a syntax quote"))
      (.runtime (g.text?.getD "unquote" ++ " is only valid inside a syntax quote"))
  ofCause : ∀ {c d : Cause}, C.cause c d → C.failure (.ofCause c) (.ofCause d)
  attributeTo : ∀ {f g : Code} {a b : Error}, C.caller f g → C.failure a b →
    C.failure (a.attributeTo f) (b.attributeTo g)
  through : ∀ {f g : Code} {a b : Error}, C.caller f g → C.failure a b → C.failure (a.through f) (b.through g)
  /- Forms -/
  kind : ∀ {f g : Code}, C.form f g → f.kind = g.kind
  word : ∀ {f g : Code}, C.form f g → f.kind.isWord = true → f.text? = g.text?
  children : ∀ {f g : Code}, C.form f g → List.Forall₂ C.form f.children g.children
  binding : ∀ {f g : Code}, C.form f g → Option.Rel C.Vars f.binding g.binding
  params : ∀ {f g : Code}, C.form f g → Eval.maxParam f = Eval.maxParam g
  caller : ∀ {f g : Code}, C.form f g → C.caller f g
  arguments : ∀ {f g : Code}, C.caller f g → List.Forall₂ C.form f.arguments g.arguments
  keyword : ∀ {f g : Code}, C.caller f g → (f.kind = .keyword ↔ g.kind = .keyword) ∧
    (f.kind = .keyword → f.text = g.text)
  /- Values that are made -/
  scalar : ∀ {v : Value}, v.isScalar = true → C.value v v
  quoted : ∀ {f g : Code}, C.form f g → C.value (.form f) (.form g)
  var : ∀ {v w : Var}, C.Vars v w → C.value (.var v) (.var w)
  vector : ∀ {vs ws : List Value}, List.Forall₂ C.value vs ws → C.value (.vector vs) (.vector ws)
  set : ∀ {vs ws : List Value}, List.Forall₂ C.value vs ws → C.value (.ofItems vs) (.ofItems ws)
  map : ∀ {vs ws : List Value}, List.Forall₂ C.value vs ws →
    EndsAlike C.cause C.value ((Eval.mapEntries [] vs).map .map) ((Eval.mapEntries [] ws).map .map)
  function : ∀ {c d : Callable Value}, C.Callables c d →
    ∀ identity, C.value (.function identity c) (.function identity d)
  given : ∀ {v w : Value}, C.value v w → C.given v w
  closure : ∀ {f g : Code} {m n : Nat} {body body' : List Code}, C.caller f g → C.number m n →
    List.Forall₂ C.form body body' → ∀ identity name params scope,
    C.given (.function identity (.procedure (.closure name params (f.implicitDo m body) scope)))
      (.function identity (.procedure (.closure name params (g.implicitDo n body') scope)))
  /- Values that are looked into -/
  callee : ∀ {v w : Value}, C.value v w →
    (∃ identity c d, v = .function identity c ∧ w = .function identity d ∧ C.Callables c d) ∨
    (∀ identity c, v ≠ .function identity c) ∧ ∀ identity c, w ≠ .function identity c
  typeName : ∀ {v w : Value}, C.value v w → v.typeName = w.typeName
  isTruthy : ∀ {v w : Value}, C.value v w → v.isTruthy = w.isTruthy
  display : ∀ {v w : Value}, C.value v w → v.display = w.display
  asKey : ∀ {v w : Value}, C.value v w → v.asKey = w.asKey
  toSeq : ∀ {v w : Value}, C.value v w → EndsAlike C.cause (List.Forall₂ C.value) v.toSeq w.toSeq
  member : ∀ {v w : Value}, C.value v w → ∀ name,
    Option.Rel C.Members (v.member? host.fields name) (w.member? host.fields name)
  entry : ∀ {v w key key' : Value}, C.value v w → C.value key key' →
    Option.Rel C.Members (v.entry? host.fields key) (w.entry? host.fields key')
  method : ∀ {m n : Method Value} {args args' : List Value}, C.method m n → List.Forall₂ C.value args args' →
    EndsAlike C.cause C.value (m.run args) (n.run args')
  /- Metadata -/
  noMetadata : C.metadata .empty .empty
  docMetadata : ∀ {v w : Value}, C.value v w →
    C.metadata (Metadata.empty.insert ":doc" v) (Metadata.empty.insert ":doc" w)
  asMetadata : ∀ {v w : Value}, C.value v w → EndsAlike C.cause C.metadata v.asMetadata w.asMetadata
  merge : ∀ {m m' other other' : Metadata Value}, C.metadata m m' → C.metadata other other' →
    C.metadata (m.merge other) (m'.merge other')
  /- What is read from a store -/
  lookup : ∀ {s t : Store}, C.store s t → ∀ scope name, Option.Rel C.Vars (s.lookup scope name) (t.lookup scope name)
  undefined : ∀ {s t : Store}, C.store s t → ∀ scope name, s.undefined scope name = t.undefined scope name
  held : ∀ {s t : Store} {v w : Var}, C.store s t → C.Vars v w → C.value (s.held v) (t.held w)
  deref : ∀ {s t : Store} {v w : Value}, C.store s t → C.value v w →
    EndsAlike C.cause C.value (s.deref v) (t.deref w)
  /- What is done to a store -/
  identity : ∀ {s t : Store}, C.store s t → s.identities = t.identities ∧
    C.store { s with identities := s.identities + 1 } { t with identities := t.identities + 1 }
  newNumber : ∀ {s t : Store}, C.store s t → C.within s.newNumber.2.cells.size →
    C.number s.newNumber.1 t.newNumber.1 ∧ C.store s.newNumber.2 t.newNumber.2
  newChild : ∀ {s t : Store}, C.store s t → ∀ scope,
    (s.newChild scope).1 = (t.newChild scope).1 ∧ C.store (s.newChild scope).2 (t.newChild scope).2
  define : ∀ {s t : Store} {v w : Value} {m m' : Metadata Value}, C.store s t → C.value v w → C.metadata m m' →
    ∀ scope name, C.within (s.define scope name v m).2.cells.size →
    C.Vars (s.define scope name v m).1 (t.define scope name w m').1 ∧
      C.store (s.define scope name v m).2 (t.define scope name w m').2
  expand : ∀ {s t : Store} {f g : Code}, C.store s t → C.form f g →
    ∀ scope, C.within (s.expand scope f).2.cells.size →
    C.form (s.expand scope f).1 (t.expand scope g).1 ∧ C.store (s.expand scope f).2 (t.expand scope g).2
  record : ∀ {s t : Store} {args args' : List Value} {function : HostFunction}, C.store s t →
    List.Forall₂ C.value args args' →
    EndsAlike C.failure C.value (Eval.hostResult host function args s) (Eval.hostResult host function args' t) →
    C.store (s.record (.called function args (Eval.hostResult host function args s)))
      (t.record (.called function args' (Eval.hostResult host function args' t)))
  /- The host -/
  call : ∀ {s t : Store} {args args' : List Value}, C.store s t → List.Forall₂ C.value args args' →
    ∀ function, EndsAlike C.failure C.value (host.call function args s) (host.call function args' t)
  invoke : ∀ {s t : Store} {f g : Code}, C.store s t → C.caller f g → ∀ name scope,
    EndsAlike C.failure C.given (host.invoke name f scope s) (host.invoke name g scope t)

/-- What special forms give are counterparts as values too, and counterparts that call for a sequence get one. -/
structure IsFull (C : Comparison) : Prop where
  value : ∀ {v w : Value}, C.given v w → C.value v w
  implicitDo : ∀ {f g : Code} {m n : Nat} {body body' : List Code}, C.caller f g → C.number m n →
    List.Forall₂ C.form body body' → C.form (f.implicitDo m body) (g.implicitDo n body')

end Comparison

/-! ### Relations between lists and options -/

section Total

variable {α β : Type} {r : α → β → Prop}

theorem leftTotal_eq : LeftTotal (Eq : α → α → Prop) := fun a => ⟨a, rfl⟩

theorem leftTotal_forall₂ (h : LeftTotal r) : LeftTotal (List.Forall₂ r) := by
  intro as
  induction as with
  | nil => exact ⟨[], .nil⟩
  | cons a as ih =>
    obtain ⟨b, hb⟩ := h a
    obtain ⟨bs, hbs⟩ := ih
    exact ⟨b :: bs, .cons hb hbs⟩

theorem leftTotal_option (h : LeftTotal r) : LeftTotal (Option.Rel r)
  | none => ⟨none, .none⟩
  | some a => (h a).imp' some fun _ hb => .some hb

theorem rel_getElem? {as : List α} {bs : List β} (h : List.Forall₂ r as bs) (i : Nat) :
    Option.Rel r as[i]? bs[i]? := by
  induction h generalizing i with
  | nil => exact .none
  | cons hab _ ih =>
    cases i with
    | zero => exact .some hab
    | succ i => exact ih i

theorem forall₂_tail {as : List α} {bs : List β} (h : List.Forall₂ r as bs) : List.Forall₂ r as.tail bs.tail := by
  cases h with
  | nil => exact .nil
  | cons _ hrest => exact hrest

end Total

/-! ### What processes leave -/

namespace Eval

variable {α β : Type}

theorem left_bind (p : Eval α) (f : α → Eval β) (s : Store) :
    (p >>= f).left s =
      match p s with
      | .ok a t => (f a).left t
      | .error _ t => t := by
  simp only [left, bind_apply]
  cases p s <;> rfl

theorem left_mapError (change : Error → Error) (p : Eval α) (s : Store) : (mapError change p).left s = p.left s := by
  unfold left mapError
  cases p s with
  | ok a t => rfl
  | error stop t => cases stop <;> rfl

end Eval

/-! ### Processes -/

namespace Comparison

variable {α β γ δ : Type}

/-- Outcomes that are counterparts, with what they give related by `r`. -/
inductive Outcome (C : Comparison) (r : α → β → Prop) : Result Stop Store α → Result Stop Store β → Prop
  | ok {a : α} {b : β} {s t : Store} (h : r a b) (hs : C.store s t) : Outcome C r (.ok a s) (.ok b t)
  | failed {a b : Error} {s t : Store} (h : C.failure a b) (hs : C.store s t) :
    Outcome C r (.error (.failed a) s) (.error (.failed b) t)
  | exhausted {s t : Store} (hs : C.store s t) : Outcome C r (.error .exhausted s) (.error .exhausted t)

/-- Two processes come to counterparts from stores that are counterparts, unless the first takes too many numbers. -/
structure Sim (C : Comparison) (r : α → β → Prop) (p : Eval α) (q : Eval β) : Prop where
  grows : ∀ s, s.cells.size ≤ (p.left s).cells.size
  meets : ∀ s t, C.store s t → C.within (p.left s).cells.size → C.Outcome r (p s) (q t)

variable {C : Comparison} {host : Host} {r : α → β → Prop} {r' : γ → δ → Prop} {p : Eval α} {q : Eval β} {f g : Code}

namespace Outcome

variable {s t : Store}

theorem bind {k : α → Eval γ} {k' : β → Eval δ} (h : C.Outcome r (p s) (q t))
    (hk : ∀ a b u v, r a b → C.store u v → C.Outcome r' (k a u) (k' b v)) :
    C.Outcome r' ((p >>= k) s) ((q >>= k') t) := by
  rw [Eval.bind_apply, Eval.bind_apply]
  generalize p s = x at h ⊢
  generalize q t = y at h ⊢
  cases h with
  | ok h hs => exact hk _ _ _ _ h hs
  | failed h hs => exact .failed h hs
  | exhausted hs => exact .exhausted hs

theorem mapError {change change' : Error → Error} (hchange : ∀ {a b}, C.failure a b → C.failure (change a) (change' b))
    (h : C.Outcome r (p s) (q t)) : C.Outcome r (Eval.mapError change p s) (Eval.mapError change' q t) := by
  unfold Eval.mapError
  generalize p s = x at h ⊢
  generalize q t = y at h ⊢
  cases h with
  | ok h hs => exact .ok h hs
  | failed h hs => exact .failed (hchange h) hs
  | exhausted hs => exact .exhausted hs

end Outcome

namespace Sim

open Eval (left left_bind left_mapError bind_apply)

theorem imp {r₁ r₂ : α → β → Prop} (h : C.Sim r₁ p q) (hr : ∀ {a b}, r₁ a b → r₂ a b) : C.Sim r₂ p q := by
  refine ⟨h.grows, fun s t hs hw => ?_⟩
  have hpq := h.meets s t hs hw
  generalize p s = x at hpq ⊢
  generalize q t = y at hpq ⊢
  cases hpq with
  | ok h hs => exact .ok (hr h) hs
  | failed h hs => exact .failed h hs
  | exhausted hs => exact .exhausted hs

theorem pure {a : α} {b : β} (h : r a b) : C.Sim r (pure a) (pure b) :=
  ⟨fun _ => Nat.le_refl _, fun _ _ hs _ => .ok h hs⟩

/-- What comes after a process takes more numbers, if any, so there are not too many before it either. -/
theorem bind {k : α → Eval γ} {k' : β → Eval δ} (hr : LeftTotal r) (hp : C.Sim r p q)
    (hk : ∀ a b, r a b → C.Sim r' (k a) (k' b)) : C.Sim r' (p >>= k) (q >>= k') := by
  have hgrows : ∀ a u, u.cells.size ≤ ((k a).left u).cells.size := by
    intro a u
    obtain ⟨b, hab⟩ := hr a
    exact (hk a b hab).grows u
  refine ⟨fun s => ?_, fun s t hs hw => ?_⟩
  · have hfirst := hp.grows s
    rw [left_bind]
    rw [left] at hfirst
    cases hps : p s with
    | ok a u =>
      rw [hps] at hfirst
      exact Nat.le_trans hfirst (hgrows a u)
    | error stop u =>
      rw [hps] at hfirst
      exact hfirst
  · have hpq := hp.meets s t hs
    rw [left_bind] at hw
    rw [bind_apply, bind_apply]
    rw [left] at hpq
    cases hps : p s with
    | ok a u =>
      rw [hps] at hw hpq
      have hmid := hpq (C.within_of_le (hgrows a u) hw)
      generalize q t = y at hmid ⊢
      cases hmid with
      | ok h hu => exact (hk a _ h).meets u _ hu hw
    | error stop u =>
      rw [hps] at hw hpq
      have hmid := hpq hw
      generalize q t = y at hmid ⊢
      cases hmid with
      | failed h hu => exact .failed h hu
      | exhausted hu => exact .exhausted hu

theorem fail (hC : C.Lawful host) {c d : Cause} (h : C.cause c d) : C.Sim r (Eval.fail c) (Eval.fail d) :=
  ⟨fun _ => Nat.le_refl _, fun _ _ hs _ => .failed (hC.ofCause h) hs⟩

theorem failAt (hC : C.Lawful host) (hform : C.form f g) {c d : Cause} (h : C.cause c d) :
    C.Sim r (Eval.failAt f c) (Eval.failAt g d) :=
  ⟨fun _ => Nat.le_refl _, fun _ _ hs _ => .failed (hC.attributeTo (hC.caller hform) (hC.ofCause h)) hs⟩

theorem mapError {change change' : Error → Error} (h : ∀ {a b}, C.failure a b → C.failure (change a) (change' b))
    (hp : C.Sim r p q) : C.Sim r (Eval.mapError change p) (Eval.mapError change' q) := by
  refine ⟨fun s => ?_, fun s t hs hw => ?_⟩
  · rw [left_mapError]
    exact hp.grows s
  · rw [left_mapError] at hw
    exact (hp.meets s t hs hw).mapError h

theorem attributed (hC : C.Lawful host) (hform : C.caller f g) (hp : C.Sim r p q) :
    C.Sim r (Eval.attributed f p) (Eval.attributed g q) :=
  hp.mapError fun h => hC.attributeTo hform h

theorem through (hC : C.Lawful host) (hform : C.caller f g) (hp : C.Sim r p q) :
    C.Sim r (Eval.through f p) (Eval.through g q) :=
  hp.mapError fun h => hC.through hform h

theorem modifyGet {k : Store → α × Store} {k' : Store → β × Store} (hgrows : ∀ s, s.cells.size ≤ (k s).2.cells.size)
    (h : ∀ s t, C.store s t → C.within (k s).2.cells.size → r (k s).1 (k' t).1 ∧ C.store (k s).2 (k' t).2) :
    C.Sim r (modifyGet k) (modifyGet k') :=
  ⟨hgrows, fun s t hs hw => .ok (h s t hs hw).1 (h s t hs hw).2⟩

theorem ofExcept (hC : C.Lawful host) {x : Except Cause α} {y : Except Cause β} (h : EndsAlike C.cause r x y) :
    C.Sim r (Eval.ofExcept x) (Eval.ofExcept y) := by
  cases h with
  | ok h => exact pure h
  | error h => exact fail hC h

theorem ofExceptAt (hC : C.Lawful host) (hform : C.form f g) {x : Except Cause α} {y : Except Cause β}
    (h : EndsAlike C.cause r x y) : C.Sim r (Eval.ofExceptAt f x) (Eval.ofExceptAt g y) := by
  cases h with
  | ok h => exact pure h
  | error h => exact failAt hC hform h

/-- What is read from a store has its counterpart in the other one. -/
theorem read (hC : C.Lawful host) {x : Store → Except Cause α} {y : Store → Except Cause β}
    (h : ∀ s t, C.store s t → EndsAlike C.cause r (x s) (y t)) :
    C.Sim r (get >>= fun s => Eval.ofExcept (x s)) (get >>= fun s => Eval.ofExcept (y s)) := by
  refine ⟨fun s => ?_, fun s t hs hw => (ofExcept hC (h s t hs)).meets s t hs hw⟩
  show s.cells.size ≤ ((Eval.ofExcept (x s)).left s).cells.size
  cases x s <;> exact Nat.le_refl _

theorem ofHost {action action' : Store → Except Error Value} {r : Value → Value → Prop}
    (h : ∀ s t, C.store s t → EndsAlike C.failure r (action s) (action' t)) :
    C.Sim r (Eval.ofHost action) (Eval.ofHost action') := by
  refine ⟨fun s => ?_, fun s t hs _ => ?_⟩
  · unfold left Eval.ofHost
    cases action s <;> exact Nat.le_refl _
  · have hst := h s t hs
    unfold Eval.ofHost
    generalize action s = x at hst ⊢
    generalize action' t = y at hst ⊢
    cases hst with
    | ok h => exact .ok h hs
    | error h => exact .failed h hs

end Sim

end Comparison

end Lisplet
