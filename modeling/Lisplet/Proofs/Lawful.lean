import Lisplet.Proofs.Hereditary
import Lisplet.Proofs.Orderly
import Lisplet.Proofs.RootScope
import Lisplet.Proofs.Writes

/-! # Lawful disciplines

A discipline is lawful if what the evaluator does by itself keeps to it: reading and changing the store, taking values
apart and making new ones, going from a form to its parts. `Keeps` says of a process that it is orderly from every
store of a discipline, with a rule for each way in which processes are put together.

`Task.Below` tells which tasks a task can ask for. Forms get lighter on the way down, but for two things: a special
form is handed the form that calls it, and a function made by a script runs its body. -/

namespace Lisplet

/-! ### Weights -/

namespace Form

variable {α : Type}

mutual

/-- How many forms there are in a form, itself included. Symbols do not count. -/
def weight : Form α → Nat
  | ⟨_, kind, children, _, _⟩ => if kind = .symbol ∧ children.isEmpty then 0 else weights children + 1

/-- How many forms there are in forms. -/
def weights : List (Form α) → Nat
  | [] => 0
  | form :: rest => form.weight + weights rest

end

theorem weight_le_weights {part : Form α} {forms : List (Form α)} (h : part ∈ forms) : part.weight ≤ weights forms := by
  induction forms with
  | nil => cases h
  | cons form rest ih =>
    rw [weights]
    rcases List.mem_cons.mp h with rfl | h
    · omega
    · have := ih h
      omega

theorem weight_of_children {form : Form α} (h : form.children ≠ []) : form.weight = weights form.children + 1 := by
  cases form with
  | mk id kind children binding metadata =>
    have hempty : children.isEmpty = false := by simpa using h
    simp [weight, hempty]

theorem weight_pos {form : Form α} (h : form.kind ≠ .symbol) : 0 < form.weight := by
  cases form with
  | mk id kind children binding metadata => simp [weight, h]

theorem weight_symbol (id : FormId) (name : String) : (symbol id name : Form α).weight = 0 := by
  simp [symbol, weight]

theorem weight_lt_of_mem {form part : Form α} (h : part ∈ form.children) : part.weight < form.weight := by
  have hle := weight_le_weights h
  rw [weight_of_children (List.ne_nil_of_mem h)]
  omega

theorem weights_arguments_le (form : Form α) : weights form.arguments ≤ weights form.children := by
  have htail : weights form.children.tail ≤ weights form.children := by
    cases form.children with
    | nil => exact Nat.le_refl _
    | cons first rest =>
      rw [List.tail_cons, weights]
      omega
  unfold arguments
  split
  · exact htail
  · exact htail
  · exact Nat.le_refl _

theorem mem_children_of_mem_arguments {form part : Form α} (h : part ∈ form.arguments) : part ∈ form.children := by
  unfold arguments at h
  split at h
  · exact List.mem_of_mem_tail h
  · exact List.mem_of_mem_tail h
  · exact h

/-- The sequence of a body is lighter than a form that has something else before it. -/
theorem weight_implicitDo_lt {form first : Code} {body : List Code} (h : form.arguments = first :: body)
    (hfirst : first.kind ≠ .symbol) (number : Nat) : (form.implicitDo number body).weight < form.weight := by
  have hmem : first ∈ form.children := mem_children_of_mem_arguments (by simp [h])
  have hle := form.weights_arguments_le
  rw [h, weights] at hle
  have hpos := weight_pos hfirst
  have hdo : (form.implicitDo number body).weight = weights body + 1 := by
    rw [weight_of_children (by simp [implicitDo])]
    simp [implicitDo, weights, weight_symbol]
  rw [hdo, weight_of_children (List.ne_nil_of_mem hmem)]
  omega

theorem weight_memberCall? {form call : Code} {number : Nat} (h : form.memberCall? number = some call) :
    call.weight ≤ form.weight := by
  obtain ⟨head, target, args, text, member, hchildren, -, -, -, rfl⟩ := exists_of_memberCall? h
  have hform : form.weight = weights form.children + 1 := weight_of_children (by simp [hchildren])
  rw [hform, weight_of_children (by simp), hchildren]
  simp only [weights, weight_symbol]
  omega

end Form

theorem Store.weight_expand_le (s : Store) (scope : Scope) (form : Code) :
    (s.expand scope form).1.weight ≤ form.weight := by
  rcases s.expand_rules scope form with h | ⟨name, hkind, -, h⟩ | ⟨call, -, hcall, h⟩
  · exact Nat.le_of_eq (by rw [h])
  · -- a var has no parts, and whatever stood for it counts for one at least
    have hpos : 0 < form.weight := Form.weight_pos (by simp [hkind])
    rw [h]
    simpa [Form.weight, Form.weights] using Nat.succ_le_of_lt hpos
  · rw [h]
    exact Form.weight_memberCall? hcall

/-! ### Tasks below a task -/

/-- Whether a special form applies a function that it finds among values. -/
def Special.isApplying : Special → Bool
  | apply | member => true
  | _ => false

/-- Whether a procedure was made by a script and runs code of it. -/
def Procedure.isScripted {α : Type} : Procedure α → Bool
  | closure .. | anonymous .. => true
  | _ => false

/-- What a task can ask for. -/
inductive Task.Below : (asked task : Task) → Prop
  | part {part form : Code} (h : part.weight < form.weight) (inner scope : Scope) :
      Below (.evaluate part inner) (.evaluate form scope)
  | handed (special : Special) {next form : Code} (h : next.weight ≤ form.weight) (inner scope : Scope) :
      Below (.invoke special next inner) (.evaluate form scope)
  | called (p : Procedure Value) (args : List Value) (form : Code) (scope : Scope) :
      Below (.call p args) (.evaluate form scope)
  | operand {part form : Code} (h : part.weight < form.weight) (inner : Scope) (special : Special) (scope : Scope) :
      Below (.evaluate part inner) (.invoke special form scope)
  | again (inner : Special) {outer : Special} (h : outer.isApplying = true) (form : Code) (scope : Scope) :
      Below (.invoke inner form scope) (.invoke outer form scope)
  | applied (p : Procedure Value) (args : List Value) {outer : Special} (h : outer.isApplying = true) (form : Code)
      (scope : Scope) : Below (.call p args) (.invoke outer form scope)
  | scripted (task : Task) {p : Procedure Value} (h : p.isScripted = true) (args : List Value) :
      Below task (.call p args)

/-! ### Scopes of calls -/

namespace Eval

/-- What a call on `args` binds its next `count` numbered parameters to, from `%n` on. -/
def parameters : (n count : Nat) → List Value → Library
  | _, 0, _ => []
  | n, count + 1, args =>
    let numbered := ("%" ++ Nat.repr n, firstArgument args) :: parameters (n + 1) count args.tail
    if n = 1 then ("%", firstArgument args) :: numbered else numbered

theorem bindNumbered_eq (scope : Scope) (n count : Nat) (args : List Value) (s : Store) :
    bindNumbered scope n count args s = .ok () ((parameters n count args).install s scope) := by
  induction count generalizing n args s with
  | zero => rfl
  | succ count ih =>
    rw [bindNumbered, parameters]
    by_cases hn : n = 1
    · rw [if_pos hn, if_pos hn]
      exact ih (n + 1) args.tail _
    · rw [if_neg hn, if_neg hn]
      exact ih (n + 1) args.tail _

theorem forall_parameters {P : Value → Prop} (hP : Value.Hereditary P) {args : List Value} (h : ∀ arg ∈ args, P arg)
    (n count : Nat) : ∀ entry ∈ parameters n count args, P entry.2 := by
  induction count generalizing n args with
  | zero => exact fun _ hentry => nomatch hentry
  | succ count ih =>
    have hfirst : P (firstArgument args) := hP.firstArgument h
    have hrest := ih (fun arg ha => h arg (List.mem_of_mem_tail ha)) (n + 1)
    rw [parameters]
    split
    · simpa [hfirst] using hrest
    · simpa [hfirst] using hrest

end Eval

/-- The scope that a call opens inside `scope` for `count` numbered parameters, and the store with it. -/
def Store.openCall (s : Store) (scope : Scope) (count : Nat) (args : List Value) : Scope × Store :=
  ((s.newChild scope).1, (Eval.parameters 1 count args).install (s.newChild scope).2 (s.newChild scope).1)

/-- A call opens a scope and makes one definition after the other there, so what these keep holds once it has
    done so. -/
theorem Store.openCall_of_define {P : Store → Prop} {Q : Value → Prop} (hQ : Value.Hereditary Q) {s : Store}
    {args : List Value} {scope : Scope} (hs : P (s.newChild scope).2) (hargs : ∀ arg ∈ args, Q arg)
    (hdefine : ∀ {t : Store} {v : Value}, P t → Q v → ∀ inner name, P (t.define inner name v .empty).2) (count : Nat) :
    P (s.openCall scope count args).2 :=
  Library.install_induction hs fun _ ht entry hentry =>
    hdefine ht (Eval.forall_parameters hQ hargs 1 count entry hentry) _ entry.1

namespace Eval

/-! ### Laws -/

namespace Discipline

/-- The tasks that keep to a discipline. -/
def Allows (d : Discipline) : Task → Prop
  | .evaluate form _ => d.form form
  | .invoke special form _ => (∀ identity, d.value (.function identity (.special special))) ∧ d.form form
  | .call p args => (∀ identity, d.value (.function identity (.procedure p))) ∧ ∀ arg ∈ args, d.value arg

/-- What the evaluator does by itself keeps to the discipline. -/
structure Lawful (host : Host) (d : Discipline) : Prop where
  /- Values -/
  values : Value.Hereditary d.value
  function : ∀ {i j : Nat} {c : Callable Value}, d.value (.function i c) → d.value (.function j c)
  /- What is read from a store -/
  get : ∀ {form : Code} {s : Store} {scope : Scope} {v : Value}, d.form form → d.store s →
    s.get scope form.text = .ok v → d.value v
  target : ∀ {kind : FormKind} {name : String} {s : Store} {scope : Scope} {v : Value},
    kind.sugarTarget? = some name → d.store s → s.get scope name = .ok v → d.value v
  lookup : ∀ {form : Code} {s : Store} {scope : Scope} {var : Var}, d.form form → d.store s →
    s.lookup scope form.text = some var → d.value (.var var)
  held : ∀ {s : Store} {var : Var}, d.store s → d.value (.var var) → d.value (s.held var)
  /- What is done to a store -/
  identity : ∀ {s : Store}, d.store s → d.store { s with identities := s.identities + 1 }
  number : ∀ {s : Store}, d.store s → d.store s.newNumber.2
  newChild : ∀ {s : Store}, d.store s → ∀ scope, d.store (s.newChild scope).2
  define : ∀ {s : Store} {v : Value} {name : String}, d.store s → d.value v → d.name name → ∀ scope m,
    d.value (.var (s.define scope name v m).1) ∧ d.store (s.define scope name v m).2
  openCall : ∀ {s : Store} {args : List Value}, d.store s → (∀ arg ∈ args, d.value arg) → ∀ scope count,
    d.store (s.openCall scope count args).2
  expand : ∀ {s : Store} {form : Code}, d.store s → d.form form → ∀ scope,
    d.form (s.expand scope form).1 ∧ d.store (s.expand scope form).2
  called : ∀ {s : Store}, d.store s → ∀ f args v, d.store (s.record (.called f args (.ok v)))
  refused : ∀ {s : Store}, d.store s → ∀ f args error, d.failure error (s.record (.called f args (.error error)))
  /- Code -/
  binding : ∀ {form : Code} {var : Var}, d.form form → form.binding = some var → d.value (.var var)
  part : ∀ {form part : Code}, d.form form → part ∈ form.children → d.form part
  symbol : ∀ {form : Code} {name : String}, d.form form → form.symbolName = .ok name → d.name name
  implicitDo : ∀ {form : Code} {body : List Code}, d.form form → (∀ part ∈ body, d.form part) →
    ∀ number, d.form (form.implicitDo number body)
  closure : ∀ {identity : Nat} {self : Option String} {params : List String} {body : Code},
    d.value (.function identity (.special .function)) → (∀ name ∈ self, d.name name) →
    (∀ name ∈ params, d.name name) → d.form body →
    ∀ identity scope, d.value (.function identity (.procedure (.closure self params body scope)))
  body : ∀ {identity : Nat} {self : Option String} {params : List String} {body : Code} {scope : Scope},
    d.value (.function identity (.procedure (.closure self params body scope))) →
    (∀ name ∈ self, d.name name) ∧ (∀ name ∈ params, d.name name) ∧ d.form body
  anonymous : ∀ {form head : Code} {args : List Code}, form.kind = .lambda → d.form form → d.form head →
    (∀ arg ∈ args, d.form arg) →
    ∀ identity params scope, d.value (.function identity (.procedure (.anonymous form head args params scope)))
  forms : ∀ {identity : Nat} {form head : Code} {args : List Code} {params : Nat} {scope : Scope},
    d.value (.function identity (.procedure (.anonymous form head args params scope))) →
    d.form form ∧ d.form head ∧ ∀ arg ∈ args, d.form arg
  /- The host -/
  call : ∀ {s : Store} {f : HostFunction} {args : List Value} {v : Value}, d.store s → (∀ arg ∈ args, d.value arg) →
    host.call f args s = .ok v → d.value v
  invoke : ∀ {s : Store} {name : String} {form : Code} {scope : Scope} {v : Value}, d.store s → d.form form →
    host.invoke name form scope s = .ok v → d.value v
  fields : ∀ (o : HostObject) (name : String) (m : Member), host.fields o name = some m → m.Has d.value

theorem Lawful.expandAll {host : Host} {d : Discipline} (hd : d.Lawful host) {s : Store} (hs : d.store s)
    (scope : Scope) {forms : List Code} {bound : Nat} (h : ∀ form ∈ forms, d.form form ∧ form.weight < bound) :
    (∀ form ∈ (s.expandAll scope forms).1, d.form form ∧ form.weight < bound) ∧
    d.store (s.expandAll scope forms).2 := by
  induction forms generalizing s with
  | nil => exact ⟨h, hs⟩
  | cons form rest ih =>
    obtain ⟨hform, hweight⟩ := h form (by simp)
    obtain ⟨hfirst, ht⟩ := hd.expand hs hform scope
    obtain ⟨hrest, hu⟩ := ih ht fun part hp => h part (List.mem_cons_of_mem _ hp)
    refine ⟨?_, hu⟩
    intro part hpart
    rcases List.mem_cons.mp hpart with rfl | hpart
    · exact ⟨hfirst, Nat.lt_of_le_of_lt (s.weight_expand_le scope form) hweight⟩
    · exact hrest part hpart

/-- A discipline about stores alone: any value, any form and any name will do. -/
structure IsOpen (d : Discipline) : Prop where
  value : ∀ v, d.value v
  form : ∀ form, d.form form
  name : ∀ name, d.name name

theorem IsOpen.hereditary {d : Discipline} (hd : d.IsOpen) : Value.Hereditary d.value := by
  constructor <;> simp [hd.value]

theorem IsOpen.allows {d : Discipline} (hd : d.IsOpen) (task : Task) : d.Allows task := by
  cases task with
  | evaluate form scope => exact hd.form form
  | invoke special form scope => exact ⟨fun _ => hd.value _, hd.form form⟩
  | call p args => exact ⟨fun _ => hd.value _, fun arg _ => hd.value arg⟩

/-- It is lawful if its stores stay so with new identities, scopes, vars and definitions and with calls. -/
theorem IsOpen.lawful_of_define {d : Discipline} (hd : d.IsOpen) (host : Host)
    (identity : ∀ {s : Store}, d.store s → d.store { s with identities := s.identities + 1 })
    (newChild : ∀ {s : Store}, d.store s → ∀ scope, d.store (s.newChild scope).2)
    (newVar : ∀ {s : Store}, d.store s → ∀ name v m, d.store (s.newVar name v m).2)
    (define : ∀ {s : Store}, d.store s → ∀ scope name v m, d.store (s.define scope name v m).2)
    (called : ∀ {s : Store}, d.store s → ∀ f args v, d.store (s.record (.called f args (.ok v))))
    (refused : ∀ {s : Store}, d.store s → ∀ f args error,
      d.failure error (s.record (.called f args (.error error)))) :
    d.Lawful host where
  values := hd.hereditary
  function _ := hd.value _
  get _ _ _ := hd.value _
  target _ _ _ := hd.value _
  lookup _ _ _ := hd.value _
  held _ _ := hd.value _
  identity := identity
  number hs := newVar hs "" .nil .empty
  newChild := newChild
  define hs _ _ scope m := ⟨hd.value _, define hs scope _ _ m⟩
  openCall hs hargs scope count :=
    Store.openCall_of_define hd.hereditary (newChild hs scope) hargs
      (fun ht _ inner name => define ht inner name _ _) count
  expand {s form} hs _ scope :=
    ⟨hd.form _, Store.expand_induction hs (fun ht name v m => newVar ht name v m) scope form⟩
  called := called
  refused := refused
  binding _ _ := hd.value _
  part _ _ := hd.form _
  symbol _ _ := hd.name _
  implicitDo _ _ _ := hd.form _
  closure _ _ _ _ _ _ := hd.value _
  body _ := ⟨fun _ _ => hd.name _, fun _ _ => hd.name _, hd.form _⟩
  anonymous _ _ _ _ _ _ _ := hd.value _
  forms _ := ⟨hd.form _, hd.form _, fun _ _ => hd.form _⟩
  call _ _ _ := hd.value _
  invoke _ _ _ := hd.value _
  fields _ _ m _ := by cases m <;> simp [Member.Has, hd.value]

/-- A definition binds a new var, so it is enough that the stores stay so with any binding. -/
theorem IsOpen.lawful {d : Discipline} (hd : d.IsOpen) (host : Host)
    (identity : ∀ {s : Store}, d.store s → d.store { s with identities := s.identities + 1 })
    (newChild : ∀ {s : Store}, d.store s → ∀ scope, d.store (s.newChild scope).2)
    (newVar : ∀ {s : Store}, d.store s → ∀ name v m, d.store (s.newVar name v m).2)
    (bind : ∀ {s : Store}, d.store s → ∀ scope name var, d.store (s.bind scope name var))
    (called : ∀ {s : Store}, d.store s → ∀ f args v, d.store (s.record (.called f args (.ok v))))
    (refused : ∀ {s : Store}, d.store s → ∀ f args error,
      d.failure error (s.record (.called f args (.error error)))) :
    d.Lawful host :=
  hd.lawful_of_define host identity newChild newVar (fun hs scope name v m => bind (newVar hs name v m) scope name _)
    called refused

end Discipline

/-! ### Processes -/

variable {α β : Type} {d : Discipline} {A : Task → Prop} {P : α → Prop} {Q : β → Prop} {host : Host}

/-- From every store of the discipline the process is orderly. -/
def Keeps (d : Discipline) (A : Task → Prop) (P : α → Prop) (p : (Task → Eval Value) → Eval α) : Prop :=
  ∀ s, d.store s → Orderly d A P fun go => p go s

namespace Keeps

variable {p : (Task → Eval Value) → Eval α}

theorem pure {a : α} (h : P a) : Keeps d A P fun _ => pure a := fun _ hs => .ok h hs

theorem bind {f : (Task → Eval Value) → α → Eval β} (hp : Keeps d A P p)
    (hf : ∀ a, P a → Keeps d A Q fun go => f go a) : Keeps d A Q fun go => p go >>= f go :=
  fun s hs => by simpa only [bind_apply] using (hp s hs).follow fun a t ha ht => hf a ha t ht

theorem mapError {f : Error → Error} (hp : Keeps d A P p) (hf : ∀ error : Error, error.Becomes (f error)) :
    Keeps d A P fun go => mapError f (p go) :=
  fun s hs => (hp s hs).mapError hf

theorem attributed (form : Code) (hp : Keeps d A P p) : Keeps d A P fun go => attributed form (p go) :=
  hp.mapError (.attributeTo form)

theorem through (form : Code) (hp : Keeps d A P p) : Keeps d A P fun go => through form (p go) :=
  hp.mapError (.through form)

theorem fail (c : Cause) : Keeps d A P fun _ => fail c := fun _ hs => .failed (d.fails hs _)

theorem failAt (form : Code) (c : Cause) : Keeps d A P fun _ => failAt form c := fun _ hs => .failed (d.fails hs _)

theorem ofExcept {x : Except Cause α} (h : ∀ a, x = .ok a → P a) : Keeps d A P fun _ => ofExcept x := by
  cases x with
  | ok a => exact .pure (h a rfl)
  | error c => exact .fail c

theorem ofExceptAt {x : Except Cause α} (form : Code) (h : ∀ a, x = .ok a → P a) :
    Keeps d A P fun _ => ofExceptAt form x := by
  cases x with
  | ok a => exact .pure (h a rfl)
  | error c => exact .failAt form c

theorem modifyGet {f : Store → α × Store} (h : ∀ s, d.store s → P (f s).1 ∧ d.store (f s).2) :
    Keeps d A P fun _ => modifyGet f :=
  fun s hs => .ok (h s hs).1 (h s hs).2

theorem get_bind {f : (Task → Eval Value) → Store → Eval α} (h : ∀ s, d.store s → Keeps d A P fun go => f go s) :
    Keeps d A P fun go => get >>= f go :=
  fun s hs => h s hs s hs

theorem ask {task : Task} (h : A task) : Keeps d A d.value fun go => go task := by
  intro s hs
  have hresume : ∀ given : EStateM.Result Stop Store Value, resume id .ok given = given := by
    intro given
    cases given with
    | ok v t => rfl
    | error stop t => cases stop <;> rfl
  have hask : Orderly d A d.value fun go : Task → Eval Value => resume id .ok (go task s) :=
    .ask h hs .refl fun _ _ hv ht => .ok hv ht
  simpa only [hresume] using hask

end Keeps

/-! ### Elementary processes -/

section Elementary

variable {scope : Scope} {form : Code}

theorem keeps_newFunction (hd : d.Lawful host) {c : Callable Value} (h : ∀ identity, d.value (.function identity c)) :
    Keeps d A d.value fun _ => newFunction c :=
  .modifyGet fun s hs => ⟨h s.identities, hd.identity hs⟩

theorem keeps_newNumber (hd : d.Lawful host) : Keeps d A (fun _ => True) fun _ => newNumber :=
  .modifyGet fun _ hs => ⟨trivial, hd.number hs⟩

theorem keeps_define (hd : d.Lawful host) (scope : Scope) {name : String} (hname : d.name name) {v : Value}
    (hv : d.value v) : Keeps d A (fun _ => True) fun _ => define scope name v :=
  .modifyGet fun _ hs => ⟨trivial, (hd.define hs hv hname scope .empty).2⟩

theorem keeps_newChild (hd : d.Lawful host) (scope : Scope) : Keeps d A (fun _ => True) fun _ => newChild scope :=
  .modifyGet fun _ hs => ⟨trivial, hd.newChild hs scope⟩

theorem Keeps.openCall (hd : d.Lawful host) {args : List Value} (hargs : ∀ arg ∈ args, d.value arg) (scope : Scope)
    (count : Nat) {f : (Task → Eval Value) → Scope → Eval β} (hf : ∀ inner, Keeps d A Q fun go => f go inner) :
    Keeps d A Q fun go => newChild scope >>= fun inner => bindNumbered inner 1 count args >>= fun _ => f go inner := by
  intro s hs
  have hopened := hf (s.openCall scope count args).1 _ (hd.openCall hs hargs scope count)
  have hopen : ∀ go : Task → Eval Value,
      (newChild scope >>= fun inner => bindNumbered inner 1 count args >>= fun _ => f go inner) s =
        f go (s.openCall scope count args).1 (s.openCall scope count args).2 := by
    intro go
    rw [bind_apply, show newChild scope s = .ok (s.newChild scope).1 (s.newChild scope).2 from rfl, follow, bind_apply,
      bindNumbered_eq]
    rfl
  simpa only [hopen] using hopened

theorem keeps_lookup (hd : d.Lawful host) (h : d.form form) : Keeps d A d.value fun _ => lookup scope form.text :=
  .get_bind fun _ hs => .ofExcept fun _ hv => hd.get h hs hv

theorem keeps_lookupVar (hd : d.Lawful host) (h : d.form form) :
    Keeps d A d.value fun _ => lookupVar scope form.text := by
  refine .get_bind fun s hs => ?_
  cases hvar : s.lookup scope form.text with
  | some var => exact .pure (hd.lookup h hs hvar)
  | none => exact .fail _

theorem keeps_expandAll (hd : d.Lawful host) {forms : List Code} (bound : Nat)
    (h : ∀ part ∈ forms, d.form part ∧ part.weight < bound) :
    Keeps d A (fun all => ∀ part ∈ all, d.form part ∧ part.weight < bound) fun _ => expandAll scope forms :=
  .modifyGet fun _ hs => hd.expandAll hs scope h

theorem keeps_ofMember (hd : d.Lawful host) {m : Member} (h : m.Has d.value) :
    Keeps d A d.value fun _ => ofMember m := by
  cases m with
  | value v => exact .pure h
  | procedure p => exact keeps_newFunction hd h

end Elementary

end Eval

end Lisplet
