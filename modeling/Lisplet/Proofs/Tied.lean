import Lisplet.Proofs.Expansion
import Lisplet.Proofs.Renaming

/-! # Stores that differ in the numbers of their vars

A store is tied to another by a renaming if the other has the same scopes with the renamed vars, and every var has its
counterpart there, which holds the renamed value. The other may have more vars, of which nothing in the first is the
counterpart. New vars of the two are counterparts, and so are new forms, up to a bound: beyond it the renaming may
number them as it likes. -/

namespace Lisplet

open Function (Injective)

/-! ### What stores hold -/

/-- The scope with the vars that it binds renamed. -/
def Frame.rename (f : Nat → Nat) (frame : Frame) : Frame :=
  { frame with bindings := frame.bindings.map fun binding => (binding.1, binding.2.rename f) }

/-- The cell of a var with what it holds renamed. -/
def Cell.rename (f : Nat → Nat) (cell : Cell) : Cell := ⟨cell.value.rename f, cell.metadata.rename f⟩

/-- The failure with the form that it is attributed to renamed. -/
def Error.rename (f : Nat → Nat) (error : Error) : Error :=
  { error with place := error.place.map fun place => { place with form := place.form.rename f } }

/-- What a function of the host gives, renamed. -/
def renameGiven (f : Nat → Nat) : Except Error Value → Except Error Value
  | .ok v => .ok (v.rename f)
  | .error error => .error (error.rename f)

/-- The event with the var that was bound renamed, or with what a function was given and gave. -/
def Event.rename (f : Nat → Nat) : Event → Event
  | .bound scope name var => .bound scope name (var.rename f)
  | .called function args result => .called function (args.map (Value.rename f)) (renameGiven f result)

namespace Error

variable (f : Nat → Nat) (error : Error) (form : Code)

theorem rename_attributeTo : (error.attributeTo form).rename f = (error.rename f).attributeTo (form.rename f) := by
  obtain ⟨cause, place⟩ := error
  cases place <;> rfl

theorem rename_through : (error.through form).rename f = (error.rename f).through (form.rename f) := by
  obtain ⟨cause, place⟩ := error
  cases place <;> simp [Error.through, Error.rename]

end Error

/-! ### Stores -/

namespace Store

theorem size_snapshot (s : Store) (scope : Scope) (name : String) :
    (s.snapshot scope name).2.cells.size = s.cells.size + 1 := by
  unfold snapshot
  split <;> simp [newVar]

end Store

/-- The counterparts of the vars of `s` in `t` are those that `f` numbers; so are those that are made, up to `bound`. -/
structure Store.Tied (f : Nat → Nat) (bound : Nat) (s t : Store) : Prop where
  frames : t.frames = s.frames.map (Frame.rename f)
  cells : ∀ i : Nat, t.cells[f i]? = s.cells[i]?.map (Cell.rename f)
  next : ∀ i, s.cells.size ≤ i → i < bound → f i = t.cells.size + (i - s.cells.size)
  identities : t.identities = s.identities
  documents : t.documents = s.documents
  events : t.events = s.events.map (Event.rename f)

namespace Store.Tied

variable {f : Nat → Nat} {bound : Nat} {s t : Store}

theorem mono {less : Nat} (h : s.Tied f bound t) (hle : less ≤ bound) : s.Tied f less t :=
  { h with next := fun i hi hlt => h.next i hi (Nat.lt_of_lt_of_le hlt hle) }

/-! ### What is read -/

theorem bindings (h : s.Tied f bound t) (scope : Scope) :
    t.bindings scope = (s.bindings scope).map fun binding => (binding.1, binding.2.rename f) := by
  unfold Store.bindings
  rw [h.frames, Array.getElem?_map]
  cases s.frames[scope]? <;> rfl

theorem outer (h : s.Tied f bound t) (scope : Scope) : t.outer scope = s.outer scope := by
  unfold Store.outer
  rw [h.frames, Array.getElem?_map]
  cases s.frames[scope]? <;> rfl

theorem lookup (h : s.Tied f bound t) (scope : Scope) (name : String) :
    t.lookup scope name = (s.lookup scope name).map (Var.rename f) := by
  unfold Store.lookup
  rw [h.outer]
  induction scope :: s.outer scope with
  | nil => rfl
  | cons frame rest ih =>
    rw [List.findSome?_cons, List.findSome?_cons, h.bindings, Entries.get?_map (Var.rename f)]
    cases Entries.get? (s.bindings frame) name with
    | some var => rfl
    | none => exact ih

theorem undefined (h : s.Tied f bound t) (scope : Scope) (name : String) :
    t.undefined scope name = s.undefined scope name := by
  simp only [Store.undefined, Store.localNames, h.bindings, Entries.keys, List.map_map, Function.comp_def]

theorem held (h : s.Tied f bound t) (var : Var) : t.held (var.rename f) = (s.held var).rename f := by
  unfold Store.held
  rw [Var.rename, h.cells]
  cases s.cells[var.index]? <;> rfl

theorem metadata (h : s.Tied f bound t) (var : Var) : t.metadata (var.rename f) = (s.metadata var).rename f := by
  unfold Store.metadata
  rw [Var.rename, h.cells]
  cases s.cells[var.index]? <;> rfl

theorem get (h : s.Tied f bound t) (scope : Scope) (name : String) :
    t.get scope name = (s.get scope name).map (Value.rename f) := by
  unfold Store.get
  rw [h.lookup]
  cases s.lookup scope name with
  | some var => exact congrArg Except.ok (h.held var)
  | none => exact congrArg Except.error (h.undefined scope name)

theorem deref (h : s.Tied f bound t) (v : Value) : t.deref (v.rename f) = (s.deref v).map (Value.rename f) := by
  have hprint := v.print_rename (f := f)
  cases v with
  | var var => exact congrArg Except.ok (h.held var)
  | _ => exact congrArg (fun text => Except.error (Cause.notDerefable text)) hprint

/-! ### What is changed -/

theorem newVar (h : s.Tied f bound t) (hf : Injective f) (hlt : s.cells.size < bound) (name : String) (v : Value)
    (m : Metadata Value) :
    (t.newVar name (v.rename f) (m.rename f)).1 = (s.newVar name v m).1.rename f ∧
      (s.newVar name v m).2.Tied f bound (t.newVar name (v.rename f) (m.rename f)).2 := by
  have hnew : f s.cells.size = t.cells.size := by
    rw [h.next _ (Nat.le_refl _) hlt, Nat.sub_self, Nat.add_zero]
  refine ⟨?_, h.frames, fun i => ?_, fun i hi hb => ?_, h.identities, h.documents, h.events⟩
  · simp only [Store.newVar, Var.rename, hnew]
  · simp only [Store.newVar, Array.getElem?_push, h.cells]
    by_cases hi : i = s.cells.size
    · simp [hi, hnew, Cell.rename]
    · have hne : f i ≠ t.cells.size := fun heq => hi (hf (heq.trans hnew.symm))
      simp [hi, hne]
  · simp only [Store.newVar, Array.size_push] at hi ⊢
    rw [h.next i (by omega) hb]
    omega

theorem newNumber (h : s.Tied f bound t) (hf : Injective f) (hle : s.newNumber.2.cells.size ≤ bound) :
    t.newNumber.1 = f s.newNumber.1 ∧ s.newNumber.2.Tied f bound t.newNumber.2 := by
  have hlt : s.cells.size < bound := by
    rw [s.newNumber_eq, Store.newVar, Array.size_push] at hle
    exact hle
  obtain ⟨hvar, hstore⟩ := h.newVar hf hlt "" .nil .empty
  exact ⟨congrArg Var.index hvar, hstore⟩

theorem bind (h : s.Tied f bound t) (scope : Scope) (name : String) (var : Var) :
    (s.bind scope name var).Tied f bound (t.bind scope name (var.rename f)) := by
  refine ⟨?_, h.cells, h.next, h.identities, h.documents, ?_⟩
  · refine Array.ext_getElem? fun i => ?_
    simp only [Store.bind, h.frames, Array.getElem?_map, Array.getElem?_modify]
    by_cases hi : scope = i
    · simp only [hi, if_true, Option.map_map]
      refine congrArg (Option.map · _) (funext fun frame => ?_)
      simp only [Function.comp_apply, Frame.rename, Entries.insert_map (Var.rename f)]
    · simp only [hi, if_false]
  · simp only [Store.bind, h.events, List.map_cons, Event.rename]

theorem define (h : s.Tied f bound t) (hf : Injective f) (hlt : s.cells.size < bound) (scope : Scope) (name : String)
    (v : Value) (m : Metadata Value) :
    (t.define scope name (v.rename f) (m.rename f)).1 = (s.define scope name v m).1.rename f ∧
      (s.define scope name v m).2.Tied f bound (t.define scope name (v.rename f) (m.rename f)).2 := by
  obtain ⟨hvar, hnew⟩ := h.newVar hf hlt name v m
  refine ⟨hvar, ?_⟩
  show ((s.newVar name v m).2.bind scope name (s.newVar name v m).1).Tied f bound
    ((t.newVar name (v.rename f) (m.rename f)).2.bind scope name (t.newVar name (v.rename f) (m.rename f)).1)
  rw [hvar]
  exact hnew.bind scope name _

theorem newChild (h : s.Tied f bound t) (scope : Scope) :
    (t.newChild scope).1 = (s.newChild scope).1 ∧ (s.newChild scope).2.Tied f bound (t.newChild scope).2 := by
  refine ⟨?_, ?_, h.cells, h.next, h.identities, h.documents, h.events⟩
  · simp only [Store.newChild, h.frames, Array.size_map]
  · simp only [Store.newChild, h.frames, h.outer, Array.map_push]
    rfl

theorem record (h : s.Tied f bound t) (event : Event) :
    (s.record event).Tied f bound (t.record (event.rename f)) :=
  { h with events := by simp only [Store.record, h.events, List.map_cons] }

/-! ### Expansion -/

theorem snapshot (h : s.Tied f bound t) (hf : Injective f) (hlt : s.cells.size < bound) (scope : Scope)
    (name : String) :
    (t.snapshot scope name).1 = (s.snapshot scope name).1.rename f ∧
      (s.snapshot scope name).2.Tied f bound (t.snapshot scope name).2 := by
  unfold Store.snapshot
  rw [h.lookup]
  cases s.lookup scope name with
  | some var =>
    simp only [Option.map_some, h.held, h.metadata]
    exact h.newVar hf hlt _ _ _
  | none => exact h.newVar hf hlt name .nil .empty

theorem expand (h : s.Tied f bound t) (hf : Injective f) (scope : Scope) (form : Code)
    (hle : (s.expand scope form).2.cells.size ≤ bound) :
    (t.expand scope (form.rename f)).1 = (s.expand scope form).1.rename f ∧
      (s.expand scope form).2.Tied f bound (t.expand scope (form.rename f)).2 := by
  have hkind := form.kind_rename (f := f)
  by_cases hquote : form.kind = .varQuote
  · have hs := s.expandOnce?_of_varQuote scope hquote
    have ht := t.expandOnce?_of_varQuote scope (hkind.trans hquote)
    rw [form.quotedName?_rename] at ht
    cases hname : form.quotedName? with
    | none =>
      rw [hname] at hs ht
      rw [s.expand_eq_self hs, t.expand_eq_self ht]
      exact ⟨rfl, h⟩
    | some name =>
      rw [hname] at hs ht
      rw [Store.expand_of_some hs] at hle ⊢
      rw [Store.expand_of_some ht]
      dsimp only at hle
      rw [s.size_snapshot] at hle
      obtain ⟨hvar, hstore⟩ := h.snapshot hf hle scope name
      refine ⟨?_, hstore⟩
      rw [Form.rename_eq ⟨_, _, _, _, _⟩]
      simp [hvar, FormId.rename, Var.rename]
  by_cases hlist : form.kind = .list
  · have hs := s.expandOnce?_of_list scope hlist
    have ht := t.expandOnce?_of_list scope (hkind.trans hlist)
    cases hcall : form.memberCall? s.newNumber.1 with
    | none =>
      have hrenamed := form.memberCall?_rename (f := f) s.newNumber.1
      rw [hcall] at hrenamed
      have hnone := Form.memberCall?_eq_none hrenamed t.newNumber.1
      rw [hcall] at hs
      rw [hnone] at ht
      rw [s.expand_eq_self hs, t.expand_eq_self ht]
      exact ⟨rfl, h⟩
    | some call =>
      rw [hcall] at hs
      rw [Store.expand_of_some hs] at hle ⊢
      obtain ⟨hnumber, hstore⟩ := h.newNumber hf hle
      rw [hnumber, form.memberCall?_rename, hcall] at ht
      rw [Store.expand_of_some ht]
      exact ⟨rfl, hstore⟩
  · rw [s.expand_eq_self (s.expandOnce?_eq_none scope hquote hlist),
      t.expand_eq_self (t.expandOnce?_eq_none scope (by rwa [hkind]) (by rwa [hkind]))]
    exact ⟨rfl, h⟩

end Store.Tied

end Lisplet
