import Lisplet.Proofs.Expansion
import Lisplet.Proofs.Skeleton

/-! # Stores that are alike

Two stores are alike if their vars hold values with the same skeletons in the same scopes. What is read from them is
alike then, and they stay alike when the same is done to them. -/

namespace Lisplet

/-- Stores with the same scopes, whose vars hold values that are alike. -/
structure Store.Alike (s t : Store) : Prop where
  frames : s.frames = t.frames
  cells : s.cells.map (·.value.skeleton) = t.cells.map (·.value.skeleton)
  identities : s.identities = t.identities
  documents : s.documents = t.documents

namespace Store.Alike

variable {s t : Store}

theorem refl (s : Store) : s.Alike s := ⟨rfl, rfl, rfl, rfl⟩

theorem size (h : s.Alike t) : s.cells.size = t.cells.size := by
  have hsize := congrArg Array.size h.cells
  rwa [Array.size_map, Array.size_map] at hsize

theorem bindings (h : s.Alike t) (scope : Scope) : s.bindings scope = t.bindings scope := by
  rw [Store.bindings, Store.bindings, h.frames]

theorem outer (h : s.Alike t) (scope : Scope) : s.outer scope = t.outer scope := by
  rw [Store.outer, Store.outer, h.frames]

theorem lookup (h : s.Alike t) (scope : Scope) (name : String) : s.lookup scope name = t.lookup scope name := by
  simp only [Store.lookup, h.bindings, h.outer]

theorem undefined (h : s.Alike t) (scope : Scope) (name : String) :
    s.undefined scope name = t.undefined scope name := by
  simp only [Store.undefined, Store.localNames, h.bindings]

theorem held (h : s.Alike t) (var : Var) : (s.held var).Alike (t.held var) := by
  have hcell := congrArg (·[var.index]?) h.cells
  simp only [Array.getElem?_map] at hcell
  unfold Store.held
  cases hs : s.cells[var.index]? <;> cases ht : t.cells[var.index]? <;>
    simp only [hs, ht, Option.map_some, Option.map_none, reduceCtorEq, Option.some.injEq] at hcell
  · exact rfl
  · exact hcell

theorem deref (h : s.Alike t) {v w : Value} (hv : v.Alike w) :
    (s.deref v).map Value.skeleton = (t.deref w).map Value.skeleton := by
  have hskeleton : ∀ u : Value, t.deref u.skeleton = t.deref u := by
    intro u
    have hprint := Value.print_skeleton u
    cases u with
    | var var => rfl
    | _ => exact congrArg (fun text => Except.error (Cause.notDerefable text)) hprint
  rw [← hskeleton w, ← hv.skeleton, hskeleton]
  cases v with
  | var var => exact congrArg Except.ok (h.held var)
  | _ => rfl

theorem newVar (h : s.Alike t) (name : String) {v w : Value} (hv : v.Alike w) (m m' : Metadata Value) :
    (s.newVar name v m).1 = (t.newVar name w m').1 ∧ (s.newVar name v m).2.Alike (t.newVar name w m').2 := by
  refine ⟨by rw [Store.newVar, Store.newVar, h.size], h.frames, ?_, h.identities, h.documents⟩
  simp only [Store.newVar, Array.map_push, h.cells, hv.skeleton]

theorem newNumber (h : s.Alike t) : s.newNumber.1 = t.newNumber.1 ∧ s.newNumber.2.Alike t.newNumber.2 :=
  ⟨h.size, (h.newVar "" rfl .empty .empty).2⟩

theorem bind (h : s.Alike t) (scope : Scope) (name : String) (var : Var) :
    (s.bind scope name var).Alike (t.bind scope name var) := by
  refine ⟨?_, h.cells, h.identities, h.documents⟩
  simp only [Store.bind, h.frames]

theorem define (h : s.Alike t) (scope : Scope) (name : String) {v w : Value} (hv : v.Alike w) (m m' : Metadata Value) :
    (s.define scope name v m).1 = (t.define scope name w m').1 ∧
      (s.define scope name v m).2.Alike (t.define scope name w m').2 := by
  obtain ⟨hvar, hnew⟩ := h.newVar name hv m m'
  refine ⟨hvar, ?_⟩
  show ((s.newVar name v m).2.bind scope name (s.newVar name v m).1).Alike _
  rw [hvar]
  exact hnew.bind scope name _

theorem newChild (h : s.Alike t) (scope : Scope) :
    (s.newChild scope).1 = (t.newChild scope).1 ∧ (s.newChild scope).2.Alike (t.newChild scope).2 := by
  refine ⟨?_, ?_, h.cells, h.identities, h.documents⟩
  · show s.frames.size = t.frames.size
    rw [h.frames]
  · show s.frames.push ⟨scope :: s.outer scope, []⟩ = t.frames.push ⟨scope :: t.outer scope, []⟩
    rw [h.frames, h.outer]

theorem snapshot (h : s.Alike t) (scope : Scope) (name : String) :
    (s.snapshot scope name).1 = (t.snapshot scope name).1 ∧ (s.snapshot scope name).2.Alike (t.snapshot scope name).2 := by
  rw [Store.snapshot, Store.snapshot, h.lookup]
  cases t.lookup scope name with
  | some var => exact h.newVar _ (h.held var) _ _
  | none => exact h.newVar _ rfl _ _

/-- The same rule applies to forms that are alike, or none does. -/
theorem expandOnce? (h : s.Alike t) (scope : Scope) {form other : Code} (hf : form.Alike other) :
    (s.expandOnce? scope form = none ∧ t.expandOnce? scope other = none) ∨
    ∃ next s' next' t', s.expandOnce? scope form = some (next, s') ∧ t.expandOnce? scope other = some (next', t') ∧
      next.Alike next' ∧ s'.Alike t' := by
  by_cases hquote : form.kind = .varQuote
  · rw [s.expandOnce?_of_varQuote scope hquote, t.expandOnce?_of_varQuote scope (hf.kind ▸ hquote),
      ← hf.quotedName? hquote]
    cases form.quotedName? with
    | none => exact .inl ⟨rfl, rfl⟩
    | some name =>
      obtain ⟨hvar, hstore⟩ := h.snapshot scope name
      refine .inr ⟨_, _, _, _, rfl, rfl, ?_, hstore⟩
      exact Form.Alike.iff.mpr ⟨by rw [hf.id, hvar], rfl, rfl, congrArg some hvar, rfl⟩
  by_cases hlist : form.kind = .list
  · obtain ⟨hnumber, hstore⟩ := h.newNumber
    have hcall := hf.memberCall? s.newNumber.1
    rw [s.expandOnce?_of_list scope hlist, t.expandOnce?_of_list scope (hf.kind ▸ hlist), ← hnumber]
    cases hc : form.memberCall? s.newNumber.1 <;> cases hd : other.memberCall? s.newNumber.1 <;> rw [hc, hd] at hcall
    · exact .inl ⟨rfl, rfl⟩
    · cases hcall
    · cases hcall
    · exact .inr ⟨_, _, _, _, rfl, rfl, Option.some.inj hcall, hstore⟩
  · exact .inl ⟨s.expandOnce?_eq_none scope hquote hlist,
      t.expandOnce?_eq_none scope (hf.kind ▸ hquote) (hf.kind ▸ hlist)⟩

theorem expand (h : s.Alike t) (scope : Scope) {form other : Code} (hf : form.Alike other) :
    (s.expand scope form).1.Alike (t.expand scope other).1 ∧ (s.expand scope form).2.Alike (t.expand scope other).2 := by
  simp only [Store.expand, Store.expandWithin]
  rcases h.expandOnce? scope hf with ⟨hs, ht⟩ | ⟨next, s', next', t', hs, ht, hnext, hstore⟩
  · rw [hs, ht]
    exact ⟨hf, h⟩
  · rw [hs, ht]
    exact ⟨hnext, hstore⟩

end Store.Alike

end Lisplet
