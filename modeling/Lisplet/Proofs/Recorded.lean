import Lisplet.Proofs.History

/-! # Bindings are recorded

Whatever comes after a store, a scope binds a name as it did before, unless its being bound there has been recorded
since. So to know what a name means in some scope, it is enough to know what was recorded for the scopes around it. -/

namespace Lisplet

namespace Store

/-- Since `s`, it was recorded that `scope` bound `name`. -/
def BoundSince (s u : Store) (scope : Scope) (name : String) : Prop :=
  ∃ news var, u.events = news ++ s.events ∧ .bound scope name var ∈ news

/-- What was recorded up to `s` is still recorded in `t`, and what is bound otherwise in `t` was recorded since. -/
structure Recorded (s t : Store) : Prop where
  news : ∃ news, t.events = news ++ s.events
  bindings : ∀ scope name, ¬s.BoundSince t scope name →
    Entries.get? (t.bindings scope) name = Entries.get? (s.bindings scope) name

namespace Recorded

variable {s t u : Store}

/-- Nothing was recorded or bound. -/
theorem of_eq (hframes : ∀ scope, t.bindings scope = s.bindings scope) (hevents : t.events = s.events) :
    s.Recorded t :=
  ⟨⟨[], hevents⟩, fun scope _ _ => by rw [hframes]⟩

theorem refl (s : Store) : s.Recorded s := of_eq (fun _ => rfl) rfl

theorem trans (h : s.Recorded t) (h' : t.Recorded u) : s.Recorded u := by
  obtain ⟨first, hfirst⟩ := h.news
  obtain ⟨second, hsecond⟩ := h'.news
  have hboth : u.events = (second ++ first) ++ s.events := by rw [hsecond, hfirst, List.append_assoc]
  refine ⟨⟨_, hboth⟩, fun scope name hnot => ?_⟩
  rw [h'.bindings scope name, h.bindings scope name]
  · rintro ⟨news, var, hnews, hmem⟩
    obtain rfl := List.append_cancel_right (hnews.symm.trans hfirst)
    exact hnot ⟨_, var, hboth, List.mem_append_right _ hmem⟩
  · rintro ⟨news, var, hnews, hmem⟩
    obtain rfl := List.append_cancel_right (hnews.symm.trans hsecond)
    exact hnot ⟨_, var, hboth, List.mem_append_left _ hmem⟩

theorem newChild (s : Store) (scope : Scope) : s.Recorded (s.newChild scope).2 :=
  of_eq (fun _ => bindings_push _) rfl

theorem record (s : Store) (event : Event) : s.Recorded (s.record event) :=
  ⟨⟨[event], rfl⟩, fun _ _ _ => rfl⟩

theorem bind (s : Store) (scope : Scope) (name : String) (var : Var) : s.Recorded (s.bind scope name var) := by
  refine ⟨⟨[.bound scope name var], rfl⟩, fun inner other hnot => ?_⟩
  by_cases hscope : scope < s.frames.size
  · rw [bindings_bind hscope]
    split
    · next hinner =>
      rw [Entries.get?_insert, if_neg]
      rintro rfl
      exact hnot ⟨[.bound scope other var], var, rfl, by simp [hinner]⟩
    · rfl
  · rw [bindings_bind_of_le (Nat.not_lt.mp hscope)]

theorem define (s : Store) (scope : Scope) (name : String) (v : Value) (m : Metadata Value) :
    s.Recorded (s.define scope name v m).2 := by
  have hnew : s.Recorded (s.newVar name v m).2 := of_eq (fun _ => rfl) rfl
  exact hnew.trans (bind _ scope name _)

theorem newBase (s : Store) (extra : Library) : s.Recorded (s.newBase extra).2 :=
  newBase_induction (refl s) (fun h => h.trans (of_eq (fun _ => bindings_push []) rfl))
    (fun h => h.trans (of_eq (fun _ => rfl) rfl)) (fun h scope name v => h.trans (define _ scope name v .empty)) extra

end Recorded

end Store

namespace Eval

/-- To bind nothing in secret after `s`. -/
def recording (s : Store) : Discipline where
  store := s.Recorded
  failure _ t := s.Recorded t
  value _ := True
  form _ := True
  name _ := True
  fails h _ := h
  passes h _ := h

theorem isOpen_recording (s : Store) : (recording s).IsOpen :=
  ⟨fun _ => trivial, fun _ => trivial, fun _ => trivial⟩

theorem lawful_recording (host : Host) (s : Store) : (recording s).Lawful host := by
  refine (isOpen_recording s).lawful host ?_ ?_ ?_ ?_ ?_ ?_
  · exact fun h => h.trans (.of_eq (fun _ => rfl) rfl)
  · exact fun h scope => h.trans (.newChild _ scope)
  · exact fun h name v m => h.trans (.of_eq (fun _ => rfl) rfl)
  · exact fun h scope name var => h.trans (.bind _ scope name var)
  · exact fun h _ _ _ => h.trans (.record _ _)
  · exact fun h _ _ _ => h.trans (.record _ _)

end Eval

namespace Store

theorem After.recorded {s t : Store} (h : s.After t) : s.Recorded t := by
  induction h with
  | refl => exact .refl s
  | @ended t _ host levels task ih =>
    exact ih.trans
      (((Eval.lawful_recording host t).serves levels ((Eval.isOpen_recording t).allows task) (.refl t)).left id)
  | @begun t u _ host _ _ task _ hbegins ih =>
    exact ih.trans ((Eval.lawful_recording host t).begins hbegins ((Eval.isOpen_recording t).allows task) (.refl t)).2.1
  | read _ _ ih => exact ih.trans (.of_eq (fun _ => rfl) rfl)
  | created _ _ _ library ih => exact ih.trans (.newBase _ library)

/-- In `u`, the scope `inside` is `inner` or lies in it, the scopes on the way were opened since `t`, and neither they
    nor `inner` have bound the name since. -/
def UnshadowedSince (t u : Store) (inner : Scope) (name : String) (inside : Scope) : Prop :=
  ∃ nearer farther, inside :: u.outer inside = nearer ++ inner :: farther ∧
    (∀ frame ∈ nearer, t.frames.size ≤ frame) ∧ ∀ frame ∈ inner :: nearer, ¬t.BoundSince u frame name

theorem bindings_of_size_le {s : Store} {scope : Scope} (h : s.frames.size ≤ scope) : s.bindings scope = [] := by
  rw [bindings, Array.getElem?_eq_none h]

/-- What a scope bound a name to is what the name means later, wherever this is kept. -/
theorem After.get_of_unshadowed {t u : Store} (h : t.After u) {inner inside : Scope} {name : String} {var : Var}
    (hvar : Entries.get? (t.bindings inner) name = some var) (hlt : var.index < t.cells.size)
    (hseen : t.UnshadowedSince u inner name inside) : u.get inside name = .ok (t.held var) := by
  obtain ⟨nearer, farther, hchain, hopened, hnot⟩ := hseen
  obtain ⟨hinner, hnearer⟩ := List.forall_mem_cons.mp hnot
  have hnone : ∀ frame ∈ nearer, Entries.get? (u.bindings frame) name = none := by
    intro frame hframe
    rw [h.recorded.bindings frame name (hnearer frame hframe), bindings_of_size_le (hopened frame hframe)]
    rfl
  have hlookup : u.lookup inside name = some var := by
    rw [lookup, hchain, List.findSome?_append, List.findSome?_eq_none_iff.mpr hnone, Option.none_or,
      List.findSome?_cons, h.recorded.bindings inner name hinner, hvar]
  rw [get, hlookup]
  exact congrArg Except.ok (h.grown.held hlt)

end Store

end Lisplet
