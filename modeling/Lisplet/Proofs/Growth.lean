import Lisplet.Proofs.Course
import Lisplet.Proofs.Entries
import Lisplet.Proofs.Reached

/-! # Stores only grow

Whatever is evaluated, a scope stays inside the scopes it was made in and goes on binding every name it has bound, and
a var goes on holding what it held when it was made. Binding a name again gives the name another var and leaves the
earlier one alone. `Extends` says so of two stores; `After` relates a store to all that come after it, also those in
the midst of an evaluation. -/

namespace Lisplet

open EStateM (Result)

namespace Store

/-! ### Growth -/

/-- Every scope of `s` is still there, inside the same scopes and with all its names, and so is every var with what it
    holds and what is known about it. -/
structure Extends (s t : Store) : Prop where
  frames : ∀ {scope : Scope} {frame : Frame}, s.frames[scope]? = some frame →
    ∃ later, t.frames[scope]? = some later ∧ later.outer = frame.outer ∧
      ∀ name ∈ Entries.keys frame.bindings, name ∈ Entries.keys later.bindings
  cells : ∀ {index : Nat} {cell : Cell}, s.cells[index]? = some cell → t.cells[index]? = some cell

namespace Extends

variable {s t u : Store}

theorem of_eq (hframes : t.frames = s.frames) (hcells : t.cells = s.cells) : s.Extends t :=
  ⟨fun {_ frame} h => ⟨frame, hframes ▸ h, rfl, fun _ hname => hname⟩, fun h => hcells ▸ h⟩

theorem refl (s : Store) : s.Extends s := of_eq rfl rfl

theorem trans (h : s.Extends t) (h' : t.Extends u) : s.Extends u where
  frames hframe := by
    obtain ⟨mid, hmid, houter, hnames⟩ := h.frames hframe
    obtain ⟨last, hlast, houter', hnames'⟩ := h'.frames hmid
    exact ⟨last, hlast, houter'.trans houter, fun name hname => hnames' name (hnames name hname)⟩
  cells hcell := h'.cells (h.cells hcell)

/-! ### Elementary updates -/

theorem getElem?_push_of_eq_some {α : Type} {xs : Array α} {index : Nat} {a : α} (h : xs[index]? = some a) (x : α) :
    (xs.push x)[index]? = some a := by
  obtain ⟨hlt, -⟩ := Array.getElem?_eq_some_iff.mp h
  simpa [Array.getElem?_push, Nat.ne_of_lt hlt] using h

theorem push_frame (s : Store) (frame : Frame) : s.Extends { s with frames := s.frames.push frame } where
  frames h := ⟨_, getElem?_push_of_eq_some h frame, rfl, fun _ hname => hname⟩
  cells h := h

theorem newVar (s : Store) (name : String) (v : Value) (m : Metadata Value) : s.Extends (s.newVar name v m).2 where
  frames h := ⟨_, h, rfl, fun _ hname => hname⟩
  cells h := getElem?_push_of_eq_some h ⟨v, m⟩

theorem bind (s : Store) (scope : Scope) (name : String) (var : Var) : s.Extends (s.bind scope name var) where
  frames {f frame} h := by
    -- only the scope that binds the name changes, and there names are added or kept
    by_cases hf : scope = f
    · refine ⟨{ frame with bindings := Entries.insert name var frame.bindings }, ?_, rfl, ?_⟩
      · simp [Store.bind, Array.getElem?_modify, hf, h]
      · exact fun _ hname => (Entries.mem_keys_insert var).mpr (.inr hname)
    · refine ⟨frame, ?_, rfl, fun _ hname => hname⟩
      simpa [Store.bind, Array.getElem?_modify, hf] using h
  cells h := h

theorem define (s : Store) (scope : Scope) (name : String) (v : Value) (m : Metadata Value) :
    s.Extends (s.define scope name v m).2 :=
  (newVar s name v m).trans (bind _ scope name _)

/-! ### Fresh root scopes -/

theorem install (library : Library) (s : Store) (scope : Scope) : s.Extends (library.install s scope) :=
  Library.install_induction (refl s) fun t ht entry _ => ht.trans (define t scope entry.1 entry.2 .empty)

theorem newBase (s : Store) (extra : Library) : s.Extends (s.newBase extra).2 :=
  newBase_induction (refl s) (fun h => h.trans (push_frame _ ⟨[], []⟩)) (fun h => h.trans (of_eq rfl rfl))
    (fun h scope name v => h.trans (define _ scope name v .empty)) extra

/-! ### What is read -/

theorem exists_frame (h : s.Extends t) {scope : Scope} (hscope : scope < s.frames.size) :
    ∃ frame later, s.frames[scope]? = some frame ∧ t.frames[scope]? = some later ∧ later.outer = frame.outer ∧
      ∀ name ∈ Entries.keys frame.bindings, name ∈ Entries.keys later.bindings := by
  have hframe : s.frames[scope]? = some s.frames[scope] := Array.getElem?_eq_getElem hscope
  obtain ⟨later, hlater, hrest⟩ := h.frames hframe
  exact ⟨_, later, hframe, hlater, hrest⟩

theorem lt_frames (h : s.Extends t) {scope : Scope} (hscope : scope < s.frames.size) : scope < t.frames.size := by
  obtain ⟨-, later, -, hlater, -⟩ := h.exists_frame hscope
  exact (Array.getElem?_eq_some_iff.mp hlater).1

theorem outer (h : s.Extends t) {scope : Scope} (hscope : scope < s.frames.size) : t.outer scope = s.outer scope := by
  obtain ⟨frame, later, hframe, hlater, houter, -⟩ := h.exists_frame hscope
  simp only [Store.outer, hframe, hlater, houter]

theorem mem_localNames (h : s.Extends t) {scope : Scope} {name : String} (hname : name ∈ s.localNames scope) :
    name ∈ t.localNames scope := by
  unfold Store.localNames Store.bindings at hname
  split at hname
  · next frame hframe =>
    obtain ⟨later, hlater, -, hnames⟩ := h.frames hframe
    simpa only [Store.localNames, Store.bindings, hlater] using hnames name hname
  · cases hname

theorem cell (h : s.Extends t) {var : Var} (hvar : var.index < s.cells.size) :
    t.cells[var.index]? = s.cells[var.index]? := by
  rw [Array.getElem?_eq_getElem hvar]
  exact h.cells (Array.getElem?_eq_getElem hvar)

theorem held (h : s.Extends t) {var : Var} (hvar : var.index < s.cells.size) : t.held var = s.held var := by
  rw [Store.held, Store.held, h.cell hvar]

theorem metadata (h : s.Extends t) {var : Var} (hvar : var.index < s.cells.size) :
    t.metadata var = s.metadata var := by
  rw [Store.metadata, Store.metadata, h.cell hvar]

end Extends

end Store

/-! ### Evaluation -/

namespace Eval

/-- A process that keeps to a discipline leaves a store of the discipline, if failures leave such stores too. -/
theorem Meets.left {α : Type} {d : Discipline} {Q : α → Prop} {p : Eval α} {s : Store} (h : Meets d Q (p s))
    (hfailure : ∀ {error t}, d.failure error t → d.store t) : d.store (p.left s) := by
  unfold Eval.left
  generalize p s = result at h ⊢
  cases h with
  | ok _ ht => exact ht
  | failed ht => exact hfailure ht
  | exhausted ht => exact ht

/-- To work only in stores that come after `s`. -/
def growth (s : Store) : Discipline where
  store := s.Extends
  failure _ t := s.Extends t
  value _ := True
  form _ := True
  name _ := True
  fails h _ := h
  passes h _ := h

theorem isOpen_growth (s : Store) : (growth s).IsOpen :=
  ⟨fun _ => trivial, fun _ => trivial, fun _ => trivial⟩

theorem lawful_growth (host : Host) (s : Store) : (growth s).Lawful host := by
  refine (isOpen_growth s).lawful host ?_ ?_ ?_ ?_ ?_ ?_
  · exact fun h => h.trans (.of_eq rfl rfl)
  · exact fun h scope => h.trans (.push_frame _ _)
  · exact fun h name v m => h.trans (.newVar _ name v m)
  · exact fun h scope name var => h.trans (.bind _ scope name var)
  · exact fun h _ _ _ => h.trans (.of_eq rfl rfl)
  · exact fun h _ _ _ => h.trans (.of_eq rfl rfl)

theorem extends_left_run (host : Host) (levels : Nat) (task : Task) (s : Store) :
    s.Extends ((run host levels task).left s) :=
  ((lawful_growth host s).serves levels ((isOpen_growth s).allows task) (.refl s)).left id

theorem extends_of_begins {host : Host} {levels rest : Nat} {task later : Task} {s t : Store}
    (h : Begins host levels task s rest later t) : s.Extends t :=
  ((lawful_growth host s).begins h ((isOpen_growth s).allows task) (.refl s)).2.1

end Eval

/-! ### Later stores -/

/-- The stores that can come after `s`, in any host: after tasks, in the midst of tasks, when sources were read and when
    interpreters were made. -/
inductive Store.After (s : Store) : Store → Prop
  | refl : After s s
  | ended {t : Store} (h : After s t) (host : Host) (levels : Nat) (task : Task) :
      After s ((Eval.run host levels task).left t)
  | begun {t u : Store} (h : After s t) {host : Host} {levels rest : Nat} {task later : Task}
      (hbegins : Eval.Begins host levels task t rest later u) : After s u
  | read {t : Store} (h : After s t) (source : String) : After s ((Interpreter.read source).left t)
  | created {t : Store} (h : After s t) (host : Host) (settings : Settings) (library : Library) :
      After s (Interpreter.create host settings library t).2

namespace Store.After

variable {s t : Store}

theorem grown (h : s.After t) : s.Extends t := by
  induction h with
  | refl => exact .refl s
  | ended _ host levels task ih => exact ih.trans (Eval.extends_left_run host levels task _)
  | begun _ hbegins ih => exact ih.trans (Eval.extends_of_begins hbegins)
  | read _ _ ih => exact ih.trans (.of_eq rfl rfl)
  | created _ _ _ library ih => exact ih.trans (.newBase _ library)

theorem evalSource (h : s.After t) (i : Interpreter) (source : String) : s.After ((i.evalSource source).left t) := by
  rcases i.evalSource_cases source t with ⟨error, herror⟩ | hevaluate
  · simpa only [Eval.left, herror] using h
  · -- the document is counted before its root is evaluated
    have hleft : (i.evalSource source).left t =
        (i.evaluate (Document.read t.documents source).root).left ((Interpreter.read source).left t) := by
      rw [Eval.left, hevaluate]
      rfl
    rw [hleft]
    exact (h.read source).ended i.host i.levels _

/-- At no later point has a scope left the scopes around it or lost a name, and no var holds anything else or is known
    for anything else than before; nothing else is known about any value. So a var gives the same whenever its value is
    asked for. -/
theorem immutable (h : s.After t) :
    (∀ scope < s.frames.size, scope < t.frames.size ∧ t.outer scope = s.outer scope ∧
      t.parent? scope = s.parent? scope ∧ ∀ name ∈ s.localNames scope, name ∈ t.localNames scope) ∧
    (∀ var : Var, var.index < s.cells.size →
      var.index < t.cells.size ∧ t.held var = s.held var ∧ t.metadata var = s.metadata var) ∧
    (∀ v : Value, (∀ var, v = .var var → var.index < s.cells.size) → t.metadataOf v = s.metadataOf v) ∧
    ∀ var : Var, var.index < s.cells.size → ∀ (host : Host) (levels : Nat),
      Eval.run host (levels + 1) (.call (.builtin .deref) [.var var]) t = .ok (s.held var) t := by
  have hgrown := h.grown
  refine ⟨fun scope hscope => ?_, fun var hvar => ?_, fun v hv => ?_, fun var hvar host levels => ?_⟩
  · refine ⟨hgrown.lt_frames hscope, hgrown.outer hscope, ?_, fun name hname => hgrown.mem_localNames hname⟩
    rw [Store.parent?, Store.parent?, hgrown.outer hscope]
  · have hcell := hgrown.cells (Array.getElem?_eq_getElem hvar)
    obtain ⟨hlt, -⟩ := Array.getElem?_eq_some_iff.mp hcell
    exact ⟨hlt, hgrown.held hvar, hgrown.metadata hvar⟩
  · cases v with
    | var var => exact hgrown.metadata (hv var rfl)
    | _ => rfl
  · show Result.ok (t.held var) t = .ok (s.held var) t
    rw [hgrown.held hvar]

/-- A store in which `x` holds a number and `v` a snapshot of what `x` means. -/
def snapshotStore : Store := (freshCommand.1.evalSource "(def x 1) (def v #'x)").left freshCommand.2

/-- The store after `x` was bound again. -/
def reboundStore : Store := (freshCommand.1.evalSource "(def x 2)").left snapshotStore

/-- The var that `v` holds. -/
def snapshotVar : Var :=
  match snapshotStore.get freshCommand.1.scope "v" with
  | .ok (.var var) => var
  | _ => ⟨0, .ofString "v"⟩

theorem immutable_reboundStore :
    snapshotVar.name = .ofString "x" ∧ snapshotVar.index < snapshotStore.cells.size ∧
    (snapshotStore.held snapshotVar).print = "1" ∧
    (reboundStore.get freshCommand.1.scope "x").toOption.map Value.print = some "2" ∧
    ∀ (host : Host) (levels : Nat),
      Eval.run host (levels + 1) (.call (.builtin .deref) [.var snapshotVar]) reboundStore =
        .ok (snapshotStore.held snapshotVar) reboundStore := by
  have hcheck : snapshotVar.name = .ofString "x" ∧ snapshotVar.index < snapshotStore.cells.size ∧
      (snapshotStore.held snapshotVar).print = "1" ∧
      (reboundStore.get freshCommand.1.scope "x").toOption.map Value.print = some "2" := by decide +kernel
  obtain ⟨hname, hindex, hheld, hx⟩ := hcheck
  have hafter : snapshotStore.After reboundStore := Store.After.refl.evalSource freshCommand.1 "(def x 2)"
  exact ⟨hname, hindex, hheld, hx, (immutable hafter).2.2.2 snapshotVar hindex⟩

end Store.After

end Lisplet
