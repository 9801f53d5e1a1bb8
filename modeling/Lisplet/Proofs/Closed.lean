import Lisplet.Proofs.Growth
import Lisplet.Proofs.Uniform

/-! # Closed stores

A value is bounded by `n` if it mentions none but the first `n` numbers of vars and made forms: it stays as it is when
the others are changed. A store is closed if everything in it is bounded by the numbers that were given away, so that
every var it mentions exists. Evaluation cannot tell one number from another, so it cannot make up any: it keeps
stores closed and gives values whose numbers were given away. -/

namespace Lisplet

open EStateM (Result)
open Function (Injective)

/-- Leaves the first `n` numbers as they are and skips `n` after them. -/
def skip (n i : Nat) : Nat := if i < n then i else i + 1

theorem skip_of_lt {n i : Nat} (h : i < n) : skip n i = i := if_pos h

theorem le_skip (n i : Nat) : i ≤ skip n i := by
  unfold skip
  split <;> omega

theorem skip_injective (n : Nat) : Injective (skip n) := by
  intro i j h
  unfold skip at h
  split at h <;> split at h <;> omega

theorem lt_of_skip_eq {n i : Nat} (h : skip n i = i) : i < n := by
  unfold skip at h
  split at h
  · assumption
  · omega

/-! ### Bounded values -/

section Congr

variable {n : Nat} {f g : Nat → Nat}

theorem Var.rename_congr (hfg : ∀ i < n, f i = g i) {var : Var} (h : var.rename (skip n) = var) :
    var.rename f = var.rename g := by
  have hlt : var.index < n := lt_of_skip_eq (congrArg Var.index h)
  rw [Var.rename, Var.rename, hfg _ hlt]

theorem FormId.rename_congr (hfg : ∀ i < n, f i = g i) :
    (id : FormId) → id.rename (skip n) = id → id.rename f = id.rename g
  | .read _ _ => fun _ => rfl
  | .derived source number part => fun h => by
    obtain ⟨hsource, hnumber, -⟩ := FormId.derived.inj h
    rw [FormId.rename, FormId.rename, FormId.rename_congr hfg source hsource, hfg _ (lt_of_skip_eq hnumber)]

mutual

/-- Renamings that agree on the first `n` numbers do the same to what mentions no other. -/
theorem Value.rename_congr (hfg : ∀ i < n, f i = g i) :
    (v : Value) → v.rename (skip n) = v → v.rename f = v.rename g
  | .vector items => fun h => by
    simp only [Value.rename, Value.vector.injEq] at h ⊢
    exact Value.renameAll_congr hfg items h
  | .set items => fun h => by
    simp only [Value.rename, Value.set.injEq] at h ⊢
    exact Value.renameAll_congr hfg items h
  | .map entries => fun h => by
    simp only [Value.rename, Value.map.injEq] at h ⊢
    exact Value.renameEntries_congr hfg entries h
  | .form code => fun h => by
    simp only [Value.rename, Value.form.injEq] at h ⊢
    exact Form.rename_congr hfg code h
  | .var var => fun h => by
    simp only [Value.rename, Value.var.injEq] at h ⊢
    exact Var.rename_congr hfg h
  | .function identity callable => fun h => by
    simp only [Value.rename, Value.function.injEq, true_and] at h ⊢
    exact Callable.rename_congr hfg callable h
  | .nil | .bool _ | .int _ | .double _ | .string _ | .keyword _ | .object _ => fun _ => rfl

theorem Value.renameAll_congr (hfg : ∀ i < n, f i = g i) :
    (vs : List Value) → Value.renameAll (skip n) vs = vs → Value.renameAll f vs = Value.renameAll g vs
  | [] => fun _ => rfl
  | v :: rest => fun h => by
    obtain ⟨hv, hrest⟩ := List.cons.inj h
    rw [Value.renameAll, Value.renameAll, Value.rename_congr hfg v hv, Value.renameAll_congr hfg rest hrest]

theorem Value.renameEntries_congr (hfg : ∀ i < n, f i = g i) : (entries : List (Key × Value)) →
    Value.renameEntries (skip n) entries = entries → Value.renameEntries f entries = Value.renameEntries g entries
  | [] => fun _ => rfl
  | (key, v) :: rest => fun h => by
    obtain ⟨hv, hrest⟩ := List.cons.inj h
    rw [Value.renameEntries, Value.renameEntries, Value.rename_congr hfg v (Prod.mk.inj hv).2,
      Value.renameEntries_congr hfg rest hrest]

theorem Form.rename_congr (hfg : ∀ i < n, f i = g i) :
    (form : Code) → form.rename (skip n) = form → form.rename f = form.rename g
  | ⟨id, kind, children, binding, metadata⟩ => fun h => by
    simp only [Form.rename, Form.mk.injEq, true_and] at h ⊢
    obtain ⟨hid, hchildren, hbinding, hmetadata⟩ := h
    refine ⟨FormId.rename_congr hfg id hid, Form.renameAll_congr hfg children hchildren, ?_,
      Metadata.rename_congr hfg metadata hmetadata⟩
    cases binding with
    | none => rfl
    | some var => exact congrArg some (Var.rename_congr hfg (Option.some.inj hbinding))

theorem Form.renameAll_congr (hfg : ∀ i < n, f i = g i) :
    (forms : List Code) → Form.renameAll (skip n) forms = forms → Form.renameAll f forms = Form.renameAll g forms
  | [] => fun _ => rfl
  | form :: rest => fun h => by
    obtain ⟨hform, hrest⟩ := List.cons.inj h
    rw [Form.renameAll, Form.renameAll, Form.rename_congr hfg form hform, Form.renameAll_congr hfg rest hrest]

theorem Metadata.rename_congr (hfg : ∀ i < n, f i = g i) :
    (m : Metadata Value) → m.rename (skip n) = m → m.rename f = m.rename g
  | ⟨start, stop, text, entries⟩ => fun h => by
    simp only [Metadata.rename, Metadata.mk.injEq, true_and] at h ⊢
    exact Metadata.renameEntries_congr hfg entries h

theorem Metadata.renameEntries_congr (hfg : ∀ i < n, f i = g i) : (entries : List (String × Value)) →
    Metadata.renameEntries (skip n) entries = entries →
    Metadata.renameEntries f entries = Metadata.renameEntries g entries
  | [] => fun _ => rfl
  | (name, v) :: rest => fun h => by
    obtain ⟨hv, hrest⟩ := List.cons.inj h
    rw [Metadata.renameEntries, Metadata.renameEntries, Value.rename_congr hfg v (Prod.mk.inj hv).2,
      Metadata.renameEntries_congr hfg rest hrest]

theorem Callable.rename_congr (hfg : ∀ i < n, f i = g i) :
    (c : Callable Value) → c.rename (skip n) = c → c.rename f = c.rename g
  | .procedure p => fun h => by
    simp only [Callable.rename, Callable.procedure.injEq] at h ⊢
    exact Procedure.rename_congr hfg p h
  | .special _ | .hostForm _ => fun _ => rfl

theorem Procedure.rename_congr (hfg : ∀ i < n, f i = g i) :
    (p : Procedure Value) → p.rename (skip n) = p → p.rename f = p.rename g
  | .method m => fun h => by
    simp only [Procedure.rename, Procedure.method.injEq] at h ⊢
    exact Method.rename_congr hfg m h
  | .closure name params body scope => fun h => by
    simp only [Procedure.rename, Procedure.closure.injEq, true_and, and_true] at h ⊢
    exact Form.rename_congr hfg body h
  | .anonymous form head args params scope => fun h => by
    simp only [Procedure.rename, Procedure.anonymous.injEq, and_true] at h ⊢
    exact ⟨Form.rename_congr hfg form h.1, Form.rename_congr hfg head h.2.1, Form.renameAll_congr hfg args h.2.2⟩
  | .builtin _ | .host _ => fun _ => rfl

theorem Method.rename_congr (hfg : ∀ i < n, f i = g i) :
    (m : Method Value) → m.rename (skip n) = m → m.rename f = m.rename g
  | .ofVector method items => fun h => by
    simp only [Method.rename, Method.ofVector.injEq, true_and] at h ⊢
    exact Value.renameAll_congr hfg items h
  | .hasItem items => fun h => by
    simp only [Method.rename, Method.hasItem.injEq] at h ⊢
    exact Value.renameAll_congr hfg items h
  | .hasKey entries => fun h => by
    simp only [Method.rename, Method.hasKey.injEq] at h ⊢
    exact Value.renameEntries_congr hfg entries h
  | .toString _ | .ofString _ _ => fun _ => rfl

end

theorem eq_of_map_eq_self {α : Type} {r : α → α} {xs : List α} (h : xs.map r = xs) : ∀ x ∈ xs, r x = x := by
  have hid : xs.map r = xs.map id := by rw [h, List.map_id]
  exact List.map_inj_left.mp hid

theorem Frame.rename_congr (hfg : ∀ i < n, f i = g i) {frame : Frame} (h : frame.rename (skip n) = frame) :
    frame.rename f = frame.rename g := by
  obtain ⟨outer, bindings⟩ := frame
  simp only [Frame.rename, Frame.mk.injEq, true_and] at h ⊢
  refine List.map_congr_left fun binding hbinding => ?_
  have hfixed := eq_of_map_eq_self h binding hbinding
  rw [Var.rename_congr hfg (congrArg Prod.snd hfixed)]

theorem Cell.rename_congr (hfg : ∀ i < n, f i = g i) {cell : Cell} (h : cell.rename (skip n) = cell) :
    cell.rename f = cell.rename g := by
  obtain ⟨value, metadata⟩ := cell
  obtain ⟨hvalue, hmetadata⟩ := Cell.mk.inj h
  rw [Cell.rename, Cell.rename, Value.rename_congr hfg _ hvalue, Metadata.rename_congr hfg _ hmetadata]

theorem Error.rename_congr (hfg : ∀ i < n, f i = g i) {error : Error} (h : error.rename (skip n) = error) :
    error.rename f = error.rename g := by
  obtain ⟨cause, place⟩ := error
  cases place with
  | none => rfl
  | some place =>
    simp only [Error.rename, Option.map_some, Error.mk.injEq, true_and, Option.some.injEq] at h
    simp only [Error.rename, Option.map_some, Form.rename_congr hfg _ (congrArg Place.form h)]

theorem renameAll_map_congr (hfg : ∀ i < n, f i = g i) {vs : List Value} (h : vs.map (Value.rename (skip n)) = vs) :
    vs.map (Value.rename f) = vs.map (Value.rename g) :=
  List.map_congr_left fun v hv => Value.rename_congr hfg v (eq_of_map_eq_self h v hv)

theorem Event.rename_congr (hfg : ∀ i < n, f i = g i) {event : Event} (h : event.rename (skip n) = event) :
    event.rename f = event.rename g := by
  cases event with
  | bound scope name var =>
    simp only [Event.rename, Event.bound.injEq, true_and] at h ⊢
    exact Var.rename_congr hfg h
  | called function args result =>
    simp only [Event.rename, Event.called.injEq, true_and] at h ⊢
    refine ⟨renameAll_map_congr hfg h.1, ?_⟩
    cases result with
    | ok v => exact congrArg Except.ok (Value.rename_congr hfg v (Except.ok.inj h.2))
    | error error => exact congrArg Except.error (Error.rename_congr hfg (Except.error.inj h.2))

theorem Task.rename_congr (hfg : ∀ i < n, f i = g i) {task : Task} (h : task.rename (skip n) = task) :
    task.rename f = task.rename g := by
  cases task with
  | evaluate form scope =>
    simp only [Task.rename, Task.evaluate.injEq, and_true] at h ⊢
    exact Form.rename_congr hfg form h
  | invoke special form scope =>
    simp only [Task.rename, Task.invoke.injEq, true_and, and_true] at h ⊢
    exact Form.rename_congr hfg form h
  | call p args =>
    simp only [Task.rename, Task.call.injEq] at h ⊢
    exact ⟨Procedure.rename_congr hfg p h.1, renameAll_map_congr hfg h.2⟩

/-- What mentions only the first `n` numbers stays as it is if these do. -/
theorem rename_eq_self {α : Type} {r : (Nat → Nat) → α → α} {a : α}
    (hr : ∀ {f g : Nat → Nat}, (∀ i < n, f i = g i) → r f a = r g a) (h : r (skip n) a = a) (hf : ∀ i < n, f i = i) :
    r f a = a :=
  (hr fun i hi => (hf i hi).trans (skip_of_lt hi).symm).trans h

end Congr

/-- A value that mentions none but the first `n` vars and made forms. -/
def Value.Bounded (n : Nat) (v : Value) : Prop := v.rename (skip n) = v

/-- A form that mentions none but the first `n` vars and made forms. -/
def Form.Bounded (n : Nat) (form : Code) : Prop := form.rename (skip n) = form

/-- A task that mentions none but the first `n` vars and made forms. -/
def Task.Bounded (n : Nat) (task : Task) : Prop := task.rename (skip n) = task

section Bounded

variable {n m : Nat} {f g : Nat → Nat}

theorem Value.Bounded.rename {v : Value} (h : v.Bounded n) (hf : ∀ i < n, f i = i) : v.rename f = v :=
  rename_eq_self (fun hfg => Value.rename_congr hfg v h) h hf

theorem Value.Bounded.mono {v : Value} (h : v.Bounded n) (hle : n ≤ m) : v.Bounded m :=
  h.rename fun _ hi => skip_of_lt (Nat.lt_of_lt_of_le hi hle)

theorem Form.Bounded.rename {form : Code} (h : form.Bounded n) (hf : ∀ i < n, f i = i) : form.rename f = form :=
  rename_eq_self (fun hfg => Form.rename_congr hfg form h) h hf

theorem Form.Bounded.mono {form : Code} (h : form.Bounded n) (hle : n ≤ m) : form.Bounded m :=
  h.rename fun _ hi => skip_of_lt (Nat.lt_of_lt_of_le hi hle)

theorem Form.map_rename_of_bounded {forms : List Code} (h : ∀ form ∈ forms, form.Bounded n) (hf : ∀ i < n, f i = i) :
    forms.map (Form.rename f) = forms :=
  (List.map_congr_left fun form hform => (h form hform).rename hf).trans (List.map_id _)

theorem Form.Bounded.children {form : Code} (h : form.Bounded n) :
    form.children.map (Form.rename (skip n)) = form.children := by
  rw [← children_rename, h]

theorem Form.Bounded.arguments {form : Code} (h : form.Bounded n) :
    form.arguments.map (Form.rename (skip n)) = form.arguments := by
  rw [← arguments_rename, h]

theorem Task.Bounded.rename {task : Task} (h : task.Bounded n) (hf : ∀ i < n, f i = i) : task.rename f = task :=
  rename_eq_self (fun hfg => Task.rename_congr hfg h) h hf

/-- Code that was read mentions no vars and no made forms. -/
theorem Form.bounded_of_isBare {form : Code} (h : form.all isBare = true) (n : Nat) : form.Bounded n := by
  induction form using parts_induction with
  | step form ih =>
    obtain ⟨hbare, hparts⟩ := all_iff.mp h
    obtain ⟨hread, hbinding, hentries⟩ := isBare_iff.mp hbare
    obtain ⟨id, kind, children, binding, metadata⟩ := form
    dsimp only at hread hbinding hentries
    rw [Bounded, rename_eq, Metadata.rename_eq]
    simp only [hbinding, hentries, Option.map_none, List.map_nil, Form.mk.injEq, true_and]
    refine ⟨?_, ?_, ?_⟩
    · cases id with
      | read _ _ => rfl
      | derived _ _ _ => cases hread
    · exact (List.map_congr_left fun part hpart => ih part hpart (hparts part hpart)).trans (List.map_id _)
    · rw [← hentries]

end Bounded

/-! ### Closed stores -/

theorem Store.Extends.size_le {s t : Store} (h : s.Extends t) : s.cells.size ≤ t.cells.size := by
  refine Nat.le_of_not_lt fun hlt => ?_
  have hcell := h.cells (Array.getElem?_eq_getElem hlt)
  exact absurd (Array.getElem?_eq_some_iff.mp hcell).1 (Nat.lt_irrefl _)

/-- Every var that the store mentions exists. -/
structure Store.Closed (s : Store) : Prop where
  frames : ∀ frame ∈ s.frames, frame.rename (skip s.cells.size) = frame
  cells : ∀ cell ∈ s.cells, cell.rename (skip s.cells.size) = cell
  events : ∀ event ∈ s.events, event.rename (skip s.cells.size) = event

namespace Store.Closed

variable {s t : Store} {f : Nat → Nat} {bound : Nat}

/-- A closed store is tied to any store that has the same vars and scopes, and further vars that nothing mentions. -/
theorem tied (hs : s.Closed) (hf : ∀ i < s.cells.size, f i = i) (hframes : t.frames = s.frames)
    (hcells : ∀ i < s.cells.size, t.cells[i]? = s.cells[i]?) (hfree : ∀ i, s.cells.size ≤ i → t.cells.size ≤ f i)
    (hnext : ∀ i, s.cells.size ≤ i → i < bound → f i = t.cells.size + (i - s.cells.size))
    (hidentities : t.identities = s.identities) (hdocuments : t.documents = s.documents)
    (hevents : t.events = s.events) : s.Tied f bound t := by
  refine ⟨?_, fun i => ?_, hnext, hidentities, hdocuments, ?_⟩
  · have hsame : s.frames.map (Frame.rename f) = s.frames.map id := Array.map_congr_left fun frame hframe =>
      rename_eq_self (fun hfg => Frame.rename_congr hfg (hs.frames frame hframe)) (hs.frames frame hframe) hf
    rw [hframes, hsame, Array.map_id]
  · by_cases hi : i < s.cells.size
    · have hcell := hs.cells _ (Array.getElem_mem hi)
      rw [hf i hi, hcells i hi, Array.getElem?_eq_getElem hi, Option.map_some,
        rename_eq_self (fun hfg => Cell.rename_congr hfg hcell) hcell hf]
    · rw [Array.getElem?_eq_none (hfree i (Nat.le_of_not_lt hi)), Array.getElem?_eq_none (Nat.le_of_not_lt hi)]
      rfl
  · have hsame : s.events.map (Event.rename f) = s.events.map id := List.map_congr_left fun event hevent =>
      rename_eq_self (fun hfg => Event.rename_congr hfg (hs.events event hevent)) (hs.events event hevent) hf
    rw [hevents, hsame, List.map_id]

/-- What is tied to itself when vars that do not exist are numbered anew mentions none of them. -/
theorem of_tied (h : s.Tied (skip s.cells.size) bound s) : s.Closed := by
  refine ⟨fun frame hframe => ?_, fun cell hcell => ?_, eq_of_map_eq_self h.events.symm⟩
  · have hlist := congrArg Array.toList h.frames
    rw [Array.toList_map] at hlist
    exact eq_of_map_eq_self hlist.symm frame (Array.mem_toList_iff.mpr hframe)
  · obtain ⟨i, hi, rfl⟩ := Array.getElem_of_mem hcell
    have hfixed := h.cells i
    rw [skip_of_lt hi, Array.getElem?_eq_getElem hi] at hfixed
    exact (Option.some.inj hfixed).symm

theorem tied_self (hs : s.Closed) {n : Nat} (hle : s.cells.size ≤ n) : s.Tied (skip n) n s := by
  refine hs.tied (fun i hi => skip_of_lt (Nat.lt_of_lt_of_le hi hle)) rfl (fun _ _ => rfl) (fun i hi => ?_)
    (fun i hi hlt => ?_) rfl rfl rfl
  · exact Nat.le_trans hi (le_skip n i)
  · rw [skip_of_lt hlt]
    omega

theorem of_eq (hs : s.Closed) (hframes : t.frames = s.frames) (hcells : t.cells = s.cells)
    (hevents : t.events = s.events) : t.Closed :=
  ⟨by rw [hframes, hcells]; exact hs.frames, by rw [hcells]; exact hs.cells, by rw [hevents, hcells]; exact hs.events⟩

/-! ### What keeps stores closed -/

theorem newChild (hs : s.Closed) (scope : Scope) : (s.newChild scope).2.Closed :=
  of_tied ((hs.tied_self (Nat.le_refl _)).newChild scope).2

theorem define (hs : s.Closed) (scope : Scope) (name : String) {v : Value} (hv : v.Bounded s.cells.size)
    {m : Metadata Value} (hm : m.rename (skip s.cells.size) = m) : (s.define scope name v m).2.Closed := by
  have hsize : (s.define scope name v m).2.cells.size = s.cells.size + 1 := by
    simp [Store.define, Store.newVar, Store.bind]
  have hfix : ∀ i < s.cells.size, skip (s.cells.size + 1) i = i := fun i hi => skip_of_lt (Nat.lt_succ_of_lt hi)
  have htied := ((hs.tied_self (Nat.le_add_right _ 1)).define (skip_injective _) (Nat.lt_add_one _) scope name v m).2
  rw [hv.rename hfix, rename_eq_self (fun hfg => Metadata.rename_congr hfg m hm) hm hfix, ← hsize] at htied
  exact of_tied htied

theorem expand (hs : s.Closed) {form : Code} (hform : form.Bounded s.cells.size) (scope : Scope) :
    (s.expand scope form).2.Closed ∧ (s.expand scope form).1.Bounded (s.expand scope form).2.cells.size := by
  have hle := s.size_le_expand scope form
  obtain ⟨hmade, htied⟩ := (hs.tied_self hle).expand (skip_injective _) scope form (Nat.le_refl _)
  rw [hform.rename fun i hi => skip_of_lt (Nat.lt_of_lt_of_le hi hle)] at hmade htied
  exact ⟨of_tied htied, hmade.symm⟩

theorem newNumber (hs : s.Closed) : s.newNumber.2.Closed := by
  have hle := s.size_le_newVar "" .nil .empty
  exact of_tied ((hs.tied_self hle).newNumber (skip_injective _) (Nat.le_refl _)).2

theorem newRoot (hs : s.Closed) : s.newRoot.2.Closed := by
  refine ⟨fun frame hframe => ?_, hs.cells, hs.events⟩
  rcases Array.mem_push.mp hframe with hframe | rfl
  · exact hs.frames frame hframe
  · rfl

/-- The functions that are made mention no vars, and there are no fewer vars than there were. -/
theorem founding (n : Nat) : Founding (fun t => t.Closed ∧ n ≤ t.cells.size) fun v => v.Bounded n where
  nil := rfl
  bool _ := rfl
  special _ _ := rfl
  builtin _ _ := rfl
  newRoot h := ⟨h.1.newRoot, h.2⟩
  newIdentity h := ⟨h.1.of_eq rfl rfl rfl, h.2⟩
  define h scope name v hv := by
    refine ⟨h.1.define scope name (hv.mono h.2) rfl, Nat.le_trans h.2 ?_⟩
    simp [Store.define, Store.newVar, Store.bind]

theorem newBase (hs : s.Closed) {extra : Library} (h : ∀ entry ∈ extra, entry.2.Bounded s.cells.size) :
    (s.newBase extra).2.Closed :=
  ((founding s.cells.size).newBase ⟨hs, Nat.le_refl _⟩ h).1

end Store.Closed

/-! ### Evaluation -/

namespace Eval

variable {α : Type} {f : Nat → Nat} {bound : Nat} {r : α → α} {p q : Eval α} {host : Host} {s t : Store}

theorem Mirrors.left (h : Mirrors f bound r p q) (hs : s.Tied f bound t) (hle : (p.left s).cells.size ≤ bound) :
    (p.left s).Tied f bound (q.left t) := by
  have hpq := h.meets s t hs hle
  unfold Eval.left
  generalize p s = x at hpq ⊢
  generalize q t = y at hpq ⊢
  cases hpq with
  | ok _ ht => exact ht
  | failed _ ht => exact ht
  | exhausted ht => exact ht

/-- A process that does the same when vars that do not exist are numbered anew keeps a store closed, and what it gives
    mentions none but the vars of the store it leaves. -/
theorem closed_of_mirrors {r : (Nat → Nat) → α → α} (hs : s.Closed)
    (h : ∀ n, s.cells.size ≤ n → Mirrors (skip n) n (r (skip n)) p p) :
    (p.left s).Closed ∧ ∀ a t, p s = .ok a t → r (skip t.cells.size) a = a := by
  -- beyond the vars of the store that is left, numbers may be changed at will
  obtain ⟨n, hn⟩ : ∃ n, (p.left s).cells.size = n := ⟨_, rfl⟩
  have hgrows : s.cells.size ≤ n := hn ▸ (h _ (Nat.le_refl _)).grows s
  have hself := hs.tied_self hgrows
  constructor
  · have htied := (h n hgrows).left hself (Nat.le_of_eq hn)
    rw [← hn] at htied
    exact .of_tied htied
  · intro a t hp
    have hleft : p.left s = t := by rw [left, hp]
    have hmeets := (h n hgrows).meets s s hself (Nat.le_of_eq hn)
    rw [hp] at hmeets
    rw [← hleft, hn]
    cases hmeets with
    | ok hsame _ => exact hsame.symm

theorem closed_run (hhost : host.Uniform) (hs : s.Closed) {task : Task} (htask : task.Bounded s.cells.size)
    (levels : Nat) :
    ((run host levels task).left s).Closed ∧ ∀ v t, run host levels task s = .ok v t → v.Bounded t.cells.size := by
  refine closed_of_mirrors hs fun n hn => ?_
  have hmirrors : Mirrors (skip n) n (Value.rename (skip n)) (run host levels task)
      (run host levels (task.rename (skip n))) := mirrors_run (skip_injective n) hhost levels task
  rwa [htask.rename fun i hi => skip_of_lt (Nat.lt_of_lt_of_le hi hn)] at hmirrors

theorem closed_evaluateAll (hhost : host.Uniform) (hs : s.Closed) {forms : List Code}
    (hforms : ∀ form ∈ forms, form.Bounded s.cells.size) (levels : Nat) (scope : Scope) :
    ((evaluateAll (run host levels) scope forms).left s).Closed ∧
      ∀ values t, evaluateAll (run host levels) scope forms s = .ok values t →
        values.map (Value.rename (skip t.cells.size)) = values := by
  refine closed_of_mirrors (r := fun f => List.map (Value.rename f)) hs fun n hn => ?_
  have hmirrors : Mirrors (skip n) n (List.map (Value.rename (skip n))) (evaluateAll (run host levels) scope forms)
      (evaluateAll (run host levels) scope (forms.map (Form.rename (skip n)))) :=
    mirrors_evaluateAll (skip_injective n) hhost levels scope forms
  rwa [Form.map_rename_of_bounded hforms fun i hi => skip_of_lt (Nat.lt_of_lt_of_le hi hn)] at hmirrors

end Eval

/-! ### Reachable stores -/

/-- The stores that can come about in a host: when an interpreter is made, a source is read or a task comes to an end,
    and in the midst of a task, when a function or a scope was made, a name was bound, a form was expanded or a number
    was given. -/
inductive Store.Reachable (host : Host) : Store → Prop
  | empty : Reachable host .empty
  | created {s : Store} (h : Reachable host s) (settings : Settings) {library : Library}
      (hlibrary : ∀ entry ∈ library, entry.2.Bounded s.cells.size) :
      Reachable host (Interpreter.create host settings library s).2
  | read {s : Store} (h : Reachable host s) (source : String) : Reachable host ((Interpreter.read source).left s)
  | ended {s : Store} (h : Reachable host s) (levels : Nat) {task : Task} (htask : task.Bounded s.cells.size) :
      Reachable host ((Eval.run host levels task).left s)
  | made {s : Store} (h : Reachable host s) (callable : Callable Value) : Reachable host (s.newFunction callable).2
  | child {s : Store} (h : Reachable host s) (scope : Scope) : Reachable host (s.newChild scope).2
  | bound {s : Store} (h : Reachable host s) (scope : Scope) (name : String) {v : Value}
      (hv : v.Bounded s.cells.size) {m : Metadata Value} (hm : m.rename (skip s.cells.size) = m) :
      Reachable host (s.define scope name v m).2
  | expanded {s : Store} (h : Reachable host s) (scope : Scope) {form : Code} (hform : form.Bounded s.cells.size) :
      Reachable host (s.expand scope form).2
  | numbered {s : Store} (h : Reachable host s) : Reachable host s.newNumber.2

theorem Store.Reachable.closed {host : Host} (hhost : host.Uniform) {s : Store} (h : s.Reachable host) : s.Closed := by
  induction h with
  | empty => exact ⟨by simp [Store.empty], by simp [Store.empty], by simp [Store.empty]⟩
  | created _ settings hlibrary ih => exact ih.newBase hlibrary
  | read _ source ih => exact ih.of_eq rfl rfl rfl
  | ended _ levels htask ih => exact (Eval.closed_run hhost ih htask levels).1
  | made _ callable ih => exact ih.of_eq rfl rfl rfl
  | child _ scope ih => exact ih.newChild scope
  | bound _ scope name hv hm ih => exact ih.define scope name hv hm
  | expanded _ scope hform ih => exact (ih.expand hform scope).1
  | numbered _ ih => exact ih.newNumber

theorem Store.reachable_freshCommand : freshCommand.2.Reachable Command.host :=
  .created .empty ⟨true⟩ (by simp [Library.empty])

end Lisplet
