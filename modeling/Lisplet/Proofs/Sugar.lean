import Lisplet.Proofs.Closed
import Lisplet.Proofs.Data

/-! # Forms that stand for calls

`[a b]` stands for `(internal/vec a b)`, and so on. The two are evaluated in different ways: the list expands all its
parts before any of them is evaluated, so its var quotes make their vars at once, while those of the vector make theirs
one by one. As long as a quoted name means the same when its turn comes, the outcomes are the same but for the numbers
of vars and the forms that failures are attributed to. -/

namespace Lisplet

open EStateM (Result)
open Function (Injective)

/-! ### Numbering on -/

/-- Numbers the first `p` vars as `f` does and the others from `q` on. -/
def graft (f : Nat → Nat) (p q i : Nat) : Nat := if i < p then f i else q + (i - p)

section Graft

variable {f : Nat → Nat} {p q i : Nat}

theorem graft_of_lt (h : i < p) : graft f p q i = f i := if_pos h

theorem graft_of_le (h : p ≤ i) : graft f p q i = q + (i - p) := if_neg (Nat.not_lt.mpr h)

theorem le_graft (h : p ≤ i) : q ≤ graft f p q i := by
  rw [graft_of_le h]
  exact Nat.le_add_right q _

theorem graft_injective (hf : ∀ i < p, ∀ j < p, f i = f j → i = j) (hlt : ∀ i < p, f i < q) :
    Injective (graft f p q) := by
  intro i j h
  rcases Nat.lt_or_ge i p with hi | hi <;> rcases Nat.lt_or_ge j p with hj | hj
  · rw [graft_of_lt hi, graft_of_lt hj] at h
    exact hf i hi j hj h
  · rw [graft_of_lt hi] at h
    exact absurd (h ▸ hlt i hi) (Nat.not_lt.mpr (le_graft hj))
  · rw [graft_of_lt hj] at h
    exact absurd (h ▸ hlt j hj) (Nat.not_lt.mpr (le_graft hi))
  · rw [graft_of_le hi, graft_of_le hj] at h
    omega

end Graft

namespace Store

variable {f g : Nat → Nat} {bound : Nat} {s t : Store}

theorem Closed.frames_congr (hs : s.Closed) (hfg : ∀ i < s.cells.size, f i = g i) :
    s.frames.map (Frame.rename f) = s.frames.map (Frame.rename g) :=
  Array.map_congr_left fun frame hframe => Frame.rename_congr hfg (hs.frames frame hframe)

theorem Closed.events_congr (hs : s.Closed) (hfg : ∀ i < s.cells.size, f i = g i) :
    s.events.map (Event.rename f) = s.events.map (Event.rename g) :=
  List.map_congr_left fun event hevent => Event.rename_congr hfg (hs.events event hevent)

theorem Closed.cell_congr (hs : s.Closed) (hfg : ∀ i < s.cells.size, f i = g i) (i : Nat) :
    s.cells[i]?.map (Cell.rename f) = s.cells[i]?.map (Cell.rename g) := by
  cases hcell : s.cells[i]? with
  | none => rfl
  | some cell => exact congrArg some (Cell.rename_congr hfg (hs.cells cell (Array.mem_of_getElem? hcell)))

namespace Tied

theorem lt_size (h : s.Tied f bound t) {i : Nat} (hi : i < s.cells.size) : f i < t.cells.size := by
  have hcell := h.cells i
  rw [Array.getElem?_eq_getElem hi, Option.map_some] at hcell
  exact (Array.getElem?_eq_some_iff.mp hcell).1

/-- The vars that will be made can be numbered on, whatever numbers were kept for them. -/
theorem graft (hs : s.Closed) (h : s.Tied f bound t) (n : Nat) :
    s.Tied (graft f s.cells.size t.cells.size) n t := by
  have hsame : ∀ i < s.cells.size, f i = Lisplet.graft f s.cells.size t.cells.size i :=
    fun i hi => (graft_of_lt hi).symm
  refine ⟨h.frames.trans (hs.frames_congr hsame), fun i => ?_, fun i hi _ => graft_of_le hi, h.identities, h.documents,
    h.events.trans (hs.events_congr hsame)⟩
  rcases Nat.lt_or_ge i s.cells.size with hi | hi
  · rw [← hsame i hi, h.cells i, hs.cell_congr hsame]
  · rw [Array.getElem?_eq_none (le_graft hi), Array.getElem?_eq_none hi, Option.map_none]

theorem graft_injective (h : s.Tied f bound t) (hf : Injective f) :
    Injective (Lisplet.graft f s.cells.size t.cells.size) :=
  Lisplet.graft_injective (fun _ _ _ _ heq => hf heq) fun _ hi => h.lt_size hi

/-- A new var can take for its counterpart one that is there already, holds the same and is that of no other var. -/
theorem exists_adopt (hs : s.Closed) (h : s.Tied f bound t) (hf : Injective f) {cell : Cell}
    (hcell : cell.rename (skip s.cells.size) = cell) {i : Nat} (hi : t.cells[i]? = some (cell.rename f))
    (hfree : ∀ j, f j ≠ i) (name : String) :
    ∃ g, Injective g ∧ (∀ j < s.cells.size, g j = f j) ∧ g s.cells.size = i ∧
      (∀ j, s.cells.size < j → t.cells.size ≤ g j) ∧
      (s.newVar name cell.value cell.metadata).2.Tied g 0 t := by
  have hlt : i < t.cells.size := (Array.getElem?_eq_some_iff.mp hi).1
  have hinjective : Injective (Lisplet.graft (Function.update f s.cells.size i) (s.cells.size + 1) t.cells.size) := by
    refine Lisplet.graft_injective (fun j _ k _ heq => ?_) fun j hj => ?_
    · simp only [Function.update_apply] at heq
      split at heq <;> split at heq
      · next hj hk => exact hj.trans hk.symm
      · exact absurd heq.symm (hfree k)
      · exact absurd heq (hfree j)
      · exact hf heq
    · rw [Function.update_apply]
      split
      · exact hlt
      · exact h.lt_size (Nat.lt_of_le_of_ne (Nat.le_of_lt_succ hj) ‹_›)
  have hkept : ∀ j < s.cells.size,
      Lisplet.graft (Function.update f s.cells.size i) (s.cells.size + 1) t.cells.size j = f j := by
    intro j hj
    rw [graft_of_lt (Nat.lt_succ_of_lt hj), Function.update_of_ne (Nat.ne_of_lt hj)]
  have hnew : Lisplet.graft (Function.update f s.cells.size i) (s.cells.size + 1) t.cells.size s.cells.size = i := by
    rw [graft_of_lt (Nat.lt_succ_self _), Function.update_self]
  have hbeyond : ∀ j, s.cells.size < j →
      t.cells.size ≤ Lisplet.graft (Function.update f s.cells.size i) (s.cells.size + 1) t.cells.size j :=
    fun j hj => le_graft hj
  generalize Lisplet.graft (Function.update f s.cells.size i) (s.cells.size + 1) t.cells.size = g
    at hinjective hkept hnew hbeyond
  have hsame : ∀ j < s.cells.size, f j = g j := fun j hj => (hkept j hj).symm
  refine ⟨g, hinjective, hkept, hnew, hbeyond, h.frames.trans (hs.frames_congr hsame), fun j => ?_,
    fun j _ hj => absurd hj (Nat.not_lt_zero j), h.identities, h.documents, h.events.trans (hs.events_congr hsame)⟩
  show t.cells[g j]? = (s.cells.push cell)[j]?.map (Cell.rename g)
  rcases Nat.lt_trichotomy j s.cells.size with hj | rfl | hj
  · have hpush : (s.cells.push cell)[j]? = s.cells[j]? := by simp [Array.getElem?_push, Nat.ne_of_lt hj]
    rw [hpush, ← hsame j hj, h.cells j, hs.cell_congr hsame]
  · rw [Array.getElem?_push_size, Option.map_some, hnew, hi, Cell.rename_congr hsame hcell]
  · have hpush : (s.cells.push cell).size ≤ j := by simpa using Nat.succ_le_of_lt hj
    rw [Array.getElem?_eq_none (hbeyond j hj), Array.getElem?_eq_none hpush, Option.map_none]

end Tied

/-! ### What names mean -/

/-- What a var quote makes a var of: the name, the value and the metadata of what `name` means in `scope`. -/
def meaning (s : Store) (scope : Scope) (name : String) : String × Cell :=
  match s.lookup scope name with
  | some var => (var.name.toString, ⟨s.held var, s.metadata var⟩)
  | none => (name, ⟨.nil, .empty⟩)

theorem snapshot_eq (s : Store) (scope : Scope) (name : String) :
    s.snapshot scope name =
      s.newVar (s.meaning scope name).1 (s.meaning scope name).2.value (s.meaning scope name).2.metadata := by
  unfold snapshot meaning
  cases s.lookup scope name <;> rfl

theorem Closed.rename_lookup (hs : s.Closed) {scope : Scope} {name : String} {var : Var}
    (h : s.lookup scope name = some var) : var.rename (skip s.cells.size) = var := by
  have hself := (hs.tied_self (Nat.le_refl _)).lookup scope name
  rw [h] at hself
  exact (Option.some.inj hself).symm

theorem Closed.rename_meaning (hs : s.Closed) (scope : Scope) (name : String) :
    (s.meaning scope name).2.rename (skip s.cells.size) = (s.meaning scope name).2 := by
  unfold meaning
  cases hvar : s.lookup scope name with
  | none => rfl
  | some var =>
    have hself := hs.tied_self (Nat.le_refl _)
    have hfixed := hs.rename_lookup hvar
    have hheld := hself.held var
    have hmetadata := hself.metadata var
    rw [hfixed] at hheld hmetadata
    simp only [Cell.rename, ← hheld, ← hmetadata]

/-- A name that means the same var means the same, since vars do not change. -/
theorem Closed.meaning_eq (hs : s.Closed) (h : s.Extends t) {scope : Scope} {name : String}
    (hlookup : t.lookup scope name = s.lookup scope name) : t.meaning scope name = s.meaning scope name := by
  unfold meaning
  rw [hlookup]
  cases hvar : s.lookup scope name with
  | none => rfl
  | some var =>
    have hlt : var.index < s.cells.size := lt_of_skip_eq (congrArg Var.index (hs.rename_lookup hvar))
    simp only [h.held hlt, h.metadata hlt]

end Store

/-! ### Expansion -/

/-- The name that a form quotes, if it is a var quote. -/
def Form.varQuoted? (form : Code) : Option String :=
  if form.kind = .varQuote then form.quotedName? else none

namespace Store

theorem expand_of_varQuoted {form : Code} {name : String} (h : form.varQuoted? = some name) (s : Store)
    (scope : Scope) :
    s.expand scope form =
      (⟨.derived form.id (s.snapshot scope name).1.index 0, .var, [], some (s.snapshot scope name).1, form.metadata⟩,
        (s.snapshot scope name).2) := by
  unfold Form.varQuoted? at h
  split at h
  · next hkind =>
    refine expand_of_some ?_
    rw [s.expandOnce?_of_varQuote scope hkind, h]
    rfl
  · cases h

theorem extends_expand (s : Store) (scope : Scope) (form : Code) : s.Extends (s.expand scope form).2 :=
  expand_induction (.refl s) (fun {t} h name v m => h.trans (.newVar t name v m)) scope form

theorem extends_expandAll (s : Store) (scope : Scope) (forms : List Code) :
    s.Extends (s.expandAll scope forms).2 :=
  expandAll_induction (.refl s) (fun {t} h name v m => h.trans (.newVar t name v m)) scope forms

theorem expand_of_memberCall? {form call : Code} {s : Store} (hkind : form.kind = .list)
    (h : form.memberCall? s.newNumber.1 = some call) (scope : Scope) :
    s.expand scope form = (call, s.newNumber.2) := by
  refine expand_of_some ?_
  rw [s.expandOnce?_of_list scope hkind, h]
  rfl

end Store

namespace Eval

variable {α : Type} {host : Host} {scope : Scope} {f : Nat → Nat} {r : α → α} {p q : Eval α} {s t a b : Store}

theorem run_evaluate_of_expand {form code : Code} (h : s.expand scope form = (code, t)) (levels : Nat) :
    run host (levels + 1) (.evaluate form scope) s =
      through code (evalForm host (run host levels) code scope) t := by
  have hexpand : expand scope form s = .ok code t := by
    show Result.ok (s.expand scope form).1 (s.expand scope form).2 = _
    rw [h]
  show (expand scope form >>= fun form => through form (evalForm host (run host levels) form scope)) s = _
  rw [bind_ok hexpand]

/-- To evaluate a form is to evaluate what it is expanded to, after the expansion. -/
theorem run_evaluate_expand (host : Host) (levels : Nat) (s : Store) (scope : Scope) (form : Code) :
    run host (levels + 1) (.evaluate (s.expand scope form).1 scope) (s.expand scope form).2 =
      run host (levels + 1) (.evaluate form scope) s := by
  have hdone := (s.expand scope form).2.expand_eq_self
    (s.expandOnce?_expand scope form (s.expand scope form).2 scope)
  have hmade : s.expand scope form = ((s.expand scope form).1, (s.expand scope form).2) := rfl
  rw [run_evaluate_of_expand hdone, run_evaluate_of_expand hmade]

/-! ### Outcomes that agree -/

/-- Outcomes that are the same but for the numbers of vars and the forms that failures are attributed to. -/
inductive Agrees (f : Nat → Nat) (r : α → α) : Result Stop Store α → Result Stop Store α → Prop
  | ok (a : α) {s t : Store} (hs : s.Tied f 0 t) : Agrees f r (.ok a s) (.ok (r a) t)
  | failed {error other : Error} (hcause : other.cause = error.cause) {s t : Store} (hs : s.Tied f 0 t) :
    Agrees f r (.error (.failed error) s) (.error (.failed other) t)
  | exhausted {s t : Store} (hs : s.Tied f 0 t) : Agrees f r (.error .exhausted s) (.error .exhausted t)

theorem Matches.agrees {bound : Nat} {x y : Result Stop Store α} (h : Matches f bound r x y) : Agrees f r x y := by
  cases h with
  | ok hsame hs =>
    rw [hsame]
    exact .ok _ (Store.Tied.mono hs (Nat.zero_le _))
  | @failed error _ _ _ hsame hs =>
    rw [show _ = error.rename f from hsame]
    have hcause : (error.rename f).cause = error.cause := rfl
    exact .failed hcause (Store.Tied.mono hs (Nat.zero_le _))
  | exhausted hs => exact .exhausted (Store.Tied.mono hs (Nat.zero_le _))

theorem Agrees.mapError {change change' : Error → Error} (hchange : ∀ e, (change e).cause = e.cause)
    (hchange' : ∀ e, (change' e).cause = e.cause) (h : Agrees f r (p a) (q b)) :
    Agrees f r (mapError change p a) (mapError change' q b) := by
  unfold Eval.mapError
  generalize p a = x at h ⊢
  generalize q b = y at h ⊢
  cases h with
  | ok v hs => exact .ok v hs
  | failed hcause hs => exact .failed (by rw [hchange, hchange', hcause]) hs
  | exhausted hs => exact .exhausted hs

theorem Agrees.map {β : Type} {r' : β → β} {k k' : α → β} (h : Agrees f r (p a) (q b))
    (hk : ∀ x, k' (r x) = r' (k x)) :
    Agrees f r' ((p >>= fun x => pure (k x)) a) ((q >>= fun x => pure (k' x)) b) := by
  rw [bind_apply, bind_apply]
  generalize p a = x at h ⊢
  generalize q b = y at h ⊢
  cases h with
  | ok x hs =>
    show Agrees f r' (.ok (k x) _) (.ok (k' (r x)) _)
    rw [hk]
    exact .ok _ hs
  | failed hcause hs => exact .failed hcause hs
  | exhausted hs => exact .exhausted hs

theorem Agrees.left (h : Agrees f r (p a) (q b)) : (p.left a).Tied f 0 (q.left b) := by
  unfold Eval.left
  generalize p a = x at h ⊢
  generalize q b = y at h ⊢
  cases h with
  | ok _ hs => exact hs
  | failed _ hs => exact hs
  | exhausted hs => exact hs

/-- What does not see numbers does the same from stores that are tied, with the new vars and forms numbered on. -/
theorem exists_matches {r : (Nat → Nat) → α → α} (ha : a.Closed) (hab : a.Tied f 0 b) (hf : Injective f)
    (h : ∀ g bound, Injective g → (∀ i < a.cells.size, g i = f i) → Mirrors g bound (r g) p q) :
    ∃ g bound, Injective g ∧ (∀ i < a.cells.size, g i = f i) ∧ (∀ i, a.cells.size ≤ i → b.cells.size ≤ g i) ∧
      Matches g bound (r g) (p a) (q b) := by
  have hinjective := hab.graft_injective hf
  have hsame : ∀ i < a.cells.size, graft f a.cells.size b.cells.size i = f i := fun i hi => graft_of_lt hi
  refine ⟨_, (p.left a).cells.size, hinjective, hsame, fun i hi => le_graft hi, ?_⟩
  exact (h _ _ hinjective hsame).meets a b (hab.graft ha _) (Nat.le_refl _)

theorem exists_agrees_run (hhost : host.Uniform) (ha : a.Closed) (hab : a.Tied f 0 b) (hf : Injective f) {task : Task}
    (htask : task.Bounded a.cells.size) (levels : Nat) :
    ∃ g, Injective g ∧ (∀ i < a.cells.size, g i = f i) ∧ (∀ i, a.cells.size ≤ i → b.cells.size ≤ g i) ∧
      Agrees g (Value.rename g) (run host levels task a) (run host levels (task.rename f) b) := by
  have hmirrors : ∀ g bound, Injective g → (∀ i < a.cells.size, g i = f i) →
      Mirrors g bound (Value.rename g) (run host levels task) (run host levels (task.rename f)) := by
    intro g bound hg hsame
    rw [← Task.rename_congr hsame htask]
    exact mirrors_run hg hhost levels task
  obtain ⟨g, bound, hg, hkept, hbeyond, hmatches⟩ := exists_matches ha hab hf hmirrors
  exact ⟨g, hg, hkept, hbeyond, hmatches.agrees⟩

/-! ### Parts of a form -/

/-- Whenever it is the turn of a var quote among forms that are evaluated from a store on, the name it quotes means what
    it means in `s`. -/
inductive Steady (go : Task → Eval Value) (scope : Scope) (s : Store) : Store → List Code → Prop
  | nil {t : Store} : Steady go scope s t []
  | cons {t : Store} {form : Code} {rest : List Code}
      (means : ∀ name, form.varQuoted? = some name → t.meaning scope name = s.meaning scope name)
      (next : ∀ v u, go (.evaluate form scope) t = .ok v u → Steady go scope s u rest) :
      Steady go scope s t (form :: rest)

theorem steady_of_length_eq_one (go : Task → Eval Value) (scope : Scope) (s : Store) {forms : List Code}
    (h : forms.length = 1) : Steady go scope s s forms := by
  obtain ⟨form, rfl⟩ := List.length_eq_one_iff.mp h
  exact .cons (fun _ _ => rfl) fun _ _ _ => .nil

/-- Whether every name that a var quote among `forms` quotes still means the same var when its turn comes. -/
def isSteady (go : Task → Eval Value) (scope : Scope) (s : Store) : Store → List Code → Bool
  | _, [] => true
  | t, form :: rest =>
    form.varQuoted?.all (fun name => t.lookup scope name = s.lookup scope name) &&
      match go (.evaluate form scope) t with
      | .ok _ u => isSteady go scope s u rest
      | .error _ _ => true

theorem steady_of_isSteady (hs : s.Closed) {levels : Nat} {forms : List Code} (hst : s.Extends t)
    (h : isSteady (run host levels) scope s t forms = true) : Steady (run host levels) scope s t forms := by
  induction forms generalizing t with
  | nil => exact .nil
  | cons form rest ih =>
    obtain ⟨hlookup, hrest⟩ := Bool.and_eq_true_iff.mp h
    refine .cons (fun name hname => hs.meaning_eq hst ?_) fun v u hu => ih ?_ ?_
    · rw [hname] at hlookup
      exact of_decide_eq_true hlookup
    · have hgrown := extends_left_run host levels (.evaluate form scope) t
      rw [left, hu] at hgrown
      exact hst.trans hgrown
    · rwa [hu] at hrest

/-- The same forms are about to be evaluated in `a` and in `b`. In `b` their var quotes have been expanded, in stores
    that follow `before`, where names mean what they mean in `s`; in `a` the vars of these are still to be made. -/
structure Abreast (s : Store) (scope : Scope) (f : Nat → Nat) (before a b : Store) (forms : List Code) : Prop where
  frames : before.frames = s.frames
  start : s.Extends before
  expanded : (before.expandAll scope forms).2.Extends b
  closed : a.Closed
  later : s.Extends a
  tied : a.Tied f 0 b
  injective : Injective f
  fixed : ∀ i < s.cells.size, f i = i
  /-- The vars of the var quotes are no counterparts yet. -/
  free : ∀ i, before.cells.size ≤ i → i < (before.expandAll scope forms).2.cells.size → ∀ j, f j ≠ i

/-- One form is evaluated on either side, with outcomes that agree, and the others can follow. -/
def Advances (host : Host) (levels : Nat) (s : Store) (scope : Scope) (f : Nat → Nat) (before a b : Store) (form : Code)
    (rest : List Code) : Prop :=
  ∃ g, (∀ i < a.cells.size, g i = f i) ∧
    Agrees g (Value.rename g) (run host levels (.evaluate form scope) a)
      (run host levels (.evaluate (before.expand scope form).1 scope) b) ∧
    Abreast s scope g (before.expand scope form).2 ((run host levels (.evaluate form scope)).left a)
      ((run host levels (.evaluate (before.expand scope form).1 scope)).left b) rest

namespace Abreast

variable {before : Store} {form : Code} {rest : List Code} {levels : Nat}

theorem task_bounded (h : Abreast s scope f before a b (form :: rest)) (hform : form.Bounded s.cells.size) :
    (Task.evaluate form scope).Bounded a.cells.size := by
  exact congrArg (Task.evaluate · scope) (hform.mono h.later.size_le)

theorem fixed_of_kept {forms : List Code} (h : Abreast s scope f before a b forms) {g : Nat → Nat}
    (hkept : ∀ i < a.cells.size, g i = f i) : ∀ i < s.cells.size, g i = i :=
  fun i hi => (hkept i (Nat.lt_of_lt_of_le hi h.later.size_le)).trans (h.fixed i hi)

/-- A task that mentions nothing but what is in `a` is done on either side. -/
theorem exists_run {forms : List Code} (h : Abreast s scope f before a b forms) (hhost : host.Uniform) {task : Task}
    (htask : task.Bounded a.cells.size) (levels : Nat) :
    ∃ g, (∀ i < a.cells.size, g i = f i) ∧
      Agrees g (Value.rename g) (run host levels task a) (run host levels (task.rename f) b) ∧
      Abreast s scope g before ((run host levels task).left a) ((run host levels (task.rename f)).left b) forms := by
  obtain ⟨g, hg, hkept, hbeyond, hagrees⟩ := exists_agrees_run hhost h.closed h.tied h.injective htask levels
  refine ⟨g, hkept, hagrees, h.frames, h.start, h.expanded.trans (extends_left_run host levels _ b),
    (closed_run hhost h.closed htask levels).1, h.later.trans (extends_left_run host levels _ a), hagrees.left, hg,
    h.fixed_of_kept hkept, fun i hi hlt j => ?_⟩
  rcases Nat.lt_or_ge j a.cells.size with hj | hj
  · rw [hkept j hj]
    exact h.free i hi hlt j
  · exact Nat.ne_of_gt (Nat.lt_of_lt_of_le hlt (Nat.le_trans h.expanded.size_le (hbeyond j hj)))

/-- A number that is given in `a` has for its counterpart the one that was given for the same before. -/
theorem exists_adopt (h : Abreast s scope f before a b (form :: rest)) {name : String} {cell : Cell}
    (hcell : cell.rename (skip s.cells.size) = cell)
    (hmade : (before.expand scope form).2 = (before.newVar name cell.value cell.metadata).2)
    (hclosed : (a.newVar name cell.value cell.metadata).2.Closed) :
    ∃ g, (∀ i < a.cells.size, g i = f i) ∧ g a.cells.size = before.cells.size ∧
      Abreast s scope g (before.expand scope form).2 (a.newVar name cell.value cell.metadata).2 b rest := by
  have hexpanded := h.expanded
  have hfree := h.free
  simp only [Store.expandAll] at hexpanded hfree
  rw [hmade] at hexpanded hfree ⊢
  -- the cell of the number that was given before
  have hthere : (before.newVar name cell.value cell.metadata).2.cells[before.cells.size]? = some cell := by
    simp [Store.newVar]
  have hwaits := Store.cells_expandAll hthere scope rest
  have hlt := (Array.getElem?_eq_some_iff.mp hwaits).1
  have hadopted : b.cells[before.cells.size]? = some (cell.rename f) := by
    rw [rename_eq_self (fun hfg => Cell.rename_congr hfg hcell) hcell h.fixed]
    exact hexpanded.cells hwaits
  have hcell' : cell.rename (skip a.cells.size) = cell :=
    rename_eq_self (fun hfg => Cell.rename_congr hfg hcell) hcell fun i hi =>
      skip_of_lt (Nat.lt_of_lt_of_le hi h.later.size_le)
  obtain ⟨g, hinjective, hkept, hnew, hbeyond, htied⟩ :=
    h.tied.exists_adopt h.closed h.injective hcell' hadopted (hfree _ (Nat.le_refl _) hlt) name
  refine ⟨g, hkept, hnew, h.frames, h.start.trans (.newVar _ _ _ _), hexpanded, hclosed,
    h.later.trans (.newVar _ _ _ _), htied, hinjective, h.fixed_of_kept hkept, fun i hi hlt j => ?_⟩
  have hsucc : before.cells.size + 1 ≤ i := by simpa [Store.newVar] using hi
  rcases Nat.lt_trichotomy j a.cells.size with hj | rfl | hj
  · rw [hkept j hj]
    exact hfree i (Nat.le_of_succ_le hsucc) hlt j
  · rw [hnew]
    exact Nat.ne_of_lt hsucc
  · exact Nat.ne_of_gt (Nat.lt_of_lt_of_le hlt (Nat.le_trans hexpanded.size_le (hbeyond j hj)))

/-- The form is expanded in `a` too, to the counterpart of what it was expanded to before. -/
theorem exists_expand (h : Abreast s scope f before a b (form :: rest)) (hs : s.Closed)
    (hform : form.Bounded s.cells.size)
    (hmeaning : ∀ name, form.varQuoted? = some name → a.meaning scope name = s.meaning scope name) :
    ∃ g, (∀ i < a.cells.size, g i = f i) ∧ (a.expand scope form).1.rename g = (before.expand scope form).1 ∧
      Abreast s scope g (before.expand scope form).2 (a.expand scope form).2 b rest := by
  have hclosed := (h.closed.expand (hform.mono h.later.size_le) scope).1
  cases hrule : a.expandOnce? scope form with
  | none =>
    -- no rule applies before either
    have hbefore := before.expand_eq_self (Store.expandOnce?_eq_none_of_eq_none hrule before scope)
    have hexpanded := h.expanded
    have hfree := h.free
    simp only [Store.expandAll] at hexpanded hfree
    rw [hbefore] at hexpanded hfree ⊢
    rw [a.expand_eq_self hrule]
    exact ⟨f, fun _ _ => rfl, hform.rename h.fixed, h.frames, h.start, hexpanded, h.closed, h.later, h.tied, h.injective,
      h.fixed, hfree⟩
  | some made =>
    rcases Store.of_expandOnce? hrule with ⟨name, hkind, hname, -, -⟩ | ⟨hkind, hcall, -⟩
    · have hquoted : form.varQuoted? = some name := by rw [Form.varQuoted?, if_pos hkind, hname]
      have hbefore : before.meaning scope name = s.meaning scope name := by
        refine hs.meaning_eq h.start ?_
        simp only [Store.lookup, Store.outer, Store.bindings, h.frames]
      have hcell := hs.rename_meaning scope name
      have hmade := before.expand_of_varQuoted hquoted scope
      have hlater := a.expand_of_varQuoted hquoted scope
      rw [before.snapshot_eq, hbefore] at hmade
      rw [a.snapshot_eq, hmeaning name hquoted] at hlater
      rw [hlater] at hclosed
      obtain ⟨g, hkept, hnew, habreast⟩ := h.exists_adopt hcell (by rw [hmade]) hclosed
      have hself := hform.rename (h.fixed_of_kept hkept)
      refine ⟨g, hkept, ?_, hlater ▸ habreast⟩
      have hid := form.id_rename (f := g)
      have hmetadata := form.metadata_rename (f := g)
      rw [hself] at hid hmetadata
      rw [hlater, hmade, Form.rename_eq ⟨_, _, _, _, _⟩]
      simp [FormId.rename, Var.rename, Store.newVar, hnew, ← hid, ← hmetadata]
    · obtain ⟨call, hbefore⟩ : ∃ call, form.memberCall? before.newNumber.1 = some call := by
        refine Option.ne_none_iff_exists'.mp fun hnone => ?_
        rw [Form.memberCall?_eq_none hnone] at hcall
        cases hcall
      have hmade := Store.expand_of_memberCall? hkind hbefore scope
      have hlater := Store.expand_of_memberCall? hkind hcall scope
      rw [hlater] at hclosed
      have hcell : (⟨.nil, .empty⟩ : Cell).rename (skip s.cells.size) = ⟨.nil, .empty⟩ := rfl
      obtain ⟨g, hkept, hnew, habreast⟩ := h.exists_adopt hcell (by rw [hmade, before.newNumber_eq]) hclosed
      refine ⟨g, hkept, ?_, hlater ▸ habreast⟩
      have hrenamed := form.memberCall?_rename (f := g) a.newNumber.1
      rw [hform.rename (h.fixed_of_kept hkept), show g a.newNumber.1 = before.newNumber.1 from hnew, hbefore,
        hcall] at hrenamed
      rw [hlater, hmade]
      exact (Option.some.inj hrenamed).symm

theorem advances (h : Abreast s scope f before a b (form :: rest)) (hhost : host.Uniform) (hs : s.Closed)
    (hform : form.Bounded s.cells.size)
    (hmeaning : ∀ name, form.varQuoted? = some name → a.meaning scope name = s.meaning scope name) :
    Advances host (levels + 1) s scope f before a b form rest := by
  obtain ⟨g, hkept, hcode, habreast⟩ := h.exists_expand hs hform hmeaning
  have htask : (Task.evaluate (a.expand scope form).1 scope).Bounded (a.expand scope form).2.cells.size :=
    congrArg (Task.evaluate · scope) (h.closed.expand (hform.mono h.later.size_le) scope).2
  have hsame : (Task.evaluate (a.expand scope form).1 scope).rename g =
      .evaluate (before.expand scope form).1 scope := congrArg (Task.evaluate · scope) hcode
  obtain ⟨g', hkept', hagrees, habreast'⟩ := habreast.exists_run hhost htask (levels + 1)
  have hrun := run_evaluate_expand host levels a scope form
  unfold left at habreast'
  rw [hsame, hrun] at hagrees habreast'
  refine ⟨g', fun i hi => ?_, hagrees, habreast'⟩
  rw [hkept' i (Nat.lt_of_lt_of_le hi (a.size_le_expand scope form)), hkept i hi]

/-- The values of forms agree with those of the expanded forms. -/
theorem exists_agrees {forms : List Code} (h : Abreast s scope f before a b forms) (hhost : host.Uniform)
    (hs : s.Closed) (hforms : ∀ form ∈ forms, form.Bounded s.cells.size)
    (hsteady : Steady (run host (levels + 1)) scope s a forms) :
    ∃ g, Injective g ∧ (∀ i < a.cells.size, g i = f i) ∧
      Agrees g (List.map (Value.rename g)) (evaluateAll (run host (levels + 1)) scope forms a)
        (evaluateAll (run host (levels + 1)) scope (before.expandAll scope forms).1 b) := by
  -- each form on either side, with a renaming that knows the vars made so far
  induction forms generalizing f before a b with
  | nil => exact ⟨f, h.injective, fun _ _ => rfl, .ok [] h.tied⟩
  | cons form rest ih =>
    obtain ⟨hform, hrest⟩ := List.forall_mem_cons.mp hforms
    obtain _ | ⟨hmeaning, hnext⟩ := hsteady
    have hadvances : Advances host (levels + 1) s scope f before a b form rest := h.advances hhost hs hform hmeaning
    obtain ⟨g, hkept, hagrees, habreast⟩ := hadvances
    have hgiven := (closed_run hhost h.closed (h.task_bounded hform) (levels + 1)).2
    have hgrown := (extends_left_run host (levels + 1) (.evaluate form scope) a).size_le
    show ∃ g, Injective g ∧ (∀ i < a.cells.size, g i = f i) ∧
      Agrees g (List.map (Value.rename g)) ((run host (levels + 1) (.evaluate form scope) >>= fun v => do
          let values ← evaluateAll (run host (levels + 1)) scope rest
          return v :: values) a)
        ((run host (levels + 1) (.evaluate (before.expand scope form).1 scope) >>= fun v => do
          let values ← evaluateAll (run host (levels + 1)) scope ((before.expand scope form).2.expandAll scope rest).1
          return v :: values) b)
    rw [bind_apply, bind_apply]
    unfold left at habreast hgrown
    generalize run host (levels + 1) (.evaluate form scope) a = x at hagrees habreast hgiven hgrown hnext ⊢
    generalize run host (levels + 1) (.evaluate (before.expand scope form).1 scope) b = y at hagrees habreast ⊢
    cases hagrees with
    | failed hcause hs => exact ⟨g, habreast.injective, hkept, .failed hcause hs⟩
    | exhausted hs => exact ⟨g, habreast.injective, hkept, .exhausted hs⟩
    | ok v hs =>
      obtain ⟨g', hg', hkept', hagrees⟩ := ih habreast hrest (hnext v _ rfl)
      refine ⟨g', hg', fun i hi => ?_, ?_⟩
      · rw [hkept' i (Nat.lt_of_lt_of_le hi hgrown), hkept i hi]
      · rw [← Value.rename_congr hkept' v (hgiven v _ rfl)]
        exact hagrees.map fun _ => rfl

end Abreast

/-! ### Expanding all parts first -/

/-- Expansions change nothing in a store but the vars that they make. -/
theorem exists_expandAll_eq (s : Store) (scope : Scope) (forms : List Code) :
    ∃ cells, (s.expandAll scope forms).2 = { s with cells := cells } := by
  refine Store.expandAll_induction (P := fun t => ∃ cells, t = { s with cells := cells }) ⟨s.cells, rfl⟩ ?_ scope forms
  rintro t ⟨cells, rfl⟩ name v m
  exact ⟨_, rfl⟩

/-- A closed store is tied to one that differs in further vars only. -/
theorem tied_of_extends (hs : s.Closed) (hgrown : s.Extends t) (h : ∃ cells, t = { s with cells := cells }) :
    s.Tied (graft id s.cells.size t.cells.size) 0 t ∧ Injective (graft id s.cells.size t.cells.size) := by
  have hthere : ∀ i < s.cells.size, t.cells[i]? = s.cells[i]? := by
    intro i hi
    rw [Array.getElem?_eq_getElem hi]
    exact hgrown.cells (Array.getElem?_eq_getElem hi)
  obtain ⟨cells, rfl⟩ := h
  refine ⟨hs.tied (fun i hi => graft_of_lt hi) rfl hthere (fun i hi => le_graft hi) (fun i hi _ => graft_of_le hi) rfl
    rfl rfl, graft_injective (fun _ _ _ _ heq => heq) fun i hi => Nat.lt_of_lt_of_le hi hgrown.size_le⟩

theorem abreast_expandAll (hs : s.Closed) (scope : Scope) (forms : List Code) :
    Abreast s scope (graft id s.cells.size (s.expandAll scope forms).2.cells.size) s s (s.expandAll scope forms).2
      forms := by
  obtain ⟨htied, hinjective⟩ := tied_of_extends hs (s.extends_expandAll scope forms) (exists_expandAll_eq s scope forms)
  refine ⟨rfl, .refl s, .refl _, hs, .refl s, htied, hinjective, fun i hi => graft_of_lt hi, fun i hi hlt j => ?_⟩
  rcases Nat.lt_or_ge j s.cells.size with hj | hj
  · rw [graft_of_lt hj]
    exact Nat.ne_of_lt (Nat.lt_of_lt_of_le hj hi)
  · exact Nat.ne_of_gt (Nat.lt_of_lt_of_le hlt (le_graft hj))

/-- A procedure that is there is called on the same values. -/
theorem exists_agrees_call (hhost : host.Uniform) (hs : s.Closed) {forms : List Code}
    (hforms : ∀ form ∈ forms, form.Bounded s.cells.size) {depth : Nat}
    (hsteady : Steady (run host (depth + 1)) scope s s forms) {p : Procedure Value}
    (hp : p.rename (skip s.cells.size) = p) (levels : Nat) :
    ∃ g, Injective g ∧ (∀ i < s.cells.size, g i = i) ∧
      Agrees g (Value.rename g)
        ((evaluateAll (run host (depth + 1)) scope forms >>= fun values => run host levels (.call p values)) s)
        ((evaluateAll (run host (depth + 1)) scope (s.expandAll scope forms).1 >>= fun values =>
          run host levels (.call p values)) (s.expandAll scope forms).2) := by
  have habreast := abreast_expandAll hs scope forms
  obtain ⟨f, hf, hkept, hagrees⟩ := habreast.exists_agrees hhost hs hforms hsteady
  have hfixed := habreast.fixed_of_kept hkept
  obtain ⟨hclosed, hvalues⟩ := closed_evaluateAll hhost hs hforms (depth + 1) scope
  have hmirrors : Mirrors f 0 (List.map (Value.rename f)) (evaluateAll (run host (depth + 1)) scope forms) _ :=
    mirrors_evaluateAll hf hhost (depth + 1) scope forms
  have hgrows := hmirrors.grows s
  rw [bind_apply, bind_apply]
  unfold left at hclosed hgrows
  generalize evaluateAll (run host (depth + 1)) scope forms s = x at hagrees hclosed hvalues hgrows ⊢
  generalize evaluateAll (run host (depth + 1)) scope (s.expandAll scope forms).1 _ = y at hagrees ⊢
  cases hagrees with
  | failed hcause htied => exact ⟨f, hf, hfixed, .failed hcause htied⟩
  | exhausted htied => exact ⟨f, hf, hfixed, .exhausted htied⟩
  | @ok values t _ htied =>
    have hsame : ∀ {g : Nat → Nat}, (∀ i < s.cells.size, g i = i) → p.rename g = p :=
      rename_eq_self (fun hfg => Procedure.rename_congr hfg p hp) hp
    have htask : (Task.call p values).Bounded t.cells.size := by
      rw [Task.Bounded, Task.rename, hvalues values t rfl,
        hsame fun i hi => skip_of_lt (Nat.lt_of_lt_of_le hi hgrows)]
    obtain ⟨g, hg, hlater, -, hagrees⟩ := exists_agrees_run hhost hclosed htied hf htask levels
    rw [Task.rename, hsame hfixed] at hagrees
    refine ⟨g, hg, fun i hi => ?_, hagrees⟩
    rw [hlater i (Nat.lt_of_lt_of_le hi hgrows), hfixed i hi]

theorem run_invoke_map {form other : Code} (h : form.arguments = other.arguments) (levels : Nat) :
    run host levels (.invoke .map form scope) = run host levels (.invoke .map other scope) := by
  cases levels with
  | zero => rfl
  | succ levels =>
    show evalMap (run host levels) form scope = evalMap (run host levels) other scope
    unfold evalMap
    rw [h]

end Eval

/-- What a form of this kind stands for a call of, if that makes a collection or gives what a var holds. -/
def FormKind.callable? : FormKind → Option (Callable Value)
  | vector => some (.procedure (.builtin .vec))
  | set => some (.procedure (.builtin .set))
  | map => some (.special .map)
  | deref => some (.procedure (.builtin .deref))
  | _ => none

/-- `call` is a list that calls by its name what `node` stands for a call of, with the parts of `node` as arguments. -/
structure Form.StandsFor (node call : Code) (callable : Callable Value) : Prop where
  stands : node.kind.callable? = some callable
  list : call.kind = .list
  parts : ∃ head, head.kind = .symbol ∧ head.text? = some callable.name ∧ call.children = head :: node.children

theorem FormKind.memberName?_callable {kind : FormKind} {callable : Callable Value}
    (h : kind.callable? = some callable) :
    kind.sugarTarget? = some callable.name ∧ memberName? callable.name = none := by
  cases kind with
  | vector | set | map | deref =>
    cases h
    exact ⟨rfl, by decide⟩
  | _ => cases h

theorem FormKind.cases_of_callable? {kind : FormKind} {callable : Callable Value}
    (h : kind.callable? = some callable) : kind = .vector ∨ kind = .set ∨ kind = .map ∨ kind = .deref := by
  cases kind with
  | vector | set | map | deref => simp
  | _ => cases h

namespace Eval

variable {host : Host} {scope : Scope} {s : Store} {node call : Code} {callable : Callable Value} {identity : Nat}

theorem mapError_congr {α : Type} {p q : Eval α} {s t : Store} (h : p s = q t) (change : Error → Error) :
    mapError change p s = mapError change q t := by
  unfold mapError
  rw [h]

theorem run_evaluate_node (h : node.kind.callable? = some callable)
    (hget : s.get scope callable.name = .ok (.function identity callable)) (levels : Nat) :
    run host (levels + 1) (.evaluate node scope) s =
      through node (applyToForms host (run host levels) node (.function identity callable) scope node.children) s := by
  obtain ⟨htarget, -⟩ := FormKind.memberName?_callable h
  have hkind : node.kind ≠ .varQuote ∧ node.kind ≠ .list := by
    constructor <;> intro hk <;> simp [hk, FormKind.callable?] at h
  have hsugar : evalForm host (run host levels) node scope = evalSugar host (run host levels) node scope := by
    unfold evalForm
    generalize node.kind = kind at h
    cases kind with
    | vector | set | map | deref => rfl
    | _ => cases h
  rw [run_evaluate_of_expand (s.expand_eq_self (s.expandOnce?_eq_none scope hkind.1 hkind.2)), hsugar]
  refine mapError_congr ?_ _
  simp only [evalSugar, htarget]
  rw [bind_ok (lookup_ok hget)]

/-- The parts of the call are expanded before its head is evaluated. -/
theorem run_evaluate_call (h : node.StandsFor call callable) (host : Host) (levels : Nat) (scope : Scope) (s : Store) :
    ∃ head, head.kind = .symbol ∧ head.text = callable.name ∧ run host (levels + 1) (.evaluate call scope) s =
      through call (run host levels (.evaluate head scope) >>= fun f =>
        applyToForms host (run host levels) call f scope (s.expandAll scope node.children).1)
          (s.expandAll scope node.children).2 := by
  obtain ⟨head, hsymbol, htext, hparts⟩ := h.parts
  have hname : head.text = callable.name := by rw [Form.text, htext, Option.getD_some]
  have hself : s.expandOnce? scope call = none := by
    refine s.expandOnce?_of_head scope h.list hparts hsymbol ?_
    rw [hname]
    exact (FormKind.memberName?_callable h.stands).2
  have hexpand : expandAll scope call.children s =
      .ok (head :: (s.expandAll scope node.children).1) (s.expandAll scope node.children).2 := by
    show Result.ok (s.expandAll scope call.children).1 (s.expandAll scope call.children).2 = _
    rw [hparts, Store.expandAll, s.expand_symbol hsymbol]
  refine ⟨head, hsymbol, hname, ?_⟩
  rw [run_evaluate_of_expand (s.expand_eq_self hself)]
  refine mapError_congr ?_ _
  simp only [evalForm, h.list, evalList]
  rw [bind_ok hexpand]

/-- Without levels, the call of a function that a form stands for is not even begun. -/
theorem applyToForms_exhausted (h : node.kind.callable? = some callable) (form : Code) (args : List Code) :
    applyToForms host (run host 0) form (.function identity callable) scope args s = .error .exhausted s := by
  generalize node.kind = kind at h
  cases kind with
  | map =>
    cases h
    rfl
  | vector | set | deref =>
    cases h
    cases args <;> rfl
  | _ => cases h

theorem exists_agrees_applyToForms (hhost : host.Uniform) (hs : s.Closed) (h : node.StandsFor call callable)
    (hnode : node.Bounded s.cells.size) {levels : Nat}
    (hsteady : node.kind ≠ .map → Steady (run host (levels + 1)) scope s s node.children) (identity : Nat) :
    ∃ f, Injective f ∧ (∀ i < s.cells.size, f i = i) ∧
      Agrees f (Value.rename f)
        (applyToForms host (run host (levels + 1)) node (.function identity callable) scope node.children s)
        (applyToForms host (run host (levels + 1)) call (.function identity callable) scope
          (s.expandAll scope node.children).1 (s.expandAll scope node.children).2) := by
  have hcause : ∀ (form : Code) (error : Error), (error.attributeTo form).cause = error.cause :=
    fun form error => (Error.Becomes.attributeTo form error).cause
  have hforms : ∀ form ∈ node.children, form.Bounded s.cells.size := eq_of_map_eq_self hnode.children
  obtain ⟨head, -, -, hparts⟩ := h.parts
  have hstands := h.stands
  cases hkind : node.kind with
  | vector | set | deref =>
    rw [hkind] at hstands
    cases hstands
    obtain ⟨f, hf, hfixed, hagrees⟩ :=
      exists_agrees_call hhost hs hforms (hsteady (by simp [hkind])) (p := .builtin _) rfl (levels + 1)
    exact ⟨f, hf, hfixed, hagrees.mapError (hcause node) (hcause call)⟩
  | map =>
    rw [hkind] at hstands
    cases hstands
    have harguments : call.arguments = node.arguments := by
      simp only [Form.arguments, h.list, hkind, hparts, List.tail_cons]
    have habreast := abreast_expandAll hs scope node.children
    have htask : (Task.invoke .map node scope).Bounded s.cells.size := congrArg (Task.invoke .map · scope) hnode
    obtain ⟨f, hf, hkept, -, hagrees⟩ :=
      exists_agrees_run hhost hs habreast.tied habreast.injective htask (levels + 1)
    rw [htask.rename habreast.fixed] at hagrees
    refine ⟨f, hf, habreast.fixed_of_kept hkept, Agrees.mapError (hcause node) (hcause call) ?_⟩
    show Agrees f (Value.rename f) (run host (levels + 1) (.invoke .map node scope) s)
      (run host (levels + 1) (.invoke .map call scope) (s.expandAll scope node.children).2)
    rwa [run_invoke_map harguments]
  | _ =>
    rw [hkind] at hstands
    cases hstands

/-- A vector, a set, a map or `@` with its one operand has the same outcome as the call it stands for, from any store
    that can come about and in which the name of what is called stands for it. For vectors and sets this is so as long
    as a name that is quoted by a var quote among the parts means the same when its turn comes as it did at first. -/
theorem run_evaluate_agrees {host : Host} (hhost : host.Uniform) {s : Store} (hs : s.Reachable host) {scope : Scope}
    {node call : Code} {callable : Callable Value} {identity : Nat} (h : node.StandsFor call callable)
    (hget : s.get scope callable.name = .ok (.function identity callable)) (hnode : node.Bounded s.cells.size)
    (hsingle : node.kind = .deref → node.children.length = 1) (levels : Nat)
    (hsteady : node.kind = .vector ∨ node.kind = .set → Steady (run host levels) scope s s node.children) :
    ∃ f, Injective f ∧ (∀ i < s.cells.size, f i = i) ∧
      Agrees f (Value.rename f) (run host (levels + 1) (.evaluate node scope) s)
        (run host (levels + 1) (.evaluate call scope) s) := by
  have hclosed := hs.closed hhost
  have hcause : ∀ (form : Code) (error : Error), (error.through form).cause = error.cause :=
    fun form error => (Error.Becomes.through form error).cause
  obtain ⟨head, hsymbol, hname, hcall⟩ := run_evaluate_call h host levels scope s
  rw [run_evaluate_node h.stands hget, hcall]
  cases levels with
  | zero =>
    have habreast := abreast_expandAll hclosed scope node.children
    refine ⟨_, habreast.injective, habreast.fixed, Agrees.mapError (hcause node) (hcause call) ?_⟩
    rw [applyToForms_exhausted h.stands]
    exact .exhausted habreast.tied
  | succ levels =>
    have hall : node.kind ≠ .map → Steady (run host (levels + 1)) scope s s node.children := by
      intro hmap
      rcases FormKind.cases_of_callable? h.stands with hkind | hkind | hkind | hkind
      · exact hsteady (.inl hkind)
      · exact hsteady (.inr hkind)
      · exact absurd hkind hmap
      · exact steady_of_length_eq_one _ scope s (hsingle hkind)
    obtain ⟨f, hf, hfixed, hagrees⟩ := exists_agrees_applyToForms hhost hclosed h hnode hall identity
    refine ⟨f, hf, hfixed, Agrees.mapError (hcause node) (hcause call) ?_⟩
    have hhead : run host (levels + 1) (.evaluate head scope) (s.expandAll scope node.children).2 =
        .ok (.function identity callable) (s.expandAll scope node.children).2 :=
      run_symbol_ok hsymbol (hname ▸ Store.get_expandAll hget node.children)
    rw [bind_ok hhead]
    exact hagrees

/-- The first form of a source. -/
def sourceForm (source : String) : Code := (Document.read 0 source).root.first?.getD default

/-- The call that a vector stands for. -/
def vecCall (node : Code) : Code :=
  ⟨.read 1 [0], .list, .symbol (.read 1 [0, 0]) "internal/vec" :: node.children, none, .empty⟩

theorem standsFor_vecCall {node : Code} (h : node.kind = .vector) :
    node.StandsFor (vecCall node) (.procedure (.builtin .vec)) :=
  ⟨by rw [h]; rfl, rfl, _, rfl, rfl, rfl⟩

theorem get_freshCommand {name : String} {v : Value} (h : Store.inBase name = some v) :
    freshCommand.2.get freshCommand.1.scope name = .ok v := by
  rw [show freshCommand.2 = (Store.empty.newBase Library.empty).2 from rfl,
    show freshCommand.1.scope = (Store.empty.newBase Library.empty).1 from rfl]
  exact Store.get_of_inBase h

theorem exists_get_special {name : String} {special : Special}
    (h : (Store.inBase name).bind Value.special? = some special) :
    ∃ identity, freshCommand.2.get freshCommand.1.scope name = .ok (.function identity (.special special)) := by
  obtain ⟨v, hv, hspecial⟩ := Option.bind_eq_some_iff.mp h
  obtain ⟨identity, rfl⟩ := Value.exists_of_special? hspecial
  exact ⟨identity, get_freshCommand hv⟩

theorem exists_get_builtin {name : String} {function : Builtin}
    (h : (Store.inBase name).bind Value.builtin? = some function) :
    ∃ identity, freshCommand.2.get freshCommand.1.scope name =
      .ok (.function identity (.procedure (.builtin function))) := by
  obtain ⟨v, hv, hbuiltin⟩ := Option.bind_eq_some_iff.mp h
  obtain ⟨identity, rfl⟩ := Value.exists_of_builtin? hbuiltin
  exact ⟨identity, get_freshCommand hv⟩

theorem exists_get_vec : ∃ identity, freshCommand.2.get freshCommand.1.scope "internal/vec" =
    .ok (.function identity (.procedure (.builtin .vec))) :=
  exists_get_builtin (Store.names_inBase.2.1 .vec (by simp [Builtin.ofData]))

/-- A vector whose first part binds a name and whose second part quotes another. -/
def steadyVector : Code := sourceForm "[(def y 2) #'core/str y]"

/-- The outcome of a form in a fresh scope of the command line, within eleven levels. -/
def freshOutcome (form : Code) : Result Stop Store Value :=
  run Command.host (10 + 1) (.evaluate form freshCommand.1.scope) freshCommand.2

/-- What the var that stands second in a vector holds, as it is printed. -/
def secondHeld : Result Stop Store Value → Option String
  | .ok (.vector (_ :: .var var :: _)) s => some (s.held var).print
  | _ => none

theorem Agrees.secondHeld_eq {f : Nat → Nat} {x y : Result Stop Store Value} (h : Agrees f (Value.rename f) x y) :
    secondHeld y = secondHeld x := by
  cases h with
  | failed | exhausted => rfl
  | ok v hs =>
    cases v with
    | vector items =>
      match items with
      | [] | [_] => rfl
      | _ :: second :: _ =>
        cases second with
        | var var =>
          show some (Store.held _ (var.rename f)).print = some (Store.held _ var).print
          rw [hs.held, Value.print_rename]
        | _ => rfl
    | _ => rfl

theorem run_evaluate_agrees_steadyVector :
    secondHeld (freshOutcome steadyVector) = some "#<fn core/str>" ∧
    ∃ f, Injective f ∧ (∀ i < freshCommand.2.cells.size, f i = i) ∧
      Agrees f (Value.rename f) (freshOutcome steadyVector) (freshOutcome (vecCall steadyVector)) := by
  have hcheck : steadyVector.kind = .vector ∧ steadyVector.all Form.isBare = true ∧
      isSteady (run Command.host 10) freshCommand.1.scope freshCommand.2 freshCommand.2 steadyVector.children = true ∧
      secondHeld (freshOutcome steadyVector) = some "#<fn core/str>" := by decide +kernel
  obtain ⟨hkind, hbare, hsteady, hheld⟩ := hcheck
  obtain ⟨identity, hget⟩ := exists_get_vec
  have hall := steady_of_isSteady (Store.reachable_freshCommand.closed Command.uniform_host) (.refl _) hsteady
  exact ⟨hheld, run_evaluate_agrees Command.uniform_host Store.reachable_freshCommand (standsFor_vecCall hkind) hget
    (Form.bounded_of_isBare hbare _) (by simp [hkind]) 10 fun _ => hall⟩

/-- A vector whose first part binds the name that its second part quotes. -/
def bindingVector : Code := sourceForm "[(def x 1) #'x]"

/-- The var holds what the name was bound to in the vector, and `nil` in the call, where the name was not bound yet. -/
theorem not_agrees_bindingVector :
    freshCommand.2.Reachable Command.host ∧
    (∃ identity, freshCommand.2.get freshCommand.1.scope "internal/vec" =
      .ok (.function identity (.procedure (.builtin .vec)))) ∧
    bindingVector.StandsFor (vecCall bindingVector) (.procedure (.builtin .vec)) ∧
    secondHeld (freshOutcome bindingVector) = some "1" ∧
    secondHeld (freshOutcome (vecCall bindingVector)) = some "nil" ∧
    ¬∃ f, Agrees f (Value.rename f) (freshOutcome bindingVector) (freshOutcome (vecCall bindingVector)) := by
  have hcheck : bindingVector.kind = .vector ∧ secondHeld (freshOutcome bindingVector) = some "1" ∧
      secondHeld (freshOutcome (vecCall bindingVector)) = some "nil" := by decide +kernel
  obtain ⟨hkind, hvector, hcall⟩ := hcheck
  refine ⟨Store.reachable_freshCommand, exists_get_vec, standsFor_vecCall hkind, hvector, hcall, ?_⟩
  rintro ⟨f, hagrees⟩
  rw [hagrees.secondHeld_eq, hvector] at hcall
  exact absurd hcall (by decide)

end Eval

end Lisplet
