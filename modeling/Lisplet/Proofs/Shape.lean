import Lisplet.Document
import Lisplet.Form.Printer

/-! # Shapes of forms

What a reader sees of a form whatever the layout of its source: its kind, its parts in order and, where it is a word
of its own, its text. Spans, identities and the texts of forms with parts are left out. -/

namespace Lisplet

/-- The kinds of the words of a source, which have no parts. -/
def FormKind.isWord : FormKind → Bool
  | symbol | paramName | keyword | number | negNumber | hexLiteral | string => true
  | _ => false

theorem FormKind.isWord_eq_false_of_frame? {kind : FormKind} {frame : String × String} (h : kind.frame? = some frame) :
    kind.isWord = false := by
  cases kind with
  | symbol | paramName | keyword | number | negNumber | hexLiteral | string => cases h
  | _ => rfl

/-- A kind, the text of a word, and the shapes of the parts. -/
inductive Shape where
  | node (kind : FormKind) (text : Option String) (parts : List Shape)
  deriving Repr

mutual

/-- Whether two shapes are the same. -/
def Shape.decideEq : (a b : Shape) → Decidable (a = b)
  | .node kind text parts, .node kind' text' parts' =>
    match Shape.decideEqAll parts parts' with
    | isTrue hparts =>
      if h : kind = kind' ∧ text = text' then isTrue (by rw [h.1, h.2, hparts])
      else isFalse fun hnode => h ⟨(Shape.node.inj hnode).1, (Shape.node.inj hnode).2.1⟩
    | isFalse hparts => isFalse fun hnode => hparts (Shape.node.inj hnode).2.2

/-- Whether two lists of shapes are the same. -/
def Shape.decideEqAll : (as bs : List Shape) → Decidable (as = bs)
  | [], [] => isTrue rfl
  | [], _ :: _ => isFalse fun h => nomatch h
  | _ :: _, [] => isFalse fun h => nomatch h
  | a :: as, b :: bs =>
    match Shape.decideEq a b, Shape.decideEqAll as bs with
    | isTrue ha, isTrue has => isTrue (by rw [ha, has])
    | isFalse ha, _ => isFalse fun h => ha (List.cons.inj h).1
    | _, isFalse has => isFalse fun h => has (List.cons.inj h).2

end

instance : DecidableEq Shape := Shape.decideEq

namespace Form

variable {α : Type}

mutual

/-- The shape of a form. -/
def shape : Form α → Shape
  | ⟨_, kind, children, _, metadata⟩ =>
    .node kind (if kind.isWord then some (metadata.text.getD "") else none) (shapes children)

/-- The shapes of forms. -/
def shapes : List (Form α) → List Shape
  | [] => []
  | form :: rest => form.shape :: shapes rest

end

mutual

/-- Whether a form and all forms within it have a property. -/
def all (p : Form α → Bool) : Form α → Bool
  | ⟨id, kind, children, binding, metadata⟩ => p ⟨id, kind, children, binding, metadata⟩ && allOf p children

/-- Whether forms and all forms within them have a property. -/
def allOf (p : Form α → Bool) : List (Form α) → Bool
  | [] => true
  | form :: rest => form.all p && allOf p rest

end

theorem map_eq_map_of_map_eq_map {β γ : Type} {f : Form α → β} {g : Form α → γ} {xs ys : List (Form α)}
    (h : ∀ x ∈ xs, ∀ y, f x = f y → g x = g y) (hf : xs.map f = ys.map f) : xs.map g = ys.map g := by
  induction xs generalizing ys with
  | nil =>
    cases ys with
    | nil => rfl
    | cons y ys => cases hf
  | cons x xs ih =>
    cases ys with
    | nil => cases hf
    | cons y ys =>
      obtain ⟨hxy, hrest⟩ := List.cons.inj hf
      rw [List.map_cons, List.map_cons, h x (by simp) y hxy, ih (fun z hz => h z (List.mem_cons_of_mem _ hz)) hrest]

theorem shapes_eq_map (forms : List (Form α)) : shapes forms = forms.map shape := by
  induction forms with
  | nil => rfl
  | cons form rest ih => rw [shapes, ih, List.map_cons]

theorem shape_eq (form : Form α) :
    form.shape = .node form.kind (if form.kind.isWord then some form.text else none) (form.children.map shape) := by
  cases form with
  | mk id kind children binding metadata => rw [shape, shapes_eq_map]; rfl

theorem printAll_eq_map (forms : List (Form α)) : printAll forms = forms.map print := by
  induction forms with
  | nil => rfl
  | cons form rest ih => rw [printAll, ih, List.map_cons]

/-- A word is printed as its text. -/
theorem print_of_isWord {form : Form α} (h : form.kind.isWord = true) : form.print = form.text := by
  cases form with
  | mk id kind children binding metadata =>
    cases kind with
    | symbol | paramName | keyword | number | negNumber | hexLiteral | string => rfl
    | _ => cases h

/-- Any other form of a source is printed as its parts with something before and after them. -/
theorem print_of_frame? {form : Form α} {before after : String} (h : form.kind.frame? = some (before, after)) :
    form.print = before ++ joinTexts " " (printAll form.children) ++ after := by
  cases form with
  | mk id kind children binding metadata =>
    simp only at h
    simp only [print, h]

theorem allOf_iff {p : Form α → Bool} {forms : List (Form α)} :
    allOf p forms = true ↔ ∀ form ∈ forms, form.all p = true := by
  induction forms with
  | nil => simp [allOf]
  | cons form rest ih => simp [allOf, ih]

theorem all_iff {p : Form α → Bool} {form : Form α} :
    form.all p = true ↔ p form = true ∧ ∀ part ∈ form.children, part.all p = true := by
  cases form with
  | mk id kind children binding metadata => rw [all, Bool.and_eq_true, allOf_iff]

mutual

/-- What holds of a form whenever it holds of its parts holds of every form. -/
theorem parts_induction {motive : Form α → Prop}
    (step : ∀ form, (∀ part ∈ form.children, motive part) → motive form) : (form : Form α) → motive form
  | ⟨_, _, children, _, _⟩ => step _ (parts_induction_all step children)

theorem parts_induction_all {motive : Form α → Prop}
    (step : ∀ form, (∀ part ∈ form.children, motive part) → motive form) :
    (forms : List (Form α)) → ∀ form ∈ forms, motive form
  | [] => by simp
  | form :: rest => by
    simpa using ⟨parts_induction step form, parts_induction_all step rest⟩

end

end Form

end Lisplet
