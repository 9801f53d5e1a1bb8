import Lisplet.Proofs.Layout
import Lisplet.Proofs.RoundTrip
import Lisplet.Proofs.Source

/-! # Layout does not change meaning

Two clean sources of the same shape mean the same. The identity of a form that was read is its place, so it depends on
the shape of the document only, and so do the words; a var quote takes the source text of its operand, which has to be
a word. Documents of the same shape are therefore alike, and evaluation does not see what is left of their layout. -/

namespace Lisplet

namespace Form

variable {α : Type}

/-- Whether the operand of a var quote is a word. -/
def quotesWord (form : Form α) : Bool :=
  form.kind != .varQuote || form.children.all (·.kind.isWord)

/-- A form as it was read at `path` of document `number`. -/
inductive Placed (number : Nat) : List Nat → Form α → Prop
  | mk {path : List Nat} {form : Form α} (hid : form.id = .read number path) (hbinding : form.binding = none)
      (htext : form.text?.isSome = true)
      (hparts : ∀ i part, form.children[i]? = some part → Placed number (i :: path) part) : Placed number path form

end Form

namespace Document

variable {α : Type} {source : List Char} {number : Nat}

mutual

theorem placed_formOf (path : List Nat) : (tree : Tree) → (formOf source number path tree : Form α).Placed number path
  | .node kind start stop children => by
    rw [formOf]
    split
    · exact .mk rfl rfl rfl (by simp [malformed])
    · refine .mk rfl rfl rfl fun i part hpart => ?_
      have hplaced := placed_formsOf path 0 children i part hpart
      rwa [Nat.zero_add] at hplaced

theorem placed_formsOf (path : List Nat) (position : Nat) : (trees : List Tree) →
    ∀ (i : Nat) (part : Form α), (formsOf source number path position trees)[i]? = some part →
      part.Placed number ((position + i) :: path)
  | [] => by simp [formsOf]
  | tree :: rest => by
    intro i part hpart
    rw [formsOf] at hpart
    split at hpart
    · exact placed_formsOf path position rest i part hpart
    · cases i with
      | zero =>
        obtain rfl := Option.some.inj hpart
        exact placed_formOf (position :: path) tree
      | succ i =>
        have hplaced := placed_formsOf path (position + 1) rest i part hpart
        rwa [Nat.add_assoc, Nat.add_comm 1 i] at hplaced

end

/-- Nothing in the form of a sound tree without errors is malformed. -/
theorem wellFormed_formOf {path : List Nat} {tree : Tree} (h : tree.Sound source) (hk : tree.kind.isTrivia = false)
    (he : (errorsOf source number path tree : List (Form α)) = []) :
    (formOf source number path tree : Form α).all (·.kind != .syntaxError) = true := by
  induction h generalizing path with
  | malformed herror => simp [errorsOf, herror] at he
  | leftOut htrivia => simp [Tree.kind, htrivia] at hk
  | @word kind start stop form hform ha =>
    obtain ⟨hkind, herror, -⟩ := FormKind.toFormKind_of_lexeme? hform rfl
    have hne : form ≠ .syntaxError := by
      rintro rfl
      cases hform
    simp only [Tree.leaf, formOf, herror, Bool.false_eq_true, if_false, formsOf, hkind]
    exact Form.all_iff.mpr ⟨by simpa using hne, by simp⟩
  | @construct kind start stop children hconstruct hc ih =>
    obtain ⟨form, lexeme, hform, hlexeme, -⟩ := hconstruct
    obtain ⟨hkind, herror, -⟩ := FormKind.toFormKind_of_lexeme? hform hlexeme
    have hne : form ≠ .syntaxError := by
      rintro rfl
      cases hform
    simp only [errorsOf, herror, Bool.false_eq_true, if_false] at he
    simp only [formOf, herror, Bool.false_eq_true, if_false, hkind]
    refine Form.all_iff.mpr ⟨by simpa using hne, fun part hpart => ?_⟩
    obtain ⟨child, hmem, place, htrivia, rfl, herrors⟩ := mem_formsOf hpart he
    exact ih child hmem htrivia herrors

/-- A clean document is placed, and nothing in it is malformed. -/
theorem placed_of_isClean {source : String} (h : (read number source : Document α).isClean = true) :
    (read number source : Document α).root.Placed number [] ∧
      (read number source : Document α).root.all (·.kind != .syntaxError) = true := by
  obtain ⟨stop, trees, hsound, hroot, herrors⟩ := exists_trees_of_isClean h
  rw [hroot]
  refine ⟨placed_formOf [] _, Form.all_iff.mpr ⟨rfl, fun form hform => ?_⟩⟩
  obtain ⟨tree, hmem, place, htrivia, rfl, herror⟩ := mem_formsOf hform herrors
  exact wellFormed_formOf (hsound tree hmem) htrivia herror

end Document

namespace Form

variable {α : Type} {number : Nat}

theorem text?_eq_of_shape_eq {path : List Nat} {form other : Form α} (ha : form.Placed number path)
    (hb : other.Placed number path) (h : form.shape = other.shape) (hw : form.kind.isWord = true) :
    form.text? = other.text? := by
  obtain ⟨-, -, htext, -⟩ := ha
  obtain ⟨-, -, htext', -⟩ := hb
  rw [shape_eq, shape_eq, Shape.node.injEq] at h
  obtain ⟨hkind, hsame, -⟩ := h
  rw [← hkind, if_pos hw, if_pos hw] at hsame
  obtain ⟨x, hx⟩ := Option.isSome_iff_exists.mp htext
  obtain ⟨y, hy⟩ := Option.isSome_iff_exists.mp htext'
  rw [hx, hy]
  simpa [text, hx, hy] using hsame

/-- Forms of the same shape at the same place are alike, if nothing is malformed and var quotes have words. -/
theorem alike_of_shape_eq {path : List Nat} {form other : Form α} (ha : form.Placed number path)
    (hb : other.Placed number path) (h : form.shape = other.shape) (hw : form.all (·.kind != .syntaxError) = true)
    (hq : form.all quotesWord = true) : form.Alike other := by
  induction form using parts_induction generalizing path other with
  | step form ih =>
    have htext := text?_eq_of_shape_eq ha hb h
    obtain ⟨hid, hbinding, -, hparts⟩ := ha
    obtain ⟨hid', hbinding', -, hparts'⟩ := hb
    rw [shape_eq, shape_eq, Shape.node.injEq] at h
    obtain ⟨hkind, -, hchildren⟩ := h
    obtain ⟨hwell, hwells⟩ := all_iff.mp hw
    obtain ⟨hquote, hquotes⟩ := all_iff.mp hq
    have hlength : form.children.length = other.children.length := by
      simpa using congrArg List.length hchildren
    have halike : List.Forall₂ Alike form.children other.children := by
      refine List.forall₂_iff_get.mpr ⟨hlength, fun i hi hi' => ?_⟩
      have hshape : (form.children.get ⟨i, hi⟩).shape = (other.children.get ⟨i, hi'⟩).shape := by
        simpa [hi, hi'] using congrArg (fun shapes : List Shape => shapes[i]?) hchildren
      have hmem := List.get_mem form.children ⟨i, hi⟩
      exact ih _ hmem (hparts i _ (List.getElem?_eq_getElem hi)) (hparts' i _ (List.getElem?_eq_getElem hi')) hshape
        (hwells _ hmem) (hquotes _ hmem)
    refine Alike.iff.mpr ⟨hid.trans hid'.symm, hkind, map_of_forall₂ halike, hbinding.trans hbinding'.symm, ?_⟩
    -- the text that is kept is that of a word, or that of the operand of a var quote
    unfold keptText
    rw [← hkind]
    by_cases hword : form.kind.isWord = true
    · rw [if_pos (.inl hword), if_pos (.inl hword), htext hword]
    · have hnot : ¬(form.kind.isWord = true ∨ form.kind = .syntaxError) := by
        simpa [hword] using hwell
      rw [if_neg hnot, if_neg hnot]
      split
      · next hvarQuote =>
        have hwords : ∀ part ∈ form.children, part.kind.isWord = true := by
          simpa [quotesWord, hvarQuote] using hquote
        generalize form.children = parts at halike hwords ⊢
        generalize other.children = parts' at halike ⊢
        cases halike with
        | nil => rfl
        | @cons part part' _ _ hpart _ => exact hpart.text? (hwords part (by simp))
      · rfl

end Form

/-- Clean documents of the same shape are alike. -/
theorem Document.alike_of_shape_eq {number : Nat} {a b : String}
    (ha : (read number a : Document Value).isClean = true) (hb : (read number b : Document Value).isClean = true)
    (h : (read number a : Document Value).root.shape = (read number b : Document Value).root.shape)
    (hq : (read number a : Document Value).root.all Form.quotesWord = true) :
    (read number a : Document Value).root.Alike (read number b : Document Value).root := by
  obtain ⟨hplaced, hwell⟩ := placed_of_isClean ha
  obtain ⟨hplaced', -⟩ := placed_of_isClean hb
  exact Form.alike_of_shape_eq hplaced hplaced' h hwell hq

/-- The names that a scope binds, with the texts of their values. -/
def Store.printedBindings (s : Store) (scope : Scope) : List (String × String) :=
  (s.bindings scope).map fun binding => (binding.1, (s.held binding.2).print)

theorem Store.Alike.printedBindings {s t : Store} (h : s.Alike t) (scope : Scope) :
    s.printedBindings scope = t.printedBindings scope := by
  rw [Store.printedBindings, Store.printedBindings, h.bindings]
  exact List.map_congr_left fun binding _ => by rw [(h.held binding.2).print]

namespace Interpreter

open EStateM (Result)

/-- Outcomes that a reader takes for the same: values that are printed alike, or causes of one kind, with the same
    names in `scope` for values that are printed alike; or evaluations that both went too deep. -/
inductive SameOutcome (scope : Scope) : Result Stop Store Value → Result Stop Store Value → Prop
  | value {v w : Value} {s t : Store} (hprint : v.print = w.print)
      (hbindings : s.printedBindings scope = t.printedBindings scope) : SameOutcome scope (.ok v s) (.ok w t)
  | failure {e f : Error} {s t : Store} (hcause : e.cause.ctorIdx = f.cause.ctorIdx)
      (hbindings : s.printedBindings scope = t.printedBindings scope) :
      SameOutcome scope (.error (.failed e) s) (.error (.failed f) t)
  | exhausted {s t : Store} : SameOutcome scope (.error .exhausted s) (.error .exhausted t)

theorem SameOutcome.of_layout {scope : Scope} {x y : Result Stop Store Value}
    (h : Comparison.layout.Outcome Value.Alike x y) : SameOutcome scope x y := by
  cases h with
  | ok hv hs => exact .value hv.print (Store.Alike.printedBindings hs scope)
  | failed hc hs => exact .failure hc (Store.Alike.printedBindings hs scope)
  | exhausted _ => exact .exhausted

/-- Sources that are read as documents that are alike have the same outcome. -/
theorem sameOutcome_of_alike (i : Interpreter) (hi : i.host = Host.bare) {s : Store} {a b : String}
    (ha : (Document.read s.documents a : Document Value).isClean = true)
    (hb : (Document.read s.documents b : Document Value).isClean = true)
    (h : (Document.read s.documents a : Document Value).root.Alike (Document.read s.documents b : Document Value).root) :
    SameOutcome i.scope (evalSource i a s) (evalSource i b s) := by
  rw [Document.isClean, List.isEmpty_iff] at ha hb
  rw [evalSource_of_errors_eq_nil i ha, evalSource_of_errors_eq_nil i hb, evaluate, evaluate, run, run, hi]
  have htreats := Comparison.treats_run Comparison.Layout.lawful Comparison.Layout.isFull i.levels
  exact .of_layout ((htreats.evaluate h i.scope).meets _ _ (.refl _) trivial)

/-- Two clean sources of the same shape, in which every var quote has a word, have the same outcome in a fresh
    interpreter without a host, however deep evaluations may go. -/
theorem evalSource_of_shape_eq (settings : Settings) (levels : Nat) {a b : String}
    (ha : (Document.read 0 a : Document Value).isClean = true)
    (hb : (Document.read 0 b : Document Value).isClean = true)
    (h : (Document.read 0 a : Document Value).root.shape = (Document.read 0 b : Document Value).root.shape)
    (hq : (Document.read 0 a : Document Value).root.all Form.quotesWord = true) :
    let fresh := create Host.bare settings Library.empty Store.empty
    SameOutcome fresh.1.scope (evalSource { fresh.1 with levels := levels } a fresh.2)
      (evalSource { fresh.1 with levels := levels } b fresh.2) := by
  intro fresh
  have hnumber : fresh.2.documents = 0 := Store.documents_newBase Store.empty Library.empty
  rw [← hnumber] at ha hb h hq
  exact sameOutcome_of_alike { fresh.1 with levels := levels } rfl ha hb (Document.alike_of_shape_eq ha hb h hq)

/-- A definition with quoted code and a var quote, and a call of it. -/
def compact : String := "(def f (fn [x] #\x7b'(a x) #'f (.-length [x])\x7d)) (f #(do %2 'b))"

/-- The same in another layout, with a comment and a discarded form. -/
def spread : String := "( def f ; two lines\n (fn [ x ] #\x7b '(a , x)  #' f\t(.-length [x])\x7d )) #_g (f #(do   %2 ' b))"

theorem evalSource_compact_spread :
    (Document.read 0 compact : Document Value).isClean = true ∧
      (Document.read 0 spread : Document Value).isClean = true ∧
      (Document.read 0 compact : Document Value).root.shape = (Document.read 0 spread : Document Value).root.shape ∧
      (Document.read 0 compact : Document Value).root.all Form.quotesWord = true ∧
      let fresh := create Host.bare {} Library.empty Store.empty
      SameOutcome fresh.1.scope (evalSource fresh.1 compact fresh.2) (evalSource fresh.1 spread fresh.2) := by
  have hcheck : (Document.read 0 compact : Document Value).isClean = true ∧
      (Document.read 0 spread : Document Value).isClean = true ∧
      (Document.read 0 compact : Document Value).root.shape = (Document.read 0 spread : Document Value).root.shape ∧
      (Document.read 0 compact : Document Value).root.all Form.quotesWord = true := by decide +kernel
  obtain ⟨hcompact, hspread, hshape, hquotes⟩ := hcheck
  exact ⟨hcompact, hspread, hshape, hquotes,
    evalSource_of_shape_eq {} defaultLevels hcompact hspread hshape hquotes⟩

end Interpreter

end Lisplet
