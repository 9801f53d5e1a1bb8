import Lisplet.Proofs.RoundTrip
import Lisplet.Proofs.Sugar

/-! # Words of a document

Every word of a document was cut from the source as one atom, whatever else in the source is malformed or left out. So
the text of a literal or a symbol that was read is known up to the characters that its kind allows. -/

namespace Lisplet

variable {α : Type}

/-! ### How words start -/

namespace Lexeme

variable {c : Char} {cs : List Char} {kind : TreeKind} {n : Nat}

theorem of_unglued {found : TreeKind} {length : Nat} (h : unglued found length cs = (leaf kind, n))
    (hk : kind.isError = false) : found = kind ∧ length = n := by
  simp only [unglued] at h
  split at h
  · simpa using h
  · obtain rfl := leaf.inj (Prod.mk.inj h).1
    exact absurd hk (by decide)

/-- A word that starts with no mark of its own is a number or a symbol. -/
theorem ofPlain_cases (h : ofPlain c cs = (leaf kind, n)) (hk : kind.isError = false) :
    (kind = .hexLiteral ∧ c = '0' ∧ startsHex cs = true ∧ 1 + runLength isHexDigit (cs.drop 1) = n) ∨
    (kind = .number ∧ c.isDigit = true ∧ numberLength cs = n) ∨
    (kind = .negNumber ∧ c = '-' ∧ cs.head?.any Char.isDigit = true ∧ numberLength cs = n) ∨
    (kind = .symbol ∧ isSymbolChar c = true ∧ runLength isSymbolChar cs = n) := by
  unfold ofPlain at h
  split at h
  · next hc =>
    rw [ofZero_eq] at h
    split at h
    · next hx =>
      obtain ⟨rfl, hlength⟩ := of_unglued h hk
      exact .inl ⟨rfl, hc, hx, hlength⟩
    · obtain ⟨rfl, hlength⟩ := of_unglued h hk
      exact .inr (.inl ⟨rfl, by rw [hc]; rfl, hlength⟩)
  split at h
  · next hc =>
    obtain ⟨rfl, hlength⟩ := of_unglued h hk
    exact .inr (.inl ⟨rfl, hc, hlength⟩)
  split at h
  · next hc =>
    obtain ⟨rfl, hlength⟩ := of_unglued h hk
    exact .inr (.inr (.inl ⟨rfl, hc.1, hc.2, hlength⟩))
  split at h
  · next hc =>
    obtain ⟨hkind, hlength⟩ := Prod.mk.inj h
    exact .inr (.inr (.inr ⟨(leaf.inj hkind).symm, hc, hlength⟩))
  · obtain rfl := leaf.inj (Prod.mk.inj h).1
    exact absurd hk (by decide)

/-- A word that starts with a percent sign names a parameter if nothing but digits follows, or a single ampersand. -/
theorem ofPercent_cases (h : ofPercent cs = (leaf kind, cs.length)) :
    (kind = .paramName ∧ (cs = ['&'] ∨ ∀ d ∈ cs, d.isDigit = true)) ∨
    (kind = .symbol ∧ cs.all Char.isDigit = false) := by
  obtain ⟨hleaf, hlength⟩ := Prod.mk.inj h
  have hrun : cs.takeWhile isSymbolChar = cs := (List.takeWhile_prefix isSymbolChar).eq_of_length hlength
  rw [hrun] at hleaf
  split at hleaf
  · next hname =>
    rw [Bool.or_eq_true, beq_iff_eq, List.all_eq_true] at hname
    exact .inl ⟨(leaf.inj hleaf).symm, hname⟩
  · next hother =>
    exact .inr ⟨(leaf.inj hleaf).symm, (Bool.or_eq_false_iff.mp (Bool.eq_false_iff.mpr hother)).2⟩

/-- A word by its first character: a string literal, a keyword, a word with a percent sign, or any other. -/
theorem first_cases (h : first c cs = (leaf kind, n)) (hk : kind.isError = false) :
    (kind = .string ∧ c = '"' ∧ stringLength? cs = some n) ∨ (kind = .keyword ∧ c = ':') ∨
    (c = '%' ∧ ofPercent cs = (leaf kind, n)) ∨ (c ≠ '%' ∧ ofPlain c cs = (leaf kind, n)) := by
  rcases first_eq_leaf h hk with ⟨hc, hh⟩ | ⟨rfl, hlength⟩
  · have hb := isBlank_eq_false_of_isSymbolChar hc
    unfold first at h
    simp only [hb, Bool.false_eq_true, if_false] at h
    split at h <;> try exact absurd hc (by decide)
    · exact absurd rfl hh
    · simp only [ofColon] at h
      split at h
      · obtain rfl := leaf.inj (Prod.mk.inj h).1
        exact absurd hk (by decide)
      · exact .inr (.inl ⟨(leaf.inj (Prod.mk.inj h).1).symm, rfl⟩)
    · exact .inr (.inr (.inl ⟨rfl, h⟩))
    · next hpercent => exact .inr (.inr (.inr ⟨hpercent, h⟩))
  · have hfirst : first '"' cs = (leaf .string, n) := by
      show ofQuote cs = _
      simp only [ofQuote, hlength]
    rw [hfirst] at h
    exact .inl ⟨(leaf.inj (Prod.mk.inj h).1).symm, rfl, hlength⟩

end Lexeme

/-! ### Words that were read -/

namespace Form

theorem all_within {p : Form α → Bool} {node form : Form α} (h : form.all p = true) (hw : node.Within form) :
    node.all p = true := by
  induction hw with
  | refl => exact h
  | part hpart _ ih => exact ih ((all_iff.mp h).2 _ hpart)

theorem Within.trans {node mid form : Form α} (h : node.Within mid) (h' : mid.Within form) : node.Within form := by
  induction h' with
  | refl => exact h
  | part hpart _ ih => exact .part hpart ih

theorem Within.of_mem {part form : Form α} (h : part ∈ form.children) : part.Within form := .part h (.refl part)

/-- Whether a form is one atom and has no parts, if it is a word. -/
def isCut (form : Form α) : Bool :=
  match form.kind.lexeme? with
  | some (.leaf kind) => Lexeme.isAtom kind form.text.toList && form.children.isEmpty
  | _ => true

end Form

namespace Document

variable {source : List Char} {number : Nat}

theorem exists_tree_of_mem_formsOf {form : Form α} {path : List Nat} {position : Nat} {trees : List Tree}
    (h : form ∈ formsOf source number path position trees) :
    ∃ tree ∈ trees, ∃ place, tree.kind.isTrivia = false ∧ form = formOf source number (place :: path) tree := by
  induction trees generalizing position with
  | nil => simp [formsOf] at h
  | cons tree trees ih =>
    rw [formsOf] at h
    split at h
    · obtain ⟨found, hmem, hrest⟩ := ih h
      exact ⟨found, List.mem_cons_of_mem _ hmem, hrest⟩
    · next htrivia =>
      rcases List.mem_cons.mp h with rfl | h
      · exact ⟨tree, by simp, position, by simpa using htrivia, rfl⟩
      · obtain ⟨found, hmem, hrest⟩ := ih h
        exact ⟨found, List.mem_cons_of_mem _ hmem, hrest⟩

theorem isCut_malformed (id : FormId) (start stop : Nat) :
    (malformed source id start stop : Form α).all Form.isCut = true :=
  Form.all_iff.mpr ⟨rfl, by simp [malformed]⟩

/-- A sound tree that is not left out gives a form whose words are atoms. -/
theorem isCut_formOf {tree : Tree} (h : tree.Sound source) (hk : tree.kind.isTrivia = false) (path : List Nat) :
    (formOf source number path tree : Form α).all Form.isCut = true := by
  induction h generalizing path with
  | malformed herror =>
    rw [formOf, if_pos herror]
    exact isCut_malformed _ _ _
  | leftOut htrivia => simp [Tree.kind, htrivia] at hk
  | @word kind start stop form hform ha =>
    obtain ⟨hkind, herror, -⟩ := FormKind.toFormKind_of_lexeme? hform rfl
    simp only [Tree.leaf, formOf, herror, Bool.false_eq_true, if_false, formsOf, hkind]
    refine Form.all_iff.mpr ⟨?_, by simp⟩
    simp [Form.isCut, hform, Form.text, Form.text?, Metadata.spanned, sliceText, ha]
  | @construct kind start stop children hconstruct hc ih =>
    obtain ⟨form, lexeme, hform, hlexeme, hword⟩ := hconstruct
    obtain ⟨hkind, herror, -⟩ := FormKind.toFormKind_of_lexeme? hform hlexeme
    simp only [formOf, herror, Bool.false_eq_true, if_false, hkind]
    refine Form.all_iff.mpr ⟨?_, fun part hpart => ?_⟩
    · unfold Form.isCut
      simp only [hform]
      split
      · next leaf heq =>
        obtain rfl := Option.some.inj heq
        rw [FormKind.isWord_iff.mpr ⟨leaf, hform⟩] at hword
        cases hword
      · rfl
    · obtain ⟨child, hmem, place, htrivia, rfl⟩ := exists_tree_of_mem_formsOf hpart
      exact ih child hmem htrivia _

/-- Every word of a document is an atom without parts. -/
theorem isCut_read (number : Nat) (source : String) :
    (read number source : Document α).root.all Form.isCut = true := by
  obtain ⟨forms, consumed, hscan⟩ : ∃ forms consumed, Scan.ofSource source.toList = Scan.ofForms forms consumed :=
    Scan.exists_resume_eq _ _ _
  have hsound := Scan.ofSource_sound source.toList
  have hparts : ∀ part ∈ (formsOf source.toList number [] 0 forms.reverse : List (Form α)),
      part.all Form.isCut = true := by
    intro part hpart
    obtain ⟨tree, hmem, place, htrivia, rfl⟩ := exists_tree_of_mem_formsOf hpart
    exact isCut_formOf (hsound tree (by rw [hscan]; exact hmem)) htrivia _
  simp only [read, ofScan, hscan]
  split
  · refine Form.all_iff.mpr ⟨rfl, fun part hpart => ?_⟩
    rcases List.mem_append.mp hpart with hpart | hpart
    · exact hparts part hpart
    · obtain rfl := List.mem_singleton.mp hpart
      exact isCut_malformed _ _ _
  · exact Form.all_iff.mpr ⟨rfl, hparts⟩

/-- A word of a document, with the kind of its lexeme. -/
theorem isAtom_of_within {form : Form α} {source : String} {kind : TreeKind}
    (hw : form.Within (read number source : Document α).root) (hk : form.kind.lexeme? = some (.leaf kind)) :
    Lexeme.isAtom kind form.text.toList = true := by
  have hcut := (Form.all_iff.mp (Form.all_within (isCut_read number source) hw)).1
  rw [Form.isCut, hk] at hcut
  exact (Bool.and_eq_true_iff.mp hcut).1

theorem children_of_within {form : Form α} {source : String} {kind : TreeKind}
    (hw : form.Within (read number source : Document α).root) (hk : form.kind.lexeme? = some (.leaf kind)) :
    form.children = [] := by
  have hcut := (Form.all_iff.mp (Form.all_within (isCut_read number source) hw)).1
  rw [Form.isCut, hk] at hcut
  exact List.isEmpty_iff.mp (Bool.and_eq_true_iff.mp hcut).2

end Document

/-! ### The value of a literal -/

namespace Form

/-- The value of a literal is looked for in its text only. -/
def literal? (form : Code) : Option Value :=
  match form.kind with
  | .string => (Literal.string? form.text).map .string
  | .number | .negNumber => (Literal.number? form.text).map .ofNumber
  | .hexLiteral => (Literal.hex? form.text).map .int
  | _ => none

/-- Whether a form is a literal. -/
def isLiteral (form : Code) : Bool :=
  match form.kind with
  | .string | .number | .negNumber | .hexLiteral => true
  | _ => false

end Form

namespace Eval

open EStateM

/-- What a literal gives that stands for a value, or for none. -/
def literalOutcome (form : Code) (value : Option Value) (s : Store) : Result Stop Store Value :=
  match value with
  | some v => .ok v s
  | none => .error (.failed ((Error.ofCause (.badLiteral form.text)).through form)) s

/-- A literal is evaluated to its value wherever it stands, or it is refused, and nothing else happens. -/
theorem run_evaluate_literal {form : Code} (h : form.isLiteral = true) (host : Host) (levels : Nat) (scope : Scope)
    (s : Store) : run host (levels + 1) (.evaluate form scope) s = literalOutcome form form.literal? s := by
  have hform : evalForm host (run host levels) form scope = ofLiteral form form.literal? := by
    unfold evalForm Form.literal?
    unfold Form.isLiteral at h
    generalize form.kind = kind at h ⊢
    cases kind with
    | string | number | negNumber | hexLiteral => rfl
    | _ => cases h
  have hq : form.kind ≠ .varQuote := by
    intro hk
    simp [Form.isLiteral, hk] at h
  have hl : form.kind ≠ .list := by
    intro hk
    simp [Form.isLiteral, hk] at h
  show (expand scope form >>= fun form => through form (evalForm host (run host levels) form scope)) s = _
  rw [bind_ok (expand_ok (s.expandOnce?_eq_none scope hq hl)), hform]
  cases form.literal? <;> rfl

theorem within_sourceForm {source : String} (h : (Document.read 0 source : Document Value).root.children ≠ []) :
    (sourceForm source).Within (Document.read 0 source).root := by
  refine .of_mem ?_
  unfold sourceForm Form.first?
  generalize (Document.read 0 source : Document Value).root.children = parts at h ⊢
  cases parts with
  | nil => exact absurd rfl h
  | cons part rest => exact List.mem_cons_self

end Eval

end Lisplet
