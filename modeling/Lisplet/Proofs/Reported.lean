import Lisplet.Proofs.Clean
import Lisplet.Proofs.Reached

/-! # Reported errors

A malformed node of a tree is reported unless it is concealed: it lies within another malformed node, which is
reported as a whole, or below a discarded form, which the document leaves out together with all that is in it. So a
source is refused exactly if reading stopped before its end or a malformed node is in sight. What a discard swallows
is never reported, even if the discarded form is not closed and takes the rest of the source with it. -/

namespace Lisplet

/-- A node that is seen from the top of a tree, past nodes of kinds that do not hide what is below them. -/
inductive Tree.Seen (hides : TreeKind → Bool) : Tree → Tree → Prop
  | refl (tree : Tree) : Seen hides tree tree
  | part {node part tree : Tree} (hkind : hides tree.kind = false) (hpart : part ∈ tree.children)
    (h : Seen hides node part) : Seen hides node tree

/-- Documents keep nothing of what is below malformed and discarded text. -/
def TreeKind.conceals (kind : TreeKind) : Bool := kind.isError || kind.isTrivia

theorem TreeKind.isTrivia_eq_false {kind : TreeKind} (h : kind.isError = true) : kind.isTrivia = false := by
  cases kind <;> first | rfl | cases h

theorem Tree.Seen.isTrivia_eq_false {node tree : Tree} (h : node.Seen TreeKind.conceals tree)
    (hnode : node.kind.isError = true) : tree.kind.isTrivia = false := by
  cases h with
  | refl => exact TreeKind.isTrivia_eq_false hnode
  | part hkind => exact (Bool.or_eq_false_iff.mp hkind).2

namespace Document

variable {α : Type} {source : List Char} {number : Nat}

/-! ### What is reported -/

mutual

theorem seen_of_mem_errorsOf {path : List Nat} {error : Form α} : (tree : Tree) → tree.kind.isTrivia = false →
    error ∈ errorsOf source number path tree → ∃ (node : Tree) (id : FormId), node.Seen TreeKind.conceals tree ∧
      node.kind.isError = true ∧ error = malformed source id node.start node.stop
  | .node kind start stop children, htrivia, h => by
    rw [errorsOf] at h
    split at h
    · next hkind => exact ⟨_, _, .refl _, hkind, List.mem_singleton.mp h⟩
    · next hkind =>
      obtain ⟨part, hpart, node, id, hseen, hnode, herror⟩ := seen_of_mem_errorsOfAll children h
      have hclear : TreeKind.conceals kind = false := Bool.or_eq_false_iff.mpr ⟨Bool.not_eq_true _ ▸ hkind, htrivia⟩
      exact ⟨node, id, .part hclear hpart hseen, hnode, herror⟩

theorem seen_of_mem_errorsOfAll {path : List Nat} {position : Nat} {error : Form α} : (trees : List Tree) →
    error ∈ errorsOfAll source number path position trees → ∃ tree ∈ trees, ∃ (node : Tree) (id : FormId),
      node.Seen TreeKind.conceals tree ∧ node.kind.isError = true ∧ error = malformed source id node.start node.stop
  | [], h => by cases h
  | tree :: rest, h => by
    rw [errorsOfAll] at h
    split at h
    · obtain ⟨part, hpart, hseen⟩ := seen_of_mem_errorsOfAll rest h
      exact ⟨part, List.mem_cons_of_mem _ hpart, hseen⟩
    · next htrivia =>
      rcases List.mem_append.mp h with h | h
      · exact ⟨tree, List.mem_cons_self, seen_of_mem_errorsOf tree (Bool.not_eq_true _ ▸ htrivia) h⟩
      · obtain ⟨part, hpart, hseen⟩ := seen_of_mem_errorsOfAll rest h
        exact ⟨part, List.mem_cons_of_mem _ hpart, hseen⟩

end

/-- Forms report what one of them reports, wherever it stands. -/
theorem exists_mem_errorsOfAll {start stop : Nat} {tree : Tree} {trees : List Tree} (htree : tree ∈ trees)
    (htrivia : tree.kind.isTrivia = false)
    (h : ∀ path, ∃ id, (malformed source id start stop : Form α) ∈ errorsOf source number path tree)
    (path : List Nat) (position : Nat) :
    ∃ id, (malformed source id start stop : Form α) ∈ errorsOfAll source number path position trees := by
  induction trees generalizing position with
  | nil => cases htree
  | cons first rest ih =>
    rw [errorsOfAll]
    rcases List.mem_cons.mp htree with rfl | hrest
    · rw [if_neg (by simp [htrivia])]
      obtain ⟨id, hid⟩ := h (position :: path)
      exact ⟨id, List.mem_append_left _ hid⟩
    · split
      · exact ih hrest position
      · obtain ⟨id, hid⟩ := ih hrest (position + 1)
        exact ⟨id, List.mem_append_right _ hid⟩

theorem exists_mem_errorsOf {node tree : Tree} (h : node.Seen TreeKind.conceals tree)
    (hnode : node.kind.isError = true) (path : List Nat) :
    ∃ id, (malformed source id node.start node.stop : Form α) ∈ errorsOf source number path tree := by
  induction h generalizing path with
  | refl =>
    obtain ⟨kind, start, stop, children⟩ := node
    rw [errorsOf, if_pos (show kind.isError = true from hnode)]
    exact ⟨_, List.mem_singleton_self _⟩
  | @part part tree hkind hpart hseen ih =>
    obtain ⟨kind, start, stop, children⟩ := tree
    have hclear : kind.isError = false := (Bool.or_eq_false_iff.mp hkind).1
    rw [errorsOf, if_neg (by simp [hclear])]
    exact exists_mem_errorsOfAll hpart (hseen.isTrivia_eq_false hnode) ih path 0

/-! ### Sources -/

/-- Something in the source is malformed and in sight: the text behind what was consumed, or a node of its tree. -/
def Faulty (source : List Char) : Prop :=
  (Scan.ofSource source).consumed < source.length ∨
    ∃ node : Tree, node.Seen TreeKind.conceals (Scan.ofSource source).root ∧ node.kind.isError = true

theorem errors_ofScan (number : Nat) (source : List Char) (scan : Scan) :
    ∃ rest, (ofScan number source scan : Document α).errors = errorsOf source number [] scan.root ++ rest ∧
      (rest ≠ [] ↔ scan.consumed < source.length) := by
  unfold ofScan
  split
  · next hlt => exact ⟨[_], rfl, by simp [hlt]⟩
  · next hge => exact ⟨[], (List.append_nil _).symm, by simp [hge]⟩

theorem errors_read_ne_nil_iff (number : Nat) (source : String) :
    (read number source : Document α).errors ≠ [] ↔ Faulty source.toList := by
  have hroot : (Scan.ofSource source.toList).root.kind.isTrivia = false := by
    obtain ⟨forms, consumed, hscan, -⟩ := Scan.ofSource_filled source.toList
    rw [hscan]
    rfl
  obtain ⟨rest, herrors, hrest⟩ := errors_ofScan number source.toList (Scan.ofSource source.toList) (α := α)
  rw [read, herrors, Faulty, ← hrest]
  constructor
  · intro h
    obtain ⟨error, herror⟩ := List.exists_mem_of_ne_nil _ h
    rcases List.mem_append.mp herror with hread | hleft
    · obtain ⟨node, -, hseen, hnode, -⟩ := seen_of_mem_errorsOf _ hroot hread
      exact .inr ⟨node, hseen, hnode⟩
    · exact .inl (List.ne_nil_of_mem hleft)
  · rintro (h | ⟨node, hseen, hnode⟩)
    · exact List.append_ne_nil_of_right_ne_nil _ h
    · obtain ⟨_, hid⟩ := exists_mem_errorsOf hseen hnode []
      exact List.append_ne_nil_of_left_ne_nil (List.ne_nil_of_mem hid) _

end Document

namespace Interpreter

/-- In strict mode a source is refused, with the first of its errors and before anything happens, exactly if it is
    faulty. -/
theorem evalSource_refused_iff {i : Interpreter} (hstrict : i.settings.strictSyntax = true) (source : String)
    (s : Store) :
    (∃ error rest, (Document.read s.documents source : Document Value).errors = error :: rest ∧
      evalSource i source s = .error (.failed (malformed error)) s) ↔ Document.Faulty source.toList := by
  rw [← Document.errors_read_ne_nil_iff (α := Value) s.documents, List.ne_nil_iff_exists_cons]
  constructor
  · rintro ⟨error, rest, herrors, -⟩
    exact ⟨error, rest, herrors⟩
  · rintro ⟨error, rest, herrors⟩
    refine ⟨error, rest, herrors, ?_⟩
    rw [evalSource_eq, hstrict, herrors]

/-- A discard hides the `]` in the list behind it, but not the list that is not closed. -/
theorem evalSource_refused_unclosed :
    ∃ error rest, (Document.read 0 "#_(]) (f" : Document Value).errors = error :: rest ∧ error.text? = some "(f" ∧
      evalSource freshCommand.1 "#_(]) (f" freshCommand.2 = .error (.failed (malformed error)) freshCommand.2 := by
  have hcheck : freshCommand.2.documents = 0 ∧
      (Document.read 0 "#_(]) (f" : Document Value).errors.head?.bind Form.text? = some "(f" := by decide +kernel
  obtain ⟨hdocuments, htext⟩ := hcheck
  have herrors : (Document.read 0 "#_(]) (f" : Document Value).errors ≠ [] := by
    intro h
    simp [h] at htext
  have hfaulty := (Document.errors_read_ne_nil_iff 0 "#_(]) (f").mp herrors
  obtain ⟨error, rest, herrors, hrefused⟩ :=
    (evalSource_refused_iff (i := freshCommand.1) rfl "#_(]) (f" freshCommand.2).mpr hfaulty
  rw [hdocuments] at herrors
  rw [herrors] at htext
  exact ⟨error, rest, herrors, htext, hrefused⟩

/-- Whether an evaluation gave `nil`. -/
def isNil : EStateM.Result Stop Store Value → Bool
  | .ok .nil _ => true
  | _ => false

/-- A discarded list that is not closed: its text is malformed and takes the definition with it. -/
def unclosedDiscard : String := "#_(oops (def x 1)"

/-- The malformed list of `unclosedDiscard` is in no other malformed text, but nothing is reported and the source is
    evaluated as if it were empty. -/
theorem not_refused_unclosedDiscard :
    (∃ node : Tree, node.Seen TreeKind.isError (Scan.ofSource unclosedDiscard.toList).root ∧
      node.kind.isError = true ∧ node.start = 2 ∧ node.stop = unclosedDiscard.length) ∧
    (Document.read 0 unclosedDiscard : Document Value).errors = [] ∧
    ∃ s, evalSource freshCommand.1 unclosedDiscard freshCommand.2 = .ok .nil s := by
  have hroot : (Scan.ofSource unclosedDiscard.toList).root.kind.isError = false ∧
      ∃ part ∈ (Scan.ofSource unclosedDiscard.toList).root.children, part.kind.isError = false ∧
        ∃ node ∈ part.children, node.kind.isError = true ∧ node.start = 2 ∧ node.stop = unclosedDiscard.length := by
    decide +kernel
  have hclean : (Document.read 0 unclosedDiscard : Document Value).errors.isEmpty = true := by decide +kernel
  have hnil : isNil (evalSource freshCommand.1 unclosedDiscard freshCommand.2) = true := by decide +kernel
  obtain ⟨hdocument, part, hpart, hdiscard, node, hnode, hmalformed⟩ := hroot
  refine ⟨⟨node, .part hdocument hpart (.part hdiscard hnode (.refl node)), hmalformed⟩,
    List.isEmpty_iff.mp hclean, ?_⟩
  unfold isNil at hnil
  split at hnil
  · next s heval => exact ⟨s, heval⟩
  · cases hnil

end Interpreter

end Lisplet
