import Lisplet.Proofs.Spans
import Mathlib.Data.List.Forall2

/-! # Documents show their trees

A document is the tree of its source, seen without what carries no meaning: comments and discarded forms are left out at
every level, and malformed text becomes a form without parts. `Form.Depicts` says so of a form and a tree, by the names
of their kinds, their spans and the text of the spans. The errors of a document are collected on the side, but they are
the malformed forms that a walk through the document meets, each once and from left to right. -/

namespace Lisplet

/-! ### Forms and trees -/

namespace Form

variable {α : Type}

mutual

/-- A form and all forms within it, each before its parts. -/
def preorder : Form α → List (Form α)
  | ⟨id, kind, children, binding, metadata⟩ => ⟨id, kind, children, binding, metadata⟩ :: preorderAll children

/-- Forms and all forms within them, one after the other. -/
def preorderAll : List (Form α) → List (Form α)
  | [] => []
  | form :: rest => form.preorder ++ preorderAll rest

end

theorem preorder_eq (form : Form α) : form.preorder = form :: preorderAll form.children := by
  cases form with
  | mk id kind children binding metadata => rfl

theorem preorderAll_append (forms others : List (Form α)) :
    preorderAll (forms ++ others) = preorderAll forms ++ preorderAll others := by
  induction forms with
  | nil => rfl
  | cons form rest ih => rw [List.cons_append, preorderAll, preorderAll, ih, List.append_assoc]

/-- Whether a form stands for malformed text. -/
def isMalformed (form : Form α) : Bool := form.kind == .syntaxError

/-- A form shows a tree of `source`. -/
inductive Depicts (source : List Char) : Form α → Tree → Prop
  /-- Malformed text is shown as a whole, whatever its parts. -/
  | malformed {form : Form α} {tree : Tree} (herror : tree.kind.isError = true) (hkind : form.kind = .syntaxError)
      (hspan : form.metadata = .spanned tree.start tree.stop (sliceText source tree.start tree.stop))
      (hparts : form.children = []) : Depicts source form tree
  /-- Any other tree is shown as a form of the same kind. Its parts show those that carry meaning, in order. -/
  | whole {form : Form α} {tree : Tree} (herror : tree.kind.isError = false) (hkind : form.kind.name = tree.kind.name)
      (hspan : form.metadata = .spanned tree.start tree.stop (sliceText source tree.start tree.stop))
      (hparts : List.Forall₂ (Depicts source) form.children (tree.children.filter fun part => !part.kind.isTrivia)) :
      Depicts source form tree

/-- A form ends before another one starts. -/
def Precedes (a b : Form α) : Prop :=
  ∃ stop start, a.metadata.stop = some stop ∧ b.metadata.start = some start ∧ stop ≤ start

end Form

theorem TreeKind.name_toFormKind {kind : TreeKind} (herror : kind.isError = false) (htrivia : kind.isTrivia = false) :
    kind.toFormKind.name = kind.name := by
  cases kind with
  | discard | comment => cases htrivia
  | syntaxError | restSyntaxError => cases herror
  | _ => rfl

theorem TreeKind.toFormKind_ne_syntaxError {kind : TreeKind} (herror : kind.isError = false)
    (htrivia : kind.isTrivia = false) : kind.toFormKind ≠ .syntaxError := by
  cases kind with
  | discard | comment => cases htrivia
  | syntaxError | restSyntaxError => cases herror
  | _ => decide

theorem Tree.Accounted.ordered {source : List Char} {tree : Tree} (h : tree.Accounted source) :
    tree.children.Pairwise fun a b => a.stop ≤ b.start := by
  unfold Tree.Accounted at h
  split at h
  · exact h.ordered
  · rcases h with hnil | ⟨-, _, _, _, -, -, hframed⟩
    · rw [hnil]
      exact .nil
    · exact hframed.ordered

namespace Document

variable {α : Type} {source : List Char} {number : Nat}

mutual

theorem depicts_formOf (path : List Nat) : (tree : Tree) → tree.kind.isTrivia = false →
    (formOf source number path tree : Form α).Depicts source tree
  | .node kind start stop children, htrivia => by
    rw [formOf]
    split
    · next herror => exact .malformed herror rfl rfl rfl
    · next herror =>
      have herror : kind.isError = false := Bool.not_eq_true _ ▸ herror
      exact .whole herror (TreeKind.name_toFormKind herror htrivia) rfl (depicts_formsOf path 0 children)

theorem depicts_formsOf (path : List Nat) (position : Nat) : (trees : List Tree) →
    List.Forall₂ (Form.Depicts source) (formsOf source number path position trees : List (Form α))
      (trees.filter fun part => !part.kind.isTrivia)
  | [] => .nil
  | tree :: rest => by
    rw [formsOf, List.filter_cons]
    split
    · next htrivia =>
      rw [if_neg (by simp [htrivia])]
      exact depicts_formsOf path position rest
    · next htrivia =>
      rw [if_pos (by simp [htrivia])]
      exact .cons (depicts_formOf (position :: path) tree (Bool.not_eq_true _ ▸ htrivia))
        (depicts_formsOf path (position + 1) rest)

end

/-! ### Errors on a walk through the document -/

mutual

/-- The malformed parts of a tree are the malformed forms that a walk through its form meets. -/
theorem errorsOf_eq_filter (path : List Nat) : (tree : Tree) → tree.kind.isTrivia = false →
    (errorsOf source number path tree : List (Form α)) =
      (formOf source number path tree : Form α).preorder.filter Form.isMalformed
  | .node kind start stop children, htrivia => by
    rw [errorsOf, formOf]
    split
    · rfl
    · next herror =>
      have hne : kind.toFormKind ≠ .syntaxError :=
        TreeKind.toFormKind_ne_syntaxError (Bool.not_eq_true _ ▸ herror) htrivia
      rw [Form.preorder, List.filter_cons_of_neg (by simpa [Form.isMalformed] using hne)]
      exact errorsOfAll_eq_filter path 0 children

theorem errorsOfAll_eq_filter (path : List Nat) (position : Nat) : (trees : List Tree) →
    (errorsOfAll source number path position trees : List (Form α)) =
      (Form.preorderAll (formsOf source number path position trees)).filter Form.isMalformed
  | [] => rfl
  | tree :: rest => by
    rw [errorsOfAll, formsOf]
    split
    · exact errorsOfAll_eq_filter path position rest
    · next htrivia =>
      rw [Form.preorderAll, List.filter_append, ← errorsOf_eq_filter _ tree (Bool.not_eq_true _ ▸ htrivia),
        ← errorsOfAll_eq_filter path (position + 1) rest]

end

/-! ### The order of errors -/

/-- The forms cover stretches of `source` between two positions, one after the other. -/
structure Ordered (source : List Char) (lo hi : Nat) (forms : List (Form α)) : Prop where
  span : ∀ form ∈ forms, ∃ start stop, form.metadata = .spanned start stop (sliceText source start stop) ∧
    lo ≤ start ∧ start < stop ∧ stop ≤ hi
  pairwise : forms.Pairwise Form.Precedes

namespace Ordered

variable {lo mid hi : Nat} {forms others : List (Form α)}

theorem nil (source : List Char) (lo hi : Nat) : Ordered source lo hi ([] : List (Form α)) := ⟨by simp, .nil⟩

theorem malformed (source : List Char) (id : FormId) {start stop : Nat} (hspan : start < stop) :
    Ordered source start stop [(malformed source id start stop : Form α)] := by
  refine ⟨fun form hform => ?_, List.pairwise_singleton _ _⟩
  obtain rfl := List.mem_singleton.mp hform
  exact ⟨start, stop, rfl, Nat.le_refl _, hspan, Nat.le_refl _⟩

theorem mono {lo' hi' : Nat} (h : Ordered source lo hi forms) (hlo : lo' ≤ lo) (hhi : hi ≤ hi') :
    Ordered source lo' hi' forms := by
  refine ⟨fun form hform => ?_, h.pairwise⟩
  obtain ⟨start, stop, hmetadata, hstart, hspan, hstop⟩ := h.span form hform
  exact ⟨start, stop, hmetadata, Nat.le_trans hlo hstart, hspan, Nat.le_trans hstop hhi⟩

theorem append (h : Ordered source lo mid forms) (h' : Ordered source mid hi others) (hlo : lo ≤ mid) (hhi : mid ≤ hi) :
    Ordered source lo hi (forms ++ others) := by
  refine ⟨fun form hform => ?_, ?_⟩
  · rcases List.mem_append.mp hform with hform | hform
    · exact (h.mono (Nat.le_refl _) hhi).span form hform
    · exact (h'.mono hlo (Nat.le_refl _)).span form hform
  · refine List.pairwise_append.mpr ⟨h.pairwise, h'.pairwise, fun a ha b hb => ?_⟩
    obtain ⟨_, stop, ha, -, -, hstop⟩ := h.span a ha
    obtain ⟨start, _, hb, hstart, -, -⟩ := h'.span b hb
    exact ⟨stop, start, by rw [ha]; rfl, by rw [hb]; rfl, Nat.le_trans hstop hstart⟩

end Ordered

theorem ordered_errorsOfAll {trees : List Tree} {path : List Nat} {lo hi position : Nat} (hle : lo ≤ hi)
    (hin : ∀ tree ∈ trees, lo ≤ tree.start ∧ tree.stop ≤ hi) (hpairs : trees.Pairwise fun a b => a.stop ≤ b.start)
    (hspan : ∀ tree ∈ trees, tree.start < tree.stop)
    (h : ∀ tree ∈ trees, ∀ path,
      Ordered source tree.start tree.stop (errorsOf source number path tree : List (Form α))) :
    Ordered source lo hi (errorsOfAll source number path position trees : List (Form α)) := by
  induction trees generalizing lo position with
  | nil => exact .nil source lo hi
  | cons tree rest ih =>
    obtain ⟨⟨hstart, hstop⟩, hrest⟩ := List.forall_mem_cons.mp hin
    obtain ⟨hbehind, hpairs⟩ := List.pairwise_cons.mp hpairs
    obtain ⟨hown, hspan⟩ := List.forall_mem_cons.mp hspan
    obtain ⟨htree, h⟩ := List.forall_mem_cons.mp h
    rw [errorsOfAll]
    split
    · exact ih hle hrest hpairs hspan h
    · have hlater : ∀ other ∈ rest, tree.stop ≤ other.start ∧ other.stop ≤ hi :=
        fun other hother => ⟨hbehind other hother, (hrest other hother).2⟩
      exact ((htree _).mono hstart (Nat.le_refl _)).append (ih hstop hlater hpairs hspan h) (by omega) hstop

/-- What is malformed in a tree is reported in the order of the source. -/
theorem ordered_errorsOf {tree : Tree} (h : tree.Whole source) (path : List Nat) :
    Ordered source tree.start tree.stop (errorsOf source number path tree : List (Form α)) := by
  induction h generalizing path with
  | @mk tree hspan _ hown hparts ih =>
    have hinside := fun (part : Tree) (hpart : part ∈ tree.children) => hown.inside hpart
    have hordered := hown.ordered
    obtain ⟨kind, start, stop, children⟩ := tree
    rw [errorsOf]
    split
    · exact .malformed source _ hspan
    · exact ordered_errorsOfAll (Nat.le_of_lt hspan) hinside hordered (fun part hpart => (hparts part hpart).span) ih

/-! ### Sources -/

theorem depicts_root (number : Nat) (source : List Char) :
    (formOf source number [] (Scan.ofSource source).root : Form α).Depicts source (Scan.ofSource source).root ∧
      (formOf source number [] (Scan.ofSource source).root : Form α).kind = .document := by
  obtain ⟨forms, consumed, hscan, -⟩ := Scan.ofSource_filled source
  rw [hscan]
  exact ⟨depicts_formOf [] _ rfl, rfl⟩

theorem errorsOf_root (number : Nat) (source : List Char) :
    (errorsOf source number [] (Scan.ofSource source).root : List (Form α)) =
      (Form.preorderAll (formOf source number [] (Scan.ofSource source).root : Form α).children).filter
        Form.isMalformed := by
  obtain ⟨forms, consumed, hscan, -⟩ := Scan.ofSource_filled source
  rw [hscan]
  exact errorsOfAll_eq_filter [] 0 forms.reverse

theorem ordered_errorsOf_root (number : Nat) (source : List Char) :
    (Scan.ofSource source).consumed ≤ source.length ∧
      Ordered source 0 (Scan.ofSource source).consumed
        (errorsOf source number [] (Scan.ofSource source).root : List (Form α)) := by
  obtain ⟨forms, consumed, hscan, hle, -, hfill, hwhole⟩ := Scan.ofSource_filled source
  rw [hscan]
  have hspan : ∀ tree ∈ forms.reverse, tree.start < tree.stop := fun tree htree =>
    (hwhole tree (List.mem_reverse.mp htree)).span
  refine ⟨hle, ordered_errorsOfAll (Nat.zero_le _) (fun tree htree => ?_) (List.pairwise_reverse.mpr hfill.ordered)
    hspan fun tree htree path => ordered_errorsOf (hwhole tree (List.mem_reverse.mp htree)) path⟩
  exact hfill.inside tree (List.mem_reverse.mp htree)

/-- A document shows the tree of its source. Text that was left over is one more malformed form at its end. Its errors
    are the malformed forms in it, as a walk through the document meets them, and they lie apart, from left to
    right. -/
theorem read_depicts (number : Nat) (source : String) :
    (∃ shown : Form α, shown.Depicts source.toList (Scan.ofSource source.toList).root ∧
      (¬(Scan.ofSource source.toList).consumed < source.toList.length →
        (read number source : Document α).root = shown) ∧
      ((Scan.ofSource source.toList).consumed < source.toList.length →
        ∃ rest : Form α, rest.kind = .syntaxError ∧ rest.children = [] ∧
          rest.metadata = .spanned (Scan.ofSource source.toList).consumed source.toList.length
            (sliceText source.toList (Scan.ofSource source.toList).consumed source.toList.length) ∧
          (read number source : Document α).root = { shown with children := shown.children ++ [rest] })) ∧
    (read number source : Document α).errors =
      (read number source : Document α).root.preorder.filter Form.isMalformed ∧
    Ordered source.toList 0 source.toList.length (read number source : Document α).errors := by
  obtain ⟨hshown, hkind⟩ := depicts_root (α := α) number source.toList
  have herrors := errorsOf_root (α := α) number source.toList
  obtain ⟨hle, hordered⟩ := ordered_errorsOf_root (α := α) number source.toList
  unfold read ofScan
  generalize Scan.ofSource source.toList = scan at hshown hkind herrors hle hordered ⊢
  generalize (formOf source.toList number [] scan.root : Form α) = shown at hshown hkind herrors ⊢
  generalize (errorsOf source.toList number [] scan.root : List (Form α)) = errors at herrors hordered ⊢
  split
  · next hlt =>
    let rest : Form α :=
      malformed source.toList (.read number [shown.children.length]) scan.consumed source.toList.length
    refine ⟨⟨shown, hshown, fun hge => absurd hlt hge, fun _ => ⟨rest, rfl, rfl, rfl, ?_⟩⟩, ?_, ?_⟩
    · rw [hkind]
    · rw [Form.preorder_eq, List.filter_cons_of_neg (by simp [Form.isMalformed]), Form.preorderAll_append,
        List.filter_append, ← herrors]
      rfl
    · exact hordered.append (.malformed source.toList _ hlt) (Nat.zero_le _) (Nat.le_of_lt hlt)
  · next hge =>
    refine ⟨⟨shown, hshown, fun _ => rfl, fun hlt => absurd hlt hge⟩, ?_, hordered.mono (Nat.le_refl _) hle⟩
    rw [Form.preorder_eq, List.filter_cons_of_neg (by simp [Form.isMalformed, hkind]), herrors]

end Document

end Lisplet
