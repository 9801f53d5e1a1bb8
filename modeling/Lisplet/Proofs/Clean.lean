import Lisplet.Proofs.Spans

/-! # Clean trees

A tree is clean if nothing in it is malformed. What a reading has taken up stays in its trees, so a reading that ends in
clean trees was clean all along: no construct was given up, every bracket closed the collection it stands in, and no
token was malformed. `Reading.step_clean` says so of one token. -/

namespace Lisplet

/-- Nothing in a tree is malformed. -/
def Tree.Clean (tree : Tree) : Prop := ∀ node : Tree, node.Within tree → node.kind.isError = false

theorem Tree.clean_iff {tree : Tree} :
    tree.Clean ↔ tree.kind.isError = false ∧ ∀ part ∈ tree.children, part.Clean := by
  refine ⟨fun h => ⟨h tree (.refl tree), fun part hpart node hnode => h node (.part hpart hnode)⟩, ?_⟩
  rintro ⟨hkind, hparts⟩ node hnode
  cases hnode with
  | refl => exact hkind
  | part hpart hnode => exact hparts _ hpart node hnode

mutual

/-- Goes through a tree to see whether it is clean. -/
def Tree.isClean : Tree → Bool
  | .node kind _ _ children => !kind.isError && Tree.allClean children

/-- The same of each of several trees. -/
def Tree.allClean : List Tree → Bool
  | [] => true
  | tree :: rest => tree.isClean && Tree.allClean rest

end

mutual

theorem Tree.isClean_iff : (tree : Tree) → (tree.isClean = true ↔ tree.Clean)
  | .node kind start stop children => by
    rw [isClean, Bool.and_eq_true, Bool.not_eq_true', allClean_iff children]
    exact (@clean_iff (.node kind start stop children)).symm

theorem Tree.allClean_iff : (trees : List Tree) → (Tree.allClean trees = true ↔ ∀ tree ∈ trees, tree.Clean)
  | [] => by simp [allClean]
  | tree :: rest => by
    rw [allClean, Bool.and_eq_true, isClean_iff tree, allClean_iff rest, List.forall_mem_cons]

end

instance (tree : Tree) : Decidable tree.Clean := decidable_of_iff _ tree.isClean_iff

/-- Nothing that a reading has taken up is malformed. -/
structure Reading.Clean (r : Reading) : Prop where
  forms : ∀ tree ∈ r.forms, tree.Clean
  pending : ∀ p ∈ r.pending, ∀ tree ∈ p.children, tree.Clean

section Clean

variable {p : Pending} {ps : List Pending} {forms : List Tree} {tree : Tree} {pos stop : Nat} {r : Reading}

theorem Pending.not_clean_abandon (p : Pending) (pos : Nat) : ¬(p.abandon pos).Clean := by
  intro h
  have hkind : (p.abandon pos).kind.isError = false := (Tree.clean_iff.mp h).1
  cases hkind

theorem Pending.clean_of_complete (h : (p.complete stop).Clean) : ∀ tree ∈ p.children, tree.Clean :=
  fun tree htree => (Tree.clean_iff.mp h).2 tree (List.mem_reverse.mpr htree)

theorem Pending.clean_of_add (h : ∀ part ∈ (p.add tree).children, part.Clean) :
    tree.Clean ∧ ∀ part ∈ p.children, part.Clean := by
  simpa [Pending.add] using h

namespace Reading

theorem Clean.of_top (h : Clean ⟨tree :: forms, []⟩) : tree.Clean ∧ Clean ⟨forms, []⟩ := by
  obtain ⟨htree, hforms⟩ := List.forall_mem_cons.mp h.forms
  exact ⟨htree, hforms, by simp⟩

theorem Clean.of_cons (h : Clean ⟨forms, p.add tree :: ps⟩) : tree.Clean ∧ Clean ⟨forms, p :: ps⟩ := by
  obtain ⟨hp, hps⟩ := List.forall_mem_cons.mp h.pending
  obtain ⟨htree, hparts⟩ := Pending.clean_of_add hp
  exact ⟨htree, h.forms, List.forall_mem_cons.mpr ⟨hparts, hps⟩⟩

theorem Clean.of_attach (h : (r.attach tree).Clean) : tree.Clean ∧ r.Clean := by
  obtain ⟨forms, pending⟩ := r
  cases pending with
  | nil => exact h.of_top
  | cons p ps => exact h.of_cons

theorem Clean.of_deliver (h : (deliver tree forms ps).Clean) : tree.Clean ∧ Clean ⟨forms, ps⟩ := by
  induction ps generalizing tree with
  | nil => exact h.of_top
  | cons p ps ih =>
    rw [deliver] at h
    split at h
    · exact h.of_cons
    · obtain ⟨hcomplete, hrest⟩ := ih h
      obtain ⟨htree, hparts⟩ := Pending.clean_of_add (Pending.clean_of_complete hcomplete)
      exact ⟨htree, hrest.forms, List.forall_mem_cons.mpr ⟨hparts, hrest.pending⟩⟩
    · obtain ⟨hp, hps⟩ := List.forall_mem_cons.mp h.pending
      obtain ⟨htree, hparts⟩ := Pending.clean_of_add hp
      exact ⟨htree, h.forms, List.forall_mem_cons.mpr ⟨hparts, hps⟩⟩

/-- What was given up is still there in the end. -/
theorem Clean.of_giveUp (h : (giveUp pos forms (some tree) ps).Clean) : tree.Clean := by
  induction ps generalizing tree with
  | nil => exact h.of_top.1
  | cons p ps ih =>
    rw [giveUp] at h
    split at h
    · exact h.of_cons.1
    · exact (Pending.clean_of_add (Pending.clean_of_complete (ih h))).1
    · exact absurd (ih h) (Pending.not_clean_abandon _ _)

/-- If nothing is malformed, nothing was given up. -/
theorem eq_of_clean_giveUp (h : (giveUp pos forms none ps).Clean) : giveUp pos forms none ps = ⟨forms, ps⟩ := by
  cases ps with
  | nil => rfl
  | cons p ps =>
    rw [giveUp] at h ⊢
    split at h
    · rfl
    · exact absurd h.of_giveUp (Pending.not_clean_abandon p pos)

theorem clean_of_finish (h : ∀ form ∈ finish pos forms (some tree) ps, form.Clean) : tree.Clean := by
  induction ps generalizing tree with
  | nil => exact h tree (by simp [finish])
  | cons p ps ih =>
    rw [finish] at h
    split at h
    · exact (Pending.clean_of_add (Pending.clean_of_complete (ih h))).1
    · exact absurd (ih h) (Pending.not_clean_abandon _ _)

theorem eq_nil_of_clean_finish (h : ∀ form ∈ finish pos forms none ps, form.Clean) : ps = [] := by
  cases ps with
  | nil => rfl
  | cons p ps => exact absurd (clean_of_finish h) (Pending.not_clean_abandon p pos)

theorem close_clean {bracket : Bracket} {start : Nat} {next : Reading}
    (hr : r.close bracket start stop = .ok next) (h : next.Clean) :
    r.Clean ∧ ∃ p ps, r.pending = p :: ps ∧ p.need = .closer bracket ∧
      next = deliver (p.complete stop) r.forms ps := by
  unfold close at hr
  cases hgiven : giveUp start r.forms none r.pending with
  | mk forms pending =>
    have hsame : Clean ⟨forms, pending⟩ → r = ⟨forms, pending⟩ := by
      intro hclean
      rw [← hgiven] at hclean
      exact (eq_of_clean_giveUp hclean).symm.trans hgiven
    rw [hgiven] at hr
    cases pending with
    | nil => cases hr
    | cons p ps =>
      dsimp only at hr
      split at hr
      · next hneed =>
        obtain rfl := Except.ok.inj hr
        obtain ⟨hcomplete, hrest⟩ := h.of_deliver
        have hclean : Clean ⟨forms, p :: ps⟩ :=
          ⟨hrest.forms, List.forall_mem_cons.mpr ⟨Pending.clean_of_complete hcomplete, hrest.pending⟩⟩
        obtain rfl := hsame hclean
        exact ⟨hclean, p, ps, rfl, hneed, rfl⟩
      · obtain rfl := Except.ok.inj hr
        have hleaf : (Tree.leaf .syntaxError start stop).kind.isError = false := (Tree.clean_iff.mp h.of_cons.1).1
        cases hleaf

/-- What a token does to a reading that stays clean. -/
theorem step_clean {token : Token} {next : Reading} (hr : r.step token = .ok next) (h : next.Clean) :
    r.Clean ∧
    ((token.lexeme = .blank ∧ next = r) ∨
      (token.lexeme = .comment ∧ next = r.attach (.leaf .comment token.start token.stop)) ∨
      (∃ kind closer, token.lexeme = .opening kind closer ∧
        next = ⟨r.forms, ⟨kind, token.start, .closer closer, []⟩ :: r.pending⟩) ∨
      (∃ kind more, token.lexeme = .mark kind more ∧
        next = ⟨r.forms, ⟨kind, token.start, .operands more, []⟩ :: r.pending⟩) ∨
      (∃ kind, token.lexeme = .leaf kind ∧ kind.isError = false ∧
        next = deliver (.leaf kind token.start token.stop) r.forms r.pending) ∨
      ∃ bracket p ps, token.lexeme = .closing bracket ∧ r.pending = p :: ps ∧ p.need = .closer bracket ∧
        next = deliver (p.complete token.stop) r.forms ps) := by
  obtain ⟨lexeme, start, stop⟩ := token
  cases lexeme with
  | blank =>
    obtain rfl := Except.ok.inj hr
    exact ⟨h, .inl ⟨rfl, rfl⟩⟩
  | comment =>
    obtain rfl := Except.ok.inj hr
    exact ⟨h.of_attach.2, .inr (.inl ⟨rfl, rfl⟩)⟩
  | opening kind closer =>
    obtain rfl := Except.ok.inj hr
    exact ⟨⟨h.forms, (List.forall_mem_cons.mp h.pending).2⟩, .inr (.inr (.inl ⟨kind, closer, rfl, rfl⟩))⟩
  | mark kind more =>
    obtain rfl := Except.ok.inj hr
    exact ⟨⟨h.forms, (List.forall_mem_cons.mp h.pending).2⟩, .inr (.inr (.inr (.inl ⟨kind, more, rfl, rfl⟩)))⟩
  | leaf kind =>
    obtain rfl := Except.ok.inj hr
    obtain ⟨hleaf, hclean⟩ := h.of_deliver
    exact ⟨hclean, .inr (.inr (.inr (.inr (.inl ⟨kind, rfl, (Tree.clean_iff.mp hleaf).1, rfl⟩))))⟩
  | closing bracket =>
    obtain ⟨hclean, p, ps, hpending, hneed, hnext⟩ := close_clean hr h
    exact ⟨hclean, .inr (.inr (.inr (.inr (.inr ⟨bracket, p, ps, rfl, hpending, hneed, hnext⟩))))⟩

end Reading

end Clean

end Lisplet
