import Lisplet.Proofs.Depicted
import Lisplet.Proofs.Reached

/-! # Marks and their operands

A reader mark stands before its operands: a tag before two forms, any other mark before one. In the tree of a source a
mark has all its operands, or it was given up and is malformed. Comments are no operands, but discarded forms are, and
the document leaves them out afterwards: a form lacks as many operands as its mark has discarded ones, and `'#_a` is a
quote of nothing.

A reading moves trees between the constructs that are open (`Reading.Serves.take`, `operand`, `complete`, `abandon`).
Each move keeps track of what the open marks still wait for, and of where every mark that was read has gone. -/

namespace Lisplet

/-- How many operands a form of this kind has, if it is written with a mark. -/
def FormKind.operands? : FormKind → Option Nat
  | quote | backtick | unquote | unquoteSplicing | deref | varQuote => some 1
  | tag => some 2
  | _ => none

/-- How many operands the mark of a tree of this kind takes, if it has one and is not left out. -/
def TreeKind.operands? (kind : TreeKind) : Option Nat := kind.toFormKind.operands?

/-- How many of the parts of a mark are operands: all but the comments. -/
def Tree.taken (parts : List Tree) : Nat := parts.countP (·.kind != .comment)

/-- Every mark within a tree has as many operands as it takes. -/
def Tree.Sated (tree : Tree) : Prop :=
  ∀ node : Tree, node.Within tree → ∀ n, node.kind.operands? = some n → Tree.taken node.children = n

/-- A mark that was read: where it stands, what it is and how many operands it takes. -/
structure Mark where
  start : Nat
  kind : TreeKind
  count : Nat
  takes : kind.operands? = some count

/-- A node is what became of a mark: it has its operands, or it is malformed because it lacks some. -/
def Mark.Settled (m : Mark) (node : Tree) : Prop :=
  node.start = m.start ∧
    (node.kind = m.kind ∧ Tree.taken node.children = m.count ∨
      node.kind = .syntaxError ∧ Tree.taken node.children < m.count)

/-- What became of a mark stands in a tree. -/
def Tree.Holds (tree : Tree) (m : Mark) : Prop := ∃ node : Tree, node.Within tree ∧ m.Settled node

/-- An open construct is a mark, or has what became of it in one of its parts. -/
def Pending.Holds (p : Pending) (m : Mark) : Prop :=
  p.start = m.start ∧ p.kind = m.kind ∨ ∃ tree ∈ p.children, tree.Holds m

/-- An open construct has marks with all their operands in it, and if it is a mark, it waits for those that it lacks. -/
structure Pending.Sated (p : Pending) : Prop where
  kind : p.kind ≠ .comment
  parts : ∀ tree ∈ p.children, tree.Sated
  owed : ∀ n, p.kind.operands? = some n → ∃ more, p.need = .operands more ∧ Tree.taken p.children + more + 1 = n

/-- Trees at the top level and open constructs in which all is sated and no mark of `seen` is lost. -/
structure Reading.Serves (seen : Mark → Prop) (forms : List Tree) (ps : List Pending) : Prop where
  trees : ∀ tree ∈ forms, tree.Sated
  pending : ∀ p ∈ ps, p.Sated
  held : ∀ m, seen m → (∃ tree ∈ forms, tree.Holds m) ∨ ∃ p ∈ ps, p.Holds m

/-- A token that is a mark. -/
def Mark.Written (m : Mark) (token : Token) : Prop :=
  token.start = m.start ∧ ∃ more, token.lexeme = .mark m.kind more

/-! ### Lexemes -/

namespace TreeKind

variable {kind : TreeKind} {text after : List Char} {c : Char}

theorem ne_comment_of_delimiters? (h : kind.delimiters? = some (text, after)) : kind ≠ .comment := by
  rintro rfl
  cases h

/-- What ends with a bracket is no mark. -/
theorem operands?_of_closed (h : kind.delimiters? = some (text, [c])) : kind.operands? = none := by
  cases kind with
  | quote | backtick | unquote | unquoteSplicing | deref | varQuote | tag => cases h
  | _ => rfl

/-- A tree without parts is no mark. -/
theorem operands?_of_leaf (h : kind.delimiters? = none) : kind.operands? = none := by
  cases kind with
  | quote | backtick | unquote | unquoteSplicing | deref | varQuote | tag => cases h
  | _ => rfl

end TreeKind

namespace Lexeme

variable {kind : TreeKind}

theorem ne_comment_of_leaf (h : (leaf kind).Sound) : kind ≠ .comment := by
  rintro rfl
  rcases h with herror | ⟨form, hform⟩
  · cases herror
  · cases (FormKind.toFormKind_of_lexeme? hform rfl).2.2

/-- A mark is read as one that waits for its operands. -/
theorem operands_of_mark {more n : Nat} (h : (mark kind more).Sound) (hn : kind.operands? = some n) : n = more + 1 := by
  rcases h with htrivia | ⟨form, hform⟩
  · cases kind with
    | discard | comment => cases hn
    | _ => cases htrivia
  · rw [TreeKind.operands?, (FormKind.toFormKind_of_lexeme? hform rfl).1] at hn
    cases form with
    | quote | backtick | unquote | unquoteSplicing | deref | varQuote | tag =>
      obtain rfl := Option.some.inj hn
      obtain ⟨-, rfl⟩ := Lexeme.mark.inj (Option.some.inj hform)
      rfl
    | _ => cases hn

end Lexeme

theorem Token.Stands.sound {source : List Char} {token : Token} (h : token.Stands source) : token.lexeme.Sound := by
  cases h with
  | @mk pos c cs _ => exact Lexeme.first_sound c cs

/-! ### Trees and open constructs -/

section Operands

variable {seen : Mark → Prop} {forms : List Tree} {tree : Tree} {p : Pending} {ps : List Pending} {m : Mark}
  {pos stop : Nat}

theorem Tree.sated_iff :
    tree.Sated ↔ (∀ n, tree.kind.operands? = some n → Tree.taken tree.children = n) ∧
      ∀ part ∈ tree.children, part.Sated := by
  refine ⟨fun h => ⟨h tree (.refl tree), fun part hpart node hnode => h node (.part hpart hnode)⟩, ?_⟩
  rintro ⟨hown, hparts⟩ node hnode
  cases hnode with
  | refl => exact hown
  | part hpart hnode => exact hparts _ hpart node hnode

theorem Tree.sated_leaf {kind : TreeKind} (h : kind.operands? = none) (start stop : Nat) :
    (Tree.leaf kind start stop).Sated := by
  refine Tree.sated_iff.mpr ⟨fun n hn => ?_, by simp [Tree.leaf, Tree.children]⟩
  have hkind : kind.operands? = some n := hn
  rw [h] at hkind
  cases hkind

theorem Tree.Holds.of_part {part : Tree} (h : part.Holds m) (hpart : part ∈ tree.children) : tree.Holds m := by
  obtain ⟨node, hnode, hsettled⟩ := h
  exact ⟨node, .part hpart hnode, hsettled⟩

theorem Pending.holds_add : (p.add tree).Holds m ↔ tree.Holds m ∨ p.Holds m := by
  simp only [Pending.Holds, Pending.add, List.mem_cons, exists_eq_or_imp]
  exact or_left_comm

theorem Pending.taken_add (hkind : tree.kind ≠ .comment) :
    Tree.taken (p.add tree).children = Tree.taken p.children + 1 := by
  simp [Pending.add, Tree.taken, hkind]

theorem Tree.taken_reverse (parts : List Tree) : Tree.taken parts.reverse = Tree.taken parts := List.countP_reverse

/-- A mark with all its operands is settled when it is completed. -/
theorem Pending.Holds.complete (h : p.Holds m) (hfull : p.kind = m.kind → Tree.taken p.children = m.count) :
    (p.complete stop).Holds m := by
  rcases h with ⟨hstart, hkind⟩ | ⟨part, hpart, hholds⟩
  · refine ⟨_, .refl _, hstart, .inl ⟨hkind, ?_⟩⟩
    exact (Tree.taken_reverse _).trans (hfull hkind)
  · exact hholds.of_part (List.mem_reverse.mpr hpart)

/-- A mark that waits for operands is settled when it is given up. -/
theorem Pending.Holds.abandon (h : p.Holds m) (hp : p.Sated) : (p.abandon stop).Holds m := by
  rcases h with ⟨hstart, hkind⟩ | ⟨part, hpart, hholds⟩
  · refine ⟨_, .refl _, hstart, .inr ⟨rfl, ?_⟩⟩
    obtain ⟨more, -, howed⟩ := hp.owed m.count (hkind ▸ m.takes)
    show Tree.taken p.children.reverse < m.count
    rw [Tree.taken_reverse]
    omega
  · exact hholds.of_part (List.mem_reverse.mpr hpart)

/-- What waits for a bracket is no mark. -/
theorem Pending.Sated.operands?_ne {bracket : Bracket} (hp : p.Sated) (hneed : p.need = .closer bracket) (n : Nat) :
    p.kind.operands? ≠ some n := by
  intro hn
  obtain ⟨more, hmore, -⟩ := hp.owed n hn
  rw [hneed] at hmore
  cases hmore

/-- Nothing but a collection is open once operands were given up. -/
theorem Reading.giveUp_collects (pos : Nat) (forms : List Tree) (held : Option Tree) (ps : List Pending) :
    (Reading.giveUp pos forms held ps).Collects := by
  induction ps generalizing held with
  | nil =>
    cases held with
    | none => simp [Reading.giveUp, Reading.Collects]
    | some tree => simp [Reading.giveUp, Reading.Collects]
  | cons p ps ih =>
    cases held with
    | none =>
      rw [Reading.giveUp]
      split
      · next bracket hneed => simpa [Reading.Collects] using ⟨bracket, hneed⟩
      · exact ih _
    | some tree =>
      rw [Reading.giveUp]
      split
      · next bracket hneed => simpa [Reading.Collects, Pending.add] using ⟨bracket, hneed⟩
      · exact ih _
      · exact ih _

namespace Reading.Serves

/-! ### Moves -/

/-- Where a mark is when the innermost construct is about to take a tree. -/
theorem held_of_add (h : Serves seen (tree :: forms) (p :: ps)) (hm : seen m) :
    (p.add tree).Holds m ∨ (∃ tree ∈ forms, tree.Holds m) ∨ ∃ p ∈ ps, p.Holds m := by
  rw [Pending.holds_add]
  rcases h.held m hm with ⟨other, hother, hholds⟩ | ⟨other, hother, hholds⟩
  · rcases List.mem_cons.mp hother with rfl | hother
    · exact .inl (.inl hholds)
    · exact .inr (.inl ⟨other, hother, hholds⟩)
  · rcases List.mem_cons.mp hother with rfl | hother
    · exact .inl (.inr hholds)
    · exact .inr (.inr ⟨other, hother, hholds⟩)

theorem push (h : Serves seen forms ps) (hp : p.Sated) : Serves seen forms (p :: ps) := by
  refine ⟨h.trees, List.forall_mem_cons.mpr ⟨hp, h.pending⟩, fun m hm => ?_⟩
  rcases h.held m hm with hholds | ⟨other, hother, hholds⟩
  · exact .inl hholds
  · exact .inr ⟨other, List.mem_cons_of_mem _ hother, hholds⟩

theorem cons (h : Serves seen forms ps) (ht : tree.Sated) : Serves seen (tree :: forms) ps := by
  refine ⟨List.forall_mem_cons.mpr ⟨ht, h.trees⟩, h.pending, fun m hm => ?_⟩
  rcases h.held m hm with ⟨other, hother, hholds⟩ | hholds
  · exact .inl ⟨other, List.mem_cons_of_mem _ hother, hholds⟩
  · exact .inr hholds

/-- The innermost construct takes a tree and stays open. -/
theorem add {need : Need} (h : Serves seen (tree :: forms) (p :: ps))
    (howed : ∀ n, p.kind.operands? = some n →
      ∃ more, need = .operands more ∧ Tree.taken (p.add tree).children + more + 1 = n) :
    Serves seen forms ({ p.add tree with need := need } :: ps) := by
  obtain ⟨htree, htrees⟩ := List.forall_mem_cons.mp h.trees
  obtain ⟨hp, hps⟩ := List.forall_mem_cons.mp h.pending
  have hparts : ∀ part ∈ (p.add tree).children, part.Sated := List.forall_mem_cons.mpr ⟨htree, hp.parts⟩
  refine ⟨htrees, List.forall_mem_cons.mpr ⟨⟨hp.kind, hparts, howed⟩, hps⟩, fun m hm => ?_⟩
  rcases h.held_of_add hm with hholds | hholds | ⟨other, hother, hholds⟩
  · exact .inr ⟨_, List.mem_cons_self, hholds⟩
  · exact .inl hholds
  · exact .inr ⟨other, List.mem_cons_of_mem _ hother, hholds⟩

theorem take {bracket : Bracket} (h : Serves seen (tree :: forms) (p :: ps)) (hneed : p.need = .closer bracket) :
    Serves seen forms (p.add tree :: ps) :=
  h.add fun n hn => absurd hn ((h.pending p List.mem_cons_self).operands?_ne hneed n)

theorem comment (h : Serves seen (tree :: forms) (p :: ps)) (hkind : tree.kind = .comment) :
    Serves seen forms (p.add tree :: ps) := by
  refine h.add fun n hn => ?_
  obtain ⟨more, hmore, howed⟩ := (h.pending p List.mem_cons_self).owed n hn
  refine ⟨more, hmore, ?_⟩
  simpa [Pending.add, Tree.taken, hkind] using howed

theorem operand {more : Nat} (h : Serves seen (tree :: forms) (p :: ps)) (hkind : tree.kind ≠ .comment)
    (hneed : p.need = .operands (more + 1)) :
    Serves seen forms ({ p.add tree with need := .operands more } :: ps) := by
  refine h.add fun n hn => ⟨more, rfl, ?_⟩
  obtain ⟨more', hmore, howed⟩ := (h.pending p List.mem_cons_self).owed n hn
  rw [hneed] at hmore
  obtain rfl := Need.operands.inj hmore
  rw [Pending.taken_add hkind]
  omega

/-- A mark is completed by its last operand. -/
theorem complete (h : Serves seen (tree :: forms) (p :: ps)) (hkind : tree.kind ≠ .comment)
    (hneed : p.need = .operands 0) (stop : Nat) : Serves seen ((p.add tree).complete stop :: forms) ps := by
  obtain ⟨htree, htrees⟩ := List.forall_mem_cons.mp h.trees
  obtain ⟨hp, hps⟩ := List.forall_mem_cons.mp h.pending
  have hfull : ∀ n, p.kind.operands? = some n → Tree.taken (p.add tree).children = n := fun n hn => by
    obtain ⟨more, hmore, howed⟩ := hp.owed n hn
    rw [hneed] at hmore
    obtain rfl := Need.operands.inj hmore
    rw [Pending.taken_add hkind]
    exact howed
  have hsated : ((p.add tree).complete stop).Sated := by
    refine Tree.sated_iff.mpr ⟨fun n hn => (Tree.taken_reverse _).trans (hfull n hn), fun part hpart => ?_⟩
    exact (List.forall_mem_cons.mpr ⟨htree, hp.parts⟩) part (List.mem_reverse.mp hpart)
  refine ⟨List.forall_mem_cons.mpr ⟨hsated, htrees⟩, hps, fun m hm => ?_⟩
  rcases h.held_of_add hm with hholds | ⟨other, hother, hholds⟩ | hholds
  · exact .inl ⟨_, List.mem_cons_self, hholds.complete fun hmark => hfull _ (hmark ▸ m.takes)⟩
  · exact .inl ⟨other, List.mem_cons_of_mem _ hother, hholds⟩
  · exact .inr hholds

/-- The innermost construct becomes a tree. -/
theorem shut (h : Serves seen forms (p :: ps)) (ht : tree.Sated) (hholds : ∀ m, p.Holds m → tree.Holds m) :
    Serves seen (tree :: forms) ps := by
  obtain ⟨-, hps⟩ := List.forall_mem_cons.mp h.pending
  refine ⟨List.forall_mem_cons.mpr ⟨ht, h.trees⟩, hps, fun m hm => ?_⟩
  rcases h.held m hm with ⟨other, hother, hin⟩ | ⟨other, hother, hin⟩
  · exact .inl ⟨other, List.mem_cons_of_mem _ hother, hin⟩
  · rcases List.mem_cons.mp hother with rfl | hother
    · exact .inl ⟨tree, List.mem_cons_self, hholds m hin⟩
    · exact .inr ⟨other, hother, hin⟩

theorem abandon (h : Serves seen forms (p :: ps)) (pos : Nat) : Serves seen (p.abandon pos :: forms) ps := by
  have hp := h.pending p List.mem_cons_self
  have hsated : (p.abandon pos).Sated :=
    Tree.sated_iff.mpr ⟨fun _ hn => (nomatch hn), fun part hpart => hp.parts part (List.mem_reverse.mp hpart)⟩
  exact h.shut hsated fun m hm => hm.abandon hp

/-- A collection is completed by its bracket. -/
theorem close {bracket : Bracket} (h : Serves seen forms (p :: ps)) (hneed : p.need = .closer bracket) (stop : Nat) :
    Serves seen (p.complete stop :: forms) ps := by
  have hp := h.pending p List.mem_cons_self
  have hnone := hp.operands?_ne hneed
  have hsated : (p.complete stop).Sated :=
    Tree.sated_iff.mpr ⟨fun n hn => absurd hn (hnone n), fun part hpart => hp.parts part (List.mem_reverse.mp hpart)⟩
  exact h.shut hsated fun m hm => hm.complete fun hkind => absurd (hkind ▸ m.takes) (hnone _)

theorem mono {other : Mark → Prop} (h : Serves seen forms ps) (hother : ∀ m, other m → seen m) :
    Serves other forms ps :=
  ⟨h.trees, h.pending, fun m hm => h.held m (hother m hm)⟩

/-! ### Readings -/

theorem attach {r : Reading} (h : Serves seen r.forms r.pending) (start stop : Nat) :
    Serves seen (r.attach (.leaf .comment start stop)).forms (r.attach (.leaf .comment start stop)).pending := by
  have hcons := h.cons (Tree.sated_leaf rfl start stop : (Tree.leaf .comment start stop).Sated)
  obtain ⟨forms, pending⟩ := r
  cases pending with
  | nil => exact hcons
  | cons p ps => exact hcons.comment rfl

theorem deliver (h : Serves seen (tree :: forms) ps) (hkind : tree.kind ≠ .comment) :
    Serves seen (Reading.deliver tree forms ps).forms (Reading.deliver tree forms ps).pending := by
  induction ps generalizing tree with
  | nil => exact h
  | cons p ps ih =>
    have hp := h.pending p List.mem_cons_self
    rw [Reading.deliver]
    split
    · next hneed => exact h.take hneed
    · next hneed => exact ih (h.complete hkind hneed _) hp.kind
    · next hneed => exact h.operand hkind hneed

theorem giveUp (held : Option Tree) (h : Serves seen (held.toList ++ forms) ps)
    (hkind : ∀ tree ∈ held, tree.kind ≠ .comment) :
    Serves seen (Reading.giveUp pos forms held ps).forms (Reading.giveUp pos forms held ps).pending := by
  induction ps generalizing held with
  | nil =>
    cases held with
    | none => exact h
    | some tree => exact h
  | cons p ps ih =>
    have hp := h.pending p List.mem_cons_self
    cases held with
    | none =>
      rw [Reading.giveUp]
      split
      · exact h
      · exact ih (some _) (h.abandon pos) (by simp [Pending.abandon, Tree.kind])
    | some tree =>
      have htree := hkind tree rfl
      rw [Reading.giveUp]
      split
      · next hneed => exact h.take hneed
      · next hneed => exact ih (some _) (h.complete htree hneed _) (by rintro _ ⟨⟩; exact hp.kind)
      · next hneed =>
        exact ih (some _) ((h.operand htree hneed).abandon pos) (by simp [Pending.abandon, Tree.kind])

theorem finish (held : Option Tree) (h : Serves seen (held.toList ++ forms) ps)
    (hkind : ∀ tree ∈ held, tree.kind ≠ .comment) : Serves seen (Reading.finish pos forms held ps) [] := by
  induction ps generalizing held with
  | nil =>
    cases held with
    | none => exact h
    | some tree => exact h
  | cons p ps ih =>
    have hp := h.pending p List.mem_cons_self
    cases held with
    | none => exact ih (some _) (h.abandon pos) (by simp [Pending.abandon, Tree.kind])
    | some tree =>
      have htree := hkind tree rfl
      rw [Reading.finish]
      split
      · next hneed => exact ih (some _) (h.complete htree hneed _) (by rintro _ ⟨⟩; exact hp.kind)
      · next hneed =>
        refine ih (some ((p.add tree).abandon pos)) ?_ (by simp [Pending.abandon, Tree.kind])
        cases hopen : p.need with
        | closer bracket => exact (h.take hopen).abandon pos
        | operands more =>
          cases more with
          | zero => exact absurd hopen hneed
          | succ more => exact (h.operand htree hopen).abandon pos

/-- A closing bracket ends the innermost collection, or is malformed there. -/
theorem closing {r : Reading} (h : Serves seen r.forms r.pending) (bracket : Bracket) (start stop : Nat) :
    (∀ next, r.close bracket start stop = .ok next → Serves seen next.forms next.pending) ∧
      ∀ forms, r.close bracket start stop = .error forms → Serves seen forms [] := by
  have hgiven : Serves seen (Reading.giveUp start r.forms none r.pending).forms
      (Reading.giveUp start r.forms none r.pending).pending := giveUp none h (by simp)
  have hcollects := giveUp_collects start r.forms none r.pending
  unfold Reading.close
  generalize Reading.giveUp start r.forms none r.pending = given at hgiven hcollects
  obtain ⟨forms, pending⟩ := given
  cases pending with
  | nil =>
    refine ⟨by simp, fun forms' hforms => ?_⟩
    obtain rfl := Except.error.inj hforms
    exact hgiven
  | cons p ps =>
    have hp : p.Sated := hgiven.pending p List.mem_cons_self
    dsimp only
    split
    · next hneed =>
      refine ⟨fun next hnext => ?_, by simp⟩
      obtain rfl := Except.ok.inj hnext
      exact deliver (hgiven.close hneed stop) hp.kind
    · next hneed =>
      refine ⟨fun next hnext => ?_, by simp⟩
      obtain rfl := Except.ok.inj hnext
      obtain ⟨other, hother⟩ := hcollects p rfl
      exact (hgiven.cons (Tree.sated_leaf rfl start stop)).take hother

/-- A token opens a construct, is a form, or moves what is open; if it is a mark, it is held from then on. -/
theorem step {source : List Char} {r : Reading} {token : Token} (ht : token.Stands source)
    (h : Serves seen r.forms r.pending) :
    (∀ next, r.step token = .ok next → Serves (fun m => seen m ∨ m.Written token) next.forms next.pending) ∧
      ∀ forms, r.step token = .error forms → Serves seen forms [] := by
  have hspelt := ht.spelt
  have hsound := ht.sound
  have hunmarked : (∀ kind more, token.lexeme ≠ .mark kind more) → ∀ m, seen m ∨ m.Written token → seen m := by
    rintro hne m (hm | ⟨-, more, hlexeme⟩)
    · exact hm
    · exact absurd hlexeme (hne _ _)
  obtain ⟨lexeme, start, stop⟩ := token
  dsimp only at hspelt hsound hunmarked
  cases lexeme with
  | blank =>
    refine ⟨fun next hnext => ?_, fun forms hforms => nomatch hforms⟩
    obtain rfl := Except.ok.inj hnext
    exact h.mono (hunmarked (by simp))
  | comment =>
    refine ⟨fun next hnext => ?_, fun forms hforms => nomatch hforms⟩
    obtain rfl := Except.ok.inj hnext
    exact (h.attach start stop).mono (hunmarked (by simp))
  | opening kind closer =>
    refine ⟨fun next hnext => ?_, fun forms hforms => nomatch hforms⟩
    obtain rfl := Except.ok.inj hnext
    have hp : Pending.Sated ⟨kind, start, .closer closer, []⟩ := by
      refine ⟨TreeKind.ne_comment_of_delimiters? hspelt.1, by simp, fun n hn => ?_⟩
      rw [TreeKind.operands?_of_closed hspelt.1] at hn
      cases hn
    exact (h.push hp).mono (hunmarked (by simp))
  | mark kind more =>
    refine ⟨fun next hnext => ?_, fun forms hforms => nomatch hforms⟩
    obtain rfl := Except.ok.inj hnext
    have hp : Pending.Sated ⟨kind, start, .operands more, []⟩ := by
      refine ⟨TreeKind.ne_comment_of_delimiters? hspelt.1, by simp, fun n hn => ⟨more, rfl, ?_⟩⟩
      rw [Lexeme.operands_of_mark hsound hn]
      simp [Tree.taken]
    have hpush := h.push hp
    refine ⟨hpush.trees, hpush.pending, fun m hm => ?_⟩
    rcases hm with hm | ⟨hstart, more', hlexeme⟩
    · exact hpush.held m hm
    · exact .inr ⟨_, List.mem_cons_self, .inl ⟨hstart, (Lexeme.mark.inj hlexeme).1⟩⟩
  | leaf kind =>
    refine ⟨fun next hnext => ?_, fun forms hforms => nomatch hforms⟩
    obtain rfl := Except.ok.inj hnext
    have hleaf : (Tree.leaf kind start stop).Sated := Tree.sated_leaf (TreeKind.operands?_of_leaf hspelt) start stop
    exact ((h.cons hleaf).deliver (Lexeme.ne_comment_of_leaf hsound)).mono (hunmarked (by simp))
  | closing bracket =>
    obtain ⟨hnext, hstop⟩ := h.closing bracket start stop
    exact ⟨fun next hr => (hnext next hr).mono (hunmarked (by simp)), hstop⟩

end Reading.Serves

end Operands

/-! ### Sources -/

namespace Token

variable {source : List Char} {skip pos : Nat} {cs : List Char} {token : Token}

theorem le_start_of_mem_allFrom (h : token ∈ allFrom skip pos cs) : pos ≤ token.start := by
  induction cs generalizing skip pos with
  | nil => simp [allFrom] at h
  | cons c cs ih =>
    cases skip with
    | succ skip =>
      rw [allFrom] at h
      exact Nat.le_of_succ_le (ih h)
    | zero =>
      simp only [allFrom, List.mem_cons] at h
      rcases h with rfl | h
      · exact Nat.le_refl pos
      · exact Nat.le_of_succ_le (ih h)

/-- Tokens come in the order of the source. -/
theorem pairwise_allFrom (skip pos : Nat) (cs : List Char) :
    (allFrom skip pos cs).Pairwise fun a b => a.start < b.start := by
  induction cs generalizing skip pos with
  | nil => simp [allFrom]
  | cons c cs ih =>
    cases skip with
    | succ skip => exact ih skip (pos + 1)
    | zero => exact .cons (fun token htoken => le_start_of_mem_allFrom htoken) (ih _ (pos + 1))

theorem stands_of_mem_allFrom (hdrop : source.drop pos = cs) (h : token ∈ allFrom skip pos cs) :
    token.Stands source := by
  induction cs generalizing skip pos with
  | nil => simp [allFrom] at h
  | cons c cs ih =>
    have hnext : source.drop (pos + 1) = cs := by
      rw [← List.drop_drop, hdrop, List.drop_succ_cons, List.drop_zero]
    cases skip with
    | succ skip => exact ih hnext h
    | zero =>
      simp only [allFrom, List.mem_cons] at h
      rcases h with rfl | h
      · exact .mk hdrop
      · exact ih hnext h

end Token

namespace Scan

theorem resume_serves {source : List Char} (length : Nat) {tokens : List Token}
    (hstands : ∀ token ∈ tokens, token.Stands source) (hsorted : tokens.Pairwise fun a b => a.start < b.start)
    {seen : Mark → Prop} {r : Reading} (h : Reading.Serves seen r.forms r.pending) :
    ∃ forms consumed, resume length r tokens = ofForms forms consumed ∧
      Reading.Serves (fun m => seen m ∨ ∃ token ∈ tokens, token.start < consumed ∧ m.Written token) forms [] := by
  induction tokens generalizing r seen with
  | nil =>
    refine ⟨_, _, rfl, (h.finish none (by simp)).mono fun m hm => ?_⟩
    simpa using hm
  | cons token rest ih =>
    obtain ⟨htoken, hrest⟩ := List.forall_mem_cons.mp hstands
    obtain ⟨hlater, hsorted⟩ := List.pairwise_cons.mp hsorted
    obtain ⟨hnext, hstop⟩ := h.step htoken
    rw [resume]
    split
    · next next hr =>
      obtain ⟨forms, consumed, hscan, hserves⟩ := ih hrest hsorted (hnext next hr)
      refine ⟨forms, consumed, hscan, hserves.mono fun m hm => ?_⟩
      rcases hm with hm | ⟨other, hother, hlt, hwritten⟩
      · exact .inl (.inl hm)
      · rcases List.mem_cons.mp hother with rfl | hother
        · exact .inl (.inr hwritten)
        · exact .inr ⟨other, hother, hlt, hwritten⟩
    · next forms hr =>
      refine ⟨forms, token.start, rfl, (hstop forms hr).mono fun m hm => ?_⟩
      rcases hm with hm | ⟨other, hother, hlt, -⟩
      · exact hm
      · -- the tokens from here on do not start in what was consumed
        rcases List.mem_cons.mp hother with rfl | hother
        · exact absurd hlt (Nat.lt_irrefl _)
        · exact absurd hlt (Nat.not_lt.mpr (Nat.le_of_lt (hlater other hother)))

/-- All marks of a tree have their operands, and every mark that was consumed has become a node of the tree. -/
theorem ofSource_sated (source : List Char) :
    (ofSource source).root.Sated ∧
      ∀ token ∈ Token.all source, token.start < (ofSource source).consumed →
        ∀ m : Mark, m.Written token → (ofSource source).root.Holds m := by
  have hstart : Reading.Serves (fun _ => False) [] [] := ⟨by simp, by simp, fun _ hm => hm.elim⟩
  obtain ⟨forms, consumed, hscan, hserves⟩ := resume_serves source.length
    (fun token htoken => Token.stands_of_mem_allFrom (List.drop_zero : source.drop 0 = source) htoken)
    (Token.pairwise_allFrom 0 0 source) (r := ⟨[], []⟩) hstart
  have hroot : ofSource source = ofForms forms consumed := hscan
  rw [hroot]
  refine ⟨Tree.sated_iff.mpr ⟨fun _ hn => (nomatch hn), fun part hpart => ?_⟩, fun token htoken hlt m hm => ?_⟩
  · exact hserves.trees part (List.mem_reverse.mp hpart)
  · rcases hserves.held m (.inr ⟨token, htoken, hlt, hm⟩) with ⟨tree, htree, hholds⟩ | ⟨_, hp, -⟩
    · exact hholds.of_part (List.mem_reverse.mpr htree)
    · cases hp

end Scan

/-! ### Documents -/

/-- The operands of a mark are those that the document keeps and those that were discarded. -/
theorem Tree.taken_eq (parts : List Tree) :
    Tree.taken parts =
      (parts.filter fun part => !part.kind.isTrivia).length + parts.countP (·.kind == .discard) := by
  induction parts with
  | nil => rfl
  | cons part rest ih =>
    rw [Tree.taken] at ih ⊢
    rw [List.countP_cons, List.countP_cons, List.filter_cons, ih]
    by_cases hdiscard : part.kind = .discard
    · simp [hdiscard, TreeKind.isTrivia]
      omega
    · by_cases hcomment : part.kind = .comment
      · simp [hcomment, TreeKind.isTrivia]
      · simp [hdiscard, hcomment, TreeKind.isTrivia]
        omega

theorem FormKind.name_injective {a b : FormKind} (h : a.name = b.name) : a = b := by
  have hname : ∀ kind : FormKind, FormKind.ofName? kind.name = some kind := by
    intro kind
    cases kind <;> decide
  have hsome := hname a
  rw [h, hname b] at hsome
  exact (Option.some.inj hsome).symm

namespace Form

variable {α : Type} {source : List Char}

/-- A form within a form that shows a tree shows a tree within that one. -/
theorem Depicts.within {node form : Form α} {tree : Tree} (h : form.Depicts source tree)
    (htrivia : tree.kind.isTrivia = false) (hw : node.Within form) :
    ∃ part : Tree, part.Within tree ∧ part.kind.isTrivia = false ∧ node.Depicts source part := by
  induction hw generalizing tree with
  | refl => exact ⟨tree, .refl tree, htrivia, h⟩
  | @part part form hpart _ ih =>
    cases h with
    | malformed _ _ _ hparts =>
      rw [hparts] at hpart
      cases hpart
    | whole _ _ _ hparts =>
      obtain ⟨⟨i, hi⟩, rfl⟩ := List.get_of_mem hpart
      have hi' := hparts.length_eq ▸ hi
      obtain ⟨hmem, hkind⟩ := List.mem_filter.mp (List.get_mem _ ⟨i, hi'⟩)
      obtain ⟨shown, hshown, hrest⟩ := ih (hparts.get hi hi') (by simpa using hkind)
      exact ⟨shown, .part hmem hshown, hrest⟩

/-- A form with a mark shows a mark of the same kind. -/
theorem Depicts.operands {form : Form α} {tree : Tree} (h : form.Depicts source tree)
    (htrivia : tree.kind.isTrivia = false) {n : Nat} (hn : form.kind.operands? = some n) :
    tree.kind.operands? = some n ∧
      form.children.length = (tree.children.filter fun part => !part.kind.isTrivia).length := by
  cases h with
  | malformed _ hkind =>
    rw [hkind] at hn
    cases hn
  | whole herror hkind _ hparts =>
    rw [← TreeKind.name_toFormKind herror htrivia] at hkind
    rw [FormKind.name_injective hkind] at hn
    exact ⟨hn, hparts.length_eq⟩

end Form

namespace Document

variable {α : Type}

/-- A form of a document is its root, shows a node of the tree, or is the text that was left over. -/
theorem exists_depicted (number : Nat) (source : String) {form : Form α}
    (hw : form.Within (read number source : Document α).root) {n : Nat} (hn : form.kind.operands? = some n) :
    ∃ node : Tree, node.Within (Scan.ofSource source.toList).root ∧ node.kind.isTrivia = false ∧
      form.Depicts source.toList node := by
  obtain ⟨hshown, hkind⟩ := depicts_root (α := α) number source.toList
  have hroot : (Scan.ofSource source.toList).root.kind.isTrivia = false := by
    obtain ⟨forms, consumed, hscan, -⟩ := Scan.ofSource_filled source.toList
    rw [hscan]
    rfl
  unfold read ofScan at hw
  split at hw
  · cases hw with
    | refl => cases hn
    | part hpart hw =>
      rcases List.mem_append.mp hpart with hpart | hpart
      · exact hshown.within hroot (.part hpart hw)
      · obtain rfl := List.mem_singleton.mp hpart
        cases hw with
        | refl => cases hn
        | part hpart => cases hpart
  · exact hshown.within hroot hw

/-- A form with a mark has the operands that the mark has in the tree of the source, less those that are discarded.
    There a mark has all its operands, and one that lacks some has become malformed instead. -/
theorem read_operands (number : Nat) (source : String) :
    (∀ form : Form α, form.Within (read number source : Document α).root → ∀ n, form.kind.operands? = some n →
      ∃ node : Tree, node.Within (Scan.ofSource source.toList).root ∧ form.Depicts source.toList node ∧
        Tree.taken node.children = n ∧ form.children.length + node.children.countP (·.kind == .discard) = n) ∧
    ∀ token ∈ Token.all source.toList, token.start < (Scan.ofSource source.toList).consumed →
      ∀ kind more n, token.lexeme = .mark kind more → kind.operands? = some n →
        ∃ node : Tree, node.Within (Scan.ofSource source.toList).root ∧ node.start = token.start ∧
          (node.kind = kind ∧ Tree.taken node.children = n ∨
            node.kind = .syntaxError ∧ Tree.taken node.children < n) := by
  obtain ⟨hsated, hholds⟩ := Scan.ofSource_sated source.toList
  refine ⟨fun form hw n hn => ?_, fun token htoken hlt kind more n hmark hn => ?_⟩
  · obtain ⟨node, hnode, htrivia, hdepicts⟩ := exists_depicted number source hw hn
    obtain ⟨hkind, hlength⟩ := hdepicts.operands htrivia hn
    have htaken := hsated node hnode n hkind
    refine ⟨node, hnode, hdepicts, htaken, ?_⟩
    rw [hlength, ← Tree.taken_eq, htaken]
  · exact hholds token htoken hlt ⟨token.start, kind, n, hn⟩ ⟨rfl, more, hmark⟩

/-- A quote with nothing behind it but a discarded form. -/
def discardedOperand : String := "'#_a"

/-- The quote of `discardedOperand` took the discarded form for its operand. It is left without one, and nothing is
    reported. -/
theorem not_hasOperands_discardedOperand :
    (read 0 discardedOperand : Document Value).errors = [] ∧
      ∃ form ∈ (read 0 discardedOperand : Document Value).root.children,
        form.kind.operands? = some 1 ∧ form.children.length = 0 := by
  have herrors : (read 0 discardedOperand : Document Value).errors.isEmpty = true := by decide +kernel
  have hform : ∃ form ∈ (read 0 discardedOperand : Document Value).root.children,
      form.kind.operands? = some 1 ∧ form.children.length = 0 := by
    decide +kernel
  exact ⟨List.isEmpty_iff.mp herrors, hform⟩

end Document

end Lisplet
