import Lisplet.Proofs.Printed

/-! # Reading and printing are inverse on documents

Whatever stands in a clean document was cut from the source by the reader: every word is an atom, every other form a
collection or a mark (`Tree.Sound`, which each step of a reading keeps). So a clean document whose marks have their
operands is written so that it can be read again, and reading its text gives the same shape and the same text. -/

namespace Lisplet

/-! ### Tokens -/

/-- What a lexeme can be: the start of a form, a mark before what is left out, or malformed text. -/
def Lexeme.Sound : Lexeme → Prop
  | .opening kind closer => ∃ form, FormKind.lexeme? form = some (.opening kind closer)
  | .mark kind more => kind.isTrivia = true ∨ ∃ form, FormKind.lexeme? form = some (.mark kind more)
  | .leaf kind => kind.isError = true ∨ ∃ form, FormKind.lexeme? form = some (.leaf kind)
  | .blank | .comment | .closing _ => True

/-- A token of `source`: its lexeme is sound, and the text of a form without parts is an atom. -/
structure Token.Sound (source : List Char) (token : Token) : Prop where
  lexeme : token.lexeme.Sound
  atom : ∀ kind, token.lexeme = .leaf kind → kind.isError = false →
    Lexeme.isAtom kind ((source.drop token.start).take (token.stop - token.start)) = true

namespace Lexeme

theorem sound_leaf {kind : TreeKind} (form : FormKind) (h : form.lexeme? = some (leaf kind)) : (leaf kind).Sound :=
  Or.inr ⟨form, h⟩

theorem sound_mark {kind : TreeKind} {more : Nat} (form : FormKind) (h : form.lexeme? = some (mark kind more)) :
    (mark kind more).Sound :=
  Or.inr ⟨form, h⟩

theorem unglued_sound {kind : TreeKind} (h : (leaf kind).Sound) (length : Nat) (cs : List Char) :
    (unglued kind length cs).1.Sound := by
  simp only [unglued]
  split
  · exact h
  · exact Or.inl rfl

theorem ofZero_sound (cs : List Char) : (ofZero cs).1.Sound := by
  rw [ofZero_eq]
  split
  · exact unglued_sound (sound_leaf .hexLiteral rfl) _ _
  · exact unglued_sound (sound_leaf .number rfl) _ _

theorem ofPlain_sound (c : Char) (cs : List Char) : (ofPlain c cs).1.Sound := by
  unfold ofPlain
  split
  · exact ofZero_sound cs
  split
  · exact unglued_sound (sound_leaf .number rfl) _ _
  split
  · exact unglued_sound (sound_leaf .negNumber rfl) _ _
  split
  · exact sound_leaf .symbol rfl
  · exact Or.inl rfl

theorem ofHash_sound (cs : List Char) : (ofHash cs).1.Sound := by
  unfold ofHash
  split
  · exact ⟨.set, rfl⟩
  · exact ⟨.lambda, rfl⟩
  · exact sound_mark .varQuote rfl
  · exact Or.inl rfl
  · exact Or.inl rfl

theorem ofTilde_sound (cs : List Char) : (ofTilde cs).1.Sound := by
  unfold ofTilde
  split
  · exact sound_mark .unquoteSplicing rfl
  · exact sound_mark .unquote rfl

theorem ofQuote_sound (cs : List Char) : (ofQuote cs).1.Sound := by
  unfold ofQuote
  split
  · exact sound_leaf .string rfl
  · exact Or.inl rfl

theorem ofColon_sound (cs : List Char) : (ofColon cs).1.Sound := by
  simp only [ofColon]
  split
  · exact Or.inl rfl
  · exact sound_leaf .keyword rfl

theorem ofPercent_sound (cs : List Char) : (ofPercent cs).1.Sound := by
  simp only [ofPercent]
  split
  · exact sound_leaf .paramName rfl
  · exact sound_leaf .symbol rfl

theorem first_sound (c : Char) (cs : List Char) : (first c cs).1.Sound := by
  unfold first
  split
  · trivial
  split
  · trivial
  · exact ⟨.list, rfl⟩
  · exact ⟨.vector, rfl⟩
  · exact ⟨.map, rfl⟩
  · trivial
  · trivial
  · trivial
  · exact ofHash_sound cs
  · exact sound_mark .quote rfl
  · exact sound_mark .backtick rfl
  · exact ofTilde_sound cs
  · exact sound_mark .deref rfl
  · exact sound_mark .tag rfl
  · exact ofQuote_sound cs
  · exact ofColon_sound cs
  · exact ofPercent_sound cs
  · exact ofPlain_sound _ cs

end Lexeme

/-- Every token of a source is sound. -/
theorem Token.sound_of_mem_allFrom {source : List Char} : ∀ {skip pos : Nat} {cs : List Char} {token : Token},
    source.drop pos = cs → token ∈ Token.allFrom skip pos cs → token.Sound source := by
  intro skip pos cs
  induction cs generalizing skip pos with
  | nil =>
    intro token _ ht
    simp [Token.allFrom] at ht
  | cons c cs ih =>
    intro token hdrop ht
    have hnext : source.drop (pos + 1) = cs := by
      rw [← List.drop_drop, hdrop, List.drop_succ_cons, List.drop_zero]
    cases skip with
    | succ skip =>
      rw [Token.allFrom] at ht
      exact ih hnext ht
    | zero =>
      simp only [Token.allFrom, List.mem_cons] at ht
      rcases ht with rfl | ht
      · refine ⟨Lexeme.first_sound c cs, fun kind hleaf hk => ?_⟩
        have hfirst : Lexeme.first c cs = (.leaf kind, (Lexeme.first c cs).2) := Prod.ext hleaf rfl
        have hatom := (Lexeme.isAtom_of_first hfirst hk).2
        have hlength : pos + 1 + (Lexeme.first c cs).2 - pos = (Lexeme.first c cs).2 + 1 := by omega
        rw [hdrop, hlength, List.take_succ_cons]
        exact hatom
      · exact ih hnext ht

/-! ### Trees -/

/-- Whether a tree of this kind is the start of a form that may have parts. -/
def TreeKind.IsConstruct (kind : TreeKind) : Prop :=
  ∃ form lexeme, FormKind.lexeme? form = some lexeme ∧ lexeme.kind? = some kind ∧ form.isWord = false

/-- A tree that reading `source` can give: malformed, left out, a word of the source, or a construct of such trees. -/
inductive Tree.Sound (source : List Char) : Tree → Prop
  | malformed {kind : TreeKind} {start stop : Nat} {children : List Tree} (h : kind.isError = true) :
      Sound source (.node kind start stop children)
  | leftOut {kind : TreeKind} {start stop : Nat} {children : List Tree} (h : kind.isTrivia = true) :
      Sound source (.node kind start stop children)
  | word {kind : TreeKind} {start stop : Nat} {form : FormKind} (hk : form.lexeme? = some (.leaf kind))
      (ha : Lexeme.isAtom kind ((source.drop start).take (stop - start)) = true) : Sound source (.leaf kind start stop)
  | construct {kind : TreeKind} {start stop : Nat} {children : List Tree} (hk : kind.IsConstruct)
      (hc : ∀ child ∈ children, Sound source child) : Sound source (.node kind start stop children)

/-- An open construct of sound trees that will be a sound tree. -/
structure Pending.Sound (source : List Char) (p : Pending) : Prop where
  kind : p.kind.isTrivia = true ∨ p.kind.IsConstruct
  children : ∀ child ∈ p.children, child.Sound source

/-- A reading of `source` in which everything is sound. -/
structure Reading.Sound (source : List Char) (r : Reading) : Prop where
  forms : ∀ tree ∈ r.forms, tree.Sound source
  pending : ∀ p ∈ r.pending, p.Sound source

section Sound

variable {source : List Char} {p : Pending} {ps : List Pending} {forms : List Tree} {tree : Tree} {r : Reading}

theorem Pending.Sound.add (h : p.Sound source) (ht : tree.Sound source) : (p.add tree).Sound source where
  kind := h.kind
  children := by
    simpa [Pending.add] using ⟨ht, h.children⟩

theorem Pending.Sound.complete (h : p.Sound source) (stop : Nat) : (p.complete stop).Sound source := by
  rcases h.kind with hk | hk
  · exact .leftOut hk
  · exact .construct hk fun child hc => h.children child (List.mem_reverse.mp hc)

theorem Pending.abandon_sound (p : Pending) (stop : Nat) : (p.abandon stop).Sound source := .malformed rfl

namespace Reading

theorem sound_push (hf : ∀ tree ∈ forms, tree.Sound source) (hp : p.Sound source)
    (hps : ∀ p ∈ ps, p.Sound source) : Sound source ⟨forms, p :: ps⟩ where
  forms := hf
  pending := by simpa using ⟨hp, hps⟩

theorem sound_top (hf : ∀ tree ∈ forms, tree.Sound source) (ht : tree.Sound source) :
    Sound source ⟨tree :: forms, []⟩ where
  forms := by simpa using ⟨ht, hf⟩
  pending := by simp

theorem Sound.attach (h : r.Sound source) (ht : tree.Sound source) : (r.attach tree).Sound source := by
  obtain ⟨forms, pending⟩ := r
  cases pending with
  | nil => exact sound_top h.forms ht
  | cons p ps =>
    exact sound_push h.forms ((h.pending p (by simp)).add ht) fun q hq => h.pending q (List.mem_cons_of_mem _ hq)

theorem deliver_sound (hf : ∀ tree ∈ forms, tree.Sound source) (hps : ∀ p ∈ ps, p.Sound source)
    (ht : tree.Sound source) : (deliver tree forms ps).Sound source := by
  induction ps generalizing tree with
  | nil => exact sound_top hf ht
  | cons p ps ih =>
    have hp := (hps p (by simp)).add ht
    have hrest : ∀ q ∈ ps, q.Sound source := fun q hq => hps q (List.mem_cons_of_mem _ hq)
    rw [deliver]
    split
    · exact sound_push hf hp hrest
    · exact ih hrest (hp.complete _)
    · exact sound_push hf ⟨hp.kind, hp.children⟩ hrest

theorem giveUp_sound (pos : Nat) (hf : ∀ tree ∈ forms, tree.Sound source) (hps : ∀ p ∈ ps, p.Sound source)
    {held : Option Tree} (hh : ∀ tree ∈ held, tree.Sound source) : (giveUp pos forms held ps).Sound source := by
  induction ps generalizing held with
  | nil =>
    cases held with
    | none => exact ⟨hf, by simp [giveUp]⟩
    | some tree => exact sound_top hf (hh tree rfl)
  | cons p ps ih =>
    have hp := hps p (by simp)
    have hrest : ∀ q ∈ ps, q.Sound source := fun q hq => hps q (List.mem_cons_of_mem _ hq)
    cases held with
    | none =>
      rw [giveUp]
      split
      · exact sound_push hf hp hrest
      · exact ih hrest (by simpa using p.abandon_sound pos)
    | some tree =>
      have hadd := hp.add (hh tree rfl)
      rw [giveUp]
      split
      · exact sound_push hf hadd hrest
      · exact ih hrest (by simpa using hadd.complete tree.stop)
      · exact ih hrest (by simpa using (p.add tree).abandon_sound pos)

theorem finish_sound (pos : Nat) (hf : ∀ tree ∈ forms, tree.Sound source) (hps : ∀ p ∈ ps, p.Sound source)
    {held : Option Tree} (hh : ∀ tree ∈ held, tree.Sound source) :
    ∀ tree ∈ finish pos forms held ps, tree.Sound source := by
  induction ps generalizing held with
  | nil =>
    cases held with
    | none => exact hf
    | some tree => simpa [finish] using ⟨hh tree rfl, hf⟩
  | cons p ps ih =>
    have hrest : ∀ q ∈ ps, q.Sound source := fun q hq => hps q (List.mem_cons_of_mem _ hq)
    cases held with
    | none => exact ih hrest (by simpa using p.abandon_sound pos)
    | some tree =>
      have hadd := (hps p (by simp)).add (hh tree rfl)
      rw [finish]
      split
      · exact ih hrest (by simpa using hadd.complete tree.stop)
      · exact ih hrest (by simpa using (p.add tree).abandon_sound pos)

/-- What a step gives is sound: the next reading, or the trees it ended with. -/
def StepSound (source : List Char) : Except (List Tree) Reading → Prop
  | .ok next => next.Sound source
  | .error forms => ∀ tree ∈ forms, tree.Sound source

theorem close_sound (h : r.Sound source) (bracket : Bracket) (start stop : Nat) :
    StepSound source (r.close bracket start stop) := by
  have hgiven : (giveUp start r.forms none r.pending).Sound source :=
    giveUp_sound start h.forms h.pending (by simp)
  unfold close
  split
  · next forms hr =>
    rw [hr] at hgiven
    exact hgiven.forms
  · next forms p ps hr =>
    rw [hr] at hgiven
    have hp : p.Sound source := hgiven.pending p (by simp)
    have hps : ∀ q ∈ ps, q.Sound source := fun q hq => hgiven.pending q (List.mem_cons_of_mem _ hq)
    split
    · exact deliver_sound hgiven.forms hps (hp.complete stop)
    · exact sound_push hgiven.forms (hp.add (.malformed rfl)) hps

theorem step_sound (h : r.Sound source) {token : Token} (ht : token.Sound source) :
    StepSound source (r.step token) := by
  obtain ⟨lexeme, start, stop⟩ := token
  cases lexeme with
  | blank => exact h
  | comment => exact h.attach (.leftOut rfl)
  | opening kind closer =>
    obtain ⟨form, hform⟩ := ht.lexeme
    exact sound_push h.forms ⟨Or.inr ⟨form, _, hform, rfl, FormKind.isWord_of_opening hform⟩, by simp⟩ h.pending
  | closing bracket => exact close_sound h bracket start stop
  | mark kind more =>
    rcases ht.lexeme with htrivia | ⟨form, hform⟩
    · exact sound_push h.forms ⟨Or.inl htrivia, by simp⟩ h.pending
    · exact sound_push h.forms ⟨Or.inr ⟨form, _, hform, rfl, FormKind.isWord_of_mark hform⟩, by simp⟩ h.pending
  | leaf kind =>
    refine deliver_sound h.forms h.pending ?_
    rcases ht.lexeme with herror | ⟨form, hform⟩
    · exact .malformed herror
    · exact .word hform (ht.atom kind rfl (FormKind.toFormKind_of_lexeme? hform rfl).2.1)

end Reading

/-- Reading ends with sound trees. -/
theorem Scan.resume_sound (length : Nat) {tokens : List Token} (ht : ∀ token ∈ tokens, token.Sound source)
    (h : r.Sound source) : ∀ tree ∈ (Scan.resume length r tokens).root.children, tree.Sound source := by
  induction tokens generalizing r with
  | nil =>
    intro tree htree
    exact Reading.finish_sound length h.forms h.pending (by simp) tree (List.mem_reverse.mp htree)
  | cons token rest ih =>
    have hstep := Reading.step_sound h (ht token (by simp))
    rw [Scan.resume]
    split
    · next next hr =>
      rw [hr] at hstep
      exact ih (fun t hmem => ht t (List.mem_cons_of_mem _ hmem)) hstep
    · next forms hr =>
      rw [hr] at hstep
      exact fun tree htree => hstep tree (List.mem_reverse.mp htree)

end Sound

theorem Scan.exists_resume_eq (length : Nat) (r : Reading) (tokens : List Token) :
    ∃ forms consumed, Scan.resume length r tokens = Scan.ofForms forms consumed := by
  induction tokens generalizing r with
  | nil => exact ⟨_, _, rfl⟩
  | cons token rest ih =>
    rw [Scan.resume]
    split
    · exact ih _
    · exact ⟨_, _, rfl⟩

theorem Scan.ofSource_sound (source : List Char) : ∀ tree ∈ (Scan.ofSource source).root.children, tree.Sound source :=
  Scan.resume_sound source.length (fun _ ht => Token.sound_of_mem_allFrom List.drop_zero ht) ⟨by simp, by simp⟩

/-! ### Forms -/

variable {α : Type}

namespace Form

/-- Whether a mark has as many operands as it takes: two if it is a tag, and one if it is any other. -/
def hasOperands (form : Form α) : Bool :=
  match form.kind with
  | .quote | .backtick | .unquote | .unquoteSplicing | .deref | .varQuote => form.children.length == 1
  | .tag => form.children.length == 2
  | _ => true

theorem length_children_of_mark {form : Form α} {kind : TreeKind} {more : Nat}
    (hk : form.kind.lexeme? = some (.mark kind more)) (h : form.hasOperands = true) :
    form.children.length = more + 1 := by
  unfold hasOperands at h
  cases hkind : form.kind <;> simp only [hkind, FormKind.lexeme?, Option.some.injEq, Lexeme.mark.injEq, reduceCtorEq,
    beq_iff_eq] at hk h <;> omega

/-- The text of a written form depends on its shape only. -/
theorem print_eq_of_shape_eq {form other : Form α} (hw : form.all isWritten = true) (h : form.shape = other.shape) :
    form.print = other.print := by
  induction form using parts_induction generalizing other with
  | step form ih =>
    obtain ⟨hform, hparts⟩ := all_iff.mp hw
    rw [shape_eq, shape_eq] at h
    obtain ⟨hkind, htext, hchildren⟩ := Shape.node.inj h
    have hprints : printAll form.children = printAll other.children := by
      rw [printAll_eq_map, printAll_eq_map]
      exact map_eq_map_of_map_eq_map (fun part hp other => ih part hp (hparts part hp)) hchildren
    rcases isWritten_cases hform with ⟨kind, hk, -, -⟩ | ⟨kind, closer, hk⟩ | ⟨kind, more, hk, -, -⟩
    · have hword := FormKind.isWord_iff.mpr ⟨kind, hk⟩
      rw [← hkind, hword, if_pos rfl, if_pos rfl] at htext
      rw [print_of_isWord hword, print_of_isWord (hkind ▸ hword), Option.some.inj htext]
    · obtain ⟨before, after, _, _, _, hf, -⟩ := FormKind.frame?_of_opening hk
      rw [print_of_frame? hf, print_of_frame? (hkind ▸ hf), hprints]
    · obtain ⟨before, _, _, hf, -⟩ := FormKind.frame?_of_mark hk
      rw [print_of_frame? hf, print_of_frame? (hkind ▸ hf), hprints]

/-- The same of a document of written forms. -/
theorem print_eq_of_shape_eq_document {form other : Form α} (hk : form.kind = .document)
    (hw : ∀ part ∈ form.children, part.all isWritten = true) (h : form.shape = other.shape) :
    form.print = other.print := by
  rw [shape_eq, shape_eq] at h
  obtain ⟨hkind, -, hchildren⟩ := Shape.node.inj h
  have hprints : printAll form.children = printAll other.children := by
    rw [printAll_eq_map, printAll_eq_map]
    exact map_eq_map_of_map_eq_map (fun part hp _ => print_eq_of_shape_eq (hw part hp)) hchildren
  have hframe : form.kind.frame? = some ("", "") := by rw [hk]; rfl
  rw [print_of_frame? hframe, print_of_frame? (hkind ▸ hframe), hprints]

end Form

namespace Document

variable {source : List Char} {number : Nat} {path : List Nat}

theorem mem_formsOf {form : Form α} {trees : List Tree} {position : Nat}
    (hf : form ∈ formsOf source number path position trees)
    (he : (errorsOfAll source number path position trees : List (Form α)) = []) :
    ∃ tree ∈ trees, ∃ place, tree.kind.isTrivia = false ∧ form = formOf source number (place :: path) tree ∧
      (errorsOf source number (place :: path) tree : List (Form α)) = [] := by
  induction trees generalizing position with
  | nil => simp [formsOf] at hf
  | cons tree trees ih =>
    rw [formsOf] at hf
    rw [errorsOfAll] at he
    split at hf
    · next htrivia =>
      rw [if_pos htrivia] at he
      obtain ⟨found, hmem, hrest⟩ := ih hf he
      exact ⟨found, List.mem_cons_of_mem _ hmem, hrest⟩
    · next htrivia =>
      rw [if_neg htrivia, List.append_eq_nil_iff] at he
      rcases List.mem_cons.mp hf with rfl | hf
      · exact ⟨tree, by simp, position, by simpa using htrivia, rfl, he.1⟩
      · obtain ⟨found, hmem, hrest⟩ := ih hf he.2
        exact ⟨found, List.mem_cons_of_mem _ hmem, hrest⟩

/-- The form of a sound tree without errors, whose marks have their operands and do not fuse with them, is written so
    that it can be read again. -/
theorem isWritten_formOf {tree : Tree} (h : tree.Sound source) (hk : tree.kind.isTrivia = false)
    (he : (errorsOf source number path tree : List (Form α)) = [])
    (ho : (formOf source number path tree : Form α).all Form.hasOperands = true)
    (hu : (formOf source number path tree : Form α).all (!·.isFused) = true) :
    (formOf source number path tree : Form α).all Form.isWritten = true := by
  induction h generalizing path with
  | malformed herror => simp [errorsOf, herror] at he
  | leftOut htrivia => simp [Tree.kind, htrivia] at hk
  | @word kind start stop form hform ha =>
    obtain ⟨hkind, herror, -⟩ := FormKind.toFormKind_of_lexeme? hform rfl
    simp only [Tree.leaf, formOf, herror, Bool.false_eq_true, if_false, formsOf, hkind]
    rw [Form.all_iff]
    refine ⟨?_, by simp⟩
    simp [Form.isWritten, hform, Form.text, Form.text?, Metadata.spanned, sliceText, ha]
  | @construct kind start stop children hconstruct hc ih =>
    obtain ⟨form, lexeme, hform, hlexeme, hword⟩ := hconstruct
    obtain ⟨hkind, herror, -⟩ := FormKind.toFormKind_of_lexeme? hform hlexeme
    simp only [errorsOf, herror, Bool.false_eq_true, if_false] at he
    simp only [formOf, herror, Bool.false_eq_true, if_false, hkind] at ho hu ⊢
    rw [Form.all_iff] at ho hu ⊢
    -- the form itself by its lexeme, and its parts by induction, as each comes from a tree that carries meaning
    refine ⟨?_, fun part hpart => ?_⟩
    · have hfused := hu.1
      unfold Form.isWritten
      simp only [hform]
      cases lexeme with
      | leaf leaf =>
        rw [FormKind.isWord_iff.mpr ⟨leaf, hform⟩] at hword
        cases hword
      | opening kind closer => rfl
      | mark kind more =>
        have hlength := Form.length_children_of_mark hform ho.1
        simp only at hlength hfused
        simp only [hlength, hfused, beq_self_eq_true, Bool.and_self]
      | _ => cases hlexeme
    · obtain ⟨child, hmem, place, htrivia, rfl, herrors⟩ := mem_formsOf hpart he
      exact ih child hmem htrivia herrors (ho.2 _ hpart) (hu.2 _ hpart)

/-- A clean document is the form of the sound trees of its whole source, and has no errors in it. -/
theorem exists_trees_of_isClean {source : String} (h : (read number source : Document α).isClean = true) :
    ∃ stop trees, (∀ tree ∈ trees, tree.Sound source.toList) ∧
      (read number source : Document α).root = formOf source.toList number [] (.node .document 0 stop trees) ∧
      (errorsOfAll source.toList number [] 0 trees : List (Form α)) = [] := by
  obtain ⟨forms, consumed, hscan⟩ : ∃ forms consumed, Scan.ofSource source.toList = Scan.ofForms forms consumed :=
    Scan.exists_resume_eq _ _ _
  have hsound := Scan.ofSource_sound source.toList
  rw [hscan] at hsound
  refine ⟨consumed, forms.reverse, hsound, ?_⟩
  rw [isClean, List.isEmpty_iff] at h
  simp only [read, ofScan, hscan] at h ⊢
  split at h
  · simp at h
  · next hconsumed =>
    rw [if_neg hconsumed]
    exact ⟨rfl, h⟩

/-- A clean document holds written forms only, if its marks have their operands and do not fuse with them. -/
theorem isWritten_of_isClean {source : String} (hclean : (read number source : Document α).isClean = true)
    (ho : (read number source : Document α).root.all Form.hasOperands = true)
    (hu : (read number source : Document α).root.all (!·.isFused) = true) :
    (read number source : Document α).root.kind = .document ∧
      ∀ form ∈ (read number source : Document α).root.children, form.all Form.isWritten = true := by
  obtain ⟨stop, trees, hsound, hroot, herrors⟩ := exists_trees_of_isClean hclean
  rw [hroot] at ho hu ⊢
  refine ⟨rfl, fun form hform => ?_⟩
  obtain ⟨tree, hmem, place, htrivia, rfl, herror⟩ := mem_formsOf hform herrors
  exact isWritten_formOf (hsound tree hmem) htrivia herror ((Form.all_iff.mp ho).2 _ hform)
    ((Form.all_iff.mp hu).2 _ hform)

/-- Printing a clean document and reading the text gives a clean document of the same shape, which is printed as the
    same text: all that a document says survives, provided that its marks have their operands and that no `~` stands
    before an `@`. -/
theorem read_print (number again : Nat) (source : String)
    (hclean : (read number source : Document α).isClean = true)
    (ho : (read number source : Document α).root.all Form.hasOperands = true)
    (hu : (read number source : Document α).root.all (!·.isFused) = true) :
    (read again (read number source : Document α).root.print : Document α).isClean = true ∧
      (read again (read number source : Document α).root.print : Document α).root.shape =
        (read number source : Document α).root.shape ∧
      (read again (read number source : Document α).root.print : Document α).root.print =
        (read number source : Document α).root.print := by
  obtain ⟨hkind, hwritten⟩ := isWritten_of_isClean hclean ho hu
  have hframe : (read number source : Document α).root.kind.frame? = some ("", "") := by rw [hkind]; rfl
  have hprint := Form.print_of_frame? hframe
  rw [String.append_empty, String.empty_append] at hprint
  obtain ⟨herrors, hshape⟩ := read_printAll hwritten again
  rw [← hprint] at herrors hshape
  have hsame : (read again (read number source : Document α).root.print : Document α).root.shape =
      (read number source : Document α).root.shape := by
    rw [hshape, Form.shape_eq (read number source : Document α).root, hkind, Form.shapes_eq_map]
    rfl
  exact ⟨by rw [isClean, herrors]; rfl, hsame, (Form.print_eq_of_shape_eq_document hkind hwritten hsame.symm).symm⟩

/-- A comment, a discarded form and blanks are dropped, and what is left is read again. -/
theorem read_print_sample :
    (read 0 "(a , :k) ;c\n #_x ^\x7b:t 1\x7d 'b ~@[0x1F \"s\"]" : Document Unit).root.print =
        "(a :k) ^\x7b:t 1\x7d 'b ~@[0x1F \"s\"]" ∧
      (read 1 "(a :k) ^\x7b:t 1\x7d 'b ~@[0x1F \"s\"]" : Document Unit).isClean = true ∧
      (read 1 "(a :k) ^\x7b:t 1\x7d 'b ~@[0x1F \"s\"]" : Document Unit).root.shape =
        (read 0 "(a , :k) ;c\n #_x ^\x7b:t 1\x7d 'b ~@[0x1F \"s\"]" : Document Unit).root.shape := by
  have hprint : (read 0 "(a , :k) ;c\n #_x ^\x7b:t 1\x7d 'b ~@[0x1F \"s\"]" : Document Unit).root.print =
      "(a :k) ^\x7b:t 1\x7d 'b ~@[0x1F \"s\"]" := by decide +kernel
  have h := read_print (α := Unit) 0 1 "(a , :k) ;c\n #_x ^\x7b:t 1\x7d 'b ~@[0x1F \"s\"]" (by decide +kernel)
    (by decide +kernel) (by decide +kernel)
  rw [hprint] at h
  exact ⟨hprint, h.1, h.2.1⟩

end Document

end Lisplet
