import Lisplet.Proofs.Atom
import Lisplet.Proofs.Shape

/-! # Reading what was printed

A form whose words are words of the language and whose marks have their operands (`isWritten`) is found again when
its text is read, wherever the text stands: reading it hands over one tree (`Passes`), and the form of that tree has
the shape of the form that was printed (`Spells`). The proof follows the printer: a word is one token, brackets and
marks open a construct that the parts complete, and the blanks between parts are tokens that change nothing. -/

namespace Lisplet

/-- The lexeme that a form of this kind starts with; forms that no source contains have none. -/
def FormKind.lexeme? : FormKind → Option Lexeme
  | list => some (.opening .list .round)
  | vector => some (.opening .vector .square)
  | map => some (.opening .map .curly)
  | set => some (.opening .set .curly)
  | lambda => some (.opening .lambda .round)
  | symbol => some (.leaf .symbol)
  | keyword => some (.leaf .keyword)
  | string => some (.leaf .string)
  | number => some (.leaf .number)
  | negNumber => some (.leaf .negNumber)
  | hexLiteral => some (.leaf .hexLiteral)
  | paramName => some (.leaf .paramName)
  | quote => some (.mark .quote 0)
  | backtick => some (.mark .backtick 0)
  | unquote => some (.mark .unquote 0)
  | unquoteSplicing => some (.mark .unquoteSplicing 0)
  | deref => some (.mark .deref 0)
  | varQuote => some (.mark .varQuote 0)
  | tag => some (.mark .tag 1)
  | syntaxError | document | var => none

/-- The kind of tree that a lexeme becomes, or opens. -/
def Lexeme.kind? : Lexeme → Option TreeKind
  | .opening kind _ | .mark kind _ | .leaf kind => some kind
  | .blank | .comment | .closing _ => none

namespace Form

variable {α : Type}

/-- Whether the form is an unquoted dereference, which is printed like the other mark `~@`. -/
def isFused (form : Form α) : Bool :=
  form.kind == .unquote && form.children.any (·.kind == .deref)

/-- Whether a form is written so that it can be read again, its parts apart: a word is one atom, and a mark has its
    operands and does not fuse with them. -/
def isWritten (form : Form α) : Bool :=
  match form.kind.lexeme? with
  | some (.leaf kind) => form.children.isEmpty && Lexeme.isAtom kind form.text.toList
  | some (.opening _ _) => true
  | some (.mark _ more) =>
    form.children.length == more + 1 && !form.isFused
  | _ => false

end Form

/-! ### Passing over a text -/

/-- Reading `text` at `pos`, before `rest`, turns the reading `r` into `r'`. -/
def Reading.Passes (r r' : Reading) (pos : Nat) (text rest : List Char) : Prop :=
  ∀ length, Scan.resume length r (Token.allFrom 0 pos (text ++ rest)) =
    Scan.resume length r' (Token.allFrom 0 (pos + text.length) rest)

theorem Token.allFrom_append (xs rest : List Char) (pos : Nat) :
    Token.allFrom xs.length pos (xs ++ rest) = Token.allFrom 0 (pos + xs.length) rest := by
  induction xs generalizing pos with
  | nil => rfl
  | cons x xs ih =>
    rw [List.length_cons, List.cons_append, Token.allFrom, ih]
    congr 1
    omega

namespace Reading

variable {r r' r'' : Reading} {pos : Nat} {rest : List Char}

theorem Passes.nil (r : Reading) (pos : Nat) (rest : List Char) : Passes r r pos [] rest := fun _ => rfl

theorem Passes.trans {a b : List Char} (h₁ : Passes r r' pos a (b ++ rest))
    (h₂ : Passes r' r'' (pos + a.length) b rest) : Passes r r'' pos (a ++ b) rest := by
  intro length
  rw [List.append_assoc, h₁ length, h₂ length, List.length_append, Nat.add_assoc]

/-- One token is one step of the reading. -/
theorem Passes.token {c : Char} {cs : List Char} {lexeme : Lexeme}
    (hf : Lexeme.first c (cs ++ rest) = (lexeme, cs.length))
    (hs : r.step ⟨lexeme, pos, pos + 1 + cs.length⟩ = .ok r') : Passes r r' pos (c :: cs) rest := by
  intro length
  have hpos : pos + (c :: cs).length = pos + 1 + cs.length := by
    simp only [List.length_cons]
    omega
  simp only [List.cons_append, Token.allFrom, hf, Scan.resume, hs, Token.allFrom_append, hpos]

/-- The innermost open construct takes any number of forms. -/
def Collects (r : Reading) : Prop := ∀ p ∈ r.pending.head?, ∃ bracket, p.need = .closer bracket

/-- Adds trees one after the other. -/
def attachAll (trees : List Tree) (r : Reading) : Reading := trees.foldl (fun r tree => r.attach tree) r

theorem Collects.deliver (h : r.Collects) (tree : Tree) : Reading.deliver tree r.forms r.pending = r.attach tree := by
  obtain ⟨forms, pending⟩ := r
  cases pending with
  | nil => rfl
  | cons p ps =>
    obtain ⟨bracket, hb⟩ := h p rfl
    simp only [Reading.deliver, hb, attach]

theorem Collects.attach (h : r.Collects) (tree : Tree) : (r.attach tree).Collects := by
  obtain ⟨forms, pending⟩ := r
  cases pending with
  | nil => simp [Reading.attach, Collects]
  | cons p ps =>
    intro q hq
    obtain rfl := Option.mem_some_iff.mp hq
    exact h p rfl

theorem attachAll_nil_pending (trees forms : List Tree) : attachAll trees ⟨forms, []⟩ = ⟨trees.reverse ++ forms, []⟩ := by
  induction trees generalizing forms with
  | nil => rfl
  | cons tree trees ih =>
    rw [attachAll, List.foldl_cons]
    simpa [attachAll, Reading.attach] using ih (tree :: forms)

theorem attachAll_cons_pending (trees forms : List Tree) (p : Pending) (ps : List Pending) :
    attachAll trees ⟨forms, p :: ps⟩ = ⟨forms, { p with children := trees.reverse ++ p.children } :: ps⟩ := by
  induction trees generalizing p with
  | nil => rfl
  | cons tree trees ih =>
    rw [attachAll, List.foldl_cons]
    simpa [attachAll, Reading.attach, Pending.add] using ih (p.add tree)

end Reading

/-! ### How brackets and marks are written -/

namespace FormKind

variable {kind : FormKind} {tree : TreeKind} {closer : Bracket} {more : Nat}

/-- A collection is written between an opening lexeme and one closing bracket, whatever stands inside and behind. -/
theorem frame?_of_opening (h : kind.lexeme? = some (.opening tree closer)) :
    ∃ before after c cs d, kind.frame? = some (before, after) ∧ before.toList = c :: cs ∧ after.toList = [d] ∧
      isBlank c = false ∧ c ≠ '@' ∧ isSymbolChar d = false ∧
      (∀ rest, Lexeme.first c (cs ++ rest) = (.opening tree closer, cs.length)) ∧
      (∀ rest, Lexeme.first d rest = (.closing closer, 0)) := by
  cases kind <;> simp only [lexeme?, Option.some.injEq, Lexeme.opening.injEq, reduceCtorEq] at h <;>
    obtain ⟨rfl, rfl⟩ := h
  · exact ⟨_, _, '(', [], ')', rfl, by decide, by decide, by decide, by decide, by decide, fun _ => rfl, fun _ => rfl⟩
  · exact ⟨_, _, '[', [], ']', rfl, by decide, by decide, by decide, by decide, by decide, fun _ => rfl, fun _ => rfl⟩
  · exact ⟨_, _, '\x7b', [], '\x7d', rfl, by decide, by decide, by decide, by decide, by decide, fun _ => rfl,
      fun _ => rfl⟩
  · exact ⟨_, _, '#', ['\x7b'], '\x7d', rfl, by decide, by decide, by decide, by decide, by decide, fun _ => rfl,
      fun _ => rfl⟩
  · exact ⟨_, _, '#', ['('], ')', rfl, by decide, by decide, by decide, by decide, by decide, fun _ => rfl,
      fun _ => rfl⟩

/-- A mark is written before its operands, and is read as that mark before anything but, for `~`, an `@`. -/
theorem frame?_of_mark (h : kind.lexeme? = some (.mark tree more)) :
    ∃ before c cs, kind.frame? = some (before, "") ∧ before.toList = c :: cs ∧ isBlank c = false ∧
      (c = '@' → kind = .deref) ∧
      (∀ rest, (kind = .unquote → rest.head? ≠ some '@') → Lexeme.first c (cs ++ rest) = (.mark tree more, cs.length)) := by
  cases kind <;> simp only [lexeme?, Option.some.injEq, Lexeme.mark.injEq, reduceCtorEq] at h <;>
    obtain ⟨rfl, rfl⟩ := h
  · exact ⟨_, '\'', [], rfl, by decide, by decide, by decide, fun _ _ => rfl⟩
  · exact ⟨_, '\x60', [], rfl, by decide, by decide, by decide, fun _ _ => rfl⟩
  · refine ⟨_, '~', [], rfl, by decide, by decide, by decide, fun rest hr => ?_⟩
    have hr := hr rfl
    cases rest with
    | nil => rfl
    | cons x xs =>
      have hx : x ≠ '@' := by simpa using hr
      show Lexeme.ofTilde (x :: xs) = _
      rw [Lexeme.ofTilde]
      · rfl
      · intro _ hxs
        exact hx (List.cons.inj hxs).1
  · exact ⟨_, '~', ['@'], rfl, by decide, by decide, by decide, fun _ _ => rfl⟩
  · exact ⟨_, '@', [], rfl, by decide, by decide, by decide, fun _ _ => rfl⟩
  · exact ⟨_, '#', ['\''], rfl, by decide, by decide, by decide, fun _ _ => rfl⟩
  · exact ⟨_, '^', [], rfl, by decide, by decide, by decide, fun _ _ => rfl⟩

/-- The kind of tree that a lexeme gives stands for the kind of form, and is neither malformed nor left out. -/
theorem toFormKind_of_lexeme? {lexeme : Lexeme} (h : kind.lexeme? = some lexeme) (ht : lexeme.kind? = some tree) :
    tree.toFormKind = kind ∧ tree.isError = false ∧ tree.isTrivia = false := by
  cases kind <;> simp only [lexeme?, Option.some.injEq, reduceCtorEq] at h <;> subst h <;>
    obtain rfl := Option.some.inj ht <;> decide

theorem isWord_of_opening (h : kind.lexeme? = some (.opening tree closer)) : kind.isWord = false := by
  obtain ⟨_, _, _, _, _, hf, -⟩ := frame?_of_opening h
  exact isWord_eq_false_of_frame? hf

theorem isWord_of_mark (h : kind.lexeme? = some (.mark tree more)) : kind.isWord = false := by
  obtain ⟨_, _, _, hf, -⟩ := frame?_of_mark h
  exact isWord_eq_false_of_frame? hf

/-- Words are the forms without parts. -/
theorem isWord_iff : kind.isWord = true ↔ ∃ tree, kind.lexeme? = some (.leaf tree) := by
  cases kind <;> simp [lexeme?, isWord]

end FormKind

/-! ### Trees that spell a form -/

variable {α : Type}

/-- In every source with the text of `form` at `pos`, the tree is well-formed and its form has the shape of `form`. -/
def Tree.Spells (tree : Tree) (pos : Nat) (form : Form α) : Prop :=
  tree.kind.isTrivia = false ∧ ∀ source number path, form.print.toList <+: source.drop pos →
    (Document.formOf source number path tree : Form α).shape = form.shape ∧
      (Document.errorsOf source number path tree : List (Form α)) = []

/-- The same of trees for forms that are written one after the other. -/
def Tree.SpellAll (trees : List Tree) (pos : Nat) (forms : List (Form α)) : Prop :=
  ∀ source number path position, (joinTexts " " (Form.printAll forms)).toList <+: source.drop pos →
    Form.shapes (Document.formsOf source number path position trees : List (Form α)) = Form.shapes forms ∧
      (Document.errorsOfAll source number path position trees : List (Form α)) = []

/-- Reading the text of the form, before anything that ends an atom, hands over a tree that spells it. -/
def Form.ReadsBack (form : Form α) : Prop :=
  ∀ (r : Reading) (pos : Nat) (rest : List Char), EndsAtom rest →
    ∃ tree, r.Passes (Reading.deliver tree r.forms r.pending) pos form.print.toList rest ∧ tree.Spells pos form

theorem isPrefix_drop_append {a b source : List Char} {pos : Nat} (h : a ++ b <+: source.drop pos) :
    a <+: source.drop pos ∧ b <+: source.drop (pos + a.length) := by
  obtain ⟨tail, ht⟩ := h
  refine ⟨⟨b ++ tail, by rw [← ht, List.append_assoc]⟩, ⟨tail, ?_⟩⟩
  rw [← List.drop_drop, ← ht, List.append_assoc, List.drop_left]

theorem sliceText_of_isPrefix {text source : List Char} {pos : Nat} (h : text <+: source.drop pos) :
    sliceText source pos (pos + text.length) = String.ofList text := by
  obtain ⟨tail, ht⟩ := h
  rw [sliceText, ← ht, Nat.add_sub_cancel_left, List.take_left]

namespace Tree

theorem spellAll_nil (pos : Nat) : SpellAll [] pos ([] : List (Form α)) := by
  intro source number path position _
  simp [Document.formsOf, Document.errorsOfAll, Form.shapes]

theorem spellAll_cons {tree : Tree} {trees : List Tree} {pos : Nat} {form : Form α} {forms : List (Form α)}
    (h : tree.Spells pos form) (ht : SpellAll trees (pos + form.print.toList.length + 1) forms)
    (hnil : forms = [] → trees = []) : SpellAll (tree :: trees) pos (form :: forms) := by
  obtain ⟨htrivia, hspells⟩ := h
  intro source number path position hsource
  have hhead : form.print.toList <+: source.drop pos ∧
      (forms ≠ [] → (joinTexts " " (Form.printAll forms)).toList <+: source.drop (pos + form.print.toList.length + 1)) := by
    cases forms with
    | nil => exact ⟨hsource, fun h => absurd rfl h⟩
    | cons next forms =>
      simp only [Form.printAll, joinTexts, String.toList_append, List.append_assoc] at hsource ⊢
      obtain ⟨h1, h2⟩ := isPrefix_drop_append hsource
      refine ⟨h1, fun _ => ?_⟩
      have h3 := (isPrefix_drop_append h2).2
      simpa using h3
  obtain ⟨hshape, herr⟩ := hspells source number (position :: path) hhead.1
  simp only [Document.formsOf, Document.errorsOfAll, htrivia, Bool.false_eq_true, if_false, Form.shapes, hshape, herr,
    List.nil_append]
  cases forms with
  | nil => simp [hnil rfl, Document.formsOf, Document.errorsOfAll, Form.shapes]
  | cons next forms =>
    obtain ⟨hs, he⟩ := ht source number path (position + 1) (hhead.2 (by simp))
    rw [hs, he]
    exact ⟨rfl, rfl⟩

theorem spells_leaf {form : Form α} {kind : TreeKind} {pos : Nat} (hk : form.kind.lexeme? = some (.leaf kind))
    (hc : form.children = []) : (leaf kind pos (pos + form.print.toList.length)).Spells pos form := by
  obtain ⟨hform, herror, htrivia⟩ := FormKind.toFormKind_of_lexeme? hk rfl
  have hword : form.kind.isWord = true := FormKind.isWord_iff.mpr ⟨kind, hk⟩
  refine ⟨htrivia, fun source number path hsource => ?_⟩
  have htext := sliceText_of_isPrefix hsource
  rw [String.ofList_toList, Form.print_of_isWord hword] at htext
  rw [Form.shape_eq form]
  simp only [leaf, Document.formOf, Document.errorsOf, herror, Bool.false_eq_true, if_false, Document.formsOf,
    Document.errorsOfAll, and_true, Form.shape, Form.shapes, hform, hword, if_true, Metadata.spanned,
    Option.getD_some, Form.print_of_isWord hword, htext, hc, List.map_nil]

theorem spells_node {form : Form α} {lexeme : Lexeme} {kind : TreeKind} {pos start stop : Nat} {before after : String}
    {trees : List Tree} (hl : form.kind.lexeme? = some lexeme) (hk : lexeme.kind? = some kind)
    (hf : form.kind.frame? = some (before, after))
    (ht : SpellAll trees (pos + before.toList.length) form.children) : (node kind start stop trees).Spells pos form := by
  obtain ⟨hform, herror, htrivia⟩ := FormKind.toFormKind_of_lexeme? hl hk
  have hword := FormKind.isWord_eq_false_of_frame? hf
  refine ⟨htrivia, fun source number path hsource => ?_⟩
  rw [Form.print_of_frame? hf, String.toList_append, String.toList_append, List.append_assoc] at hsource
  have hinner := (isPrefix_drop_append (isPrefix_drop_append hsource).2).1
  obtain ⟨hshapes, herrors⟩ := ht source number path 0 hinner
  rw [Form.shape_eq form, ← Form.shapes_eq_map]
  simp only [Document.formOf, Document.errorsOf, herror, Bool.false_eq_true, if_false, Form.shape, hform, hword,
    hshapes, herrors, and_self]

end Tree

/-! ### Reading a printed form -/

namespace Form

variable {form : Form α} {forms : List (Form α)}

theorem isWritten_cases (h : form.isWritten = true) :
    (∃ kind, form.kind.lexeme? = some (.leaf kind) ∧ form.children = [] ∧
      Lexeme.isAtom kind form.text.toList = true) ∨
    (∃ kind closer, form.kind.lexeme? = some (.opening kind closer)) ∨
    (∃ kind more, form.kind.lexeme? = some (.mark kind more) ∧ form.children.length = more + 1 ∧
      (form.kind = .unquote → ∀ part ∈ form.children, part.kind ≠ .deref)) := by
  unfold isWritten at h
  split at h
  · next kind hk =>
    simp only [Bool.and_eq_true, List.isEmpty_iff] at h
    exact Or.inl ⟨kind, hk, h.1, h.2⟩
  · next kind closer hk => exact Or.inr (Or.inl ⟨kind, closer, hk⟩)
  · next kind more hk =>
    simp only [isFused, Bool.and_eq_true, beq_iff_eq, Bool.not_eq_true', Bool.and_eq_false_imp, List.any_eq_false] at h
    exact Or.inr (Or.inr ⟨kind, more, hk, h.1, h.2⟩)
  · cases h

/-- A written form starts with no blank, and with `@` only if it is a dereference. -/
theorem print_head (h : form.isWritten = true) :
    ∃ c cs, form.print.toList = c :: cs ∧ isBlank c = false ∧ (c = '@' → form.kind = .deref) := by
  rcases isWritten_cases h with ⟨kind, hk, -, hatom⟩ | ⟨kind, closer, hk⟩ | ⟨kind, more, hk, -, -⟩
  · obtain ⟨c, cs, htext, hkind, hfirst⟩ := Lexeme.exists_cons_of_isAtom hatom
    rw [print_of_isWord (FormKind.isWord_iff.mpr ⟨kind, hk⟩), htext]
    rw [htext] at hatom
    refine ⟨c, cs, rfl, Lexeme.isBlank_eq_false_of_isAtom hatom, ?_⟩
    rintro rfl
    rcases Lexeme.first_eq_leaf hfirst hkind with ⟨hc, -⟩ | ⟨hc, -⟩
    · exact absurd hc (by decide)
    · exact absurd hc (by decide)
  · obtain ⟨before, after, c, cs, d, hf, hb, -, hblank, hat, -⟩ := FormKind.frame?_of_opening hk
    refine ⟨c, cs ++ ((joinTexts " " (printAll form.children)).toList ++ after.toList), ?_, hblank,
      fun hc => absurd hc hat⟩
    rw [print_of_frame? hf, String.toList_append, String.toList_append, hb]
    simp
  · obtain ⟨before, c, cs, hf, hb, hblank, hat, -⟩ := FormKind.frame?_of_mark hk
    refine ⟨c, cs ++ (joinTexts " " (printAll form.children)).toList, ?_, hblank, hat⟩
    rw [print_of_frame? hf, String.toList_append, String.toList_append, hb]
    simp

theorem join_printAll_head? (form : Form α) (forms : List (Form α)) (h : form.print.toList ≠ []) (rest : List Char) :
    ((joinTexts " " (printAll (form :: forms))).toList ++ rest).head? = form.print.toList.head? := by
  obtain ⟨c, cs, hc⟩ := List.exists_cons_of_ne_nil h
  cases forms with
  | nil => simp [printAll, joinTexts, hc]
  | cons next forms => simp [printAll, joinTexts, hc]

theorem toList_join_printAll (form next : Form α) (forms : List (Form α)) :
    (joinTexts " " (printAll (form :: next :: forms))).toList =
      form.print.toList ++ ([' '] ++ (joinTexts " " (printAll (next :: forms))).toList) := by
  simp [printAll, joinTexts]

/-- The blank before a further form changes nothing. -/
theorem passes_blank (h : form.isWritten = true) (forms : List (Form α)) (r : Reading) (pos : Nat) (rest : List Char) :
    r.Passes r pos [' '] ((joinTexts " " (printAll (form :: forms))).toList ++ rest) := by
  obtain ⟨c, cs, hprint, hblank, -⟩ := print_head h
  have hrun : runLength isBlank ((joinTexts " " (printAll (form :: forms))).toList ++ rest) = 0 := by
    have hhead := join_printAll_head? form forms (by simp [hprint]) rest
    rw [hprint, List.head?_cons] at hhead
    obtain ⟨tail, htail⟩ := List.head?_eq_some_iff.mp hhead
    rw [htail, runLength, List.takeWhile_cons, hblank]
    rfl
  have hfirst : Lexeme.first ' ' ([] ++ ((joinTexts " " (printAll (form :: forms))).toList ++ rest)) = (.blank, 0) := by
    rw [List.nil_append, Lexeme.first_of_isBlank (by decide), hrun]
  exact Reading.Passes.token hfirst rfl

/-- The parts of a collection are all added to the construct that takes them. -/
theorem passes_parts (hw : ∀ form ∈ forms, form.isWritten = true) (hb : ∀ form ∈ forms, form.ReadsBack)
    {r : Reading} (hr : r.Collects) (pos : Nat) {rest : List Char} (hrest : EndsAtom rest) :
    ∃ trees, r.Passes (r.attachAll trees) pos (joinTexts " " (printAll forms)).toList rest ∧
      Tree.SpellAll trees pos forms ∧ (forms = [] → trees = []) := by
  induction forms generalizing r pos with
  | nil => exact ⟨[], Reading.Passes.nil r pos rest, Tree.spellAll_nil pos, fun _ => rfl⟩
  | cons form forms ih =>
    cases forms with
    | nil =>
      obtain ⟨tree, hpass, hspell⟩ := hb form (by simp) r pos rest hrest
      rw [hr.deliver] at hpass
      exact ⟨[tree], hpass, Tree.spellAll_cons hspell (Tree.spellAll_nil _) fun _ => rfl, fun h => by cases h⟩
    | cons next forms =>
      -- the blank behind `form` ends it whatever it is, and the reading goes on behind the blank
      obtain ⟨tree, hpass, hspell⟩ := hb form (by simp) r pos
        (' ' :: ((joinTexts " " (printAll (next :: forms))).toList ++ rest)) (endsAtom_cons (by decide))
      rw [hr.deliver] at hpass
      obtain ⟨trees, hpasses, hspells, hnil⟩ := ih (fun f hf => hw f (List.mem_cons_of_mem _ hf))
        (fun f hf => hb f (List.mem_cons_of_mem _ hf)) (hr.attach tree) (pos + form.print.toList.length + 1)
      have hblank := passes_blank (hw next (by simp)) forms (r.attach tree) (pos + form.print.toList.length) rest
      refine ⟨tree :: trees, ?_, Tree.spellAll_cons hspell hspells hnil, fun h => by cases h⟩
      rw [toList_join_printAll]
      exact hpass.trans (hblank.trans hpasses)

/-- The operands of a mark complete the construct that waits for them. -/
theorem passes_operands (hw : ∀ form ∈ forms, form.isWritten = true) (hb : ∀ form ∈ forms, form.ReadsBack)
    {more : Nat} (hl : forms.length = more + 1) {p : Pending} (hp : p.need = .operands more) (done : List Tree)
    (ps : List Pending) (pos : Nat) {rest : List Char} (hrest : EndsAtom rest) :
    ∃ trees stop, (Reading.mk done (p :: ps)).Passes
        (Reading.deliver (.node p.kind p.start stop (p.children.reverse ++ trees)) done ps) pos
        (joinTexts " " (printAll forms)).toList rest ∧
      Tree.SpellAll trees pos forms := by
  induction forms generalizing more p pos with
  | nil => cases hl
  | cons form forms ih =>
    cases forms with
    | nil =>
      obtain rfl : more = 0 := by simpa using hl.symm
      obtain ⟨tree, hpass, hspell⟩ := hb form (by simp) ⟨done, p :: ps⟩ pos rest hrest
      refine ⟨[tree], tree.stop, ?_, Tree.spellAll_cons hspell (Tree.spellAll_nil _) fun _ => rfl⟩
      simp only [Reading.deliver, hp, Pending.complete, Pending.add, List.reverse_cons] at hpass
      exact hpass
    | cons next forms =>
      obtain ⟨fewer, rfl⟩ : ∃ fewer, more = fewer + 1 := ⟨forms.length, by simpa using hl.symm⟩
      obtain ⟨tree, hpass, hspell⟩ := hb form (by simp) ⟨done, p :: ps⟩ pos
        (' ' :: ((joinTexts " " (printAll (next :: forms))).toList ++ rest)) (endsAtom_cons (by decide))
      simp only [Reading.deliver, hp] at hpass
      obtain ⟨trees, stop, hpasses, hspells⟩ := ih (fun f hf => hw f (List.mem_cons_of_mem _ hf))
        (fun f hf => hb f (List.mem_cons_of_mem _ hf)) (by simpa using hl)
        (p := { p.add tree with need := .operands fewer }) rfl (pos + form.print.toList.length + 1)
      have hblank := passes_blank (hw next (by simp)) forms ⟨done, { p.add tree with need := .operands fewer } :: ps⟩
        (pos + form.print.toList.length) rest
      refine ⟨tree :: trees, stop, ?_, Tree.spellAll_cons hspell hspells fun h => by cases h⟩
      simp only [Pending.add, List.reverse_cons, List.append_assoc, List.singleton_append] at hpasses
      rw [toList_join_printAll]
      exact hpass.trans (hblank.trans hpasses)

theorem readsBack_word {kind : TreeKind} (hk : form.kind.lexeme? = some (.leaf kind)) (hc : form.children = [])
    (ha : Lexeme.isAtom kind form.text.toList = true) : form.ReadsBack := by
  intro r pos rest hrest
  have hspell : (Tree.leaf kind pos (pos + form.print.toList.length)).Spells pos form := Tree.spells_leaf hk hc
  have hword := FormKind.isWord_iff.mpr ⟨kind, hk⟩
  obtain ⟨c, cs, htext, -, -⟩ := Lexeme.exists_cons_of_isAtom ha
  rw [htext] at ha
  have hfirst := Lexeme.first_of_isAtom ha hrest
  rw [print_of_isWord hword, htext] at hspell ⊢
  refine ⟨_, Reading.Passes.token hfirst ?_, hspell⟩
  rw [show pos + 1 + cs.length = pos + (c :: cs).length by simp only [List.length_cons]; omega]
  rfl

theorem readsBack_collection {kind : TreeKind} {closer : Bracket}
    (hk : form.kind.lexeme? = some (.opening kind closer)) (hw : ∀ part ∈ form.children, part.isWritten = true)
    (hb : ∀ part ∈ form.children, part.ReadsBack) : form.ReadsBack := by
  intro r pos rest _
  obtain ⟨before, after, c, cs, d, hf, hbefore, hafter, -, -, hd, hopen, hclose⟩ := FormKind.frame?_of_opening hk
  -- the opening lexeme pushes a construct that takes the parts
  have hopened : r.Passes ⟨r.forms, ⟨kind, pos, .closer closer, []⟩ :: r.pending⟩ pos (c :: cs)
      ((joinTexts " " (printAll form.children)).toList ++ [d] ++ rest) := .token (hopen _) rfl
  have hcollects : (Reading.mk r.forms (⟨kind, pos, .closer closer, []⟩ :: r.pending)).Collects := by
    rintro p hp
    obtain rfl := Option.mem_some_iff.mp hp
    exact ⟨closer, rfl⟩
  have hrest : EndsAtom ([d] ++ rest) := endsAtom_cons hd
  obtain ⟨trees, hparts, hspells, -⟩ := passes_parts hw hb hcollects (pos + (c :: cs).length) hrest
  rw [Reading.attachAll_cons_pending, List.append_nil] at hparts
  -- the closing bracket completes it
  have hclosed : (Reading.mk r.forms (⟨kind, pos, .closer closer, trees.reverse⟩ :: r.pending)).Passes
      (Reading.deliver (.node kind pos
        (pos + (c :: cs).length + (joinTexts " " (printAll form.children)).toList.length + 1) trees) r.forms r.pending)
      (pos + (c :: cs).length + (joinTexts " " (printAll form.children)).toList.length) [d] rest := by
    refine .token (hclose _) ?_
    simp [Reading.step, Reading.close, Reading.giveUp, Pending.complete]
  have hpasses := hopened.trans (hparts.trans hclosed)
  rw [← hbefore] at hspells
  rw [print_of_frame? hf, String.toList_append, String.toList_append, hbefore, hafter, List.append_assoc]
  exact ⟨_, hpasses, Tree.spells_node hk rfl hf hspells⟩

theorem readsBack_mark {kind : TreeKind} {more : Nat} (hk : form.kind.lexeme? = some (.mark kind more))
    (hl : form.children.length = more + 1) (hu : form.kind = .unquote → ∀ part ∈ form.children, part.kind ≠ .deref)
    (hw : ∀ part ∈ form.children, part.isWritten = true) (hb : ∀ part ∈ form.children, part.ReadsBack) :
    form.ReadsBack := by
  intro r pos rest hrest
  obtain ⟨before, c, cs, hf, hbefore, -, -, hmark⟩ := FormKind.frame?_of_mark hk
  have hhead : form.kind = .unquote →
      ((joinTexts " " (printAll form.children)).toList ++ rest).head? ≠ some '@' := by
    intro hkind
    obtain ⟨operand, others, hparts⟩ := List.exists_cons_of_length_eq_add_one hl
    obtain ⟨x, xs, hprint, -, hat⟩ := print_head (hw operand (by simp [hparts]))
    rw [hparts, join_printAll_head? operand others (by simp [hprint]), hprint, List.head?_cons]
    intro hx
    exact hu hkind operand (by simp [hparts]) (hat (Option.some.inj hx))
  have hopened : r.Passes ⟨r.forms, ⟨kind, pos, .operands more, []⟩ :: r.pending⟩ pos (c :: cs)
      ((joinTexts " " (printAll form.children)).toList ++ rest) := .token (hmark _ hhead) rfl
  obtain ⟨trees, stop, hparts, hspells⟩ :=
    passes_operands hw hb hl (p := ⟨kind, pos, .operands more, []⟩) rfl r.forms r.pending (pos + (c :: cs).length) hrest
  have hpasses := hopened.trans hparts
  rw [← hbefore] at hspells
  rw [print_of_frame? hf, String.append_empty, String.toList_append, hbefore]
  exact ⟨_, hpasses, Tree.spells_node hk rfl hf hspells⟩

/-- A form that is written throughout so that it can be read again is read again. -/
theorem readsBack_of_isWritten (h : form.all isWritten = true) : form.ReadsBack := by
  induction form using parts_induction with
  | step form ih =>
    obtain ⟨hform, hparts⟩ := all_iff.mp h
    have hw : ∀ part ∈ form.children, part.isWritten = true := fun part hp => (all_iff.mp (hparts part hp)).1
    have hb : ∀ part ∈ form.children, part.ReadsBack := fun part hp => ih part hp (hparts part hp)
    rcases isWritten_cases hform with ⟨kind, hk, hc, ha⟩ | ⟨kind, closer, hk⟩ | ⟨kind, more, hk, hl, hu⟩
    · exact readsBack_word hk hc ha
    · exact readsBack_collection hk hw hb
    · exact readsBack_mark hk hl hu hw hb

end Form

namespace Document

/-- Reading the texts of written forms gives, without errors, forms of the same shapes. -/
theorem read_printAll {forms : List (Form α)} (h : ∀ form ∈ forms, form.all Form.isWritten = true) (number : Nat) :
    (read number (joinTexts " " (Form.printAll forms)) : Document α).errors = [] ∧
      (read number (joinTexts " " (Form.printAll forms)) : Document α).root.shape =
        .node .document none (Form.shapes forms) := by
  have hcollects : (Reading.mk [] []).Collects := by simp [Reading.Collects]
  obtain ⟨trees, hpasses, hspells, -⟩ := Form.passes_parts (fun form hf => (Form.all_iff.mp (h form hf)).1)
    (fun form hf => Form.readsBack_of_isWritten (h form hf)) hcollects 0 endsAtom_nil
  generalize htext : (joinTexts " " (Form.printAll forms)).toList = text at hpasses
  have hscan : Scan.ofSource text = Scan.ofForms trees.reverse text.length := by
    have := hpasses text.length
    simpa [Reading.attachAll_nil_pending, Token.allFrom, Scan.resume, Reading.finish, Scan.ofSource, Token.all] using this
  obtain ⟨hshapes, herrors⟩ := hspells text number [] 0 (by rw [htext]; exact List.prefix_refl _)
  simp only [read, htext, hscan, ofScan, Scan.ofForms, List.reverse_reverse, Nat.lt_irrefl, if_false, formOf, errorsOf,
    show TreeKind.document.isError = false from rfl, Bool.false_eq_true, Form.shape, hshapes, herrors, true_and]
  rfl

end Document

end Lisplet
