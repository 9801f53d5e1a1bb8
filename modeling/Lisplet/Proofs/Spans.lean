import Lisplet.Proofs.RoundTrip

/-! # Trees account for every character

The tree of a source loses nothing. A construct has its delimiters at its ends, its parts lie between them one after
the other, and all that is left are blanks. A reading keeps to this at every token: the parts of an open construct fill
the source from its opening delimiter up to the construct that was opened next, or up to where the reading stands
(`Reading.Fills`). What is completed or given up is then accounted for. -/

namespace Lisplet

/-- The character that closes a collection. -/
def Bracket.char : Bracket → Char
  | round => ')'
  | square => ']'
  | curly => '\x7d'

/-- What a tree of this kind has at its start and at its end, if it may have parts. -/
def TreeKind.delimiters? : TreeKind → Option (List Char × List Char)
  | document => some ([], [])
  | list => some (['('], [')'])
  | vector => some (['['], [']'])
  | map => some (['\x7b'], ['\x7d'])
  | set => some (['#', '\x7b'], ['\x7d'])
  | lambda => some (['#', '('], [')'])
  | quote => some (['\''], [])
  | backtick => some (['\x60'], [])
  | unquote => some (['~'], [])
  | unquoteSplicing => some (['~', '@'], [])
  | deref => some (['@'], [])
  | varQuote => some (['#', '\''], [])
  | tag => some (['^'], [])
  | discard => some (['#', '_'], [])
  | symbol | keyword | string | number | negNumber | hexLiteral | paramName => none
  | comment | syntaxError | restSyntaxError => none

/-! ### Tokens -/

namespace Lexeme

/-- How a lexeme is written. -/
def Spelt : Lexeme → List Char → Prop
  | blank, text => ∀ c ∈ text, isBlank c = true
  | comment, text => ∃ cs, text = ';' :: cs ∧ ∀ c ∈ cs, c ≠ '\n'
  | opening kind closer, text => kind.delimiters? = some (text, [closer.char]) ∧ text ≠ []
  | closing bracket, text => text = [bracket.char]
  | mark kind _, text => kind.delimiters? = some (text, []) ∧ text ≠ []
  | leaf kind, _ => kind.delimiters? = none

theorem unglued_snd_le {kind : TreeKind} {length : Nat} {cs : List Char} (h : length ≤ cs.length) :
    (unglued kind length cs).2 ≤ cs.length := by
  have hrun := runLength_le isSymbolChar (cs.drop length)
  rw [List.length_drop] at hrun
  simp only [unglued]
  split
  · exact h
  · show length + _ ≤ cs.length
    omega

theorem ofZero_snd_le (cs : List Char) : (ofZero cs).2 ≤ cs.length := by
  rw [ofZero_eq]
  split
  · next hx =>
    match cs, hx with
    | x :: cs, _ =>
      refine unglued_snd_le ?_
      have hrun := runLength_le isHexDigit cs
      simp only [List.drop_succ_cons, List.drop_zero, List.length_cons]
      omega
  · exact unglued_snd_le (numberLength_le cs)

theorem ofPlain_snd_le (c : Char) (cs : List Char) : (ofPlain c cs).2 ≤ cs.length := by
  unfold ofPlain
  split
  · exact ofZero_snd_le cs
  split
  · exact unglued_snd_le (numberLength_le cs)
  split
  · exact unglued_snd_le (numberLength_le cs)
  split
  · exact runLength_le _ _
  · exact Nat.zero_le _

theorem ofHash_snd_le (cs : List Char) : (ofHash cs).2 ≤ cs.length := by
  unfold ofHash
  split <;> first | exact runLength_le _ _ | simp

theorem ofTilde_snd_le (cs : List Char) : (ofTilde cs).2 ≤ cs.length := by
  unfold ofTilde
  split <;> simp

theorem ofQuote_snd_le (cs : List Char) : (ofQuote cs).2 ≤ cs.length := by
  unfold ofQuote
  split
  · next length hlength => exact stringLength?_le hlength
  · exact Nat.le_refl _

/-- A lexeme ends within the text. -/
theorem first_snd_le (c : Char) (cs : List Char) : (first c cs).2 ≤ cs.length := by
  unfold first
  split
  · exact runLength_le _ _
  split
  · exact runLength_le _ _
  all_goals try exact Nat.zero_le _
  · exact ofHash_snd_le cs
  · exact ofTilde_snd_le cs
  · exact ofQuote_snd_le cs
  · exact runLength_le _ _
  · exact (List.takeWhile_prefix _).length_le
  · exact ofPlain_snd_le _ cs

theorem forall_mem_take_runLength {p : Char → Bool} {cs : List Char} :
    ∀ c ∈ cs.take (runLength p cs), p c = true := by
  intro c hc
  rw [runLength, ← List.prefix_iff_eq_take.mp (List.takeWhile_prefix p)] at hc
  exact List.mem_takeWhile_imp hc

theorem ofHash_spelt (cs : List Char) : (ofHash cs).1.Spelt ('#' :: cs.take (ofHash cs).2) := by
  unfold ofHash
  split
  · exact ⟨rfl, by simp⟩
  · exact ⟨rfl, by simp⟩
  · exact ⟨rfl, by simp⟩
  · exact ⟨rfl, by simp⟩
  · exact rfl

theorem ofTilde_spelt (cs : List Char) : (ofTilde cs).1.Spelt ('~' :: cs.take (ofTilde cs).2) := by
  unfold ofTilde
  split
  · exact ⟨rfl, by simp⟩
  · exact ⟨rfl, by simp⟩

theorem unglued_spelt {kind : TreeKind} (h : kind.delimiters? = none) (length : Nat) (cs text : List Char) :
    (unglued kind length cs).1.Spelt text := by
  simp only [unglued]
  split
  · exact h
  · exact rfl

theorem ofPlain_spelt (c : Char) (cs text : List Char) : (ofPlain c cs).1.Spelt text := by
  unfold ofPlain
  split
  · rw [ofZero_eq]
    split
    · exact unglued_spelt rfl _ _ _
    · exact unglued_spelt rfl _ _ _
  split
  · exact unglued_spelt rfl _ _ _
  split
  · exact unglued_spelt rfl _ _ _
  split
  · exact rfl
  · exact rfl

/-- A lexeme of a source is written as lexemes of its class are. -/
theorem first_spelt (c : Char) (cs : List Char) : (first c cs).1.Spelt (c :: cs.take (first c cs).2) := by
  unfold first
  split
  · next hblank =>
    intro d hd
    rcases List.mem_cons.mp hd with rfl | hd
    · exact hblank
    · exact forall_mem_take_runLength d hd
  split
  · refine ⟨_, rfl, fun d hd => ?_⟩
    simpa using forall_mem_take_runLength d hd
  · exact ⟨rfl, by simp⟩
  · exact ⟨rfl, by simp⟩
  · exact ⟨rfl, by simp⟩
  · exact rfl
  · exact rfl
  · exact rfl
  · exact ofHash_spelt cs
  · exact ⟨rfl, by simp⟩
  · exact ⟨rfl, by simp⟩
  · exact ofTilde_spelt cs
  · exact ⟨rfl, by simp⟩
  · exact ⟨rfl, by simp⟩
  · unfold ofQuote
    split
    · exact rfl
    · exact rfl
  · simp only [ofColon]
    split
    · exact rfl
    · exact rfl
  · simp only [ofPercent]
    split
    · exact rfl
    · exact rfl
  · exact ofPlain_spelt _ _ _

end Lexeme

/-- A token that reading `source` comes to. -/
inductive Token.Stands (source : List Char) : Token → Prop
  | mk {pos : Nat} {c : Char} {cs : List Char} (h : source.drop pos = c :: cs) :
      Stands source ⟨(Lexeme.first c cs).1, pos, pos + 1 + (Lexeme.first c cs).2⟩

namespace Token

variable {source : List Char} {token : Token}

theorem Stands.lt (h : token.Stands source) : token.start < token.stop := by
  cases h with
  | mk h =>
    dsimp only
    omega

theorem Stands.le (h : token.Stands source) : token.stop ≤ source.length := by
  cases h with
  | @mk pos c cs h =>
    have hle := Lexeme.first_snd_le c cs
    have hlength := congrArg List.length h
    simp only [List.length_drop, List.length_cons] at hlength
    dsimp only
    omega

theorem Stands.spelt (h : token.Stands source) :
    token.lexeme.Spelt ((source.drop token.start).take (token.stop - token.start)) := by
  cases h with
  | @mk pos c cs h =>
    have hlength : pos + 1 + (Lexeme.first c cs).2 - pos = (Lexeme.first c cs).2 + 1 := by omega
    dsimp only
    rw [h, hlength, List.take_succ_cons]
    exact Lexeme.first_spelt c cs

theorem allFrom_of_drop {pos : Nat} {c : Char} {cs : List Char} (h : source.drop pos = c :: cs) :
    allFrom 0 pos (c :: cs) = ⟨(Lexeme.first c cs).1, pos, pos + 1 + (Lexeme.first c cs).2⟩ ::
      allFrom 0 (pos + 1 + (Lexeme.first c cs).2) (source.drop (pos + 1 + (Lexeme.first c cs).2)) := by
  have hle := Lexeme.first_snd_le c cs
  have hskip := allFrom_append (cs.take (Lexeme.first c cs).2) (cs.drop (Lexeme.first c cs).2) (pos + 1)
  have hdrop : source.drop (pos + 1 + (Lexeme.first c cs).2) = cs.drop (Lexeme.first c cs).2 := by
    rw [← List.drop_drop, ← List.drop_drop, h, List.drop_succ_cons, List.drop_zero]
  rw [List.take_append_drop, List.length_take, Nat.min_eq_left hle] at hskip
  rw [allFrom, hskip, hdrop]

end Token

/-- What holds at the start, is kept by every token, and decides the outcome whether the reading is ended by a token or
    by the end of the text, decides the outcome of the whole reading. -/
theorem Scan.resume_of_kept {source : List Char} {P : Reading → Nat → Prop} {Q : Scan → Prop}
    (hstep : ∀ {r : Reading} {token : Token}, token.Stands source → P r token.start →
      (∀ next, r.step token = .ok next → P next token.stop) ∧
      ∀ forms, r.step token = .error forms → Q (Scan.ofForms forms token.start))
    (hend : ∀ r : Reading, P r source.length →
      Q (Scan.ofForms (Reading.finish source.length r.forms none r.pending) source.length))
    {r : Reading} {pos : Nat} (hpos : pos ≤ source.length) (h : P r pos) :
    Q (Scan.resume source.length r (Token.allFrom 0 pos (source.drop pos))) := by
  -- on the number of characters that are left
  induction hleft : source.length - pos using Nat.strongRecOn generalizing r pos with
  | ind left ih =>
    cases hdrop : source.drop pos with
    | nil =>
      have hlength := congrArg List.length hdrop
      simp only [List.length_drop, List.length_nil] at hlength
      obtain rfl : pos = source.length := by omega
      exact hend r h
    | cons c cs =>
      have hstands : Token.Stands source ⟨(Lexeme.first c cs).1, pos, pos + 1 + (Lexeme.first c cs).2⟩ := .mk hdrop
      obtain ⟨hnext, hstop⟩ := hstep hstands h
      have hlt := hstands.lt
      have hle := hstands.le
      dsimp only at hlt hle
      rw [Token.allFrom_of_drop hdrop, Scan.resume]
      split
      · next next hr => exact ih _ (by omega) hle (hnext next hr) rfl
      · next forms hr => exact hstop forms hr

/-! ### Trees -/

/-- A tree stands somewhere in another, or is it. -/
inductive Tree.Within : Tree → Tree → Prop
  | refl (tree : Tree) : Within tree tree
  | part {node part tree : Tree} (hpart : part ∈ tree.children) (h : Within node part) : Within node tree

/-- Character `i` belongs to a tree and to none of its parts. -/
def Tree.Owns (tree : Tree) (i : Nat) : Prop :=
  tree.start ≤ i ∧ i < tree.stop ∧ ∀ part ∈ tree.children, ¬(part.start ≤ i ∧ i < part.stop)

/-- A tree has `before` at its start and `after` at its end, its parts lie between them in order and without overlap,
    and whatever else it owns is blank. -/
structure Tree.Framed (source before after : List Char) (tree : Tree) : Prop where
  room : tree.start + before.length + after.length ≤ tree.stop
  opened : before <+: source.drop tree.start
  closed : after <+: source.drop (tree.stop - after.length)
  inside : ∀ part ∈ tree.children, tree.start + before.length ≤ part.start ∧ part.stop + after.length ≤ tree.stop
  ordered : tree.children.Pairwise fun a b => a.stop ≤ b.start
  blank : ∀ i, tree.Owns i → tree.start + before.length ≤ i → i + after.length < tree.stop →
    ∃ c, source[i]? = some c ∧ isBlank c = true

/-- The characters of a tree are accounted for. A tree that has delimiters stands between them. Of the others only
    malformed text may have parts, and then it starts as a construct does that may have them. -/
def Tree.Accounted (source : List Char) (tree : Tree) : Prop :=
  match tree.kind.delimiters? with
  | some (before, after) => tree.Framed source before after
  | none => tree.children = [] ∨ tree.kind = .syntaxError ∧
    ∃ kind before after, TreeKind.delimiters? kind = some (before, after) ∧ before ≠ [] ∧
      tree.Framed source before []

/-- Only blanks stand between two positions. -/
structure Blanks (source : List Char) (lo hi : Nat) : Prop where
  le : lo ≤ hi
  blank : ∀ i, lo ≤ i → i < hi → ∃ c, source[i]? = some c ∧ isBlank c = true

/-- The trees, newest first, lie one after the other between two positions, and nothing else does but blanks. -/
def Tree.Fill (source : List Char) (lo : Nat) : (hi : Nat) → List Tree → Prop
  | hi, [] => Blanks source lo hi
  | hi, tree :: earlier => Blanks source tree.stop hi ∧ tree.start < tree.stop ∧ Fill source lo tree.start earlier

section Fill

variable {source before after : List Char} {lo hi pos start stop : Nat} {kind : TreeKind} {tree : Tree}
  {trees : List Tree}

theorem Blanks.refl (source : List Char) (pos : Nat) : Blanks source pos pos :=
  ⟨Nat.le_refl pos, fun _ hlo hhi => absurd hhi (Nat.not_lt.mpr hlo)⟩

theorem Blanks.trans {mid : Nat} (h : Blanks source lo mid) (h' : Blanks source mid hi) : Blanks source lo hi := by
  refine ⟨Nat.le_trans h.le h'.le, fun i hlo hhi => ?_⟩
  by_cases hi : i < mid
  · exact h.blank i hlo hi
  · exact h'.blank i (Nat.not_lt.mp hi) hhi

theorem Blanks.of_token {token : Token} (h : token.Stands source) (hblank : token.lexeme = .blank) :
    Blanks source token.start token.stop := by
  have hspelt := h.spelt
  have hlt := h.lt
  have hle := h.le
  rw [hblank] at hspelt
  refine ⟨Nat.le_of_lt hlt, fun i hlo hhi => ?_⟩
  have hi : i < source.length := Nat.lt_of_lt_of_le hhi hle
  have htext : ((source.drop token.start).take (token.stop - token.start))[i - token.start]? = some source[i] := by
    rw [List.getElem?_take_of_lt (by omega), List.getElem?_drop, Nat.add_sub_of_le hlo, List.getElem?_eq_getElem hi]
  exact ⟨_, List.getElem?_eq_getElem hi, hspelt _ (List.mem_of_getElem? htext)⟩

namespace Tree

theorem Fill.le (h : Fill source lo hi trees) : lo ≤ hi := by
  induction trees generalizing hi with
  | nil => exact Blanks.le h
  | cons tree earlier ih =>
    obtain ⟨hblanks, hspan, hfill⟩ := h
    have := ih hfill
    have := hblanks.le
    omega

theorem Fill.trans (h : Fill source lo pos trees) (hblanks : Blanks source pos hi) : Fill source lo hi trees := by
  cases trees with
  | nil => exact Blanks.trans h hblanks
  | cons tree earlier => exact ⟨h.1.trans hblanks, h.2⟩

theorem Fill.add (h : Fill source lo tree.start trees) (hspan : tree.start < tree.stop) :
    Fill source lo tree.stop (tree :: trees) := ⟨Blanks.refl source tree.stop, hspan, h⟩

theorem Fill.inside (h : Fill source lo hi trees) : ∀ tree ∈ trees, lo ≤ tree.start ∧ tree.stop ≤ hi := by
  induction trees generalizing hi with
  | nil => simp
  | cons tree earlier ih =>
    obtain ⟨hblanks, hspan, hfill⟩ := h
    have hlo := hfill.le
    have hhi := hblanks.le
    intro other hother
    rcases List.mem_cons.mp hother with rfl | hother
    · exact ⟨hlo, hhi⟩
    · obtain ⟨hstart, hstop⟩ := ih hfill other hother
      exact ⟨hstart, by omega⟩

theorem Fill.ordered (h : Fill source lo hi trees) : trees.Pairwise fun a b => b.stop ≤ a.start := by
  induction trees generalizing hi with
  | nil => exact .nil
  | cons tree earlier ih =>
    obtain ⟨-, -, hfill⟩ := h
    exact .cons (fun other hother => (hfill.inside other hother).2) (ih hfill)

theorem Fill.blank (h : Fill source lo hi trees) {i : Nat} (hlo : lo ≤ i) (hhi : i < hi)
    (hnone : ∀ tree ∈ trees, ¬(tree.start ≤ i ∧ i < tree.stop)) : ∃ c, source[i]? = some c ∧ isBlank c = true := by
  induction trees generalizing hi with
  | nil => exact Blanks.blank h i hlo hhi
  | cons tree earlier ih =>
    obtain ⟨hblanks, -, hfill⟩ := h
    have htree := hnone tree (by simp)
    by_cases hbehind : tree.stop ≤ i
    · exact hblanks.blank i hbehind hhi
    · exact ih hfill (by omega) fun other hother => hnone other (List.mem_cons_of_mem _ hother)

/-- What fills the room between two delimiters is framed by them. -/
theorem Fill.framed (h : Fill source (start + before.length) pos trees) (hopened : before <+: source.drop start)
    (hclosed : after <+: source.drop pos) (hstop : stop = pos + after.length) :
    (node kind start stop trees.reverse).Framed source before after := by
  subst hstop
  have hle := h.le
  refine ⟨?_, hopened, ?_, fun part hpart => ?_, ?_, fun i howns hlo hhi => ?_⟩
  · show start + before.length + after.length ≤ pos + after.length
    omega
  · show after <+: source.drop (pos + after.length - after.length)
    rwa [Nat.add_sub_cancel]
  · obtain ⟨hlo, hhi⟩ := h.inside part (List.mem_reverse.mp hpart)
    exact ⟨hlo, Nat.add_le_add_right hhi _⟩
  · exact List.pairwise_reverse.mpr h.ordered
  · have hhi : i + after.length < pos + after.length := hhi
    refine h.blank hlo (by omega) fun part hpart => ?_
    exact howns.2.2 part (List.mem_reverse.mpr hpart)

/-- Every tree within a tree is accounted for, covers something and is no document. -/
inductive Whole (source : List Char) : Tree → Prop
  | mk {tree : Tree} (hspan : tree.start < tree.stop) (hkind : tree.kind ≠ .document)
      (hown : tree.Accounted source) (hparts : ∀ part ∈ tree.children, Whole source part) : Whole source tree

theorem Whole.span (h : tree.Whole source) : tree.start < tree.stop := by
  cases h with
  | mk hspan => exact hspan

theorem Accounted.inside (h : tree.Accounted source) {part : Tree} (hpart : part ∈ tree.children) :
    tree.start ≤ part.start ∧ part.stop ≤ tree.stop := by
  unfold Accounted at h
  split at h
  · obtain ⟨hlo, hhi⟩ := h.inside part hpart
    omega
  · rcases h with hnil | ⟨-, kind, before, after, -, -, hframed⟩
    · rw [hnil] at hpart
      cases hpart
    · obtain ⟨hlo, hhi⟩ := hframed.inside part hpart
      omega

theorem Whole.within {node : Tree} (h : tree.Whole source) (hw : node.Within tree) :
    node.Whole source ∧ node.stop ≤ tree.stop := by
  induction hw with
  | refl => exact ⟨h, Nat.le_refl _⟩
  | part hpart _ ih =>
    obtain ⟨-, -, hown, hparts⟩ := h
    obtain ⟨hnode, hstop⟩ := ih (hparts _ hpart)
    exact ⟨hnode, Nat.le_trans hstop (hown.inside hpart).2⟩

theorem whole_leaf (hspan : start < stop) (hkind : kind.delimiters? = none) : (leaf kind start stop).Whole source := by
  refine .mk hspan ?_ ?_ (by simp [leaf, children])
  · rintro rfl
    cases hkind
  · show Accounted source (node kind start stop [])
    simp only [Accounted, Tree.kind, hkind]
    exact .inl rfl

end Tree

end Fill

/-! ### Readings -/

/-- What ends a construct that waits for this. -/
def Need.ending : Need → List Char
  | closer bracket => [bracket.char]
  | operands _ => []

/-- The parts of an open construct fill the source from behind its opening delimiter up to `pos`. -/
structure Pending.Fills (source : List Char) (p : Pending) (pos : Nat) : Prop where
  frame : ∃ before, p.kind.delimiters? = some (before, p.need.ending) ∧ before ≠ [] ∧ before <+: source.drop p.start ∧
    Tree.Fill source (p.start + before.length) pos p.children
  whole : ∀ tree ∈ p.children, tree.Whole source

/-- The source is filled up to `pos`: by the parts of the innermost construct from its start on, by those of the
    construct around it up to there, and so on to the trees at the top level. -/
def Reading.Fills (source : List Char) (forms : List Tree) : List Pending → (pos : Nat) → Prop
  | [], pos => Tree.Fill source 0 pos forms ∧ ∀ tree ∈ forms, tree.Whole source
  | p :: ps, pos => p.Fills source pos ∧ Fills source forms ps p.start

section Reading

variable {source : List Char} {p : Pending} {ps : List Pending} {forms : List Tree} {tree : Tree} {pos : Nat}

namespace Pending.Fills

theorem trans {hi : Nat} (h : p.Fills source pos) (hblanks : Blanks source pos hi) : p.Fills source hi := by
  obtain ⟨before, hkind, hne, hopened, hfill⟩ := h.frame
  exact ⟨⟨before, hkind, hne, hopened, hfill.trans hblanks⟩, h.whole⟩

theorem add (h : p.Fills source tree.start) (ht : tree.Whole source) : (p.add tree).Fills source tree.stop := by
  obtain ⟨before, hkind, hne, hopened, hfill⟩ := h.frame
  refine ⟨⟨before, hkind, hne, hopened, hfill.add ht.span⟩, ?_⟩
  simpa [Pending.add] using ⟨ht, h.whole⟩

/-- The construct waits for one operand less. -/
theorem operand {more fewer : Nat} (h : p.Fills source pos) (hneed : p.need = .operands more) :
    Fills source { p with need := .operands fewer } pos := by
  obtain ⟨before, hkind, hrest⟩ := h.frame
  rw [hneed] at hkind
  exact ⟨⟨before, hkind, hrest⟩, h.whole⟩

theorem whole_of_framed {before after : List Char} {kind : TreeKind} {stop : Nat} (h : p.Fills source pos)
    (hbefore : before ≠ []) (hkind : kind ≠ .document)
    (hframed : (Tree.node kind p.start stop p.children.reverse).Framed source before after)
    (hown : (Tree.node kind p.start stop p.children.reverse).Accounted source) :
    (Tree.node kind p.start stop p.children.reverse).Whole source := by
  refine .mk ?_ hkind hown fun part hpart => h.whole part (List.mem_reverse.mp hpart)
  have hroom : p.start + before.length + after.length ≤ stop := hframed.room
  have hpos := List.length_pos_iff.mpr hbefore
  show p.start < stop
  omega

/-- A construct is completed by what ends it. -/
theorem complete (h : p.Fills source pos) (hend : p.need.ending <+: source.drop pos) :
    (p.complete (pos + p.need.ending.length)).Whole source := by
  obtain ⟨before, hkind, hne, hopened, hfill⟩ := h.frame
  have hframed : (p.complete (pos + p.need.ending.length)).Framed source before p.need.ending :=
    hfill.framed hopened hend rfl
  refine h.whole_of_framed hne ?_ hframed ?_
  · intro hdocument
    rw [hdocument] at hkind
    exact hne (Prod.mk.inj (Option.some.inj hkind)).1.symm
  · show Tree.Accounted source (p.complete _)
    unfold Tree.Accounted
    simpa only [Pending.complete, Tree.kind, hkind] using hframed

/-- A construct that waits for no bracket ends where its last operand does. -/
theorem complete_operands {more : Nat} (h : p.Fills source pos) (hneed : p.need = .operands more) :
    (p.complete pos).Whole source := by
  have hending : p.need.ending = [] := by rw [hneed]; rfl
  have hcomplete := h.complete (by rw [hending]; exact List.nil_prefix)
  rwa [hending] at hcomplete

/-- A construct that is given up starts as it would if it had been completed. -/
theorem abandon (h : p.Fills source pos) : (p.abandon pos).Whole source := by
  obtain ⟨before, hkind, hne, hopened, hfill⟩ := h.frame
  have hframed : (p.abandon pos).Framed source before [] := hfill.framed hopened List.nil_prefix rfl
  refine h.whole_of_framed hne (by decide) hframed ?_
  exact .inr ⟨rfl, p.kind, before, _, hkind, hne, hframed⟩

end Pending.Fills

namespace Reading.Fills

theorem trans {hi : Nat} (h : Reading.Fills source forms ps pos) (hblanks : Blanks source pos hi) :
    Reading.Fills source forms ps hi := by
  cases ps with
  | nil => exact ⟨h.1.trans hblanks, h.2⟩
  | cons p ps => exact ⟨h.1.trans hblanks, h.2⟩

theorem push {kind : TreeKind} {need : Need} {text : List Char} {start stop : Nat}
    (h : Reading.Fills source forms ps start) (hkind : kind.delimiters? = some (text, need.ending)) (hne : text ≠ [])
    (hleads : text <+: source.drop start) (hstop : start + text.length = stop) :
    Reading.Fills source forms (⟨kind, start, need, []⟩ :: ps) stop := by
  subst hstop
  exact ⟨⟨⟨text, hkind, hne, hleads, Blanks.refl _ _⟩, by simp⟩, h⟩

theorem attach {r : Reading} (h : Reading.Fills source r.forms r.pending tree.start) (ht : tree.Whole source) :
    Reading.Fills source (r.attach tree).forms (r.attach tree).pending tree.stop := by
  obtain ⟨forms, pending⟩ := r
  cases pending with
  | nil => exact ⟨h.1.add ht.span, by simpa [Reading.attach] using ⟨ht, h.2⟩⟩
  | cons p ps => exact ⟨h.1.add ht, h.2⟩

theorem deliver (h : Reading.Fills source forms ps tree.start) (ht : tree.Whole source) :
    Reading.Fills source (Reading.deliver tree forms ps).forms (Reading.deliver tree forms ps).pending tree.stop := by
  induction ps generalizing tree with
  | nil => exact ⟨h.1.add ht.span, by simpa [Reading.deliver] using ⟨ht, h.2⟩⟩
  | cons p ps ih =>
    obtain ⟨hp, hps⟩ := h
    have hadd := hp.add ht
    rw [Reading.deliver]
    split
    · exact ⟨hadd, hps⟩
    · next hneed => exact ih hps (hadd.complete_operands hneed)
    · next more hneed => exact ⟨hadd.operand hneed, hps⟩

/-- What is given up ends at `pos`, so the constructs around it are filled up to there. -/
theorem giveUp (held : Option Tree) (h : Reading.Fills source forms ps (held.elim pos Tree.start))
    (ht : ∀ tree ∈ held, tree.Whole source ∧ tree.stop = pos) :
    Reading.Fills source (Reading.giveUp pos forms held ps).forms (Reading.giveUp pos forms held ps).pending pos := by
  induction ps generalizing held with
  | nil =>
    cases held with
    | none => exact h
    | some tree =>
      obtain ⟨hwhole, rfl⟩ := ht tree rfl
      exact ⟨h.1.add hwhole.span, by simpa [Reading.giveUp] using ⟨hwhole, h.2⟩⟩
  | cons p ps ih =>
    obtain ⟨hp, hps⟩ := h
    cases held with
    | none =>
      rw [Reading.giveUp]
      split
      · exact ⟨hp, hps⟩
      · exact ih (some _) hps (by simpa using ⟨hp.abandon, rfl⟩)
    | some tree =>
      obtain ⟨hwhole, rfl⟩ := ht tree rfl
      have hadd := hp.add hwhole
      rw [Reading.giveUp]
      split
      · exact ⟨hadd, hps⟩
      · next hneed => exact ih (some _) hps (by simpa using ⟨hadd.complete_operands hneed, rfl⟩)
      · exact ih (some _) hps (by simpa using ⟨hadd.abandon, rfl⟩)

theorem finish (held : Option Tree) (h : Reading.Fills source forms ps (held.elim pos Tree.start))
    (ht : ∀ tree ∈ held, tree.Whole source ∧ tree.stop = pos) :
    Reading.Fills source (Reading.finish pos forms held ps) [] pos := by
  induction ps generalizing held with
  | nil =>
    cases held with
    | none => exact h
    | some tree =>
      obtain ⟨hwhole, rfl⟩ := ht tree rfl
      exact ⟨h.1.add hwhole.span, by simpa [Reading.finish] using ⟨hwhole, h.2⟩⟩
  | cons p ps ih =>
    obtain ⟨hp, hps⟩ := h
    cases held with
    | none => exact ih (some _) hps (by simpa using ⟨hp.abandon, rfl⟩)
    | some tree =>
      obtain ⟨hwhole, rfl⟩ := ht tree rfl
      have hadd := hp.add hwhole
      rw [Reading.finish]
      split
      · next hneed => exact ih (some _) hps (by simpa using ⟨hadd.complete_operands hneed, rfl⟩)
      · exact ih (some _) hps (by simpa using ⟨hadd.abandon, rfl⟩)

/-- A closing bracket ends the innermost collection, or is malformed there. -/
theorem close {r : Reading} {bracket : Bracket} (h : Reading.Fills source r.forms r.pending pos)
    (hchar : [bracket.char] <+: source.drop pos) :
    (∀ next, r.close bracket pos (pos + 1) = .ok next → Reading.Fills source next.forms next.pending (pos + 1)) ∧
      ∀ forms, r.close bracket pos (pos + 1) = .error forms → Reading.Fills source forms [] pos := by
  have hgiven := giveUp none h (by simp)
  unfold Reading.close
  generalize Reading.giveUp pos r.forms none r.pending = given at hgiven
  obtain ⟨forms, pending⟩ := given
  cases pending with
  | nil =>
    refine ⟨by simp, fun forms' hforms => ?_⟩
    obtain rfl := Except.error.inj hforms
    exact hgiven
  | cons p ps =>
    obtain ⟨hp, hps⟩ := hgiven
    dsimp only
    split
    · next hneed =>
      refine ⟨fun next hnext => ?_, by simp⟩
      obtain rfl := Except.ok.inj hnext
      have hcomplete := hp.complete (by rw [hneed]; exact hchar)
      rw [hneed] at hcomplete
      exact deliver hps hcomplete
    · refine ⟨fun next hnext => ?_, by simp⟩
      obtain rfl := Except.ok.inj hnext
      have hleaf : (Tree.leaf .syntaxError pos (pos + 1)).Whole source := Tree.whole_leaf (Nat.lt_succ_self pos) rfl
      exact ⟨Pending.Fills.add hp hleaf, hps⟩

/-- A token is accounted for, whatever it is. -/
theorem step {r : Reading} {token : Token} (ht : token.Stands source)
    (h : Reading.Fills source r.forms r.pending token.start) :
    (∀ next, r.step token = .ok next → Reading.Fills source next.forms next.pending token.stop) ∧
      ∀ forms, r.step token = .error forms →
        Reading.Fills source forms [] token.start ∧
          ∃ bracket : Bracket, [bracket.char] <+: source.drop token.start := by
  have hlt := ht.lt
  have hle := ht.le
  have hspelt := ht.spelt
  have hleads : (source.drop token.start).take (token.stop - token.start) <+: source.drop token.start :=
    List.take_prefix _ _
  have hlength : ((source.drop token.start).take (token.stop - token.start)).length = token.stop - token.start := by
    rw [List.length_take, List.length_drop]
    omega
  have hblank : token.lexeme = .blank → Blanks source token.start token.stop := Blanks.of_token ht
  obtain ⟨lexeme, start, stop⟩ := token
  dsimp only at hlt hle hspelt hleads hlength hblank h ⊢
  generalize (source.drop start).take (stop - start) = text at hspelt hleads hlength
  cases lexeme with
  | blank =>
    refine ⟨fun next hnext => ?_, fun forms hforms => nomatch hforms⟩
    obtain rfl := Except.ok.inj hnext
    exact h.trans (hblank rfl)
  | comment =>
    refine ⟨fun next hnext => ?_, fun forms hforms => nomatch hforms⟩
    obtain rfl := Except.ok.inj hnext
    have hleaf : (Tree.leaf .comment start stop).Whole source := Tree.whole_leaf hlt rfl
    exact attach h hleaf
  | opening kind closer =>
    refine ⟨fun next hnext => ?_, fun forms hforms => nomatch hforms⟩
    obtain rfl := Except.ok.inj hnext
    exact h.push hspelt.1 hspelt.2 hleads (by omega)
  | mark kind more =>
    refine ⟨fun next hnext => ?_, fun forms hforms => nomatch hforms⟩
    obtain rfl := Except.ok.inj hnext
    exact h.push hspelt.1 hspelt.2 hleads (by omega)
  | leaf kind =>
    refine ⟨fun next hnext => ?_, fun forms hforms => nomatch hforms⟩
    obtain rfl := Except.ok.inj hnext
    have hleaf : (Tree.leaf kind start stop).Whole source := Tree.whole_leaf hlt hspelt
    exact deliver h hleaf
  | closing bracket =>
    obtain rfl : text = [bracket.char] := hspelt
    obtain rfl : stop = start + 1 := by
      rw [List.length_singleton] at hlength
      omega
    obtain ⟨hnext, hstop⟩ := h.close hleads
    exact ⟨hnext, fun forms hforms => ⟨hstop forms hforms, bracket, hleads⟩⟩

end Reading.Fills

end Reading

namespace Scan

/-- The trees at the top level fill what was consumed, and only a closing bracket ends a reading early. -/
def Filled (source : List Char) (scan : Scan) : Prop :=
  ∃ forms consumed, scan = ofForms forms consumed ∧ consumed ≤ source.length ∧
    (consumed < source.length → ∃ bracket : Bracket, source[consumed]? = some bracket.char) ∧
    Reading.Fills source forms [] consumed

theorem ofSource_filled (source : List Char) : (ofSource source).Filled source := by
  have hstart : Reading.Fills source [] [] 0 := ⟨Blanks.refl source 0, by simp⟩
  refine resume_of_kept (P := fun r pos => Reading.Fills source r.forms r.pending pos) (Q := Filled source)
    (fun ht h => ?_) (fun r h => ?_) (Nat.zero_le _) hstart
  · obtain ⟨hnext, hstop⟩ := h.step ht
    refine ⟨hnext, fun forms hforms => ?_⟩
    obtain ⟨hfills, bracket, tail, htail⟩ := hstop forms hforms
    refine ⟨forms, _, rfl, Nat.le_of_lt (Nat.lt_of_lt_of_le ht.lt ht.le), fun _ => ⟨bracket, ?_⟩, hfills⟩
    rw [← List.head?_drop, ← htail]
    rfl
  · exact ⟨_, _, rfl, Nat.le_refl _, fun hlt => absurd hlt (Nat.lt_irrefl _), h.finish none (by simp)⟩

/-- Nothing of a source is lost: what was not consumed starts with a closing bracket, and every character of what was
    consumed is accounted for in the tree, by the document or by a tree below it. -/
theorem ofSource_accounted (source : List Char) :
    (ofSource source).consumed ≤ source.length ∧
    ((ofSource source).consumed < source.length →
      ∃ bracket : Bracket, source[(ofSource source).consumed]? = some bracket.char) ∧
    (ofSource source).root.kind = .document ∧ (ofSource source).root.start = 0 ∧
    (ofSource source).root.stop = (ofSource source).consumed ∧ (ofSource source).root.Accounted source ∧
    ∀ part ∈ (ofSource source).root.children, ∀ node : Tree, node.Within part →
      node.start < node.stop ∧ node.stop ≤ (ofSource source).consumed ∧ node.kind ≠ .document ∧
        node.Accounted source := by
  obtain ⟨forms, consumed, hscan, hle, hbracket, hfill, hwhole⟩ := ofSource_filled source
  rw [hscan]
  refine ⟨hle, hbracket, rfl, rfl, rfl, ?_, fun part hpart node hnode => ?_⟩
  · exact Tree.Fill.framed hfill List.nil_prefix List.nil_prefix rfl
  · have hmem : part ∈ forms := List.mem_reverse.mp hpart
    obtain ⟨⟨hspan, hkind, hown, -⟩, hstop⟩ := (hwhole part hmem).within hnode
    exact ⟨hspan, Nat.le_trans hstop (hfill.inside part hmem).2, hkind, hown⟩

end Scan

end Lisplet
