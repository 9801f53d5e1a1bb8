import Lisplet.Proofs.Clean

/-! # A text after another

Reading goes from left to right and holds nothing but the constructs that are still open, so a source that is read to
its end without error leaves no trace on what comes after it. Two facts carry this. The reader does not know where it
stands: a text behind others is read as it is alone, with all positions moved on (`Scan.resume_behind`). And a line
break tells no token more than the end of the text does (`Lexeme.first_newline`), except for a string literal that does
not end, which no clean tree holds. -/

namespace Lisplet

/-! ### Moving a text on -/

mutual

/-- The tree of a text that has moved on by `offset` characters. -/
def Tree.shift (offset : Nat) : Tree → Tree
  | .node kind start stop children => .node kind (offset + start) (offset + stop) (Tree.shiftAll offset children)

/-- The trees, moved on. -/
def Tree.shiftAll (offset : Nat) : List Tree → List Tree
  | [] => []
  | tree :: rest => tree.shift offset :: Tree.shiftAll offset rest

end

theorem Tree.shiftAll_eq_map (offset : Nat) (trees : List Tree) : shiftAll offset trees = trees.map (shift offset) := by
  induction trees with
  | nil => rfl
  | cons tree trees ih => rw [shiftAll, ih, List.map_cons]

theorem Tree.shift_node (offset : Nat) (kind : TreeKind) (start stop : Nat) (children : List Tree) :
    shift offset (node kind start stop children) =
      node kind (offset + start) (offset + stop) (children.map (shift offset)) := by
  rw [shift, shiftAll_eq_map]

theorem Tree.stop_shift (offset : Nat) (tree : Tree) : (tree.shift offset).stop = offset + tree.stop := by
  cases tree with
  | node kind start stop children => rfl

/-- The open construct, moved on. -/
def Pending.shift (offset : Nat) (p : Pending) : Pending :=
  ⟨p.kind, offset + p.start, p.need, p.children.map (Tree.shift offset)⟩

/-- The token, moved on. -/
def Token.shift (offset : Nat) (token : Token) : Token :=
  ⟨token.lexeme, offset + token.start, offset + token.stop⟩

/-- A reading of a text that has moved on by `offset` characters, behind the trees `before`. -/
def Reading.behind (offset : Nat) (before : List Tree) (r : Reading) : Reading :=
  ⟨r.forms.map (Tree.shift offset) ++ before, r.pending.map (Pending.shift offset)⟩

/-- The scan of a text that has moved on by `offset` characters, behind the trees `before`. -/
def Scan.behind (offset : Nat) (before : List Tree) (scan : Scan) : Scan :=
  ⟨.node .document 0 (offset + scan.consumed) (before.reverse ++ scan.root.children.map (Tree.shift offset)),
    offset + scan.consumed⟩

section Shift

variable {offset : Nat} {before : List Tree}

namespace Pending

theorem need_shift (p : Pending) : (p.shift offset).need = p.need := rfl

theorem shift_add (p : Pending) (tree : Tree) : (p.add tree).shift offset = (p.shift offset).add (tree.shift offset) :=
  rfl

theorem shift_complete (p : Pending) (stop : Nat) :
    (p.complete stop).shift offset = (p.shift offset).complete (offset + stop) := by
  rw [complete, Tree.shift_node, List.map_reverse]
  rfl

theorem shift_abandon (p : Pending) (stop : Nat) :
    (p.abandon stop).shift offset = (p.shift offset).abandon (offset + stop) := by
  rw [abandon, Tree.shift_node, List.map_reverse]
  rfl

end Pending

namespace Reading

theorem attach_behind (tree : Tree) (r : Reading) :
    (r.behind offset before).attach (tree.shift offset) = (r.attach tree).behind offset before := by
  obtain ⟨forms, pending⟩ := r
  cases pending with
  | nil => rfl
  | cons p ps => rfl

theorem deliver_behind (tree : Tree) (forms : List Tree) (ps : List Pending) :
    deliver (tree.shift offset) (forms.map (Tree.shift offset) ++ before) (ps.map (Pending.shift offset)) =
      (deliver tree forms ps).behind offset before := by
  induction ps generalizing tree with
  | nil => rfl
  | cons p ps ih =>
    rw [List.map_cons, deliver, deliver, Pending.need_shift]
    split
    · rfl
    · rw [← Pending.shift_add, Tree.stop_shift, ← Pending.shift_complete, ih]
    · rfl

theorem giveUp_behind (pos : Nat) (forms : List Tree) (held : Option Tree) (ps : List Pending) :
    giveUp (offset + pos) (forms.map (Tree.shift offset) ++ before) (held.map (Tree.shift offset))
        (ps.map (Pending.shift offset)) =
      (giveUp pos forms held ps).behind offset before := by
  induction ps generalizing held with
  | nil => cases held <;> rfl
  | cons p ps ih =>
    cases held with
    | none =>
      rw [List.map_cons, Option.map_none, giveUp, giveUp, Pending.need_shift]
      split
      · rfl
      · rw [← ih, Option.map_some, Pending.shift_abandon]
    | some tree =>
      rw [List.map_cons, Option.map_some, giveUp, giveUp, Pending.need_shift]
      split
      · rfl
      · rw [← ih, Option.map_some, Pending.shift_complete, Tree.stop_shift, Pending.shift_add]
      · rw [← ih, Option.map_some, Pending.shift_abandon, Pending.shift_add]

theorem finish_behind (pos : Nat) (forms : List Tree) (held : Option Tree) (ps : List Pending) :
    finish (offset + pos) (forms.map (Tree.shift offset) ++ before) (held.map (Tree.shift offset))
        (ps.map (Pending.shift offset)) =
      (finish pos forms held ps).map (Tree.shift offset) ++ before := by
  induction ps generalizing held with
  | nil => cases held <;> rfl
  | cons p ps ih =>
    cases held with
    | none => rw [List.map_cons, Option.map_none, finish, finish, ← ih, Option.map_some, Pending.shift_abandon]
    | some tree =>
      rw [List.map_cons, Option.map_some, finish, finish, Pending.need_shift]
      split
      · rw [← ih, Option.map_some, Pending.shift_complete, Tree.stop_shift, Pending.shift_add]
      · rw [← ih, Option.map_some, Pending.shift_abandon, Pending.shift_add]

/-- The outcome of a step, moved on like the reading it starts from. -/
def outcomeBehind (offset : Nat) (before : List Tree) : Except (List Tree) Reading → Except (List Tree) Reading
  | .ok next => .ok (next.behind offset before)
  | .error forms => .error (forms.map (Tree.shift offset) ++ before)

theorem close_behind (r : Reading) (bracket : Bracket) (start stop : Nat) :
    (r.behind offset before).close bracket (offset + start) (offset + stop) =
      outcomeBehind offset before (r.close bracket start stop) := by
  unfold close
  have hgiven : giveUp (offset + start) (r.behind offset before).forms none (r.behind offset before).pending =
      (giveUp start r.forms none r.pending).behind offset before := giveUp_behind start r.forms none r.pending
  rw [hgiven]
  cases giveUp start r.forms none r.pending with
  | mk forms pending =>
    cases pending with
    | nil => rfl
    | cons p ps =>
      simp only [behind, List.map_cons]
      by_cases hneed : p.need = .closer bracket
      · rw [if_pos ((p.need_shift).trans hneed), if_pos hneed, ← Pending.shift_complete, deliver_behind]
        rfl
      · rw [if_neg fun h => hneed (p.need_shift.symm.trans h), if_neg hneed]
        rfl

theorem step_behind (r : Reading) (token : Token) :
    (r.behind offset before).step (token.shift offset) = outcomeBehind offset before (r.step token) := by
  obtain ⟨lexeme, start, stop⟩ := token
  cases lexeme with
  | blank => rfl
  | comment => exact congrArg Except.ok (attach_behind (.leaf .comment start stop) r)
  | opening kind closer => rfl
  | mark kind more => rfl
  | leaf kind => exact congrArg Except.ok (deliver_behind (.leaf kind start stop) r.forms r.pending)
  | closing bracket => exact close_behind r bracket start stop

end Reading

theorem Token.allFrom_shift (offset skip pos : Nat) (cs : List Char) :
    allFrom skip (offset + pos) cs = (allFrom skip pos cs).map (shift offset) := by
  fun_induction allFrom skip pos cs with
  | case1 => rw [allFrom, List.map_nil]
  | case2 skip pos c cs ih => rw [allFrom, ← ih, Nat.add_assoc]
  | case3 pos c cs found ih =>
    have hstop : offset + pos + 1 + found.2 = offset + (pos + 1 + found.2) := by omega
    rw [allFrom, List.map_cons, ← ih, hstop, Nat.add_assoc offset]
    rfl

namespace Scan

theorem ofForms_behind (forms : List Tree) (consumed : Nat) :
    ofForms (forms.map (Tree.shift offset) ++ before) (offset + consumed) =
      (ofForms forms consumed).behind offset before := by
  rw [ofForms, List.reverse_append, ← List.map_reverse]
  rfl

theorem ofForms_inj {forms forms' : List Tree} {consumed consumed' : Nat}
    (h : ofForms forms consumed = ofForms forms' consumed') : forms = forms' ∧ consumed = consumed' := by
  obtain ⟨hroot, hconsumed⟩ := Scan.mk.inj h
  exact ⟨List.reverse_inj.mp (Tree.node.inj hroot).2.2.2, hconsumed⟩

/-- Reading does not depend on where a text stands, nor on what was read before it. -/
theorem resume_behind (offset : Nat) (before : List Tree) (length : Nat) (r : Reading) (tokens : List Token) :
    resume (offset + length) (r.behind offset before) (tokens.map (Token.shift offset)) =
      (resume length r tokens).behind offset before := by
  induction tokens generalizing r with
  | nil =>
    rw [List.map_nil, resume, resume, ← ofForms_behind]
    exact congrArg (ofForms · (offset + length)) (Reading.finish_behind length r.forms none r.pending)
  | cons token tokens ih =>
    rw [List.map_cons, resume, resume, Reading.step_behind]
    cases r.step token with
    | ok next => exact ih next
    | error forms => exact ofForms_behind forms token.start

end Scan

end Shift

/-! ### A line break -/

namespace Lexeme

variable {cs rest : List Char}

theorem endsAtom_newline : EndsAtom ('\n' :: rest) := endsAtom_cons (by decide)

/-- What a text starts with before a line break, it starts with by itself. -/
theorem cons_of_append_newline {c : Char} {tail : List Char} (h : cs ++ '\n' :: rest = c :: tail) (hc : c ≠ '\n') :
    ∃ more, cs = c :: more := by
  cases cs with
  | nil => exact absurd (List.cons.inj h).1.symm hc
  | cons d ds => exact ⟨ds, by rw [(List.cons.inj h).1]⟩

theorem ofHash_newline : ofHash (cs ++ '\n' :: rest) = ofHash cs := by
  fun_cases ofHash cs with
  | case1 | case2 | case3 | case4 => rfl
  | case5 cs h₁ h₂ h₃ h₄ =>
    have hother {c : Char} (hc : c ≠ '\n') (h : ∀ more, cs = c :: more → False) (tail : List Char)
        (htail : cs ++ '\n' :: rest = c :: tail) : False := by
      obtain ⟨more, hmore⟩ := cons_of_append_newline htail hc
      exact h more hmore
    rw [ofHash, runLength_append endsAtom_newline fun _ => id]
    · exact hother (by decide) h₁
    · exact hother (by decide) h₂
    · exact hother (by decide) h₃
    · exact hother (by decide) h₄

theorem ofTilde_newline : ofTilde (cs ++ '\n' :: rest) = ofTilde cs := by
  fun_cases ofTilde cs with
  | case1 => rfl
  | case2 cs h =>
    rw [ofTilde]
    intro tail htail
    obtain ⟨more, hmore⟩ := cons_of_append_newline htail (by decide)
    exact h more hmore

theorem ofQuote_newline (h : (ofQuote cs).1 ≠ leaf .restSyntaxError) :
    ofQuote (cs ++ '\n' :: rest) = ofQuote cs := by
  cases hs : stringLength? cs with
  | none => exact absurd (by simp [ofQuote, hs]) h
  | some n =>
    have hlength := stringLength?_append hs (cs.drop n ++ '\n' :: rest)
    rw [← List.append_assoc, List.take_append_drop] at hlength
    simp only [ofQuote, hs, hlength]

/-- A line break after a token is no part of it, unless the token is blank or a string literal that does not end. -/
theorem first_newline {c : Char} (hc : isBlank c = false) (h : (first c cs).1 ≠ leaf .restSyntaxError) :
    first c (cs ++ '\n' :: rest) = first c cs := by
  unfold first at h ⊢
  simp only [hc, Bool.false_eq_true, if_false] at h ⊢
  -- the other characters are lexemes whatever follows them
  split
  case h_1 => rw [runLength, takeWhile_append_stop (by simp), runLength]
  case h_8 => exact ofHash_newline
  case h_11 => exact ofTilde_newline
  case h_14 => exact ofQuote_newline h
  case h_15 => exact ofColon_append endsAtom_newline
  case h_16 => exact ofPercent_append endsAtom_newline
  case h_17 => exact ofPlain_append endsAtom_newline
  all_goals rfl

end Lexeme

/-! ### What a clean source leaves behind -/

namespace Reading

variable {r : Reading} {pos : Nat}

/-- A blank changes nothing, whatever follows. -/
theorem Passes.blank {c : Char} (hc : isBlank c = true) (r : Reading) (pos : Nat) (rest : List Char) :
    r.Passes r pos [c] rest := by
  intro length
  rw [List.singleton_append, Token.allFrom, Lexeme.first_of_isBlank hc]
  cases rest with
  | nil => rfl
  | cons d ds =>
    cases hd : isBlank d with
    | false =>
      rw [runLength, List.takeWhile_cons, hd]
      rfl
    | true =>
      -- the second blank would have started a token of its own, and that would have done nothing either
      rw [List.length_singleton, Token.allFrom, Lexeme.first_of_isBlank hd, runLength, List.takeWhile_cons, hd]
      rfl

/-- The trees that a reading ends with at the end of the text: it ended there with nothing left open. -/
theorem eq_of_finish_clean {forms : List Tree}
    (h : Scan.ofForms (finish pos r.forms none r.pending) pos = Scan.ofForms forms pos)
    (hforms : ∀ form ∈ forms, form.Clean) : r = ⟨forms, []⟩ := by
  obtain ⟨top, pending⟩ := r
  obtain rfl : finish pos top none pending = forms := (Scan.ofForms_inj h).1
  obtain rfl := eq_nil_of_clean_finish hforms
  rfl

/-- The token that a text starts with, before anything that leaves it as it is. -/
theorem passes_first {c : Char} {cs more : List Char} {next : Reading}
    (hs : r.step ⟨(Lexeme.first c cs).1, pos, pos + 1 + (Lexeme.first c cs).2⟩ = .ok next)
    (hfirst : Lexeme.first c (cs.take (Lexeme.first c cs).2 ++ more) = Lexeme.first c cs) :
    r.Passes next pos (c :: cs.take (Lexeme.first c cs).2) more := by
  have hlength : (cs.take (Lexeme.first c cs).2).length = (Lexeme.first c cs).2 := by
    rw [List.length_take, Nat.min_eq_left (Lexeme.first_snd_le c cs)]
  refine Passes.token (hfirst.trans (Prod.ext rfl hlength.symm)) ?_
  rw [hlength]
  exact hs

theorem not_isError_of_step_clean {token : Token} {next : Reading} {kind : TreeKind} (hs : r.step token = .ok next)
    (h : next.Clean) (hl : token.lexeme = .leaf kind) : kind.isError = false := by
  rw [step, hl] at hs
  obtain rfl := Except.ok.inj hs
  exact (Tree.clean_iff.mp h.of_deliver.1).1

/-- A token that leaves the reading clean does so before a line break too. -/
theorem passes_first_newline {c : Char} {cs : List Char} {next : Reading} (hc : isBlank c = false)
    (hs : r.step ⟨(Lexeme.first c cs).1, pos, pos + 1 + (Lexeme.first c cs).2⟩ = .ok next) (hclean : next.Clean)
    (rest : List Char) :
    r.Passes next pos (c :: cs.take (Lexeme.first c cs).2) (cs.drop (Lexeme.first c cs).2 ++ ['\n'] ++ rest) := by
  have hwhole : (Lexeme.first c cs).1 ≠ .leaf .restSyntaxError := by
    intro hl
    cases not_isError_of_step_clean hs hclean hl
  refine passes_first hs ?_
  rw [List.append_assoc, ← List.append_assoc, List.take_append_drop]
  exact Lexeme.first_newline hc hwhole

/-- A reading that comes to the end of a text with clean trees was clean before, and a line break and more text find it
    where the end of the text did. -/
theorem passes_of_clean {forms : List Tree} {xs : List Char}
    (h : Scan.resume (pos + xs.length) r (Token.allFrom 0 pos xs) = Scan.ofForms forms (pos + xs.length))
    (hforms : ∀ form ∈ forms, form.Clean) :
    r.Clean ∧ ∀ rest, r.Passes ⟨forms, []⟩ pos (xs ++ ['\n']) rest := by
  -- on the text that is left
  induction hleft : xs.length using Nat.strongRecOn generalizing r pos xs with
  | ind left ih =>
    subst hleft
    have hafter {next : Reading} {text more : List Char} (hpass : r.Passes next pos text more)
        (hne : 0 < text.length) (htext : text ++ more = xs) :
        next.Clean ∧ ∀ rest, next.Passes ⟨forms, []⟩ (pos + text.length) (more ++ ['\n']) rest := by
      subst htext
      rw [hpass, List.length_append, ← Nat.add_assoc] at h
      exact ih more.length (by simpa using hne) h rfl
    cases xs with
    | nil =>
      obtain rfl := eq_of_finish_clean h hforms
      exact ⟨⟨hforms, by simp⟩, Passes.blank (by decide) _ pos⟩
    | cons c cs =>
      cases hc : isBlank c with
      | true =>
        obtain ⟨hclean, hrest⟩ := hafter (Passes.blank hc r pos cs) Nat.zero_lt_one rfl
        exact ⟨hclean, fun rest => (Passes.blank hc r pos _).trans (hrest rest)⟩
      | false =>
        cases hs : r.step ⟨(Lexeme.first c cs).1, pos, pos + 1 + (Lexeme.first c cs).2⟩ with
        | error top =>
          -- then the reading ends before the token, and not at the end of the text
          rw [Token.allFrom, Scan.resume, hs] at h
          have hpos : pos = pos + (c :: cs).length := (Scan.ofForms_inj h).2
          rw [List.length_cons] at hpos
          omega
        | ok next =>
          have hsplit : cs.take (Lexeme.first c cs).2 ++ cs.drop (Lexeme.first c cs).2 = cs := List.take_append_drop _ _
          obtain ⟨hclean, hrest⟩ := hafter (passes_first hs (by rw [hsplit])) (Nat.zero_lt_succ _)
            (congrArg (c :: ·) hsplit)
          refine ⟨(step_clean hs hclean).1, fun rest => ?_⟩
          have hpass := (passes_first_newline hc hs hclean rest).trans (hrest rest)
          rwa [List.cons_append, ← List.append_assoc, hsplit] at hpass

end Reading

/-- Reading is compositional: a source that is consumed to its end, and in whose tree nothing is malformed, keeps its
    trees whatever source follows on the next line, and that source keeps its own, moved on. -/
theorem Scan.ofSource_newline {first : List Char} (hall : (ofSource first).consumed = first.length)
    (hclean : (ofSource first).root.Clean) (second : List Char) :
    ofSource (first ++ '\n' :: second) =
      { root := .node .document 0 (first.length + 1 + (ofSource second).consumed)
          ((ofSource first).root.children ++ (ofSource second).root.children.map (Tree.shift (first.length + 1)))
        consumed := first.length + 1 + (ofSource second).consumed } := by
  obtain ⟨forms, consumed, hfirst⟩ := exists_resume_eq first.length ⟨[], []⟩ (Token.all first)
  have hscan : ofSource first = ofForms forms consumed := hfirst
  rw [hscan] at hall hclean ⊢
  obtain rfl : consumed = first.length := hall
  have hforms : ∀ form ∈ forms, form.Clean := fun form hform =>
    (Tree.clean_iff.mp hclean).2 form (List.mem_reverse.mpr hform)
  rw [← Nat.zero_add first.length] at hfirst
  obtain ⟨-, hpass⟩ := Reading.passes_of_clean hfirst hforms
  have hlength : (first ++ '\n' :: second).length = first.length + 1 + second.length := by
    rw [List.length_append, List.length_cons]
    omega
  calc ofSource (first ++ '\n' :: second)
    _ = resume (first.length + 1 + second.length) ⟨[], []⟩ (Token.allFrom 0 0 ((first ++ ['\n']) ++ second)) := by
      rw [ofSource, Token.all, hlength, List.append_assoc, List.singleton_append]
    _ = resume (first.length + 1 + second.length) ⟨forms, []⟩ (Token.allFrom 0 (first.length + 1 + 0) second) := by
      rw [hpass second, Nat.zero_add, List.length_append, List.length_singleton, Nat.add_zero]
    _ = (ofSource second).behind (first.length + 1) forms := by
      rw [Token.allFrom_shift, ofSource, ← resume_behind]
      rfl

/-- A comment that the first source ends with does not take up the second, and the bracket that ends the reading of the
    second source is found where it stands. -/
theorem Scan.ofSource_newline_comment :
    (ofSource "'a ; (".toList).root.Clean ∧
    ofSource ("'a ; (".toList ++ '\n' :: "@b )c".toList) =
      { root := .node .document 0 10
          [.node .quote 0 2 [.leaf .symbol 1 2], .leaf .comment 3 6, .node .deref 7 9 [.leaf .symbol 8 9]]
        consumed := 10 } := by
  have hclean : (ofSource "'a ; (".toList).root.Clean := by decide +kernel
  refine ⟨hclean, (ofSource_newline (by decide +kernel) hclean _).trans ?_⟩
  rfl

end Lisplet
