import Lisplet.Proofs.Clean

/-! # Brackets of a clean source are balanced

A checker of brackets goes through a text once. It knows nothing of forms: it remembers which brackets have to be
closed, passes over comments and string literals, and refuses a bracket that closes something else than the one opened
last. A source that is read as a clean tree passes it, because the two keep in step from token to token: the brackets
that the checker expects are those of the collections that the reading has open. -/

namespace Lisplet

/-- What the next character of a text belongs to. -/
inductive CheckMode where
  | code
  | comment
  | string
  /-- A string literal, behind a backslash. -/
  | escaped
  deriving DecidableEq, Repr

/-- A checker on its way: what the next character belongs to, and the brackets to be closed, innermost first. -/
structure Checker where
  mode : CheckMode
  expected : List Bracket
  deriving DecidableEq, Repr

namespace Checker

/-- A checker before its text. -/
def start : Checker := ⟨.code, []⟩

/-- Takes a closing bracket, which has to be the one that is expected first. -/
def close (k : Checker) (bracket : Bracket) : Option Checker :=
  match k.expected with
  | [] => none
  | first :: rest => if first = bracket then some { k with expected := rest } else none

/-- Takes a character of code. -/
def stepCode (k : Checker) : Char → Option Checker
  | '(' => some { k with expected := .round :: k.expected }
  | '[' => some { k with expected := .square :: k.expected }
  | '\x7b' => some { k with expected := .curly :: k.expected }
  | ')' => k.close .round
  | ']' => k.close .square
  | '\x7d' => k.close .curly
  | '"' => some { k with mode := .string }
  | ';' => some { k with mode := .comment }
  | _ => some k

/-- Takes a character. -/
def step (k : Checker) (c : Char) : Option Checker :=
  match k.mode with
  | .code => k.stepCode c
  | .comment => some (if c = '\n' then { k with mode := .code } else k)
  | .string =>
    some (if c = '"' then { k with mode := .code } else if c = '\\' then { k with mode := .escaped } else k)
  | .escaped => some { k with mode := .string }

/-- Takes the characters of a text one after the other. -/
def run (k : Checker) (text : List Char) : Option Checker := text.foldlM step k

theorem run_cons (k : Checker) (c : Char) (cs : List Char) : k.run (c :: cs) = (k.step c).bind (·.run cs) := rfl

theorem run_append (k : Checker) (xs ys : List Char) : k.run (xs ++ ys) = (k.run xs).bind (·.run ys) :=
  List.foldlM_append

/-! ### Texts of tokens -/

variable {expected : List Bracket} {c : Char} {cs : List Char}

/-- Whether a character means nothing to the checker. -/
def isNeutral (c : Char) : Bool := !"()[]\x7b\x7d\";".toList.contains c

theorem stepCode_of_isNeutral (k : Checker) (h : isNeutral c = true) : k.stepCode c = some k := by
  unfold stepCode
  split <;> first | rfl | exact absurd h (by decide)

theorem run_neutral (h : ∀ c ∈ cs, isNeutral c = true) : run ⟨.code, expected⟩ cs = some ⟨.code, expected⟩ := by
  induction cs with
  | nil => rfl
  | cons c cs ih =>
    obtain ⟨hc, hcs⟩ := List.forall_mem_cons.mp h
    have hstep : step ⟨.code, expected⟩ c = some ⟨.code, expected⟩ := stepCode_of_isNeutral _ hc
    rw [run_cons, hstep]
    exact ih hcs

theorem isNeutral_of_class {p : Char → Bool} (hp : "()[]\x7b\x7d\";".toList.all (fun d => !p d) = true)
    (h : p c = true) : isNeutral c = true := by
  simp only [isNeutral, Bool.not_eq_true', List.contains_eq_mem, decide_eq_false_iff_not]
  intro hmem
  simpa [h] using List.all_eq_true.mp hp c hmem

theorem isNeutral_of_isSymbolChar (h : isSymbolChar c = true) : isNeutral c = true :=
  isNeutral_of_class (by decide) h

theorem isNeutral_of_isBlank (h : isBlank c = true) : isNeutral c = true :=
  isNeutral_of_class (by decide) h

theorem run_comment (h : ∀ c ∈ cs, c ≠ '\n') : run ⟨.comment, expected⟩ cs = some ⟨.comment, expected⟩ := by
  induction cs with
  | nil => rfl
  | cons c cs ih =>
    obtain ⟨hc, hcs⟩ := List.forall_mem_cons.mp h
    rw [run_cons, step, if_neg hc]
    exact ih hcs

/-- A string literal is passed over as it is read. -/
theorem run_string {n : Nat} (h : stringLength? cs = some n) :
    run ⟨.string, expected⟩ (cs.take n) = some ⟨.code, expected⟩ := by
  fun_induction stringLength? cs generalizing n with
  | case1 => cases h
  | case2 cs =>
    obtain rfl := Option.some.inj h
    rfl
  | case3 => cases h
  | case4 c cs ih =>
    obtain ⟨m, hm, rfl⟩ := Option.map_eq_some_iff.mp h
    exact ih hm
  | case5 c cs hquote hnil hcons ih =>
    obtain ⟨m, hm, rfl⟩ := Option.map_eq_some_iff.mp h
    have hback : c ≠ '\\' := by
      intro hc
      cases cs with
      | nil => exact hnil hc rfl
      | cons d ds => exact hcons d ds hc rfl
    rw [List.take_succ_cons, run_cons, step, if_neg hquote, if_neg hback]
    exact ih hm

theorem run_opening {kind : TreeKind} {closer : Bracket} (h : (Lexeme.opening kind closer).Spelt cs) :
    run ⟨.code, expected⟩ cs = some ⟨.code, closer :: expected⟩ := by
  obtain ⟨hkind, -⟩ := h
  cases kind <;> simp only [TreeKind.delimiters?, Option.some.injEq, Prod.mk.injEq, List.cons.injEq, and_true,
    reduceCtorEq, and_false] at hkind <;> obtain ⟨rfl, hchar⟩ := hkind <;> cases closer <;>
    first | rfl | exact absurd hchar (by decide)

theorem run_closing (bracket : Bracket) :
    run ⟨.code, bracket :: expected⟩ [bracket.char] = some ⟨.code, expected⟩ := by
  cases bracket <;> rfl

theorem run_mark {kind : TreeKind} {more : Nat} (h : (Lexeme.mark kind more).Spelt cs) :
    run ⟨.code, expected⟩ cs = some ⟨.code, expected⟩ := by
  obtain ⟨hkind, -⟩ := h
  refine run_neutral ?_
  cases kind <;> simp only [TreeKind.delimiters?, Option.some.injEq, Prod.mk.injEq, and_true, reduceCtorEq,
    and_false, List.cons_ne_nil] at hkind <;> subst hkind <;> exact List.all_eq_true.mp (by decide)

/-- An atom has no bracket in it, and a string literal is passed over. -/
theorem run_atom {kind : TreeKind} {n : Nat} (h : Lexeme.first c cs = (.leaf kind, n)) (hk : kind.isError = false) :
    run ⟨.code, expected⟩ (c :: cs.take n) = some ⟨.code, expected⟩ := by
  rcases Lexeme.first_eq_leaf h hk with ⟨hc, hh⟩ | ⟨rfl, hs⟩
  · obtain ⟨-, htake, -⟩ := Lexeme.take_of_first h hk hc hh
    refine run_neutral fun d hd => isNeutral_of_isSymbolChar ?_
    rw [htake] at hd
    rcases List.mem_cons.mp hd with rfl | hd
    · exact hc
    · exact List.mem_takeWhile_imp hd
  · exact run_string hs

/-! ### Readings -/

/-- A checker that may read code next: it is in code, or in a comment that ends here. -/
def Ready (k : Checker) (rest : List Char) : Prop :=
  k.mode = .code ∨ k.mode = .comment ∧ ∀ c ∈ rest.head?, c = '\n'

theorem ready_code (expected : List Bracket) (rest : List Char) : Ready ⟨.code, expected⟩ rest := .inl rfl

theorem Ready.run_blank {k : Checker} (h : k.Ready (c :: cs)) {text : List Char}
    (hblank : ∀ d ∈ c :: text, isBlank d = true) : k.run (c :: text) = some ⟨.code, k.expected⟩ := by
  obtain ⟨mode, expected⟩ := k
  have hneutral : ∀ d ∈ c :: text, isNeutral d = true := fun d hd => isNeutral_of_isBlank (hblank d hd)
  rcases h with rfl | ⟨rfl, hend⟩
  · exact run_neutral hneutral
  · obtain rfl := hend c rfl
    exact run_neutral fun d hd => hneutral d (List.mem_cons_of_mem _ hd)

/-- What is no blank does not stand behind a comment in its line. -/
theorem Ready.eq_code {k : Checker} (h : k.Ready (c :: cs)) (hc : isBlank c = false) : k = ⟨.code, k.expected⟩ := by
  obtain ⟨mode, expected⟩ := k
  rcases h with rfl | ⟨-, hend⟩
  · rfl
  · obtain rfl := hend c rfl
    cases hc

/-- A comment ends at the end of its line. -/
theorem ready_comment (expected : List Bracket) (cs : List Char) :
    Ready ⟨.comment, expected⟩ (cs.drop (runLength (· != '\n') cs)) := by
  refine .inr ⟨rfl, fun c hc => ?_⟩
  have hsplit : (cs.takeWhile (· != '\n') ++ cs.dropWhile (· != '\n')).drop (runLength (· != '\n') cs) =
      cs.dropWhile (· != '\n') := List.drop_left
  rw [List.takeWhile_append_dropWhile] at hsplit
  rw [hsplit] at hc
  have hnot := List.head?_dropWhile_not (· != '\n') cs
  rw [Option.mem_def.mp hc] at hnot
  simpa using hnot

end Checker

/-- The brackets that the open collections wait for, innermost first. -/
def Reading.expected (pending : List Pending) : List Bracket :=
  pending.filterMap fun p =>
    match p.need with
    | .closer bracket => some bracket
    | .operands _ => none

namespace Reading

theorem expected_deliver (tree : Tree) (forms : List Tree) (ps : List Pending) :
    expected (deliver tree forms ps).pending = expected ps := by
  induction ps generalizing tree with
  | nil => rfl
  | cons p ps ih =>
    rw [deliver]
    split
    · next bracket hneed => simp [expected, Pending.add, hneed]
    · next hneed => simpa [expected, hneed] using ih _
    · next more hneed => simp [expected, hneed]

theorem expected_attach (tree : Tree) (r : Reading) : expected (r.attach tree).pending = expected r.pending := by
  obtain ⟨forms, pending⟩ := r
  cases pending with
  | nil => rfl
  | cons p ps => rfl

/-- The checker has taken the source up to `pos` and expects the brackets that the reading waits for. -/
def InStep (source : List Char) (r : Reading) (pos : Nat) : Prop :=
  ∃ k : Checker, Checker.start.run (source.take pos) = some k ∧ k.Ready (source.drop pos) ∧
    k.expected = expected r.pending

/-- The checker takes a token of a reading that stays clean. -/
theorem exists_run_token {source : List Char} {r next : Reading} {token : Token} (ht : token.Stands source)
    (hr : r.step token = .ok next) (hclean : next.Clean) {k : Checker} (hk : k.Ready (source.drop token.start))
    (he : k.expected = expected r.pending) :
    ∃ k' : Checker, k.run ((source.drop token.start).take (token.stop - token.start)) = some k' ∧
      k'.Ready (source.drop token.stop) ∧ k'.expected = expected next.pending := by
  have hcases := (step_clean hr hclean).2
  have hspelt := ht.spelt
  cases ht with
  | @mk pos c cs hdrop =>
    have hlength : pos + 1 + (Lexeme.first c cs).2 - pos = (Lexeme.first c cs).2 + 1 := by omega
    have hrest : source.drop (pos + 1 + (Lexeme.first c cs).2) = cs.drop (Lexeme.first c cs).2 := by
      rw [← List.drop_drop, ← List.drop_drop, hdrop, List.drop_succ_cons, List.drop_zero]
    dsimp only at hk hspelt hcases ⊢
    rw [hdrop] at hk
    rw [hdrop, hlength, List.take_succ_cons] at hspelt ⊢
    cases hblank : isBlank c with
    | true =>
      have hfirst := Lexeme.first_of_isBlank hblank cs
      rw [hfirst] at hspelt hcases ⊢
      rcases hcases with ⟨-, rfl⟩ | ⟨hl, -⟩ | ⟨_, _, hl, -⟩ | ⟨_, _, hl, -⟩ | ⟨_, hl, -⟩ | ⟨_, _, _, hl, -⟩
      · exact ⟨_, hk.run_blank hspelt, Checker.ready_code _ _, he⟩
      all_goals cases hl
    | false =>
      have hcode := hk.eq_code hblank
      rw [he] at hcode
      subst hcode
      rcases hcases with ⟨hl, rfl⟩ | ⟨hl, rfl⟩ | ⟨kind, closer, hl, rfl⟩ | ⟨kind, more, hl, rfl⟩ |
        ⟨kind, hl, hkind, rfl⟩ | ⟨bracket, p, ps, hl, hpending, hneed, rfl⟩
      · rw [hl] at hspelt
        exact absurd (hspelt c (by simp)) (by simp [hblank])
      · rw [hl] at hspelt
        obtain ⟨text, htext, hline⟩ := hspelt
        obtain ⟨rfl, htake⟩ := List.cons.inj htext
        refine ⟨⟨.comment, expected r.pending⟩, ?_, ?_, (expected_attach _ r).symm⟩
        · rw [htake]
          exact Checker.run_comment hline
        · rw [hrest]
          exact Checker.ready_comment _ cs
      · rw [hl] at hspelt
        exact ⟨_, Checker.run_opening hspelt, Checker.ready_code _ _, rfl⟩
      · rw [hl] at hspelt
        exact ⟨_, Checker.run_mark hspelt, Checker.ready_code _ _, rfl⟩
      · have hfirst : Lexeme.first c cs = (.leaf kind, (Lexeme.first c cs).2) := Prod.ext hl rfl
        exact ⟨_, Checker.run_atom hfirst hkind, Checker.ready_code _ _, (expected_deliver _ _ _).symm⟩
      · rw [hl] at hspelt
        have hexpected : expected r.pending = bracket :: expected ps := by
          simp [hpending, expected, hneed]
        rw [hspelt, hexpected]
        exact ⟨_, Checker.run_closing bracket, Checker.ready_code _ _, (expected_deliver _ _ _).symm⟩

theorem InStep.step {source : List Char} {r next : Reading} {token : Token} (h : r.InStep source token.start)
    (ht : token.Stands source) (hr : r.step token = .ok next) (hclean : next.Clean) :
    next.InStep source token.stop := by
  obtain ⟨k, hrun, hready, he⟩ := h
  obtain ⟨k', htoken, hready', he'⟩ := exists_run_token ht hr hclean hready he
  refine ⟨k', ?_, hready', he'⟩
  have hle := Nat.le_of_lt ht.lt
  have hsplit : source.take token.stop =
      source.take token.start ++ (source.drop token.start).take (token.stop - token.start) := by
    rw [← List.take_add, Nat.add_sub_of_le hle]
  rw [hsplit, Checker.run_append, hrun]
  exact htoken

end Reading

/-- A source that was consumed to its end and in whose tree nothing is malformed has balanced brackets: the checker goes
    through it, closes all that was opened, and does not end within a string literal. -/
theorem Scan.balanced_of_clean {source : List Char} (hall : (ofSource source).consumed = source.length)
    (hclean : (ofSource source).root.Clean) :
    ∃ mode, Checker.start.run source = some ⟨mode, []⟩ ∧ (mode = .code ∨ mode = .comment) := by
  have hstart : Reading.InStep source ⟨[], []⟩ 0 := ⟨Checker.start, rfl, .inl rfl, rfl⟩
  refine resume_of_kept (P := fun r pos => r.Clean → r.InStep source pos)
    (Q := fun scan => scan.consumed = source.length → scan.root.Clean →
      ∃ mode, Checker.start.run source = some ⟨mode, []⟩ ∧ (mode = .code ∨ mode = .comment))
    (fun ht h => ⟨fun next hr hnext => ?_, fun forms _ hconsumed => ?_⟩) (fun r h _ hroot => ?_) (Nat.zero_le _)
    (fun _ => hstart) hall hclean
  · exact (h (Reading.step_clean hr hnext).1).step ht hr hnext
  · -- a token that ends the reading leaves itself unread
    have hlt := Nat.lt_of_lt_of_le ht.lt ht.le
    exact absurd hconsumed (Nat.ne_of_lt hlt)
  · obtain ⟨forms, pending⟩ := r
    have hforms : ∀ form ∈ Reading.finish source.length forms none pending, form.Clean := fun form hform =>
      (Tree.clean_iff.mp hroot).2 form (List.mem_reverse.mpr hform)
    obtain rfl := Reading.eq_nil_of_clean_finish hforms
    obtain ⟨⟨mode, brackets⟩, hrun, hready, rfl⟩ := h ⟨hforms, by simp⟩
    rw [List.take_length] at hrun
    exact ⟨mode, hrun, hready.imp_right And.left⟩

/-- Brackets in string literals and in comments do not count, and the marks `#` and `~@` change nothing. -/
theorem Scan.balanced_of_clean_literals :
    (ofSource "(f #\x7b\")\\\"\" ~@b\x7d [#(g)]) ; (".toList).root.Clean ∧
    ∃ mode, Checker.start.run "(f #\x7b\")\\\"\" ~@b\x7d [#(g)]) ; (".toList = some ⟨mode, []⟩ ∧
      (mode = .code ∨ mode = .comment) := by
  have hclean : (ofSource "(f #\x7b\")\\\"\" ~@b\x7d [#(g)]) ; (".toList).root.Clean := by decide +kernel
  exact ⟨hclean, balanced_of_clean (by decide +kernel) hclean⟩

end Lisplet
