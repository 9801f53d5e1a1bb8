import Lisplet.Token
import Mathlib.Data.List.TakeWhile

/-! # Atoms: lexemes that stand for a form of their own

A lexeme without parts is read the same way wherever it stands. Symbols, keywords, parameter names and numbers are
decided by the run of symbol characters they are, so all that matters about the text behind one is that no symbol
character follows (`EndsAtom`); a string literal ends with its own closing quote. `IsAtom kind text` says that `text`
alone is such a lexeme, and the two main statements are that every lexeme found in a source is one, and that one is
found again before anything that ends it. -/

namespace Lisplet

/-- What may follow an atom: nothing, or a character that is no part of a symbol. -/
def EndsAtom (rest : List Char) : Prop := ∀ c ∈ rest.head?, isSymbolChar c = false

theorem endsAtom_nil : EndsAtom [] := by simp [EndsAtom]

theorem endsAtom_cons {c : Char} {cs : List Char} (h : isSymbolChar c = false) : EndsAtom (c :: cs) := by
  simpa [EndsAtom] using h

/-! ### Character classes -/

/-- A property of characters of which only the first 128 are in question can be tried on these. -/
theorem forall_of_small {p q : Char → Bool} (hp : ∀ c, p c = true → c.toNat < 128)
    (h : ∀ n < 128, p (Char.ofNat n) = true → q (Char.ofNat n) = true) {c : Char} (hc : p c = true) : q c = true := by
  have := h c.toNat (hp c hc)
  rw [Char.ofNat_toNat] at this
  exact this hc

theorem isSymbolChar_of_isDigit {c : Char} (h : c.isDigit = true) : isSymbolChar c = true := by
  refine forall_of_small (fun c hc => ?_) (by decide) h
  have : c.toNat ≤ 57 := (Char.isDigit_iff_toNat.mp hc).2
  omega

theorem toNat_lt_of_isHexDigit {c : Char} (h : isHexDigit c = true) : c.toNat < 128 := by
  simp only [isHexDigit, Bool.or_eq_true, Bool.and_eq_true, decide_eq_true_eq] at h
  rcases h with (h | h) | h
  · exact Nat.lt_of_le_of_lt (Char.isDigit_iff_toNat.mp h).2 (by decide)
  · exact Nat.lt_of_le_of_lt h.2 (by decide)
  · exact Nat.lt_of_le_of_lt h.2 (by decide)

theorem isSymbolChar_of_isHexDigit {c : Char} (h : isHexDigit c = true) : isSymbolChar c = true :=
  forall_of_small (fun _ hc => toNat_lt_of_isHexDigit hc) (by decide) h

theorem isBlank_eq_false_of_isSymbolChar {c : Char} (h : isSymbolChar c = true) : isBlank c = false := by
  simp only [isSymbolChar, Bool.and_eq_true, Bool.not_eq_true'] at h
  exact h.1.2

/-! ### Runs of characters -/

theorem takeWhile_append_stop {p : Char → Bool} {xs rest : List Char} (h : ∀ c ∈ rest.head?, p c = false) :
    (xs ++ rest).takeWhile p = xs.takeWhile p := by
  induction xs with
  | nil =>
    cases rest with
    | nil => rfl
    | cons c cs => simp [h c rfl]
  | cons x xs ih =>
    cases hx : p x
    · simp [hx]
    · simp [hx, ih]

theorem EndsAtom.head?_eq_false {p : Char → Bool} {rest : List Char} (h : EndsAtom rest)
    (hp : ∀ c, p c = true → isSymbolChar c = true) : ∀ c ∈ rest.head?, p c = false := by
  intro c hc
  cases hpc : p c
  · rfl
  · exact absurd (hp c hpc) (by simp [h c hc])

theorem runLength_append {p : Char → Bool} {xs rest : List Char} (h : EndsAtom rest)
    (hp : ∀ c, p c = true → isSymbolChar c = true) : runLength p (xs ++ rest) = runLength p xs := by
  rw [runLength, takeWhile_append_stop (h.head?_eq_false hp), runLength]

theorem runLength_isDigit_append {xs rest : List Char} (h : EndsAtom rest) :
    runLength Char.isDigit (xs ++ rest) = runLength Char.isDigit xs :=
  runLength_append h fun _ => isSymbolChar_of_isDigit

theorem runLength_le (p : Char → Bool) (xs : List Char) : runLength p xs ≤ xs.length :=
  (List.takeWhile_prefix p).length_le

theorem runLength_of_forall {p : Char → Bool} {xs : List Char} (h : ∀ c ∈ xs, p c = true) :
    runLength p xs = xs.length := by
  rw [runLength, List.takeWhile_eq_self_iff.mpr h]

theorem eq_nil_of_runLength_eq_zero {p : Char → Bool} {xs : List Char} (h : ∀ c ∈ xs, p c = true)
    (hr : runLength p xs = 0) : xs = [] := by
  rw [runLength_of_forall h] at hr
  exact List.eq_nil_of_length_eq_zero hr

/-! ### Numbers -/

theorem fractionLength_le (xs : List Char) : fractionLength xs ≤ xs.length := by
  unfold fractionLength
  split
  · split
    · exact Nat.zero_le _
    · simpa using runLength_le _ _
  · exact Nat.zero_le _

theorem fractionLength_append {xs rest : List Char} (h : EndsAtom rest) :
    fractionLength (xs ++ rest) = fractionLength xs := by
  cases xs with
  | nil =>
    cases rest with
    | nil => rfl
    | cons c cs =>
      have hc : c ≠ '.' := by
        rintro rfl
        exact absurd (h '.' rfl) (by decide)
      rw [List.nil_append, fractionLength]
      · rfl
      · intro _ hcs
        exact hc (List.cons.inj hcs).1
  | cons x xs =>
    by_cases hx : x = '.'
    · subst hx
      simp only [List.cons_append, fractionLength, runLength_isDigit_append h]
    · simp [fractionLength, hx]

theorem exponentDigitsLength_le (xs : List Char) : exponentDigitsLength xs ≤ xs.length := by
  cases xs with
  | nil => exact Nat.le_refl _
  | cons x xs =>
    simp only [exponentDigitsLength]
    split
    · split
      · exact Nat.zero_le _
      · simpa using runLength_le _ _
    · exact runLength_le _ _

theorem exponentDigitsLength_append {xs rest : List Char} (h : EndsAtom rest) :
    exponentDigitsLength (xs ++ rest) = exponentDigitsLength xs := by
  cases xs with
  | nil =>
    cases rest with
    | nil => rfl
    | cons c cs =>
      have hc : ¬(c = '+' ∨ c = '-') := by
        rintro (rfl | rfl)
        · exact absurd (h '+' rfl) (by decide)
        · exact absurd (h '-' rfl) (by decide)
      simp only [List.nil_append, exponentDigitsLength, if_neg hc]
      have hrun : runLength Char.isDigit ([] ++ c :: cs) = runLength Char.isDigit [] := runLength_isDigit_append h
      exact hrun
  | cons x xs =>
    simp only [List.cons_append, exponentDigitsLength]
    rw [← List.cons_append, runLength_isDigit_append h, runLength_isDigit_append h]

theorem exponentLength_le (xs : List Char) : exponentLength xs ≤ xs.length := by
  cases xs with
  | nil => exact Nat.le_refl _
  | cons x xs =>
    simp only [exponentLength]
    split
    · split
      · exact Nat.zero_le _
      · simpa using exponentDigitsLength_le xs
    · exact Nat.zero_le _

theorem exponentLength_append {xs rest : List Char} (h : EndsAtom rest) :
    exponentLength (xs ++ rest) = exponentLength xs := by
  cases xs with
  | nil =>
    cases rest with
    | nil => rfl
    | cons c cs =>
      have hc : ¬(c = 'e' ∨ c = 'E') := by
        rintro (rfl | rfl)
        · exact absurd (h 'e' rfl) (by decide)
        · exact absurd (h 'E' rfl) (by decide)
      simp only [List.nil_append, exponentLength, if_neg hc]
  | cons x xs =>
    simp only [List.cons_append, exponentLength, exponentDigitsLength_append h]

theorem numberLength_le (xs : List Char) : numberLength xs ≤ xs.length := by
  have hd := runLength_le Char.isDigit xs
  have hf := fractionLength_le (xs.drop (runLength Char.isDigit xs))
  have he := exponentLength_le (xs.drop (runLength Char.isDigit xs + fractionLength (xs.drop (runLength Char.isDigit xs))))
  simp only [List.length_drop] at hf he
  simp only [numberLength]
  omega

theorem numberLength_append {xs rest : List Char} (h : EndsAtom rest) :
    numberLength (xs ++ rest) = numberLength xs := by
  have hd := runLength_le Char.isDigit xs
  have hf := fractionLength_le (xs.drop (runLength Char.isDigit xs))
  simp only [List.length_drop] at hf
  simp only [numberLength, runLength_isDigit_append h]
  rw [List.drop_append_of_le_length hd, fractionLength_append h, List.drop_append_of_le_length (by omega),
    exponentLength_append h]

/-! ### Lexemes made of symbol characters -/

namespace Lexeme

theorem first_of_isBlank {c : Char} (h : isBlank c = true) (cs : List Char) :
    first c cs = (blank, runLength isBlank cs) := by
  unfold first
  exact if_pos h

theorem first_of_isDigit {c : Char} (h : c.isDigit = true) (cs : List Char) : first c cs = ofPlain c cs := by
  have hb := isBlank_eq_false_of_isSymbolChar (isSymbolChar_of_isDigit h)
  unfold first
  rw [hb, if_neg (by decide)]
  -- no character with a meaning of its own is a digit
  split <;> try exact absurd h (by decide)
  rfl

theorem unglued_append {kind : TreeKind} {length : Nat} {xs rest : List Char} (h : EndsAtom rest)
    (hl : length ≤ xs.length) : unglued kind length (xs ++ rest) = unglued kind length xs := by
  simp only [unglued]
  rw [List.drop_append_of_le_length hl, runLength_append h fun _ => id]

theorem ofColon_append {xs rest : List Char} (h : EndsAtom rest) : ofColon (xs ++ rest) = ofColon xs := by
  simp only [ofColon, runLength_append h fun _ => id]

theorem ofPercent_append {xs rest : List Char} (h : EndsAtom rest) : ofPercent (xs ++ rest) = ofPercent xs := by
  simp only [ofPercent, takeWhile_append_stop h]

/-- What follows a zero makes it hexadecimal: an `x` and a digit. -/
def startsHex : List Char → Bool
  | x :: h :: _ => (x == 'x' || x == 'X') && isHexDigit h
  | _ => false

theorem ofZero_eq (cs : List Char) :
    ofZero cs =
      if startsHex cs then unglued .hexLiteral (1 + runLength isHexDigit (cs.drop 1)) cs
      else unglued .number (numberLength cs) cs := by
  match cs with
  | [] => rfl
  | [_] => rfl
  | x :: h :: cs => simp [ofZero, startsHex]

theorem startsHex_append {xs rest : List Char} (h : EndsAtom rest) : startsHex (xs ++ rest) = startsHex xs := by
  match xs with
  | [] =>
    match rest with
    | [] => rfl
    | [_] => rfl
    | x :: y :: _ =>
      have hx : (x == 'x' || x == 'X') = false := by
        refine h.head?_eq_false (p := fun c => c == 'x' || c == 'X') (fun c hc => ?_) x rfl
        simp only [Bool.or_eq_true, beq_iff_eq] at hc
        rcases hc with rfl | rfl <;> decide
      simp [startsHex, hx]
  | [x] =>
    match rest with
    | [] => rfl
    | y :: _ =>
      have hy : isHexDigit y = false := h.head?_eq_false (fun _ => isSymbolChar_of_isHexDigit) y rfl
      simp [startsHex, hy]
  | x :: y :: xs => rfl

theorem ofZero_append {xs rest : List Char} (h : EndsAtom rest) : ofZero (xs ++ rest) = ofZero xs := by
  rw [ofZero_eq, ofZero_eq, startsHex_append h, numberLength_append h]
  split
  · next hx =>
    match xs, hx with
    | x :: xs, _ =>
      have hl : 1 + runLength isHexDigit xs ≤ (x :: xs).length := by
        have := runLength_le isHexDigit xs
        simp only [List.length_cons]
        omega
      simp only [List.cons_append, List.drop_succ_cons, List.drop_zero,
        runLength_append h fun _ => isSymbolChar_of_isHexDigit]
      exact unglued_append h hl
  · exact unglued_append h (numberLength_le xs)

theorem ofPlain_append {c : Char} {xs rest : List Char} (h : EndsAtom rest) : ofPlain c (xs ++ rest) = ofPlain c xs := by
  have hhead : (xs ++ rest).head?.any Char.isDigit = xs.head?.any Char.isDigit := by
    cases xs with
    | nil =>
      cases rest with
      | nil => rfl
      | cons y ys => simp [h.head?_eq_false (fun _ => isSymbolChar_of_isDigit) y rfl]
    | cons y ys => rfl
  simp only [ofPlain, ofZero_append h, numberLength_append h, unglued_append h (numberLength_le xs), hhead,
    runLength_append h fun _ => id]

/-- A lexeme that starts with a symbol character other than a hash sign is decided by the symbol characters that
    follow. -/
theorem first_append {c : Char} {xs rest : List Char} (hc : isSymbolChar c = true) (hh : c ≠ '#')
    (h : EndsAtom rest) : first c (xs ++ rest) = first c xs := by
  have hb := isBlank_eq_false_of_isSymbolChar hc
  unfold first
  simp only [hb, Bool.false_eq_true, if_false]
  -- of the characters with a meaning of their own, only `#`, `:` and `%` are symbol characters
  split <;> try exact absurd hc (by decide)
  · exact absurd rfl hh
  · exact ofColon_append h
  · exact ofPercent_append h
  · exact ofPlain_append h

theorem unglued_length {kind kind' : TreeKind} {length n : Nat} {xs : List Char} (hx : ∀ c ∈ xs, isSymbolChar c = true)
    (hl : length ≤ xs.length) (h : unglued kind length xs = (leaf kind', n)) (hk : kind'.isError = false) :
    n = xs.length := by
  simp only [unglued] at h
  split at h
  · next hz =>
    have hnil := eq_nil_of_runLength_eq_zero (fun c hc => hx c (List.mem_of_mem_drop hc)) hz
    have hle : xs.length ≤ length := List.drop_eq_nil_iff.mp hnil
    have hn : length = n := (Prod.mk.inj h).2
    omega
  · obtain rfl := Lexeme.leaf.inj (Prod.mk.inj h).1
    exact absurd hk (by decide)

theorem ofZero_length {kind : TreeKind} {n : Nat} {xs : List Char} (hx : ∀ c ∈ xs, isSymbolChar c = true)
    (h : ofZero xs = (leaf kind, n)) (hk : kind.isError = false) : n = xs.length := by
  rw [ofZero_eq] at h
  split at h
  · next hs =>
    match xs, hs with
    | x :: xs, _ =>
      refine unglued_length hx ?_ h hk
      have := runLength_le isHexDigit xs
      simp only [List.drop_succ_cons, List.drop_zero, List.length_cons]
      omega
  · exact unglued_length hx (numberLength_le xs) h hk

theorem ofPlain_length {c : Char} {kind : TreeKind} {n : Nat} {xs : List Char}
    (hx : ∀ c ∈ xs, isSymbolChar c = true) (h : ofPlain c xs = (leaf kind, n)) (hk : kind.isError = false) :
    n = xs.length := by
  unfold ofPlain at h
  split at h
  · exact ofZero_length hx h hk
  split at h
  · exact unglued_length hx (numberLength_le xs) h hk
  split at h
  · exact unglued_length hx (numberLength_le xs) h hk
  split at h
  · rw [← (Prod.mk.inj h).2, runLength_of_forall hx]
  · obtain rfl := Lexeme.leaf.inj (Prod.mk.inj h).1
    exact absurd hk (by decide)

/-- A lexeme without error that starts with a symbol character takes all symbol characters that follow. -/
theorem first_length {c : Char} {kind : TreeKind} {n : Nat} {xs : List Char} (hc : isSymbolChar c = true)
    (hh : c ≠ '#') (hx : ∀ c ∈ xs, isSymbolChar c = true) (h : first c xs = (leaf kind, n))
    (hk : kind.isError = false) : n = xs.length := by
  have hb := isBlank_eq_false_of_isSymbolChar hc
  unfold first at h
  simp only [hb, Bool.false_eq_true, if_false] at h
  split at h <;> try exact absurd hc (by decide)
  · exact absurd rfl hh
  · rw [← (Prod.mk.inj h).2, runLength_of_forall hx]
  · rw [← (Prod.mk.inj h).2, List.takeWhile_eq_self_iff.mpr hx]
  · exact ofPlain_length hx h hk

theorem ofPlain_isSymbolChar {c : Char} {kind : TreeKind} {n : Nat} {cs : List Char}
    (h : ofPlain c cs = (leaf kind, n)) (hk : kind.isError = false) : isSymbolChar c = true := by
  unfold ofPlain at h
  split at h
  · next hc => subst hc; decide
  split at h
  · next hc => exact isSymbolChar_of_isDigit hc
  split at h
  · next hc => rw [hc.1]; decide
  split at h
  · next hc => exact hc
  · obtain rfl := Lexeme.leaf.inj (Prod.mk.inj h).1
    exact absurd hk (by decide)

/-- A form without parts starts with a symbol character other than a hash sign, or with a quote if it is a string. -/
theorem first_eq_leaf {c : Char} {kind : TreeKind} {n : Nat} {cs : List Char} (h : first c cs = (leaf kind, n))
    (hk : kind.isError = false) : (isSymbolChar c = true ∧ c ≠ '#') ∨ (c = '"' ∧ stringLength? cs = some n) := by
  unfold first at h
  split at h
  · simp at h
  split at h <;> try simp at h
  · unfold ofHash at h
    split at h <;> try simp at h
    obtain ⟨rfl, -⟩ := h
    exact absurd hk (by decide)
  · unfold ofTilde at h
    split at h <;> simp at h
  · unfold ofQuote at h
    split at h
    · next length hl =>
      obtain rfl := (Prod.mk.inj h).2
      exact Or.inr ⟨rfl, hl⟩
    · obtain rfl := Lexeme.leaf.inj (Prod.mk.inj h).1
      exact absurd hk (by decide)
  · exact Or.inl ⟨by decide, by decide⟩
  · exact Or.inl ⟨by decide, by decide⟩
  · exact Or.inl ⟨ofPlain_isSymbolChar h hk, by assumption⟩

end Lexeme

/-! ### String literals -/

theorem stringLength?_cons {c : Char} (hq : c ≠ '"') (hb : c ≠ '\\') (cs : List Char) :
    stringLength? (c :: cs) = (stringLength? cs).map (· + 1) := by
  rw [stringLength?]
  · exact hq
  · exact fun h _ => hb h
  · exact fun _ _ h _ => hb h

theorem stringLength?_le {cs : List Char} {n : Nat} (h : stringLength? cs = some n) : n ≤ cs.length := by
  fun_induction stringLength? cs generalizing n with
  | case1 => cases h
  | case2 cs =>
    obtain rfl := Option.some.inj h
    exact Nat.le_add_left 1 cs.length
  | case3 => cases h
  | case4 c cs ih =>
    obtain ⟨m, hm, rfl⟩ := Option.map_eq_some_iff.mp h
    have := ih hm
    simp only [List.length_cons]
    omega
  | case5 c cs _ _ _ ih =>
    obtain ⟨m, hm, rfl⟩ := Option.map_eq_some_iff.mp h
    have := ih hm
    simp only [List.length_cons]
    omega

theorem stringLength?_append {cs : List Char} {n : Nat} (h : stringLength? cs = some n) (rest : List Char) :
    stringLength? (cs.take n ++ rest) = some n := by
  fun_induction stringLength? cs generalizing n with
  | case1 => cases h
  | case2 cs =>
    obtain rfl := Option.some.inj h
    rfl
  | case3 => cases h
  | case4 c cs ih =>
    obtain ⟨m, hm, rfl⟩ := Option.map_eq_some_iff.mp h
    simp [stringLength?, ih hm]
  | case5 c cs hq hnil hcons ih =>
    obtain ⟨m, hm, rfl⟩ := Option.map_eq_some_iff.mp h
    have hb : c ≠ '\\' := by
      intro hc
      cases cs with
      | nil => exact hnil hc rfl
      | cons y ys => exact hcons y ys hc rfl
    rw [List.take_succ_cons, List.cons_append, stringLength?_cons hq hb, ih hm]
    rfl

/-! ### Atoms -/

namespace Lexeme

/-- Whether `text` is, alone, one form of kind `kind` without parts. -/
def isAtom (kind : TreeKind) : List Char → Bool
  | [] => false
  | c :: cs => !kind.isError && first c cs == (leaf kind, cs.length)

theorem isAtom_cons {kind : TreeKind} {c : Char} {cs : List Char} :
    isAtom kind (c :: cs) = true ↔ kind.isError = false ∧ first c cs = (leaf kind, cs.length) := by
  simp [isAtom]

theorem exists_cons_of_isAtom {kind : TreeKind} {text : List Char} (h : isAtom kind text = true) :
    ∃ c cs, text = c :: cs ∧ kind.isError = false ∧ first c cs = (leaf kind, cs.length) := by
  cases text with
  | nil => cases h
  | cons c cs => exact ⟨c, cs, rfl, isAtom_cons.mp h⟩

/-- An atom that starts with a symbol character is the run of symbol characters from there. -/
theorem take_of_first {c : Char} {cs : List Char} {kind : TreeKind} {n : Nat} (h : first c cs = (leaf kind, n))
    (hk : kind.isError = false) (hc : isSymbolChar c = true) (hh : c ≠ '#') :
    n ≤ cs.length ∧ cs.take n = cs.takeWhile isSymbolChar ∧ first c (cs.takeWhile isSymbolChar) = (leaf kind, n) := by
  have hsplit : cs.takeWhile isSymbolChar ++ cs.dropWhile isSymbolChar = cs := List.takeWhile_append_dropWhile
  have hend : EndsAtom (cs.dropWhile isSymbolChar) := by
    intro d hd
    have hnot := List.head?_dropWhile_not isSymbolChar cs
    rw [Option.mem_def.mp hd] at hnot
    exact hnot
  have hrun : ∀ d ∈ cs.takeWhile isSymbolChar, isSymbolChar d = true := fun d hd => List.mem_takeWhile_imp hd
  rw [← hsplit, first_append hc hh hend] at h
  have hn := first_length hc hh hrun h hk
  refine ⟨hn ▸ (List.takeWhile_prefix isSymbolChar).length_le, ?_, h⟩
  rw [hn]
  exact (List.prefix_iff_eq_take.mp (List.takeWhile_prefix isSymbolChar)).symm

/-- A form without parts that a source is found to start with is an atom. -/
theorem isAtom_of_first {c : Char} {cs : List Char} {kind : TreeKind} {n : Nat} (h : first c cs = (leaf kind, n))
    (hk : kind.isError = false) : n ≤ cs.length ∧ isAtom kind (c :: cs.take n) = true := by
  rw [isAtom_cons]
  rcases first_eq_leaf h hk with ⟨hc, hh⟩ | ⟨rfl, hs⟩
  · obtain ⟨hle, htake, hfirst⟩ := take_of_first h hk hc hh
    refine ⟨hle, hk, ?_⟩
    rw [htake, hfirst, ← htake, List.length_take, Nat.min_eq_left hle]
  · have hle := stringLength?_le hs
    have hs' : stringLength? (cs.take n) = some n := by simpa using stringLength?_append hs []
    refine ⟨hle, hk, ?_⟩
    have hfirst : ∀ ds, stringLength? ds = some n → first '"' ds = (leaf .string, n) := by
      intro ds hds
      show ofQuote ds = _
      simp only [ofQuote, hds]
    rw [hfirst cs hs] at h
    rw [hfirst _ hs', List.length_take, Nat.min_eq_left hle, ← h]

/-- An atom is read again before everything that ends it. -/
theorem first_of_isAtom {kind : TreeKind} {c : Char} {cs rest : List Char} (h : isAtom kind (c :: cs) = true)
    (hr : EndsAtom rest) : first c (cs ++ rest) = (leaf kind, cs.length) := by
  obtain ⟨hk, hf⟩ := isAtom_cons.mp h
  rcases first_eq_leaf hf hk with ⟨hc, hh⟩ | ⟨rfl, hs⟩
  · rw [first_append hc hh hr, hf]
  · have hs' := stringLength?_append hs rest
    rw [List.take_length] at hs'
    rw [← hf]
    show ofQuote (cs ++ rest) = ofQuote cs
    simp only [ofQuote, hs, hs']

theorem isBlank_eq_false_of_isAtom {kind : TreeKind} {c : Char} {cs : List Char}
    (h : isAtom kind (c :: cs) = true) : isBlank c = false := by
  obtain ⟨hk, hf⟩ := isAtom_cons.mp h
  rcases first_eq_leaf hf hk with ⟨hc, -⟩ | ⟨rfl, -⟩
  · exact isBlank_eq_false_of_isSymbolChar hc
  · decide

end Lexeme

end Lisplet
