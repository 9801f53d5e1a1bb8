import Lisplet.Proofs.Atom
import Lisplet.Value.Printer

/-! # Literals that values are printed as

The text of an integer, a string or a keyword is one word of the language, and a literal that stands for the value it
was printed from. -/

namespace Lisplet

/-! ### Decimal digits -/

/-- Decimal digits without a superfluous zero: what a natural number is printed as. -/
structure Digits (cs : List Char) : Prop where
  ne_nil : cs ≠ []
  isDigit : ∀ c ∈ cs, c.isDigit = true
  zero : cs.head? = some '0' → cs = ['0']

theorem digits_toDigits (n : Nat) : Digits (Nat.toDigits 10 n) where
  ne_nil := Nat.toDigits_ne_nil
  isDigit _ hc := Nat.isDigit_of_mem_toDigits (by decide) (by decide) hc
  zero := by
    induction n using Nat.strongRecOn with
    | ind n ih =>
      rcases Nat.lt_or_ge n 10 with hn | hn
      · rw [Nat.toDigits_of_lt_base hn]
        simp
      · rw [Nat.toDigits_of_base_le (by decide) hn]
        intro hz
        obtain ⟨d, ds, hds⟩ := List.exists_cons_of_ne_nil (Nat.toDigits_ne_nil : Nat.toDigits 10 (n / 10) ≠ [])
        have h0 := ih (n / 10) (by omega) (by rw [hds] at hz ⊢; exact hz)
        have hvalue : Nat.ofDigitChars 10 (Nat.toDigits 10 (n / 10)) 0 = n / 10 := Nat.ofDigitChars_ten_toDigits
        rw [h0] at hvalue
        have : n / 10 = 0 := by simpa [Nat.ofDigitChars] using hvalue.symm
        omega

theorem ofDigits_toDigits (n : Nat) : Literal.ofDigits (Nat.toDigits 10 n) = n := by
  have h : Nat.ofDigitChars 10 (Nat.toDigits 10 n) 0 = n := Nat.ofDigitChars_ten_toDigits
  rw [Nat.ofDigitChars_eq_foldl] at h
  simpa [Literal.ofDigits, Nat.mul_comm] using h

namespace Digits

variable {cs : List Char}

theorem numberLength_eq {ds : List Char} (h : ∀ c ∈ ds, c.isDigit = true) : numberLength ds = ds.length := by
  simp [numberLength, runLength_of_forall h, fractionLength, exponentLength]

theorem unglued_eq {ds : List Char} (h : ∀ c ∈ ds, c.isDigit = true) (kind : TreeKind) :
    Lexeme.unglued kind (numberLength ds) ds = (.leaf kind, ds.length) := by
  simp [Lexeme.unglued, numberLength_eq h, runLength]

theorem isAtom_number (h : Digits cs) : Lexeme.isAtom .number cs = true := by
  obtain ⟨c, ds, rfl⟩ := List.exists_cons_of_ne_nil h.ne_nil
  rw [Lexeme.isAtom_cons]
  refine ⟨rfl, ?_⟩
  have hc := h.isDigit c (by simp)
  have hds : ∀ d ∈ ds, d.isDigit = true := fun d hd => h.isDigit d (List.mem_cons_of_mem _ hd)
  rw [Lexeme.first_of_isDigit hc, Lexeme.ofPlain]
  split
  · next hzero =>
    obtain rfl := hzero
    obtain rfl : ds = [] := by simpa using h.zero rfl
    rfl
  · exact unglued_eq hds .number

theorem isAtom_negNumber (h : Digits cs) : Lexeme.isAtom .negNumber ('-' :: cs) = true := by
  obtain ⟨c, ds, rfl⟩ := List.exists_cons_of_ne_nil h.ne_nil
  rw [Lexeme.isAtom_cons]
  refine ⟨rfl, ?_⟩
  show Lexeme.ofPlain '-' (c :: ds) = _
  rw [Lexeme.ofPlain, if_neg (by decide), if_neg (by decide), if_pos ⟨rfl, by simpa using h.isDigit c (by simp)⟩]
  exact unglued_eq h.isDigit .negNumber

theorem takeWhole?_eq (h : Digits cs) : Literal.takeWhole? cs = some (cs, []) := by
  have htake : cs.takeWhile Char.isDigit = cs := List.takeWhile_eq_self_iff.mpr h.isDigit
  have hdrop : cs.dropWhile Char.isDigit = [] := List.dropWhile_eq_nil_iff.mpr h.isDigit
  rw [Literal.takeWhole?, htake, hdrop]
  split
  · exact absurd rfl h.ne_nil
  · cases h.zero rfl
  · rfl

end Digits

/-! ### Integers -/

theorem toInt_mem_range (n : Int64) : Int64.minValue.toInt ≤ n.toInt ∧ n.toInt ≤ Int64.maxValue.toInt :=
  ⟨Int64.minValue_le_toInt n, Int64.toInt_le n⟩

theorem toList_printInt (n : Int64) :
    (printInt n).toList =
      if n.toInt < 0 then '-' :: Nat.toDigits 10 n.toInt.natAbs else Nat.toDigits 10 n.toInt.natAbs := by
  simp only [printInt]
  split
  · rw [String.toList_append, Nat.toList_repr]
    rfl
  · rw [Nat.toList_repr]

theorem isAtom_printInt (n : Int64) :
    Lexeme.isAtom (if n.toInt < 0 then .negNumber else .number) (printInt n).toList = true := by
  rw [toList_printInt]
  split
  · exact (digits_toDigits _).isAtom_negNumber
  · exact (digits_toDigits _).isAtom_number

theorem dropWhile_of_forall {p : Char → Bool} {cs : List Char} (h : ∀ c ∈ cs, p c = false) : cs.dropWhile p = cs := by
  cases cs with
  | nil => rfl
  | cons c cs => rw [List.dropWhile_cons, h c (by simp), if_neg (by decide)]

theorem trimJson_of_forall {cs : List Char} (h : ∀ c ∈ cs, Quoted.isJsonBlank c = false) : Quoted.trimJson cs = cs := by
  have hrev : ∀ c ∈ cs.reverse, Quoted.isJsonBlank c = false := fun c hc => h c (List.mem_reverse.mp hc)
  rw [Quoted.trimJson, dropWhile_of_forall h, dropWhile_of_forall hrev, List.reverse_reverse]

theorem isJsonBlank_of_isDigit {c : Char} (h : c.isDigit = true) : Quoted.isJsonBlank c = false := by
  cases hb : Quoted.isJsonBlank c
  · rfl
  · simp only [Quoted.isJsonBlank, Bool.or_eq_true, beq_iff_eq] at hb
    rcases hb with ((rfl | rfl) | rfl) | rfl <;> exact absurd h (by decide)

theorem ofWhole?_toDigits (n : Int64) :
    Literal.ofWhole? (n.toInt < 0) (Nat.toDigits 10 n.toInt.natAbs) = some (.int n) := by
  have hvalue : (if n.toInt < 0 then -(n.toInt.natAbs : Int) else n.toInt.natAbs) = n.toInt := by
    split <;> omega
  have hint : Literal.int64? n.toInt = some n := by
    rw [Literal.int64?, if_pos (toInt_mem_range n), Int64.ofInt_toInt]
  simp only [Literal.ofWhole?, ofDigits_toDigits, decide_eq_true_eq, hvalue, hint]
  rw [if_neg (by omega)]

theorem number?_printInt (n : Int64) : Literal.number? (printInt n) = some (.int n) := by
  have hdigits := digits_toDigits n.toInt.natAbs
  have hwhole := ofWhole?_toDigits n
  have htrim : Quoted.trimJson (printInt n).toList = (printInt n).toList := by
    refine trimJson_of_forall fun c hc => ?_
    rw [toList_printInt] at hc
    split at hc
    · rcases List.mem_cons.mp hc with rfl | hc
      · decide
      · exact isJsonBlank_of_isDigit (hdigits.isDigit c hc)
    · exact isJsonBlank_of_isDigit (hdigits.isDigit c hc)
  have hsign : Literal.takeSign (printInt n).toList = (decide (n.toInt < 0), Nat.toDigits 10 n.toInt.natAbs) := by
    rw [toList_printInt]
    split
    · next hneg => simp [Literal.takeSign, hneg]
    · next hneg =>
      obtain ⟨c, cs, hcs⟩ := List.exists_cons_of_ne_nil hdigits.ne_nil
      have hc := hdigits.isDigit c (by simp [hcs])
      have hminus : c ≠ '-' := by
        rintro rfl
        exact absurd hc (by decide)
      simp [Literal.takeSign, hneg, hcs, hminus]
  simp only [Literal.number?, htrim, hsign, hdigits.takeWhole?_eq]
  exact hwhole

/-! ### Strings -/

namespace Quoted

theorem isPlain_hexDigit {n : Nat} (h : n < 16) : hexDigit n ≠ '"' ∧ hexDigit n ≠ '\\' ∧ 32 ≤ (hexDigit n).toNat := by
  have : ∀ n < 16, hexDigit n ≠ '"' ∧ hexDigit n ≠ '\\' ∧ 32 ≤ (hexDigit n).toNat := by decide
  exact this n h

theorem hexValue?_hexDigit {n : Nat} (h : n < 16) : hexValue? (hexDigit n) = some n := by
  have : ∀ n < 16, hexValue? (hexDigit n) = some n := by decide
  exact this n h

/-- What is written for a character: itself, a backslash and a letter, or a backslash and a code. -/
theorem escape_cases (c : Char) :
    (escape c = [c] ∧ c ≠ '"' ∧ c ≠ '\\' ∧ 32 ≤ c.toNat) ∨
    (∃ x, escape c = ['\\', x] ∧ letter? x = some c ∧ x ≠ 'u' ∧ 32 ≤ x.toNat) ∨
    (escape c = ['\\', 'u', '0', '0', hexDigit (c.toNat / 16), hexDigit (c.toNat % 16)] ∧ c.toNat < 32) := by
  unfold escape
  split
  · exact Or.inr (Or.inl ⟨_, rfl, rfl, by decide, by decide⟩)
  · exact Or.inr (Or.inl ⟨_, rfl, rfl, by decide, by decide⟩)
  · exact Or.inr (Or.inl ⟨_, rfl, rfl, by decide, by decide⟩)
  · exact Or.inr (Or.inl ⟨_, rfl, rfl, by decide, by decide⟩)
  · exact Or.inr (Or.inl ⟨_, rfl, rfl, by decide, by decide⟩)
  · exact Or.inr (Or.inl ⟨_, rfl, rfl, by decide, by decide⟩)
  · exact Or.inr (Or.inl ⟨_, rfl, rfl, by decide, by decide⟩)
  · next hquote hback _ _ _ _ _ =>
    split
    · next hc => exact Or.inr (Or.inr ⟨rfl, hc⟩)
    · next hc => exact Or.inl ⟨rfl, hquote, hback, by omega⟩

/-- Nothing below a blank is written, so no line break and no tab. -/
theorem le_toNat_of_mem_escape {c x : Char} (h : x ∈ escape c) : 32 ≤ x.toNat := by
  rcases escape_cases c with ⟨he, -, -, hc⟩ | ⟨y, he, -, -, hy⟩ | ⟨he, hc⟩
  · rw [he, List.mem_singleton] at h
    exact h ▸ hc
  · rw [he] at h
    simp only [List.mem_cons, List.not_mem_nil, or_false] at h
    rcases h with rfl | rfl
    · decide
    · exact hy
  · rw [he] at h
    simp only [List.mem_cons, List.not_mem_nil, or_false] at h
    rcases h with rfl | rfl | rfl | rfl | rfl | rfl
    · decide
    · decide
    · decide
    · decide
    · exact (isPlain_hexDigit (by omega)).2.2
    · exact (isPlain_hexDigit (by omega)).2.2

theorem stringLength?_escape (c : Char) {rest : List Char} {n : Nat} (h : stringLength? rest = some n) :
    stringLength? (escape c ++ rest) = some ((escape c).length + n) := by
  rcases escape_cases c with ⟨he, hq, hb, -⟩ | ⟨y, he, -, -, -⟩ | ⟨he, hc⟩
  · rw [he, List.singleton_append, stringLength?_cons hq hb, h]
    simp [Nat.add_comm]
  · rw [he]
    simp [stringLength?, h, Nat.add_comm]
  · obtain ⟨hq₁, hb₁, -⟩ := isPlain_hexDigit (n := c.toNat / 16) (by omega)
    obtain ⟨hq₂, hb₂, -⟩ := isPlain_hexDigit (n := c.toNat % 16) (by omega)
    rw [he]
    simp only [List.cons_append, List.nil_append, stringLength?]
    rw [stringLength?_cons (by decide) (by decide), stringLength?_cons (by decide) (by decide),
      stringLength?_cons hq₁ hb₁, stringLength?_cons hq₂ hb₂, h]
    simp only [Option.map_some, List.length_cons, List.length_nil, Option.some.injEq]
    omega

theorem stringLength?_flatMap_escape (cs rest : List Char) :
    stringLength? (cs.flatMap escape ++ '"' :: rest) = some ((cs.flatMap escape).length + 1) := by
  induction cs with
  | nil => rfl
  | cons c cs ih =>
    rw [List.flatMap_cons, List.append_assoc, stringLength?_escape c ih, List.length_append, Nat.add_assoc]

theorem isAtom_encode (cs : List Char) : Lexeme.isAtom .string (encode cs) = true := by
  rw [encode, Lexeme.isAtom_cons]
  refine ⟨rfl, ?_⟩
  show Lexeme.ofQuote _ = _
  rw [Lexeme.ofQuote, stringLength?_flatMap_escape, List.length_append]
  rfl

theorem decodeBody_plain {c : Char} (hq : c ≠ '"') (hb : c ≠ '\\') (hc : 32 ≤ c.toNat) (rest : List Char) :
    decodeBody (c :: rest) = before c (decodeBody rest) := by
  rw [decodeBody]
  · rw [if_neg (by simp [hb]; omega)]
  · exact hq
  · exact fun _ _ _ _ _ h _ => hb h
  · exact fun _ _ h _ => hb h

theorem decodeBody_letter {c x : Char} (hx : letter? x = some c) (hu : x ≠ 'u') (rest : List Char) :
    decodeBody ('\\' :: x :: rest) = before c (decodeBody rest) := by
  rw [decodeBody]
  · rw [hx]
  · exact fun _ _ _ _ _ h _ => hu h

theorem decodeBody_code {c : Char} (h : c.toNat < 32) (rest : List Char) :
    decodeBody ('\\' :: 'u' :: '0' :: '0' :: hexDigit (c.toNat / 16) :: hexDigit (c.toNat % 16) :: rest) =
      before c (decodeBody rest) := by
  have hword : hexWord? '0' '0' (hexDigit (c.toNat / 16)) (hexDigit (c.toNat % 16)) = some c.toNat := by
    have h0 : hexValue? '0' = some 0 := by decide
    simp only [hexWord?, h0, hexValue?_hexDigit (n := c.toNat / 16) (by omega),
      hexValue?_hexDigit (n := c.toNat % 16) (by omega)]
    show some _ = some _
    congr 1
    omega
  have hlow : isLowSurrogate c.toNat = false := by
    simp only [isLowSurrogate, Bool.and_eq_false_imp, decide_eq_true_eq]
    omega
  have hhigh : isHighSurrogate c.toNat = false := by
    simp only [isHighSurrogate, Bool.and_eq_false_imp, decide_eq_true_eq]
    omega
  rw [decodeBody, hword]
  simp only [hlow, hhigh, Bool.false_eq_true, if_false, Char.ofNat_toNat]

theorem decodeBody_escape (c : Char) (rest : List Char) :
    decodeBody (escape c ++ rest) = before c (decodeBody rest) := by
  rcases escape_cases c with ⟨he, hq, hb, hc⟩ | ⟨y, he, hy, hu, -⟩ | ⟨he, hc⟩
  · rw [he]
    exact decodeBody_plain hq hb hc rest
  · rw [he]
    exact decodeBody_letter hy hu rest
  · rw [he]
    exact decodeBody_code hc rest

theorem decodeBody_flatMap_escape (cs rest : List Char) :
    decodeBody (cs.flatMap escape ++ '"' :: rest) = some (cs, rest) := by
  induction cs with
  | nil => rfl
  | cons c cs ih => rw [List.flatMap_cons, List.append_assoc, decodeBody_escape, ih]; rfl

theorem decode?_encode (cs : List Char) : decode? (encode cs) = some cs := by
  have hblank : ('"' :: (cs.flatMap escape ++ ['"'])).dropWhile isJsonBlank = '"' :: (cs.flatMap escape ++ ['"']) := rfl
  simp only [decode?, encode, hblank, decodeBody_flatMap_escape]
  rfl

end Quoted

theorem Literal.escapeBreak_of_le {c : Char} (h : 32 ≤ c.toNat) : Literal.escapeBreak c = [c] := by
  unfold Literal.escapeBreak
  split
  · exact absurd h (by decide)
  · exact absurd h (by decide)
  · exact absurd h (by decide)
  · rfl

theorem string?_quoteText (text : String) : Literal.string? (quoteText text) = some text := by
  -- what is encoded holds no raw line break, so there is none to escape before it is decoded
  have hbreaks : (Quoted.encode text.toList).flatMap Literal.escapeBreak = Quoted.encode text.toList := by
    have hsmall : ∀ c ∈ Quoted.encode text.toList, Literal.escapeBreak c = [c] := by
      intro c hc
      refine Literal.escapeBreak_of_le ?_
      simp only [Quoted.encode, List.mem_cons, List.mem_append, List.mem_flatMap, List.not_mem_nil, or_false] at hc
      rcases hc with rfl | ⟨x, -, hx⟩ | rfl
      · decide
      · exact Quoted.le_toNat_of_mem_escape hx
      · decide
    generalize Quoted.encode text.toList = cs at hsmall
    induction cs with
    | nil => rfl
    | cons c cs ih =>
      rw [List.flatMap_cons, hsmall c (by simp), ih fun d hd => hsmall d (List.mem_cons_of_mem _ hd)]
      rfl
  rw [Literal.string?, quoteText, String.toList_ofList, hbreaks, Quoted.decode?_encode, Option.map_some,
    String.ofList_toList]

/-! ### Keywords -/

/-- A text that can be the name of a keyword in a source: symbol characters, and at least one. -/
def isKeywordName (name : String) : Bool :=
  !name.toList.isEmpty && name.toList.all isSymbolChar

theorem toList_colon_append (name : String) : (":" ++ name).toList = ':' :: name.toList := by
  rw [String.toList_append]
  rfl

theorem isAtom_keyword {name : String} (h : isKeywordName name = true) :
    Lexeme.isAtom .keyword (":" ++ name).toList = true := by
  simp only [isKeywordName, Bool.and_eq_true, Bool.not_eq_true', List.isEmpty_eq_false_iff, List.all_eq_true] at h
  rw [toList_colon_append, Lexeme.isAtom_cons]
  refine ⟨rfl, ?_⟩
  show Lexeme.ofColon _ = _
  have hne : name.toList.length ≠ 0 := by simpa using h.1
  simp only [Lexeme.ofColon, runLength_of_forall h.2, if_neg hne]

theorem keywordName_colon (name : String) : Value.keywordName (":" ++ name) = name := by
  simp only [Value.keywordName, toList_colon_append, String.ofList_toList]

end Lisplet
