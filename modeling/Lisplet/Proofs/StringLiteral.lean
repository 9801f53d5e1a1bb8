import Lisplet.Proofs.Words

/-! # What string literals say

A reference decoder for what stands between the quotes of a string literal: it goes from left to right, one character
at a time, and joins code units to characters afterwards. Evaluation writes raw line breaks and tabs as escapes before
it decodes, without regard to a backslash before them. So it agrees with the reference decoder as long as no backslash
escapes such a character, and otherwise it takes for a backslash and a letter what the reference decoder refuses. -/

namespace Lisplet

/-! ### The reference decoder -/

namespace StringLiteral

/-- A part of what a literal says: a character, or a code of sixteen bits that may be half of one. -/
inductive Piece where
  | char (c : Char)
  | code (n : Nat)
  deriving DecidableEq, Repr

/-- Where a reader of a literal is: between the pieces, behind a backslash, or before a digit of a code after which
    `left` more come. -/
inductive Place where
  | text
  | escape
  | digit (left value : Nat)

/-- The letters that may follow a backslash, with what they denote. -/
def escapes : List (Char × Char) :=
  [('"', '"'), ('\\', '\\'), ('/', '/'), ('b', '\x08'), ('f', '\x0c'), ('n', '\n'), ('r', '\r'), ('t', '\t')]

/-- A raw line feed, carriage return or tab. -/
def isBreak (c : Char) : Bool :=
  c == '\n' || c == '\r' || c == '\t'

/-- Whether a character that is not escaped denotes itself. -/
def isAllowed (c : Char) : Bool :=
  isBreak c || ' ' ≤ c

/-- The value of a hexadecimal digit, in either case. -/
def digit? (c : Char) : Option Nat :=
  "0123456789abcdef".toList.idxOf? c <|> "0123456789ABCDEF".toList.idxOf? c

/-- The pieces of the text between two quotes, read from left to right. -/
def pieces? : Place → List Char → Option (List Piece)
  | .text, [] => some []
  | .text, c :: cs =>
    if c = '\\' then pieces? .escape cs
    else if isAllowed c then (pieces? .text cs).map (.char c :: ·)
    else none
  | .escape, c :: cs =>
    if c = 'u' then pieces? (.digit 3 0) cs
    else (escapes.lookup c).bind fun x => (pieces? .text cs).map (.char x :: ·)
  | .digit left value, c :: cs =>
    (digit? c).bind fun d =>
      match left with
      | 0 => (pieces? .text cs).map (.code (value * 16 + d) :: ·)
      | left + 1 => pieces? (.digit left (value * 16 + d)) cs
  | .escape, [] | .digit _ _, [] => none

/-- The first half of a character beyond the first plane. -/
def isHigh (n : Nat) : Bool :=
  n / 0x400 == 0x36

/-- The second half of such a character. -/
def isLow (n : Nat) : Bool :=
  n / 0x400 == 0x37

/-- Joins the pieces; a half without the other half is refused. -/
def join? : List Piece → Option (List Char)
  | [] => some []
  | .char c :: ps => (join? ps).map (c :: ·)
  | .code n :: ps =>
    if isHigh n then
      match ps with
      | .code m :: ps =>
        if isLow m then (join? ps).map (Char.ofNat (0x10000 + n % 0x400 * 0x400 + m % 0x400) :: ·) else none
      | _ => none
    else if isLow n then none
    else (join? ps).map (Char.ofNat n :: ·)

/-- What a literal with the given text between its quotes says, if it is well-formed. -/
def decode (body : List Char) : Option (List Char) :=
  (pieces? .text body).bind join?

/-- Whether a backslash escapes a raw line feed, carriage return or tab. -/
def escapesBreak : List Char → Bool
  | '\\' :: c :: cs => isBreak c || escapesBreak cs
  | _ :: cs => escapesBreak cs
  | [] => false

/-- The text with an escaped backslash and a letter in place of each raw break that is escaped. -/
def mended : List Char → List Char
  | '\\' :: c :: cs => '\\' :: (if isBreak c then '\\' :: (Literal.escapeBreak c).tail else [c]) ++ mended cs
  | c :: cs => c :: mended cs
  | [] => []

/-- What can stand between two quotes: a quote is escaped, and so is something after each backslash. -/
inductive IsBody : List Char → Prop
  | nil : IsBody []
  | plain {c : Char} {cs : List Char} (hq : c ≠ '"') (hb : c ≠ '\\') (h : IsBody cs) : IsBody (c :: cs)
  | escape (c : Char) {cs : List Char} (h : IsBody cs) : IsBody ('\\' :: c :: cs)

/-! ### Bodies -/

variable {body cs : List Char}

@[simp] theorem mended_plain {c : Char} (hb : c ≠ '\\') : mended (c :: cs) = c :: mended cs := by
  rw [mended]
  rintro _ _ h -
  exact hb h

theorem isBody_of_stringLength? {n : Nat} (h : stringLength? cs = some n) :
    ∃ body, cs.take n = body ++ ['"'] ∧ IsBody body := by
  fun_induction stringLength? cs generalizing n with
  | case1 => cases h
  | case2 cs =>
    obtain rfl := Option.some.inj h
    exact ⟨[], rfl, .nil⟩
  | case3 => cases h
  | case4 c cs ih =>
    obtain ⟨m, hm, rfl⟩ := Option.map_eq_some_iff.mp h
    obtain ⟨body, htake, hbody⟩ := ih hm
    exact ⟨'\\' :: c :: body, by simp [htake], .escape c hbody⟩
  | case5 c cs hq hnil hcons ih =>
    obtain ⟨m, hm, rfl⟩ := Option.map_eq_some_iff.mp h
    obtain ⟨body, htake, hbody⟩ := ih hm
    have hb : c ≠ '\\' := by
      intro hc
      cases cs with
      | nil => exact hnil hc rfl
      | cons y ys => exact hcons y ys hc rfl
    exact ⟨c :: body, by simp [htake], .plain hq hb hbody⟩

/-- A string literal is a body between two quotes. -/
theorem isBody_of_isAtom {text : List Char} (h : Lexeme.isAtom .string text = true) :
    ∃ body, text = '"' :: (body ++ ['"']) ∧ IsBody body := by
  obtain ⟨c, cs, rfl, hk, hfirst⟩ := Lexeme.exists_cons_of_isAtom h
  rcases Lexeme.first_cases hfirst hk with ⟨-, rfl, hlength⟩ | ⟨hkind, -⟩ | ⟨-, hpercent⟩ | ⟨-, hplain⟩
  · obtain ⟨body, htake, hbody⟩ := isBody_of_stringLength? hlength
    rw [List.take_length] at htake
    exact ⟨body, by rw [htake], hbody⟩
  · cases hkind
  · rcases Lexeme.ofPercent_cases hpercent with ⟨hkind, -⟩ | ⟨hkind, -⟩ <;> cases hkind
  · rcases Lexeme.ofPlain_cases hplain hk with ⟨hkind, -⟩ | ⟨hkind, -⟩ | ⟨hkind, -⟩ | ⟨hkind, -⟩ <;> cases hkind

theorem mended_of_escapesBreak_eq_false (h : escapesBreak body = false) : mended body = body := by
  fun_induction escapesBreak body with
  | case1 c cs ih =>
    simp only [Bool.or_eq_false_iff] at h
    simp [mended, h.1, ih h.2]
  | case2 c cs hc ih =>
    rw [mended, ih h]
    exact hc
  | case3 => rfl

/-! ### Codes of four digits -/

theorem digit?_eq (c : Char) : digit? c = Quoted.hexValue? c := by
  rcases Nat.lt_or_ge c.toNat 128 with hc | hc
  · have hsmall : ∀ n < 128, digit? (Char.ofNat n) = Quoted.hexValue? (Char.ofNat n) := by decide +kernel
    simpa using hsmall c.toNat hc
  · have hsmall : ("0123456789abcdef".toList ++ "0123456789ABCDEF".toList).all (·.toNat < 128) = true := by
      decide
    have hnot : c ∉ "0123456789abcdef".toList ++ "0123456789ABCDEF".toList := fun h =>
      absurd (List.all_eq_true.mp hsmall c h) (by simpa using hc)
    have hlower : "0123456789abcdef".toList.idxOf? c = none :=
      List.idxOf?_eq_none_iff.mpr fun h => hnot (List.mem_append_left _ h)
    have hupper : "0123456789ABCDEF".toList.idxOf? c = none :=
      List.idxOf?_eq_none_iff.mpr fun h => hnot (List.mem_append_right _ h)
    rw [digit?, hlower, hupper, Quoted.hexValue?, if_neg (by omega), if_neg (by omega), if_neg (by omega)]
    rfl

/-- The code that four hexadecimal digits stand for, and what follows them. -/
def code? : List Char → Option (Nat × List Char)
  | a :: b :: c :: d :: cs => (Quoted.hexWord? a b c d).map (·, cs)
  | _ => none

theorem pieces?_digit (cs : List Char) :
    pieces? (.digit 3 0) cs = (code? cs).bind fun found => (pieces? .text found.2).map (.code found.1 :: ·) := by
  match cs with
  | [] => rfl
  | [a] => simp [pieces?, code?]
  | [a, b] => simp [pieces?, code?]
  | [a, b, c] => simp [pieces?, code?]
  | a :: b :: c :: d :: cs =>
    simp only [pieces?, code?, Quoted.hexWord?, digit?_eq]
    cases Quoted.hexValue? a <;> cases Quoted.hexValue? b <;> cases Quoted.hexValue? c <;> cases Quoted.hexValue? d <;>
      simp

/-- A text does not go on with a hexadecimal digit. -/
def EndsDigits (cs : List Char) : Prop := ∀ c ∈ cs.head?, Quoted.hexValue? c = none

theorem endsDigits_or (cs : List Char) : EndsDigits cs ∨ ∃ c rest, cs = c :: rest ∧ (Quoted.hexValue? c).isSome := by
  cases cs with
  | nil => exact .inl (by simp [EndsDigits])
  | cons c rest =>
    cases hc : Quoted.hexValue? c with
    | none => exact .inl (by simp [EndsDigits, hc])
    | some n => exact .inr ⟨c, rest, rfl, by rw [hc]; rfl⟩

theorem code?_eq_none {digits cs : List Char} (hlength : digits.length < 4) (h : EndsDigits cs) :
    code? (digits ++ cs) = none := by
  have hnone : ∀ {c : Char} {rest : List Char}, cs = c :: rest → Quoted.hexValue? c = none := by
    rintro c rest rfl
    exact h c rfl
  unfold code?
  split
  · next a b c d rest hcs =>
    rw [Option.map_eq_none_iff]
    match digits, hlength with
    | [], _ => simp [Quoted.hexWord?, hnone hcs]
    | [_], _ =>
      simp only [List.cons_append, List.nil_append, List.cons.injEq] at hcs
      simp [Quoted.hexWord?, hnone hcs.2]
    | [_, _], _ =>
      simp only [List.cons_append, List.nil_append, List.cons.injEq] at hcs
      simp [Quoted.hexWord?, hnone hcs.2.2]
    | [_, _, _], _ =>
      simp only [List.cons_append, List.nil_append, List.cons.injEq] at hcs
      simp [Quoted.hexWord?, hnone hcs.2.2.2]
  · rfl

/-- A change of a text that keeps its digits and makes no others keeps a code at its start. -/
theorem code?_of_keeps {f : List Char → List Char}
    (hdigit : ∀ c cs, (Quoted.hexValue? c).isSome → f (c :: cs) = c :: f cs)
    (hother : ∀ cs, EndsDigits cs → EndsDigits (f cs)) (cs : List Char) :
    code? (f cs) = (code? cs).map fun found => (found.1, f found.2) := by
  have hstop : ∀ (digits : List Char) {rest : List Char}, digits.length < 4 → EndsDigits rest →
      code? (digits ++ f rest) = (code? (digits ++ rest)).map fun found => (found.1, f found.2) := by
    intro digits rest hlength hrest
    rw [code?_eq_none hlength hrest, code?_eq_none hlength (hother rest hrest)]
    rfl
  rcases endsDigits_or cs with h | ⟨a, cs, rfl, ha⟩
  · exact hstop [] (by simp) h
  rw [hdigit a cs ha]
  rcases endsDigits_or cs with h | ⟨b, cs, rfl, hb⟩
  · exact hstop [a] (by simp) h
  rw [hdigit b cs hb]
  rcases endsDigits_or cs with h | ⟨c, cs, rfl, hc⟩
  · exact hstop [a, b] (by simp) h
  rw [hdigit c cs hc]
  rcases endsDigits_or cs with h | ⟨d, cs, rfl, hd⟩
  · exact hstop [a, b, c] (by simp) h
  rw [hdigit d cs hd, code?, code?, Option.map_map]
  rfl

theorem decodeBody_u (cs : List Char) :
    Quoted.decodeBody ('\\' :: 'u' :: cs) =
      (code? cs).bind fun found =>
        if Quoted.isLowSurrogate found.1 then none
        else if Quoted.isHighSurrogate found.1 then
          match found.2 with
          | '\\' :: 'u' :: rest =>
            (code? rest).bind fun next =>
              if Quoted.isLowSurrogate next.1 then
                Quoted.before (Quoted.ofSurrogates found.1 next.1) (Quoted.decodeBody next.2)
              else none
          | _ => none
        else Quoted.before (Char.ofNat found.1) (Quoted.decodeBody found.2) := by
  match cs with
  | [] => rfl
  | [_] => rfl
  | [_, _] => rfl
  | [_, _, _] => rfl
  | a :: b :: c :: d :: rest =>
    rw [Quoted.decodeBody]
    simp only [code?]
    cases Quoted.hexWord? a b c d with
    | none => rfl
    | some n =>
      simp only [Option.map_some, Option.bind_some]
      split
      · rfl
      split
      · by_cases hnext : ∃ more, rest = '\\' :: 'u' :: more
        · obtain ⟨more, rfl⟩ := hnext
          match more with
          | [] => rfl
          | [_] => rfl
          | [_, _] => rfl
          | [_, _, _] => rfl
          | a' :: b' :: c' :: d' :: rest' =>
            simp only [Option.bind_map]
            cases Quoted.hexWord? a' b' c' d' <;> rfl
        · split
          · exact absurd ⟨_, rfl⟩ hnext
          split
          · exact absurd ⟨_, rfl⟩ hnext
          rfl
      · rfl

/-! ### What the decoder of the evaluator is given -/

theorem isBreak_eq_false_of_digit {c : Char} (h : (Quoted.hexValue? c).isSome) : isBreak c = false := by
  simp only [isBreak, Bool.or_eq_false_iff, beq_eq_false_iff_ne, ne_eq]
  refine ⟨⟨?_, ?_⟩, ?_⟩ <;> rintro rfl <;> exact absurd h (by decide)

theorem escapeBreak_eq {c : Char} (h : isBreak c = false) : Literal.escapeBreak c = [c] := by
  simp only [isBreak, Bool.or_eq_false_iff, beq_eq_false_iff_ne, ne_eq] at h
  unfold Literal.escapeBreak
  split
  · exact absurd rfl h.1.1
  · exact absurd rfl h.1.2
  · exact absurd rfl h.2
  · rfl

theorem isBreak_cases {c : Char} (h : isBreak c = true) : c = '\n' ∨ c = '\r' ∨ c = '\t' := by
  simpa [isBreak, or_assoc] using h

/-- What stands behind the opening quote when the evaluator decodes a literal. -/
def sent (rest body : List Char) : List Char :=
  body.flatMap Literal.escapeBreak ++ '"' :: rest

@[simp] theorem sent_cons (rest : List Char) (c : Char) : sent rest (c :: cs) = Literal.escapeBreak c ++ sent rest cs := by
  simp [sent]

theorem code?_sent (rest cs : List Char) :
    code? (sent rest cs) = (code? cs).map fun found => (found.1, sent rest found.2) := by
  refine code?_of_keeps (fun c cs hc => ?_) (fun cs hcs => ?_) cs
  · rw [sent_cons, escapeBreak_eq (isBreak_eq_false_of_digit hc)]
    rfl
  · cases cs with
    | nil =>
      rintro c ⟨⟩
      decide
    | cons x xs =>
      cases hx : isBreak x with
      | false =>
        rw [sent_cons, escapeBreak_eq hx]
        exact hcs
      | true =>
        rcases isBreak_cases hx with rfl | rfl | rfl <;> rintro c ⟨⟩ <;> decide

theorem code?_mended (cs : List Char) :
    code? (mended cs) = (code? cs).map fun found => (found.1, mended found.2) := by
  refine code?_of_keeps (fun c cs hc => mended_plain ?_) (fun cs hcs => ?_) cs
  · rintro rfl
    exact absurd hc (by decide)
  · intro c hc
    fun_cases mended cs with
    | case1 x xs =>
      obtain rfl := Option.some.inj hc
      decide
    | case2 x xs hx =>
      rw [mended.eq_2 x xs hx] at hc
      obtain rfl := Option.some.inj hc
      exact hcs x rfl
    | case3 => cases hc

theorem IsBody.of_cons {c : Char} (h : IsBody (c :: cs)) (hb : c ≠ '\\') : IsBody cs := by
  cases h with
  | plain _ _ h => exact h
  | escape _ _ => exact absurd rfl hb

theorem IsBody.of_escape {c : Char} (h : IsBody ('\\' :: c :: cs)) : IsBody cs := by
  cases h with
  | plain _ hb _ => exact absurd rfl hb
  | escape _ h => exact h

theorem IsBody.of_code? {n : Nat} {tail : List Char} (h : IsBody cs) (hcode : code? cs = some (n, tail)) :
    IsBody tail ∧ tail.length < cs.length := by
  have hdigit : ∀ {c : Char} {d : Nat}, Quoted.hexValue? c = some d → c ≠ '\\' := by
    rintro c d hc rfl
    cases hc
  unfold code? at hcode
  split at hcode
  · next a b c d rest =>
    obtain ⟨m, hword, hfound⟩ := Option.map_eq_some_iff.mp hcode
    obtain ⟨-, rfl⟩ := Prod.mk.inj hfound
    simp only [Quoted.hexWord?, Option.bind_eq_bind, Option.bind_eq_some_iff] at hword
    obtain ⟨_, ha, _, hb, _, hc, _, hd, -⟩ := hword
    refine ⟨(((h.of_cons (hdigit ha)).of_cons (hdigit hb)).of_cons (hdigit hc)).of_cons (hdigit hd), ?_⟩
    simp only [List.length_cons]
    omega
  · cases hcode

/-! ### The two decoders -/

theorem decode_plain {c : Char} (hb : c ≠ '\\') (cs : List Char) :
    decode (c :: cs) = if isAllowed c then (decode cs).map (c :: ·) else none := by
  simp only [decode, pieces?, if_neg hb]
  split
  · cases pieces? .text cs <;> rfl
  · rfl

theorem decode_escape {c : Char} (hu : c ≠ 'u') (cs : List Char) :
    decode ('\\' :: c :: cs) = (escapes.lookup c).bind fun x => (decode cs).map (x :: ·) := by
  simp only [decode, pieces?, if_pos, if_neg hu]
  cases escapes.lookup c with
  | none => rfl
  | some x => cases pieces? .text cs <;> rfl

/-- Half a character is followed by the code of the other half. -/
theorem bind_join?_high {n : Nat} (hn : isHigh n = true) (cs : List Char) :
    ((pieces? .text cs).bind fun ps => join? (.code n :: ps)) =
      match cs with
      | '\\' :: 'u' :: more =>
        (code? more).bind fun next =>
          if isLow next.1 then
            (decode next.2).map (Char.ofNat (0x10000 + n % 0x400 * 0x400 + next.1 % 0x400) :: ·)
          else none
      | _ => none := by
  split
  · next more =>
    simp only [pieces?, if_pos, pieces?_digit, decode]
    cases code? more with
    | none => rfl
    | some next =>
      simp only [Option.bind_some, Option.bind_map, Function.comp_def, join?, hn, if_true]
      split
      · cases pieces? .text next.2 <;> rfl
      · cases pieces? .text next.2 <;> rfl
  · next hcs =>
    -- whatever comes next is no code
    cases cs with
    | nil => simp [pieces?, join?, hn]
    | cons c cs =>
      by_cases hb : c = '\\'
      · subst hb
        cases cs with
        | nil => rfl
        | cons x xs =>
          have hx : x ≠ 'u' := by
            rintro rfl
            exact hcs xs rfl
          simp only [pieces?, if_pos, if_neg hx]
          cases escapes.lookup x with
          | none => rfl
          | some y => cases pieces? .text xs <;> simp [join?, hn]
      · simp only [pieces?, if_neg hb]
        split
        · cases pieces? .text cs <;> simp [join?, hn]
        · rfl

theorem decode_u (cs : List Char) :
    decode ('\\' :: 'u' :: cs) =
      (code? cs).bind fun found => (pieces? .text found.2).bind fun ps => join? (.code found.1 :: ps) := by
  simp only [decode, pieces?, if_pos, pieces?_digit]
  cases code? cs with
  | none => rfl
  | some found => simp only [Option.bind_some, Option.bind_map, Function.comp_def]

theorem isLow_eq (n : Nat) : isLow n = Quoted.isLowSurrogate n := by
  rw [Bool.eq_iff_iff]
  simp only [isLow, Quoted.isLowSurrogate, beq_iff_eq, Bool.and_eq_true, decide_eq_true_eq]
  omega

theorem isHigh_eq (n : Nat) : isHigh n = Quoted.isHighSurrogate n := by
  rw [Bool.eq_iff_iff]
  simp only [isHigh, Quoted.isHighSurrogate, beq_iff_eq, Bool.and_eq_true, decide_eq_true_eq]
  omega

theorem ofSurrogates_eq {n m : Nat} (hn : isHigh n = true) (hm : isLow m = true) :
    Quoted.ofSurrogates n m = Char.ofNat (0x10000 + n % 0x400 * 0x400 + m % 0x400) := by
  simp only [isHigh, isLow, beq_iff_eq] at hn hm
  exact congrArg Char.ofNat (by omega)

/-- The text and what follows its closing quote. -/
def closed (rest : List Char) (text : Option (List Char)) : Option (List Char × List Char) :=
  text.map (·, rest)

theorem closed_map (rest : List Char) (c : Char) (text : Option (List Char)) :
    closed rest (text.map (c :: ·)) = Quoted.before c (closed rest text) := by
  cases text <;> rfl

theorem letter?_eq (c : Char) : Quoted.letter? c = escapes.lookup c := by
  unfold Quoted.letter?
  split <;> try rfl
  next h₁ h₂ h₃ h₄ h₅ h₆ h₇ h₈ =>
    simp [escapes, List.lookup_cons, beq_eq_false_iff_ne.mpr h₁, beq_eq_false_iff_ne.mpr h₂, beq_eq_false_iff_ne.mpr h₃,
      beq_eq_false_iff_ne.mpr h₄, beq_eq_false_iff_ne.mpr h₅, beq_eq_false_iff_ne.mpr h₆, beq_eq_false_iff_ne.mpr h₇,
      beq_eq_false_iff_ne.mpr h₈]

theorem decodeBody_escape {c : Char} (hu : c ≠ 'u') (cs : List Char) :
    Quoted.decodeBody ('\\' :: c :: cs) = (escapes.lookup c).bind fun x => Quoted.before x (Quoted.decodeBody cs) := by
  rw [Quoted.decodeBody, letter?_eq]
  · cases escapes.lookup c <;> rfl
  · exact fun _ _ _ _ _ h _ => hu h

theorem decodeBody_escapeBreak {c : Char} (hq : c ≠ '"') (hb : c ≠ '\\') (cs : List Char) :
    Quoted.decodeBody (Literal.escapeBreak c ++ cs) =
      if isAllowed c then Quoted.before c (Quoted.decodeBody cs) else none := by
  cases hbreak : isBreak c with
  | true =>
    rcases isBreak_cases hbreak with rfl | rfl | rfl <;> exact Quoted.decodeBody_letter rfl (by decide) cs
  | false =>
    have hallowed : isAllowed c = true ↔ 32 ≤ c.toNat := by
      rw [isAllowed, hbreak, Bool.false_or, decide_eq_true_eq]
      exact Iff.rfl
    rw [escapeBreak_eq hbreak, List.singleton_append]
    split
    · next hc => exact Quoted.decodeBody_plain hq hb (hallowed.mp hc) cs
    · next hc =>
      rw [Quoted.decodeBody]
      · rw [if_pos (.inl (Nat.not_le.mp (mt hallowed.mpr hc)))]
      · exact hq
      · exact fun _ _ _ _ _ h _ => hb h
      · exact fun _ _ h _ => hb h

theorem sent_escape {c : Char} (hbreak : isBreak c = false) (rest cs : List Char) :
    sent rest ('\\' :: c :: cs) = '\\' :: c :: sent rest cs := by
  rw [sent_cons, sent_cons, escapeBreak_eq hbreak]
  rfl

theorem mended_escape {c : Char} (hbreak : isBreak c = false) (cs : List Char) :
    mended ('\\' :: c :: cs) = '\\' :: c :: mended cs := by
  rw [mended, hbreak]
  rfl

/-- The two decoders agree on a backslash that is escaped, and a letter. -/
theorem decodeBody_letter {x : Char} {rest text : List Char} (hq : x ≠ '"') (hb : x ≠ '\\') (hx : 32 ≤ x.toNat)
    (h : Quoted.decodeBody text = closed rest (decode cs)) :
    Quoted.decodeBody ('\\' :: '\\' :: x :: text) = closed rest (decode ('\\' :: '\\' :: x :: cs)) := by
  have hallowed : isAllowed x = true := by
    rw [isAllowed, Bool.or_eq_true, decide_eq_true_eq]
    exact .inr hx
  rw [decodeBody_escape (by decide), decode_escape (by decide), Quoted.decodeBody_plain hq hb hx, decode_plain hb, h,
    if_pos hallowed, ← closed_map]
  exact (closed_map _ _ _).symm

/-- A code in what is sent comes from a code in the body. -/
theorem exists_of_sent_eq (h : IsBody body) {rest more : List Char} (hsent : sent rest body = '\\' :: 'u' :: more) :
    ∃ tail, body = '\\' :: 'u' :: tail := by
  cases h with
  | nil => cases hsent
  | @plain c cs hq hb h =>
    cases hbreak : isBreak c with
    | true => rcases isBreak_cases hbreak with rfl | rfl | rfl <;> simp [Literal.escapeBreak] at hsent
    | false =>
      rw [sent_cons, escapeBreak_eq hbreak] at hsent
      exact absurd (List.cons.inj hsent).1 hb
  | @escape c cs h =>
    cases hbreak : isBreak c with
    | true => rcases isBreak_cases hbreak with rfl | rfl | rfl <;> simp [Literal.escapeBreak] at hsent
    | false =>
      rw [sent_escape hbreak] at hsent
      obtain rfl := (List.cons.inj (List.cons.inj hsent).2).1
      exact ⟨cs, rfl⟩

theorem exists_of_mended_eq (h : IsBody body) {more : List Char} (hmended : mended body = '\\' :: 'u' :: more) :
    ∃ tail, body = '\\' :: 'u' :: tail := by
  cases h with
  | nil => cases hmended
  | @plain c cs hq hb h =>
    rw [mended_plain hb] at hmended
    exact absurd (List.cons.inj hmended).1 hb
  | @escape c cs h =>
    cases hbreak : isBreak c with
    | true => simp [mended, hbreak] at hmended
    | false =>
      rw [mended_escape hbreak] at hmended
      obtain rfl := (List.cons.inj (List.cons.inj hmended).2).1
      exact ⟨cs, rfl⟩

theorem join?_code {n : Nat} (hn : isHigh n = false) (ps : List Piece) :
    join? (.code n :: ps) = if isLow n then none else (join? ps).map (Char.ofNat n :: ·) := by
  rw [join?.eq_def]
  simp only [hn, Bool.false_eq_true, if_false]

/-- The two decoders agree on a code if they agree on what follows it, and on what follows the next code. -/
theorem decodeBody_code {n : Nat} {tail : List Char} (h : IsBody tail) (rest : List Char)
    (ih : ∀ cs, cs.length ≤ tail.length → IsBody cs →
      Quoted.decodeBody (sent rest cs) = closed rest (decode (mended cs))) :
    (if Quoted.isLowSurrogate n then none
      else if Quoted.isHighSurrogate n then
        match sent rest tail with
        | '\\' :: 'u' :: more =>
          (code? more).bind fun next =>
            if Quoted.isLowSurrogate next.1 then
              Quoted.before (Quoted.ofSurrogates n next.1) (Quoted.decodeBody next.2)
            else none
        | _ => none
      else Quoted.before (Char.ofNat n) (Quoted.decodeBody (sent rest tail))) =
      closed rest ((pieces? .text (mended tail)).bind fun ps => join? (.code n :: ps)) := by
  rw [← isLow_eq, ← isHigh_eq]
  cases hhigh : isHigh n with
  | true =>
    have hlow : isLow n = false := by
      simp only [isHigh, isLow, beq_iff_eq, beq_eq_false_iff_ne] at hhigh ⊢
      omega
    rw [hlow, bind_join?_high hhigh, if_neg (by decide), if_pos rfl]
    by_cases hnext : ∃ more, tail = '\\' :: 'u' :: more
    · obtain ⟨more, rfl⟩ := hnext
      rw [sent_escape (by decide), mended_escape (by decide)]
      simp only [code?_sent, code?_mended]
      cases hcode : code? more with
      | none => rfl
      | some next =>
        obtain ⟨m, cs⟩ := next
        obtain ⟨hcs, hlength⟩ := ((h.of_escape).of_code? hcode)
        simp only [Option.map_some, Option.bind_some, ← isLow_eq]
        split
        · next hm => rw [ofSurrogates_eq hhigh hm, ih cs (by simp; omega) hcs, closed_map]
        · rfl
    · -- no code follows, neither in the one text nor in the other
      split
      · next hsent => exact absurd (exists_of_sent_eq h hsent) hnext
      split
      · next hmended => exact absurd (exists_of_mended_eq h hmended) hnext
      rfl
  | false =>
    cases hlow : isLow n with
    | true => cases pieces? .text (mended tail) <;> simp [join?_code hhigh, hlow, closed]
    | false =>
      rw [if_neg (by decide), if_neg (by decide), ih tail (Nat.le_refl _) h, ← closed_map, decode]
      cases pieces? .text (mended tail) <;> simp [join?_code hhigh, hlow]

/-- The decoder of the evaluator finds in a body what the reference decoder finds in the mended body. -/
theorem decodeBody_sent (h : IsBody body) (rest : List Char) :
    Quoted.decodeBody (sent rest body) = closed rest (decode (mended body)) := by
  induction hn : body.length using Nat.strongRecOn generalizing body with
  | ind n ih =>
  subst hn
  cases h with
  | nil => rfl
  | @plain c cs hq hb h =>
    rw [sent_cons, decodeBody_escapeBreak hq hb, mended_plain hb, decode_plain hb, ih _ (by simp) h rfl]
    split
    · rw [closed_map]
    · rfl
  | @escape c cs h =>
    have hcs := ih cs.length (Nat.lt_of_lt_of_le (Nat.lt_succ_self _) (Nat.le_succ _)) h rfl
    cases hbreak : isBreak c with
    | true =>
      -- what is sent and the mended body both go on with two backslashes and a letter
      rcases isBreak_cases hbreak with rfl | rfl | rfl <;> exact decodeBody_letter (by decide) (by decide) (by decide) hcs
    | false =>
      rw [sent_escape hbreak, mended_escape hbreak]
      by_cases hu : c = 'u'
      · subst hu
        rw [decodeBody_u, code?_sent, decode_u, code?_mended]
        cases hcode : code? cs with
        | none => rfl
        | some found =>
          obtain ⟨htail, hlength⟩ := h.of_code? hcode
          exact decodeBody_code htail rest fun cs hle hbody => ih cs.length (by simp; omega) hbody rfl
      · rw [decodeBody_escape hu, decode_escape hu, hcs]
        cases escapes.lookup c with
        | none => rfl
        | some x => exact (closed_map _ _ _).symm

/-- A literal is decoded as its mended body. -/
theorem string?_eq (h : IsBody body) {text : String} (htext : text.toList = '"' :: (body ++ ['"'])) :
    Literal.string? text = (decode (mended body)).map String.ofList := by
  have hsent : text.toList.flatMap Literal.escapeBreak = '"' :: sent [] body := by
    rw [htext, List.flatMap_cons, List.flatMap_append]
    rfl
  have hblank : ('"' :: sent [] body).dropWhile Quoted.isJsonBlank = '"' :: sent [] body := rfl
  simp only [Literal.string?, hsent, Quoted.decode?, hblank, decodeBody_sent h]
  cases decode (mended body) <;> rfl

/-- The reference decoder refuses every body in which a raw break is escaped. -/
theorem pieces?_of_escapesBreak (h : escapesBreak body = true) :
    pieces? .text body = none ∧ ∀ left value, pieces? (.digit left value) body = none := by
  fun_induction escapesBreak body with
  | case1 c cs ih =>
    have hdigit : digit? '\\' = none := by decide
    refine ⟨?_, fun left value => by simp [pieces?, hdigit]⟩
    rcases Bool.or_eq_true_iff.mp h with hc | hcs
    · rcases isBreak_cases hc with rfl | rfl | rfl <;> rfl
    · simp only [pieces?, if_pos, ih hcs, Option.map_none]
      cases escapes.lookup c <;> simp
  | case2 c cs hne ih =>
    have hb : c ≠ '\\' := by
      rintro rfl
      cases cs with
      | nil => cases h
      | cons x xs => exact hne x xs rfl rfl
    refine ⟨by simp [pieces?, hb, ih h], fun left value => ?_⟩
    cases left <;> simp [pieces?, ih h]
  | case3 => cases h

theorem decode_of_escapesBreak (h : escapesBreak body = true) : decode body = none := by
  rw [decode, (pieces?_of_escapesBreak h).1]
  rfl

end StringLiteral

/-! ### Evaluation -/

namespace Eval

open StringLiteral

/-- A string literal is evaluated to what the reference decoder finds between its quotes, and is refused if that finds
    nothing, unless a backslash escapes a raw line feed, carriage return or tab. The reference decoder refuses such a
    literal, and evaluation takes the two characters for an escaped backslash and a letter. -/
theorem run_evaluate_string {number : Nat} {source : String} {node : Code}
    (hw : node.Within (Document.read number source).root) (hk : node.kind = .string) :
    ∃ body, node.text.toList = '"' :: (body ++ ['"']) ∧
      (escapesBreak body = false → ∀ host levels scope s,
        run host (levels + 1) (.evaluate node scope) s =
          literalOutcome node ((decode body).map fun cs => .string (String.ofList cs)) s) ∧
      (escapesBreak body = true → decode body = none ∧ ∀ host levels scope s,
        run host (levels + 1) (.evaluate node scope) s =
          literalOutcome node ((decode (mended body)).map fun cs => .string (String.ofList cs)) s) := by
  obtain ⟨body, htext, hbody⟩ := isBody_of_isAtom (Document.isAtom_of_within hw (by rw [hk]; rfl))
  have hvalue : node.literal? = (decode (mended body)).map fun cs => .string (String.ofList cs) := by
    simp only [Form.literal?, hk, string?_eq hbody htext, Option.map_map, Function.comp_def]
  have hrun : ∀ host levels scope s, run host (levels + 1) (.evaluate node scope) s =
      literalOutcome node ((decode (mended body)).map fun cs => .string (String.ofList cs)) s := by
    intro host levels scope s
    rw [run_evaluate_literal (by simp [Form.isLiteral, hk]), hvalue]
  refine ⟨body, htext, fun hplain => ?_, fun hescaped => ⟨decode_of_escapesBreak hescaped, hrun⟩⟩
  rw [mended_of_escapesBreak_eq_false hplain] at hrun
  exact hrun

/-- A literal with a letter, a pair of codes and a raw line feed. -/
def rawLineFeed : String := "\"\\u0041\\t\\uD83D\\ude00\n\""

theorem run_evaluate_string_rawLineFeed :
    (sourceForm rawLineFeed).Within (Document.read 0 rawLineFeed).root ∧ (sourceForm rawLineFeed).kind = .string ∧
    ∀ host levels scope s,
      run host (levels + 1) (.evaluate (sourceForm rawLineFeed) scope) s = .ok (.string "A\t😀\n") s := by
  have hcheck : (Document.read 0 rawLineFeed : Document Value).root.children.isEmpty = false ∧
      (sourceForm rawLineFeed).kind = .string ∧ (sourceForm rawLineFeed).text = rawLineFeed := by decide +kernel
  have hdecode : escapesBreak rawLineFeed.toList.tail.dropLast = false ∧
      decode rawLineFeed.toList.tail.dropLast = some "A\t😀\n".toList := by decide +kernel
  obtain ⟨hparts, hkind, htext⟩ := hcheck
  have hwithin := within_sourceForm (List.isEmpty_eq_false_iff.mp hparts)
  obtain ⟨body, hbody, hplain, -⟩ := run_evaluate_string hwithin hkind
  have hbetween : rawLineFeed.toList.tail.dropLast = body := by
    rw [← htext, hbody, List.tail_cons, List.dropLast_concat]
  rw [hbetween] at hdecode
  refine ⟨hwithin, hkind, fun host levels scope s => ?_⟩
  rw [hplain hdecode.1, hdecode.2]
  rfl

/-- A literal in which a backslash escapes a raw line feed. -/
def escapedLineFeed : String := "\"\\\n\""

/-- The reference decoder refuses `escapedLineFeed`, but its value is a backslash and a letter. -/
theorem not_refused_escapedLineFeed :
    (Document.read 0 escapedLineFeed : Document Value).errors = [] ∧
    (sourceForm escapedLineFeed).Within (Document.read 0 escapedLineFeed).root ∧
    (sourceForm escapedLineFeed).kind = .string ∧
    (sourceForm escapedLineFeed).text.toList = '"' :: (['\\', '\n'] ++ ['"']) ∧ decode ['\\', '\n'] = none ∧
    ∃ s, run Command.host 1 (.evaluate (sourceForm escapedLineFeed) freshCommand.1.scope) freshCommand.2 =
      .ok (.string "\\n") s := by
  have hcheck : (Document.read 0 escapedLineFeed : Document Value).errors.isEmpty = true ∧
      (Document.read 0 escapedLineFeed : Document Value).root.children.isEmpty = false ∧
      (sourceForm escapedLineFeed).kind = .string ∧
      (sourceForm escapedLineFeed).text.toList = '"' :: (['\\', '\n'] ++ ['"']) ∧ decode ['\\', '\n'] = none ∧
      Literal.string? (sourceForm escapedLineFeed).text = some "\\n" := by decide +kernel
  obtain ⟨herrors, hparts, hkind, htext, hnone, hvalue⟩ := hcheck
  refine ⟨List.isEmpty_iff.mp herrors, within_sourceForm (List.isEmpty_eq_false_iff.mp hparts), hkind, htext, hnone,
    freshCommand.2, ?_⟩
  rw [run_evaluate_literal (by simp [Form.isLiteral, hkind])]
  simp only [Form.literal?, hkind, hvalue]
  rfl

end Eval

end Lisplet
