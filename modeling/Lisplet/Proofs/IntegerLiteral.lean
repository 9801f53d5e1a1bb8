import Mathlib.Data.Nat.Digits.Defs
import Lisplet.Proofs.Modes
import Lisplet.Proofs.Numbers
import Lisplet.Proofs.Words

/-! # Integer literals

An integer literal is decimal, with an optional minus sign, or hexadecimal. Its value is the integer that its digits
denote if that has 64 bits; a hexadecimal literal beyond them is refused. A decimal one is read as a double, from those
of its leading digits that fit into 64 bits and a power of ten for the others, each rounded before they are multiplied.
It is refused if the product is beyond the doubles. With two roundings that happens from a bound on that is a little
below the largest double. No literal stands for a wrong integer. -/

namespace Lisplet

/-! ### The range of doubles -/

namespace Double

theorem bitLength_le_iff {n p : Nat} : bitLength n ≤ p ↔ n < 2 ^ p := by
  unfold bitLength
  split
  · next hn => simp [hn]
  · next hn => rw [Nat.succ_le_iff, Nat.log2_lt hn]

theorem div_le_roundDiv (num den : Nat) : num / den ≤ roundDiv num den := by
  simp only [roundDiv]
  split
  · omega
  split
  · omega
  split <;> omega

theorem roundDiv_le (num den : Nat) : roundDiv num den ≤ num / den + 1 := by
  simp only [roundDiv]
  split
  · omega
  split
  · omega
  split <;> omega

theorem roundDiv_mono {num num' : Nat} (h : num ≤ num') (den : Nat) : roundDiv num den ≤ roundDiv num' den := by
  rcases Nat.lt_or_eq_of_le (Nat.div_le_div_right (c := den) h) with hlt | heq
  · exact Nat.le_trans (roundDiv_le num den) (Nat.le_trans hlt (div_le_roundDiv num' den))
  · -- with the same whole part it depends on what is left
    have hrest : num % den ≤ num' % den := by
      have hsplit := Nat.div_add_mod num den
      have hsplit' := Nat.div_add_mod num' den
      rw [heq] at hsplit
      omega
    simp only [roundDiv, heq]
    split_ifs <;> omega

variable {num num' den : Nat}

theorem roundUnits_eq (num den : Nat) :
    roundUnits num den = roundDiv num (den * 2 ^ spacing (num / den)) * 2 ^ spacing (num / den) := by
  rw [roundUnits, Nat.pow_eq]

/-- Rounding does not go beyond the next power of two. -/
theorem roundUnits_le (num den : Nat) : roundUnits num den ≤ 2 ^ bitLength (num / den) := by
  have hless : num / den < 2 ^ bitLength (num / den) := bitLength_le_iff.mp (Nat.le_refl _)
  have hspacing : spacing (num / den) ≤ bitLength (num / den) := Nat.sub_le _ _
  have hsplit : (2 : Nat) ^ bitLength (num / den) =
      2 ^ (bitLength (num / den) - spacing (num / den)) * 2 ^ spacing (num / den) := by
    rw [← Nat.pow_add, Nat.sub_add_cancel hspacing]
  rw [roundUnits_eq, hsplit]
  refine Nat.mul_le_mul_right _ (Nat.le_trans (roundDiv_le _ _) ?_)
  rw [← Nat.div_div_eq_div_mul]
  exact (Nat.div_lt_iff_lt_mul (Nat.two_pow_pos _)).mpr (hsplit ▸ hless)

/-- Rounding does not go below the last power of two. -/
theorem le_roundUnits (h : 0 < bitLength (num / den)) : 2 ^ (bitLength (num / den) - 1) ≤ roundUnits num den := by
  have hle : 2 ^ (bitLength (num / den) - 1) ≤ num / den := by
    by_contra hless
    have := bitLength_le_iff.mpr (Nat.not_le.mp hless)
    omega
  have hspacing : spacing (num / den) ≤ bitLength (num / den) - 1 := by
    unfold spacing
    omega
  have hsplit : (2 : Nat) ^ (bitLength (num / den) - 1) =
      2 ^ (bitLength (num / den) - 1 - spacing (num / den)) * 2 ^ spacing (num / den) := by
    rw [← Nat.pow_add, Nat.sub_add_cancel hspacing]
  rw [roundUnits_eq, hsplit]
  refine Nat.mul_le_mul_right _ (Nat.le_trans ?_ (div_le_roundDiv _ _))
  rw [← Nat.div_div_eq_div_mul]
  exact (Nat.le_div_iff_mul_le (Nat.two_pow_pos _)).mpr (hsplit ▸ hle)

/-- Rounding respects the order: within one power of two the step is the same, and between two of them the power itself
    separates the results. -/
theorem roundUnits_mono (h : num ≤ num') (den : Nat) : roundUnits num den ≤ roundUnits num' den := by
  have hquotient : num / den ≤ num' / den := Nat.div_le_div_right h
  have hlength : bitLength (num / den) ≤ bitLength (num' / den) :=
    bitLength_le_iff.mpr (Nat.lt_of_le_of_lt hquotient (bitLength_le_iff.mp (Nat.le_refl _)))
  rcases Nat.lt_or_eq_of_le hlength with hlt | heq
  · calc roundUnits num den ≤ 2 ^ bitLength (num / den) := roundUnits_le num den
      _ ≤ 2 ^ (bitLength (num' / den) - 1) := Nat.pow_le_pow_right (by decide) (by omega)
      _ ≤ roundUnits num' den := le_roundUnits (by omega)
  · rw [roundUnits_eq, roundUnits_eq, spacing, spacing, heq]
    exact Nat.mul_le_mul_right _ (roundDiv_mono h _)

variable {a b c d : Nat}

theorem ofNat_mono (h : a ≤ b) : ofNat a ≤ ofNat b := roundUnits_mono (Nat.mul_le_mul_right _ h) 1

theorem times_mono (hac : a ≤ c) (hbd : b ≤ d) : times a b ≤ times c d := roundUnits_mono (Nat.mul_le_mul hac hbd) one

theorem ofNat_pos (h : 0 < a) : 0 < ofNat a :=
  calc 0 < 1 * one := by rw [Nat.one_mul]; exact one_pos
    _ = ofNat 1 := (ofNat_eq (by decide)).symm
    _ ≤ ofNat a := ofNat_mono h

/-- A significand with a power of ten that it is multiplied by. -/
theorem ofParts?_natCast (negative : Bool) {significand : Nat} (hpos : 0 < significand) (power : Nat) :
    ofParts? negative significand power =
      if power ≤ maxPower ∧ times (ofNat significand) (ofNat (10 ^ power)) < limit then
        some ⟨negative, times (ofNat significand) (ofNat (10 ^ power))⟩
      else none := by
  have hunits := ofNat_pos hpos
  rw [ofParts?, if_neg (by omega), if_neg (by omega), Int.toNat_natCast, Nat.pow_eq]
  by_cases hpower : power ≤ maxPower
  · rw [if_neg (by omega)]
    simp only [hpower, true_and]
  · rw [if_pos (by omega), if_neg fun h => hpower h.1]

/-- The least integer that is refused: with this significand of 64 bits and this power of ten, the product is rounded
    beyond the doubles. It is a little below the largest double. -/
@[irreducible] def reach : Nat := 17976931348623156225 * Nat.pow 10 289

/-- The products next to `reach`. The power is named only by what is needed of it. -/
theorem exists_power : ∃ k, k + 2 ≤ maxPower ∧ reach = 17976931348623156225 * 10 ^ (k + 1) ∧
    times (ofNat (2 ^ 64)) (ofNat (10 ^ k)) < limit ∧
    times (ofNat 17976931348623156224) (ofNat (10 ^ (k + 1))) < limit ∧
    limit ≤ times (ofNat 17976931348623156225) (ofNat (10 ^ (k + 1))) ∧
    limit ≤ times (ofNat 1844674407370955161) (ofNat (10 ^ (k + 2))) := by
  unfold reach
  simp only [← Nat.pow_eq]
  exact ⟨288, by decide, by decide +kernel, Nat.le_of_ble_eq_true (by decide +kernel),
    Nat.le_of_ble_eq_true (by decide +kernel), Nat.le_of_ble_eq_true (by decide +kernel),
    Nat.le_of_ble_eq_true (by decide +kernel)⟩

/-- A number whose leading digits are `significand`, as many of them as fit into 64 bits, with `power` more digits after
    them: the product that it is read as is a double if and only if the number is below `reach`. -/
theorem times_lt_limit_iff {significand power number : Nat} (hfits : significand < 2 ^ 64)
    (hfull : 0 < power → 2 ^ 64 ≤ significand * 10 + 9) (hleast : significand * 10 ^ power ≤ number)
    (hless : number < (significand + 1) * 10 ^ power) :
    power ≤ maxPower ∧ times (ofNat significand) (ofNat (10 ^ power)) < limit ↔ number < reach := by
  obtain ⟨k, hk, hreach, hsmall, hbelow, habove, hlarge⟩ := exists_power
  have hten : ∀ {m n : Nat}, m ≤ n → 10 ^ m ≤ 10 ^ n := fun h => Nat.pow_le_pow_right (by decide) h
  have hnext : (10 : Nat) ^ (k + 1) = 10 * 10 ^ k := Nat.pow_succ'
  have hlast : (10 : Nat) ^ (k + 2) = 10 * 10 ^ (k + 1) := Nat.pow_succ'
  have hpositive : 0 < (10 : Nat) ^ k := Nat.pow_pos (by decide)
  rcases Nat.lt_trichotomy power (k + 1) with hfew | rfl | hmany
  · -- few digits after the leading ones
    have hproduct := times_mono (ofNat_mono (Nat.le_of_lt hfits)) (ofNat_mono (hten (Nat.le_of_lt_succ hfew)))
    have hnumber : number < 2 ^ 64 * 10 ^ k :=
      Nat.lt_of_lt_of_le hless (Nat.mul_le_mul hfits (hten (Nat.le_of_lt_succ hfew)))
    exact ⟨fun _ => by omega, fun _ => ⟨by omega, by omega⟩⟩
  · -- the power of `reach`, so it depends on the leading digits
    rcases Nat.lt_or_ge significand 17976931348623156225 with hlt | hge
    · have hproduct := times_mono (ofNat_mono (Nat.le_of_lt_succ hlt)) (Nat.le_refl (ofNat (10 ^ (k + 1))))
      have hnumber := Nat.lt_of_lt_of_le hless (Nat.mul_le_mul_right _ hlt)
      exact ⟨fun _ => by omega, fun _ => ⟨by omega, by omega⟩⟩
    · have hproduct := times_mono (ofNat_mono hge) (Nat.le_refl (ofNat (10 ^ (k + 1))))
      have hnumber := Nat.le_trans (Nat.mul_le_mul_right _ hge) hleast
      exact ⟨fun _ => by omega, fun _ => by omega⟩
  · -- many digits after as many leading ones as there can be
    replace hmany : k + 2 ≤ power := hmany
    have hsignificand : 1844674407370955161 ≤ significand := by
      have := hfull (by omega)
      omega
    have hproduct := times_mono (ofNat_mono hsignificand) (ofNat_mono (hten hmany))
    have hnumber := Nat.le_trans (Nat.mul_le_mul hsignificand (hten hmany)) hleast
    exact ⟨fun _ => by omega, fun _ => by omega⟩

end Double

/-! ### Numerals -/

/-- An integer as it is written: decimal digits behind an optional minus sign, or hexadecimal digits behind `0x` or
    `0X`. -/
inductive Numeral where
  | decimal (negative : Bool) (digits : List Char)
  | hex (upper : Bool) (digits : List Char)

namespace Numeral

/-- The value of a digit, in either case. -/
def digit (c : Char) : Nat :=
  "0123456789abcdef".toList.idxOf c.toLower

/-- The number that digits denote in a base, the last digit being the least. -/
def magnitude (base : Nat) (digits : List Char) : Nat :=
  Nat.ofDigits base (digits.reverse.map digit)

/-- The characters of a numeral. -/
def chars : Numeral → List Char
  | decimal negative digits => if negative then '-' :: digits else digits
  | hex upper digits => '0' :: (if upper then 'X' else 'x') :: digits

/-- The text of a numeral. -/
def text (n : Numeral) : String := String.ofList n.chars

/-- The kind of tree that a numeral is read as. -/
def treeKind : Numeral → TreeKind
  | decimal negative _ => if negative then .negNumber else .number
  | hex _ _ => .hexLiteral

/-- The kind of form that a numeral is read as. -/
def kind (n : Numeral) : FormKind := n.treeKind.toFormKind

/-- The integer that a numeral denotes. -/
def value : Numeral → Int
  | decimal negative digits => if negative then -(magnitude 10 digits : Int) else magnitude 10 digits
  | hex _ digits => magnitude 16 digits

/-- There is a digit, and each is a digit in the base. -/
def IsWellFormed : Numeral → Prop
  | decimal _ digits => digits ≠ [] ∧ ∀ c ∈ digits, c.isDigit = true
  | hex _ digits => digits ≠ [] ∧ ∀ c ∈ digits, isHexDigit c = true

/-- Whether decimal digits start with a zero that could be left out. -/
def hasExtraZero : List Char → Bool
  | '0' :: _ :: _ => true
  | _ => false

/-! ### The value of digits -/

variable {c : Char} {digits : List Char} {base : Nat}

theorem magnitude_cons (base : Nat) (c : Char) (digits : List Char) :
    magnitude base (c :: digits) = digit c * base ^ digits.length + magnitude base digits := by
  have h := Nat.ofDigits_reverse_cons (b := base) (digits.map digit) (digit c)
  rw [List.length_map, ← List.map_reverse, ← List.map_cons, ← List.map_reverse] at h
  rw [magnitude, h, magnitude, Nat.add_comm, Nat.mul_comm]

/-- Digits that are read from left to right. -/
theorem foldl_digit (base start : Nat) (digits : List Char) :
    digits.foldl (fun n c => n * base + digit c) start = start * base ^ digits.length + magnitude base digits := by
  induction digits generalizing start with
  | nil => simp [magnitude]
  | cons c digits ih =>
    rw [List.foldl_cons, ih, magnitude_cons, List.length_cons, Nat.add_mul, Nat.mul_assoc, ← Nat.pow_succ',
      Nat.add_assoc]

theorem magnitude_append (base : Nat) (digits rest : List Char) :
    magnitude base (digits ++ rest) = magnitude base digits * base ^ rest.length + magnitude base rest := by
  have hleft := foldl_digit base 0 (digits ++ rest)
  rw [List.foldl_append, foldl_digit, foldl_digit, Nat.zero_mul, Nat.zero_add, Nat.zero_mul, Nat.zero_add] at hleft
  exact hleft.symm

theorem digit_of_isDigit (h : c.isDigit = true) : digit c = c.toNat - 48 := by
  have hsame := forall_of_small (p := Char.isDigit) (q := fun c => digit c == c.toNat - 48)
    (fun c hc => Nat.lt_of_le_of_lt (Char.isDigit_iff_toNat.mp hc).2 (by decide)) (by decide +kernel) h
  exact beq_iff_eq.mp hsame

theorem hexValue?_of_isHexDigit (h : isHexDigit c = true) : Quoted.hexValue? c = some (digit c) := by
  have hsame := forall_of_small (p := isHexDigit) (q := fun c => Quoted.hexValue? c == some (digit c))
    (fun c hc => toNat_lt_of_isHexDigit hc) (by decide +kernel) h
  exact beq_iff_eq.mp hsame

theorem ofDigits_eq (h : ∀ c ∈ digits, c.isDigit = true) : Literal.ofDigits digits = magnitude 10 digits := by
  have hfold : Literal.ofDigits digits = digits.foldl (fun n c => n * 10 + digit c) 0 :=
    List.foldl_ext _ _ _ fun n c hc => by rw [digit_of_isDigit (h c hc)]
  rw [hfold, foldl_digit, Nat.zero_mul, Nat.zero_add]

theorem digit_le (h : c.isDigit = true) : digit c ≤ 9 := by
  have hnine : c.toNat ≤ 57 := (Char.isDigit_iff_toNat.mp h).2
  rw [digit_of_isDigit h]
  omega

theorem magnitude_lt (h : ∀ c ∈ digits, c.isDigit = true) : magnitude 10 digits < 10 ^ digits.length := by
  induction digits with
  | nil => simp [magnitude]
  | cons c digits ih =>
    have hrest := ih fun d hd => h d (List.mem_cons_of_mem _ hd)
    have hdigit := Nat.mul_le_mul_right (10 ^ digits.length) (digit_le (h c (by simp)))
    rw [magnitude_cons, List.length_cons, Nat.pow_succ']
    omega

/-- The leading digits of a number: as many as fit into 64 bits together. -/
structure LeadingDigits (digits kept left : List Char) : Prop where
  split : digits = kept ++ left
  fits : magnitude 10 kept < 2 ^ 64
  full : ∀ c rest, left = c :: rest → 2 ^ 64 ≤ magnitude 10 (kept ++ [c])

/-- Digits are taken into a significand until the next one does not fit. -/
theorem exists_absorb_eq {start : Nat} (hstart : start < 2 ^ 64) (h : ∀ c ∈ digits, c.isDigit = true) :
    ∃ kept left, digits = kept ++ left ∧
      Literal.absorb start digits = (start * 10 ^ kept.length + magnitude 10 kept, left) ∧
      start * 10 ^ kept.length + magnitude 10 kept < 2 ^ 64 ∧
      ∀ c rest, left = c :: rest → 2 ^ 64 ≤ (start * 10 ^ kept.length + magnitude 10 kept) * 10 + digit c := by
  induction digits generalizing start with
  | nil => exact ⟨[], [], rfl, by simp [Literal.absorb, magnitude], by simpa [magnitude] using hstart, by simp⟩
  | cons c digits ih =>
    have hdigit := digit_of_isDigit (h c (by simp))
    by_cases hnext : start * 10 + digit c < 2 ^ 64
    · obtain ⟨kept, left, rfl, habsorb, hfits, hfull⟩ := ih hnext fun d hd => h d (List.mem_cons_of_mem _ hd)
      have hvalue : (start * 10 + digit c) * 10 ^ kept.length + magnitude 10 kept =
          start * 10 ^ (c :: kept).length + magnitude 10 (c :: kept) := by
        rw [magnitude_cons, List.length_cons, Nat.add_mul, Nat.mul_assoc, ← Nat.pow_succ', Nat.add_assoc]
      rw [hvalue] at habsorb hfits hfull
      refine ⟨c :: kept, left, rfl, ?_, hfits, hfull⟩
      rw [Literal.absorb, ← hdigit]
      exact (if_pos hnext).trans habsorb
    · refine ⟨[], c :: digits, rfl, ?_, by simpa [magnitude] using hstart, ?_⟩
      · rw [Literal.absorb, ← hdigit]
        exact (if_neg hnext).trans (by simp [magnitude])
      · rintro d rest ⟨⟩
        simpa [magnitude] using Nat.not_lt.mp hnext

theorem exists_leadingDigits (h : ∀ c ∈ digits, c.isDigit = true) :
    ∃ kept left, LeadingDigits digits kept left ∧ Literal.absorb 0 digits = (magnitude 10 kept, left) := by
  obtain ⟨kept, left, hsplit, habsorb, hfits, hfull⟩ := exists_absorb_eq (show 0 < 2 ^ 64 by decide) h
  simp only [Nat.zero_mul, Nat.zero_add] at habsorb hfits hfull
  refine ⟨kept, left, ⟨hsplit, hfits, fun c rest hleft => ?_⟩, habsorb⟩
  rw [magnitude_append]
  simpa [magnitude] using hfull c rest hleft

namespace LeadingDigits

variable {kept left : List Char}

/-- A number that fits has all its digits in front. -/
theorem eq_self_of_lt (hleading : LeadingDigits digits kept left) (hlt : magnitude 10 digits < 2 ^ 64) :
    kept = digits ∧ left = [] := by
  cases left with
  | nil => exact ⟨by simpa using hleading.split.symm, rfl⟩
  | cons c rest =>
    have hfull := hleading.full c rest rfl
    have hsplit : digits = kept ++ [c] ++ rest := by simpa using hleading.split
    have hrest : magnitude 10 (kept ++ [c]) ≤ magnitude 10 (kept ++ [c]) * 10 ^ rest.length :=
      Nat.le_mul_of_pos_right _ (Nat.pow_pos (by decide))
    rw [hsplit, magnitude_append] at hlt
    omega

theorem full_of_pos (hleading : LeadingDigits digits kept left) (h : ∀ c ∈ digits, c.isDigit = true)
    (hpos : 0 < left.length) : 2 ^ 64 ≤ magnitude 10 kept * 10 + 9 := by
  obtain ⟨c, rest, rfl⟩ := List.exists_cons_of_length_pos hpos
  have hfull := hleading.full c rest rfl
  have hdigit := digit_le (h c (by simp [hleading.split]))
  rw [magnitude_append] at hfull
  simp only [List.length_singleton, Nat.pow_one, magnitude, List.reverse_singleton, List.map_singleton,
    Nat.ofDigits_singleton] at hfull ⊢
  omega

/-- The number lies between the leading digits and their successor, followed by zeros. -/
theorem bounds (hleading : LeadingDigits digits kept left) (h : ∀ c ∈ digits, c.isDigit = true) :
    magnitude 10 kept * 10 ^ left.length ≤ magnitude 10 digits ∧
      magnitude 10 digits < (magnitude 10 kept + 1) * 10 ^ left.length := by
  have hleft : magnitude 10 left < 10 ^ left.length := magnitude_lt fun c hc => h c (by simp [hleading.split, hc])
  rw [hleading.split, magnitude_append, Nat.add_mul, Nat.one_mul]
  omega

end LeadingDigits

theorem hexDigits?_eq (hne : digits ≠ []) (h : ∀ c ∈ digits, isHexDigit c = true) :
    Literal.hexDigits? digits = some (magnitude 16 digits) := by
  have hfold : ∀ start, digits.foldlM (fun n c => (Quoted.hexValue? c).map (n * 16 + ·)) start =
      some (digits.foldl (fun n c => n * 16 + digit c) start) := by
    clear hne
    induction digits with
    | nil => exact fun _ => rfl
    | cons c digits ih =>
      intro start
      rw [List.foldlM_cons, hexValue?_of_isHexDigit (h c (by simp)), List.foldl_cons]
      exact ih (fun d hd => h d (List.mem_cons_of_mem _ hd)) _
  rw [Literal.hexDigits?, if_neg (by simpa using hne), hfold, foldl_digit, Nat.zero_mul, Nat.zero_add]

/-! ### Reading -/

variable {n : Numeral}

theorem isAtom_of_digits (negative : Bool) (hne : digits ≠ []) (h : ∀ c ∈ digits, c.isDigit = true) :
    Lexeme.isAtom (decimal negative digits).treeKind (decimal negative digits).chars = true := by
  obtain ⟨c, cs, rfl⟩ := List.exists_cons_of_ne_nil hne
  cases negative with
  | true =>
    refine Lexeme.isAtom_cons.mpr ⟨rfl, ?_⟩
    show Lexeme.ofPlain '-' (c :: cs) = _
    rw [Lexeme.ofPlain, if_neg (by decide), if_neg (by decide), if_pos ⟨rfl, by simpa using h c (by simp)⟩]
    exact Digits.unglued_eq h .negNumber
  | false =>
    have hcs : ∀ d ∈ cs, d.isDigit = true := fun d hd => h d (List.mem_cons_of_mem _ hd)
    refine Lexeme.isAtom_cons.mpr ⟨rfl, ?_⟩
    rw [Lexeme.first_of_isDigit (h c (by simp)), Lexeme.ofPlain]
    split
    · rw [Lexeme.ofZero_eq, if_neg]
      · exact Digits.unglued_eq hcs .number
      · rcases cs with _ | ⟨x, _ | ⟨y, cs⟩⟩
        · simp [Lexeme.startsHex]
        · simp [Lexeme.startsHex]
        · have hx := hcs x (by simp)
          simp only [Lexeme.startsHex, Bool.and_eq_true, Bool.or_eq_true, beq_iff_eq, not_and]
          rintro (rfl | rfl) <;> exact absurd hx (by decide)
    · rw [if_pos (h c (by simp))]
      exact Digits.unglued_eq hcs .number

theorem isAtom_of_hexDigits (upper : Bool) (hne : digits ≠ []) (h : ∀ c ∈ digits, isHexDigit c = true) :
    Lexeme.isAtom (hex upper digits).treeKind (hex upper digits).chars = true := by
  obtain ⟨c, cs, rfl⟩ := List.exists_cons_of_ne_nil hne
  refine Lexeme.isAtom_cons.mpr ⟨rfl, ?_⟩
  have hdigits : runLength isHexDigit (c :: cs) = cs.length + 1 := runLength_of_forall h
  rw [Lexeme.first_of_isDigit (by decide), Lexeme.ofPlain, if_pos rfl, Lexeme.ofZero_eq, if_pos]
  · simp only [Lexeme.unglued, List.drop_succ_cons, List.drop_zero, hdigits, List.length_cons]
    rw [Nat.add_comm 1, List.drop_eq_nil_iff.mpr (by simp)]
    rfl
  · cases upper <;> simp [Lexeme.startsHex, h c (by simp)]

/-- A numeral is one word of the language. -/
theorem isAtom_chars (h : n.IsWellFormed) : Lexeme.isAtom n.treeKind n.chars = true := by
  cases n with
  | decimal negative digits => exact isAtom_of_digits negative h.1 h.2
  | hex upper digits => exact isAtom_of_hexDigits upper h.1 h.2

theorem lexeme?_kind (n : Numeral) : n.kind.lexeme? = some (.leaf n.treeKind) := by
  cases n with
  | decimal negative digits => cases negative <;> rfl
  | hex upper digits => rfl

/-- The kinds of numbers. -/
def isNumeric (kind : TreeKind) : Bool :=
  kind == .number || kind == .negNumber || kind == .hexLiteral

/-- Whether a character starts a fraction or an exponent. -/
def isPart (c : Char) : Bool :=
  c == '.' || c == 'e' || c == 'E'

theorem numberLength_eq {cs : List Char} (h : ∀ c ∈ cs, isPart c = false) :
    numberLength cs = runLength Char.isDigit cs := by
  have hfraction : fractionLength (cs.drop (runLength Char.isDigit cs)) = 0 := by
    unfold fractionLength
    split
    · next rest hrest =>
      have hmem : '.' ∈ cs.drop (runLength Char.isDigit cs) := by rw [hrest]; exact List.mem_cons_self
      exact absurd (h '.' (List.mem_of_mem_drop hmem)) (by decide)
    · rfl
  have hexponent : exponentLength (cs.drop (runLength Char.isDigit cs)) = 0 := by
    unfold exponentLength
    split
    · rfl
    · next c rest hrest =>
      have hmem : c ∈ cs.drop (runLength Char.isDigit cs) := by rw [hrest]; exact List.mem_cons_self
      have hc := h c (List.mem_of_mem_drop hmem)
      rw [if_neg]
      rintro (rfl | rfl) <;> exact absurd hc (by decide)
  simp only [numberLength, hfraction, Nat.add_zero, hexponent]

theorem forall_of_runLength_eq {p : Char → Bool} {cs : List Char} (h : runLength p cs = cs.length) :
    ∀ c ∈ cs, p c = true := by
  have hsame : cs.takeWhile p = cs := (List.takeWhile_prefix p).eq_of_length h
  exact List.takeWhile_eq_self_iff.mp hsame

/-- A word that is a number, without fraction and exponent, is a numeral. -/
theorem exists_of_isAtom {kind : TreeKind} {text : List Char} (h : Lexeme.isAtom kind text = true)
    (hkind : isNumeric kind = true) (hpart : kind ≠ .hexLiteral → ∀ c ∈ text, isPart c = false) :
    ∃ n : Numeral, n.IsWellFormed ∧ n.chars = text ∧ n.treeKind = kind := by
  obtain ⟨c, cs, rfl, hk, hfirst⟩ := Lexeme.exists_cons_of_isAtom h
  have hdigits : (∀ d ∈ c :: cs, isPart d = false) → numberLength cs = cs.length → ∀ d ∈ cs, d.isDigit = true :=
    fun hplain hlength => forall_of_runLength_eq
      ((numberLength_eq fun d hd => hplain d (List.mem_cons_of_mem _ hd)).symm.trans hlength)
  rcases Lexeme.first_cases hfirst hk with ⟨rfl, -⟩ | ⟨rfl, -⟩ | ⟨-, hpercent⟩ | ⟨-, hplain⟩
  · cases hkind
  · cases hkind
  · rcases Lexeme.ofPercent_cases hpercent with ⟨rfl, -⟩ | ⟨rfl, -⟩ <;> cases hkind
  rcases Lexeme.ofPlain_cases hplain hk with ⟨rfl, rfl, hx, hlength⟩ | ⟨rfl, hc, hlength⟩ | ⟨rfl, rfl, hhead, hlength⟩ |
    ⟨rfl, -⟩
  · rcases cs with _ | ⟨x, _ | ⟨d, ds⟩⟩
    · simp [Lexeme.startsHex] at hx
    · simp [Lexeme.startsHex] at hx
    · simp only [Lexeme.startsHex, Bool.and_eq_true, Bool.or_eq_true, beq_iff_eq] at hx
      have hrun : runLength isHexDigit (d :: ds) = (d :: ds).length := by
        simp only [List.drop_succ_cons, List.drop_zero, List.length_cons] at hlength ⊢
        omega
      rcases hx.1 with rfl | rfl
      · exact ⟨.hex false (d :: ds), ⟨by simp, forall_of_runLength_eq hrun⟩, rfl, rfl⟩
      · exact ⟨.hex true (d :: ds), ⟨by simp, forall_of_runLength_eq hrun⟩, rfl, rfl⟩
  · refine ⟨.decimal false (c :: cs), ⟨by simp, fun d hd => ?_⟩, rfl, rfl⟩
    rcases List.mem_cons.mp hd with rfl | hd
    · exact hc
    · exact hdigits (hpart (by decide)) hlength d hd
  · refine ⟨.decimal true cs, ⟨?_, hdigits (hpart (by decide)) hlength⟩, rfl, rfl⟩
    rintro rfl
    cases hhead
  · cases hkind

/-! ### Values -/

/-- Whether an integer has 64 bits. -/
def IsSmall (v : Int) : Prop := -2 ^ 63 ≤ v ∧ v < 2 ^ 63

theorem int64?_of_isSmall {v : Int} (h : IsSmall v) : ∃ k : Int64, k.toInt = v ∧ Literal.int64? v = some k := by
  have hrange : Int64.minValue.toInt ≤ v ∧ v ≤ Int64.maxValue.toInt := ⟨h.1, Int.le_of_lt_add_one h.2⟩
  exact ⟨.ofInt v, Int64.toInt_ofInt_of_le hrange.1 h.2, by rw [Literal.int64?, if_pos hrange]⟩

theorem int64?_of_not_isSmall {v : Int} (h : ¬IsSmall v) : Literal.int64? v = none := by
  rw [Literal.int64?, if_neg]
  exact fun hrange => h ⟨hrange.1, Int.lt_add_one_of_le hrange.2⟩

theorem toList_text (n : Numeral) : n.text.toList = n.chars := String.toList_ofList

theorem takeWhole?_of_hasExtraZero (h : hasExtraZero digits = true) (hd : ∀ c ∈ digits, c.isDigit = true) :
    Literal.takeWhole? digits = none := by
  rw [Literal.takeWhole?, List.takeWhile_eq_self_iff.mpr hd]
  unfold hasExtraZero at h
  split at h
  · rfl
  · cases h

theorem digits_of_isWellFormed {negative : Bool} (h : (decimal negative digits).IsWellFormed)
    (hzero : hasExtraZero digits = false) : Digits digits where
  ne_nil := h.1
  isDigit := h.2
  zero hhead := by
    match digits with
    | ['0'] => rfl
    | '0' :: _ :: _ => cases hzero
    | [] => cases hhead
    | [c] => rw [Option.some.inj hhead]

theorem trimJson_chars {negative : Bool} (h : ∀ c ∈ digits, c.isDigit = true) :
    Quoted.trimJson (decimal negative digits).chars = (decimal negative digits).chars := by
  refine trimJson_of_forall fun c hc => ?_
  cases negative with
  | true =>
    rcases List.mem_cons.mp hc with rfl | hc
    · decide
    · exact isJsonBlank_of_isDigit (h c hc)
  | false => exact isJsonBlank_of_isDigit (h c hc)

theorem takeSign_chars {negative : Bool} (h : ∀ c ∈ digits, c.isDigit = true) :
    Literal.takeSign (decimal negative digits).chars = (negative, digits) := by
  cases negative with
  | true => rfl
  | false =>
    show Literal.takeSign digits = _
    cases digits with
    | nil => rfl
    | cons c cs =>
      have hminus : c ≠ '-' := by
        rintro rfl
        exact absurd (h '-' (by simp)) (by decide)
      simp [Literal.takeSign, hminus]

variable {negative : Bool}

theorem number?_of_hasExtraZero (h : (decimal negative digits).IsWellFormed) (hzero : hasExtraZero digits = true) :
    Literal.number? (decimal negative digits).text = none := by
  simp only [Literal.number?, toList_text, trimJson_chars h.2, takeSign_chars h.2,
    takeWhole?_of_hasExtraZero hzero h.2]
  rfl

theorem number?_of_isWellFormed (h : (decimal negative digits).IsWellFormed) (hzero : hasExtraZero digits = false) :
    Literal.number? (decimal negative digits).text = Literal.ofWhole? negative digits := by
  simp only [Literal.number?, toList_text, trimJson_chars h.2, takeSign_chars h.2,
    (digits_of_isWellFormed h hzero).takeWhole?_eq]
  rfl

/-- A decimal numeral other than `-0` that denotes an integer of 64 bits is that integer. -/
theorem number?_of_isSmall (h : (decimal negative digits).IsWellFormed) (hzero : hasExtraZero digits = false)
    (hsign : ¬(negative = true ∧ magnitude 10 digits = 0)) (hsmall : IsSmall (decimal negative digits).value) :
    ∃ k : Int64, k.toInt = (decimal negative digits).value ∧
      Literal.number? (decimal negative digits).text = some (.int k) := by
  obtain ⟨k, hk, hint⟩ := int64?_of_isSmall hsmall
  rw [value] at hint
  refine ⟨k, hk, ?_⟩
  rw [number?_of_isWellFormed h hzero]
  simp only [Literal.ofWhole?, ofDigits_eq h.2, hint]
  rw [if_neg hsign]

/-- Any other decimal numeral is read as a double. -/
theorem number?_of_not_isSmall (h : (decimal negative digits).IsWellFormed) (hzero : hasExtraZero digits = false)
    (hlarge : ¬IsSmall (decimal negative digits).value) :
    ∃ kept left, LeadingDigits digits kept left ∧ Literal.number? (decimal negative digits).text =
      if magnitude 10 digits < Double.reach then
        some (.double ⟨negative, Double.times (Double.ofNat (magnitude 10 kept)) (Double.ofNat (10 ^ left.length))⟩)
      else none := by
  have hint := int64?_of_not_isSmall hlarge
  rw [value] at hint
  have hpos : 0 < magnitude 10 digits := by
    rw [value, IsSmall] at hlarge
    by_contra hle
    rw [Nat.eq_zero_of_not_pos hle] at hlarge
    exact hlarge (by cases negative <;> decide)
  obtain ⟨kept, left, hleading, habsorb⟩ := exists_leadingDigits h.2
  obtain ⟨hleast, hless⟩ := hleading.bounds h.2
  have hkept : 0 < magnitude 10 kept := by
    rcases Nat.eq_zero_or_pos left.length with hnone | hmore
    · have hall := hleading.split
      rw [List.length_eq_zero_iff.mp hnone, List.append_nil] at hall
      exact hall ▸ hpos
    · have := hleading.full_of_pos h.2 hmore
      omega
  have hreach := Double.times_lt_limit_iff hleading.fits (hleading.full_of_pos h.2) hleast hless
  have hdouble : Literal.toDouble? negative digits [] 0 =
      Double.ofParts? negative (magnitude 10 kept) (left.length : Int) := by
    simp [Literal.toDouble?, habsorb, Literal.absorb]
  refine ⟨kept, left, hleading, ?_⟩
  rw [number?_of_isWellFormed h hzero]
  simp only [Literal.ofWhole?, ofDigits_eq h.2, hint, hdouble, Double.ofParts?_natCast negative hkept, hreach]
  rw [if_neg (by omega)]
  split <;> rfl

theorem hex?_text {upper : Bool} (h : (hex upper digits).IsWellFormed) :
    Literal.hex? (hex upper digits).text = Literal.int64? (magnitude 16 digits) := by
  have hbody : Literal.hexBody? digits = Literal.int64? (magnitude 16 digits) := by
    unfold Literal.hexBody?
    split
    · exact absurd (h.2 '-' (by simp)) (by decide)
    · exact absurd (h.2 '+' (by simp)) (by decide)
    · rw [hexDigits?_eq h.1 h.2, Option.bind_some]
  rw [Literal.hex?, toList_text, ← hbody]
  cases upper <;> rfl

theorem toString_toInt (k : Int64) : toString k.toInt = printInt k := by
  simp only [printInt]
  generalize k.toInt = i
  cases i with
  | ofNat m => exact (if_neg (Int.not_lt.mpr (Int.natCast_nonneg m))).symm
  | negSucc m => exact (if_pos (Int.negSucc_lt_zero m)).symm

/-- The decimal digits of a number are those of a numeral. -/
theorem isWellFormed_toDigits (negative : Bool) (n : Nat) :
    (decimal negative (Nat.toDigits 10 n)).IsWellFormed ∧ hasExtraZero (Nat.toDigits 10 n) = false ∧
      magnitude 10 (Nat.toDigits 10 n) = n := by
  have hdigits := digits_toDigits n
  refine ⟨⟨hdigits.ne_nil, hdigits.isDigit⟩, ?_, ?_⟩
  · unfold hasExtraZero
    split
    · next heq => cases heq.symm.trans (hdigits.zero (by rw [heq]; rfl))
    · rfl
  · rw [← ofDigits_eq hdigits.isDigit, ofDigits_toDigits]

/-- The decimal text of an integer is a numeral. -/
theorem exists_text_eq (k : Int64) : ∃ digits, (decimal (k.toInt < 0) digits).IsWellFormed ∧
    hasExtraZero digits = false ∧ magnitude 10 digits = k.toInt.natAbs ∧
    (decimal (k.toInt < 0) digits).text = toString k.toInt := by
  obtain ⟨hwell, hzero, hmagnitude⟩ := isWellFormed_toDigits (k.toInt < 0) k.toInt.natAbs
  refine ⟨Nat.toDigits 10 k.toInt.natAbs, hwell, hzero, hmagnitude, ?_⟩
  rw [toString_toInt, text, chars, ← String.ofList_toList (s := printInt k), toList_printInt]
  simp only [decide_eq_true_eq]

end Numeral

/-! ### Sources -/

namespace Document

/-- A source that is one word is read as a document with this word. -/
theorem read_word {kind : FormKind} {tree : TreeKind} {text : String} (hk : kind.lexeme? = some (.leaf tree))
    (ha : Lexeme.isAtom tree text.toList = true) (number : Nat) :
    (read number text : Document Value).errors = [] ∧ ∃ node, (read number text : Document Value).root.children = [node] ∧
      node.kind = kind ∧ node.text = text := by
  obtain ⟨form, rfl, rfl, hchildren⟩ : ∃ form : Code, form.kind = kind ∧ form.text = text ∧ form.children = [] :=
    ⟨⟨.read 0 [], kind, [], none, .withText text⟩, rfl, rfl, rfl⟩
  have hword : form.kind.isWord = true := FormKind.isWord_iff.mpr ⟨tree, hk⟩
  have hwritten : ∀ part ∈ [form], part.all Form.isWritten = true := by
    simp only [List.mem_singleton, forall_eq]
    refine Form.all_iff.mpr ⟨?_, by simp [hchildren]⟩
    simp only [Form.isWritten, hk, hchildren]
    exact ha
  obtain ⟨herrors, hshape⟩ := read_printAll hwritten number
  rw [Form.printAll, Form.printAll, joinTexts, Form.print_of_isWord hword] at herrors hshape
  obtain ⟨-, -, hparts⟩ := Form.of_shape_eq hshape
  obtain ⟨node, hnode, hsame⟩ := List.map_eq_singleton_iff.mp hparts
  have hword' : node.shape = .node form.kind (some form.text) (form.children.map Form.shape) := by
    rw [hsame, Form.shape_eq, hword, if_pos rfl]
  obtain ⟨hkind, htext, -⟩ := Form.of_shape_eq hword'
  exact ⟨herrors, node, hnode, hkind, (Option.some.inj (htext hword)).symm⟩

end Document

namespace Interpreter

/-- The store after a source has been read that changed nothing else. -/
def afterReading (s : Store) : Store := { s with documents := s.documents + 1 }

/-- A source that is one literal has the value of the literal, or is refused, where `do` means the special form. -/
theorem evalSource_literal {i : Interpreter} {s : Store} {identity : Nat}
    (hdo : s.get i.scope "do" = .ok (.function identity (.special .sequence))) (hlevels : 3 ≤ i.levels)
    {source : String} {node : Code} (herrors : (Document.read s.documents source : Document Value).errors = [])
    (hchildren : (Document.read s.documents source : Document Value).root.children = [node])
    (hliteral : node.isLiteral = true) :
    (∀ v, node.literal? = some v → evalSource i source s = .ok v (afterReading s)) ∧
    (node.literal? = none → ∃ place, evalSource i source s =
      .error (.failed ⟨.badLiteral node.text, some place⟩) (afterReading s)) := by
  have hkind := Document.kind_root (α := Value) s.documents source
  rw [evalSource_of_errors_eq_nil i herrors]
  obtain ⟨levels, hcount⟩ := Nat.exists_eq_add_of_le' hlevels
  replace hdo : (afterReading s).get i.scope "do" = .ok (.function identity (.special .sequence)) := hdo
  have hrun : i.evaluate (Document.read s.documents source).root (afterReading s) =
      Eval.through (Document.read s.documents source).root (Eval.attributed (Document.read s.documents source).root
        (Eval.run i.host (levels + 1) (.evaluate node i.scope))) (afterReading s) := by
    show Eval.run i.host i.levels (.evaluate _ i.scope) (afterReading s) = _
    rw [hcount, Eval.run_evaluate_document hkind hdo, Eval.run_sequence_document hkind, hchildren]
    rfl
  have hvalue := Eval.run_evaluate_literal hliteral i.host levels i.scope (afterReading s)
  show (∀ v, _ → i.evaluate _ (afterReading s) = _) ∧ (_ → ∃ place, i.evaluate _ (afterReading s) = _)
  rw [hrun]
  refine ⟨fun v hv => ?_, fun hnone => ?_⟩
  · rw [hv] at hvalue
    exact Eval.mapError_ok (Eval.mapError_ok hvalue)
  · rw [hnone] at hvalue
    unfold Eval.through Eval.attributed Eval.mapError
    rw [hvalue]
    exact ⟨_, rfl⟩

/-- The text is read without errors as a document with one word of this kind. -/
def ReadsAs (number : Nat) (text : String) (kind : FormKind) : Prop :=
  (Document.read number text : Document Value).errors = [] ∧
    ∃ node, (Document.read number text : Document Value).root.children = [node] ∧ node.kind = kind ∧ node.text = text

/-- The source has a value, and nothing else happens. -/
def Gives (i : Interpreter) (s : Store) (source : String) (v : Value) : Prop :=
  evalSource i source s = .ok v (afterReading s)

/-- The source is refused as a literal that stands for nothing, and nothing else happens. -/
def Refuses (i : Interpreter) (s : Store) (source : String) : Prop :=
  ∃ place, evalSource i source s = .error (.failed ⟨.badLiteral source, some place⟩) (afterReading s)

section Numerals

variable {i : Interpreter} {s : Store} {identity : Nat} {n : Numeral} {negative upper : Bool} {digits : List Char}

theorem readsAs_numeral (h : n.IsWellFormed) (number : Nat) : ReadsAs number n.text n.kind :=
  Document.read_word (Numeral.lexeme?_kind n) (by rw [Numeral.toList_text]; exact Numeral.isAtom_chars h) number

theorem exists_numeral_of_readsAs {number : Nat} {source : String} {kind : TreeKind}
    (h : ReadsAs number source kind.toFormKind) (hnumeric : Numeral.isNumeric kind = true)
    (hpart : kind ≠ .hexLiteral → ∀ c ∈ source.toList, Numeral.isPart c = false) :
    ∃ n : Numeral, n.IsWellFormed ∧ n.text = source ∧ n.treeKind = kind := by
  obtain ⟨-, node, hchildren, hkind, rfl⟩ := h
  have hword : node.kind.lexeme? = some (.leaf kind) := by
    rw [hkind]
    cases kind <;> first | rfl | cases hnumeric
  have hwithin : node.Within (Document.read number node.text).root := .of_mem (by rw [hchildren]; simp)
  obtain ⟨n, hn, hchars, hn'⟩ := Numeral.exists_of_isAtom (Document.isAtom_of_within hwithin hword) hnumeric hpart
  exact ⟨n, hn, by rw [Numeral.text, hchars, String.ofList_toList], hn'⟩

/-- What the text of a numeral comes to, told by the value of its literal. -/
theorem evalSource_of_literal? (hdo : s.get i.scope "do" = .ok (.function identity (.special .sequence)))
    (hlevels : 3 ≤ i.levels) (h : n.IsWellFormed) :
    ∃ node : Code, node.kind = n.kind ∧ node.text = n.text ∧
      (∀ v, node.literal? = some v → Gives i s n.text v) ∧ (node.literal? = none → Refuses i s n.text) := by
  obtain ⟨herrors, node, hchildren, hkind, htext⟩ := readsAs_numeral h s.documents
  have hliteral : node.isLiteral = true := by
    rw [Form.isLiteral, hkind]
    cases n with
    | decimal negative digits => cases negative <;> rfl
    | hex upper digits => rfl
  obtain ⟨hgives, hrefuses⟩ := evalSource_literal hdo hlevels herrors hchildren hliteral
  rw [htext] at hrefuses
  exact ⟨node, hkind, htext, hgives, hrefuses⟩

theorem decimal_outcome (hdo : s.get i.scope "do" = .ok (.function identity (.special .sequence)))
    (hlevels : 3 ≤ i.levels) (h : (Numeral.decimal negative digits).IsWellFormed) :
    let n := Numeral.decimal negative digits
    (∀ v, Literal.number? n.text = some v → Gives i s n.text (.ofNumber v)) ∧
    (Literal.number? n.text = none → Refuses i s n.text) := by
  intro n
  obtain ⟨node, hkind, htext, hgives, hrefuses⟩ := evalSource_of_literal? hdo hlevels h
  have hvalue : node.literal? = (Literal.number? n.text).map .ofNumber := by
    rw [Form.literal?, hkind, htext]
    cases negative <;> rfl
  rw [hvalue] at hgives hrefuses
  exact ⟨fun v hv => hgives _ (by rw [hv]; rfl), fun hnone => hrefuses (by rw [hnone]; rfl)⟩

theorem hex_outcome (hdo : s.get i.scope "do" = .ok (.function identity (.special .sequence)))
    (hlevels : 3 ≤ i.levels) (h : (Numeral.hex upper digits).IsWellFormed) :
    let n := Numeral.hex upper digits
    (∀ k, Literal.int64? n.value = some k → Gives i s n.text (.int k)) ∧
    (Literal.int64? n.value = none → Refuses i s n.text) := by
  intro n
  obtain ⟨node, hkind, htext, hgives, hrefuses⟩ := evalSource_of_literal? hdo hlevels h
  have hvalue : node.literal? = (Literal.int64? n.value).map .int := by
    rw [Form.literal?, hkind, htext]
    show (Literal.hex? n.text).map Value.int = _
    rw [Numeral.hex?_text h]
    rfl
  rw [hvalue] at hgives hrefuses
  exact ⟨fun k hk => hgives _ (by rw [hk]; rfl), fun hnone => hrefuses (by rw [hnone]; rfl)⟩

theorem printed_outcome (hdo : s.get i.scope "do" = .ok (.function identity (.special .sequence)))
    (hlevels : 3 ≤ i.levels) (k : Int64) :
    ReadsAs s.documents (toString k.toInt) (if k.toInt < 0 then .negNumber else .number) ∧
    Gives i s (toString k.toInt) (.int k) := by
  obtain ⟨digits, h, hzero, hmagnitude, htext⟩ := Numeral.exists_text_eq k
  have hvalue : (Numeral.decimal (k.toInt < 0) digits).value = k.toInt := by
    simp only [Numeral.value, hmagnitude, decide_eq_true_eq]
    split <;> omega
  have hsmall : Numeral.IsSmall (Numeral.decimal (k.toInt < 0) digits).value := by
    rw [hvalue]
    exact ⟨Int64.le_toInt k, Int64.toInt_lt k⟩
  have hsign : ¬(decide (k.toInt < 0) = true ∧ Numeral.magnitude 10 digits = 0) := by
    rw [hmagnitude, decide_eq_true_eq]
    omega
  obtain ⟨m, hm, hnumber⟩ := Numeral.number?_of_isSmall h hzero hsign hsmall
  obtain rfl : m = k := Int64.toInt_inj.mp (hm.trans hvalue)
  have hgives := (decimal_outcome hdo hlevels h).1 _ hnumber
  have hreads := readsAs_numeral h s.documents
  have hkind : (Numeral.decimal (m.toInt < 0) digits).kind = if m.toInt < 0 then .negNumber else .number := by
    simp only [Numeral.kind, Numeral.treeKind, decide_eq_true_eq]
    split <;> rfl
  rw [htext] at hgives hreads
  exact ⟨hkind ▸ hreads, hgives⟩

/-- Integer literals as sources of their own, where `do` means the special form. A clean source that is one number
    without fraction and exponent is a numeral, and every numeral is read as such. A decimal numeral with a superfluous
    zero is refused. Any other but `-0` gives the integer it denotes if that has 64 bits, and otherwise the product of
    its leading digits and a power of ten as a double, or is refused if it is out of reach. A hexadecimal numeral gives
    the integer it denotes, or is refused. The decimal text of an integer of 64 bits gives that integer. -/
theorem evalSource_numeral (hdo : s.get i.scope "do" = .ok (.function identity (.special .sequence)))
    (hlevels : 3 ≤ i.levels) :
    (∀ (source : String) (kind : TreeKind), ReadsAs s.documents source kind.toFormKind → Numeral.isNumeric kind = true →
      (kind ≠ .hexLiteral → ∀ c ∈ source.toList, Numeral.isPart c = false) →
      ∃ n : Numeral, n.IsWellFormed ∧ n.text = source ∧ n.treeKind = kind) ∧
    (∀ n : Numeral, n.IsWellFormed → ReadsAs s.documents n.text n.kind) ∧
    (∀ negative digits, (Numeral.decimal negative digits).IsWellFormed → Numeral.hasExtraZero digits = true →
      Refuses i s (Numeral.decimal negative digits).text) ∧
    (∀ negative digits, (Numeral.decimal negative digits).IsWellFormed → Numeral.hasExtraZero digits = false →
      ¬(negative = true ∧ Numeral.magnitude 10 digits = 0) →
      let n := Numeral.decimal negative digits
      (Numeral.IsSmall n.value → ∃ k : Int64, k.toInt = n.value ∧ Gives i s n.text (.int k)) ∧
      (¬Numeral.IsSmall n.value → Numeral.magnitude 10 digits < Double.reach →
        ∃ kept left, Numeral.LeadingDigits digits kept left ∧ Gives i s n.text (.double ⟨negative,
          Double.times (Double.ofNat (Numeral.magnitude 10 kept)) (Double.ofNat (10 ^ left.length))⟩)) ∧
      (¬Numeral.IsSmall n.value → Double.reach ≤ Numeral.magnitude 10 digits → Refuses i s n.text)) ∧
    (∀ upper digits, (Numeral.hex upper digits).IsWellFormed →
      let n := Numeral.hex upper digits
      (Numeral.magnitude 16 digits < 2 ^ 63 → ∃ k : Int64, k.toInt = Numeral.magnitude 16 digits ∧
        Gives i s n.text (.int k)) ∧
      (2 ^ 63 ≤ Numeral.magnitude 16 digits → Refuses i s n.text)) ∧
    ∀ k : Int64, ReadsAs s.documents (toString k.toInt) (if k.toInt < 0 then .negNumber else .number) ∧
      Gives i s (toString k.toInt) (.int k) := by
  refine ⟨?_, fun n h => readsAs_numeral h s.documents, ?_, ?_, ?_, ?_⟩
  · intro source kind hreads hnumeric hpart
    exact exists_numeral_of_readsAs hreads hnumeric hpart
  · intro negative digits h hzero
    exact (decimal_outcome hdo hlevels h).2 (Numeral.number?_of_hasExtraZero h hzero)
  · intro negative digits h hzero hsign n
    obtain ⟨hgives, hrefuses⟩ := decimal_outcome hdo hlevels h
    refine ⟨fun hsmall => ?_, fun hlarge hreach => ?_, fun hlarge hreach => hrefuses ?_⟩
    · obtain ⟨k, hk, hvalue⟩ := Numeral.number?_of_isSmall h hzero hsign hsmall
      exact ⟨k, hk, hgives _ hvalue⟩
    · obtain ⟨kept, left, hleading, hrounded⟩ := Numeral.number?_of_not_isSmall h hzero hlarge
      rw [if_pos hreach] at hrounded
      exact ⟨kept, left, hleading, hgives _ hrounded⟩
    · obtain ⟨_, _, _, hrefused⟩ := Numeral.number?_of_not_isSmall h hzero hlarge
      rw [hrefused, if_neg (Nat.not_lt.mpr hreach)]
  · intro upper digits h n
    obtain ⟨hgives, hrefuses⟩ := hex_outcome hdo hlevels h
    refine ⟨fun hsmall => ?_, fun hlarge => hrefuses (Numeral.int64?_of_not_isSmall ?_)⟩
    · obtain ⟨k, hk, hvalue⟩ := Numeral.int64?_of_isSmall (v := n.value) ⟨by simp only [n, Numeral.value]; omega, by
        simp only [n, Numeral.value]
        omega⟩
      exact ⟨k, hk, hgives _ hvalue⟩
    · rintro ⟨-, hless⟩
      simp only [Numeral.value] at hless
      omega
  · exact fun k => printed_outcome hdo hlevels k

/-- Literals at the limits of 64 bits, with the interpreter of the command line. -/
theorem evalSource_numeral_limits :
    Gives freshCommand.1 freshCommand.2 "-9223372036854775808" (.int Int64.minValue) ∧
    Gives freshCommand.1 freshCommand.2 "9223372036854775807" (.int Int64.maxValue) ∧
    Gives freshCommand.1 freshCommand.2 "9223372036854775808" (.double ⟨false, 2 ^ 63 * Double.one⟩) ∧
    Refuses freshCommand.1 freshCommand.2 "09223372036854775807" ∧
    (∃ k : Int64, k.toInt = 9223372036854775807 ∧
      Gives freshCommand.1 freshCommand.2 "0X7fffFFFFffffFFFF" (.int k)) ∧
    Refuses freshCommand.1 freshCommand.2 "0x8000000000000000" := by
  have hcheck : Eval.meansDo freshCommand.2 freshCommand.1.scope = true ∧ 3 ≤ freshCommand.1.levels ∧
      Numeral.magnitude 10 "9223372036854775808".toList = 9223372036854775808 ∧
      Nat.ble Double.reach 9223372036854775808 = false ∧
      Double.times (Double.ofNat 9223372036854775808) (Double.ofNat 1) = 2 ^ 63 * Double.one ∧
      Numeral.magnitude 16 "7fffFFFFffffFFFF".toList = 9223372036854775807 ∧
      Numeral.magnitude 16 "8000000000000000".toList = 9223372036854775808 := by decide +kernel
  obtain ⟨hdo, hlevels, hlarge, hreach, hround, hgreatest, hnext⟩ := hcheck
  obtain ⟨identity, hdo⟩ := Eval.exists_of_meansDo hdo
  obtain ⟨-, -, hzero, hdecimal, hhex, hdigits⟩ := evalSource_numeral hdo hlevels
  have hdouble := (hdecimal false "9223372036854775808".toList ⟨by decide, List.all_eq_true.mp (by decide)⟩ rfl
    (by simp)).2.1
  have hrefused := hzero false "09223372036854775807".toList ⟨by decide, List.all_eq_true.mp (by decide)⟩ rfl
  have hgives := (hhex true "7fffFFFFffffFFFF".toList ⟨by decide, List.all_eq_true.mp (by decide)⟩).1
  have hbeyond := (hhex false "8000000000000000".toList ⟨by decide, List.all_eq_true.mp (by decide)⟩).2
  rw [hlarge] at hdouble
  rw [hgreatest] at hgives
  rw [hnext] at hbeyond
  have hwide : ¬Numeral.IsSmall (Numeral.decimal false "9223372036854775808".toList).value := by
    rw [Numeral.value, hlarge]
    rintro ⟨-, hless⟩
    exact absurd hless (by decide)
  have hwithin : 9223372036854775808 < Double.reach :=
    Nat.not_le.mp fun hle => by rw [Nat.ble_eq_true_of_le hle] at hreach; cases hreach
  obtain ⟨kept, left, hleading, hdouble⟩ := hdouble hwide hwithin
  obtain ⟨rfl, rfl⟩ := hleading.eq_self_of_lt (by rw [hlarge]; decide)
  rw [hlarge, List.length_nil, Nat.pow_zero, hround] at hdouble
  exact ⟨(hdigits Int64.minValue).2, (hdigits Int64.maxValue).2, hdouble, hrefused, hgives (by decide),
    hbeyond (by decide)⟩

/-- The largest double is a whole number. Its decimal digits are refused: they do not stand for a number beyond the
    doubles, but the product that they are read as is beyond them. -/
theorem refuses_largest :
    let largest := (Nat.pow 2 53 - 1) * Nat.pow 2 971
    let n := Numeral.decimal false (Nat.toDigits 10 largest)
    n.IsWellFormed ∧ Numeral.hasExtraZero (Nat.toDigits 10 largest) = false ∧
    Numeral.magnitude 10 (Nat.toDigits 10 largest) = largest ∧
    Double.ofNat largest = largest * Double.one ∧ largest * Double.one < Double.limit ∧
    Refuses freshCommand.1 freshCommand.2 n.text ∧ ∀ d, ¬Gives freshCommand.1 freshCommand.2 n.text (.double d) := by
  intro largest n
  have hcheck : Eval.meansDo freshCommand.2 freshCommand.1.scope = true ∧ 3 ≤ freshCommand.1.levels ∧
      Double.ofNat largest = largest * Double.one ∧ Nat.ble (largest * Double.one + 1) Double.limit = true ∧
      Nat.ble Double.reach largest = true ∧ Nat.ble (Nat.pow 2 63) largest = true := by decide +kernel
  obtain ⟨hdo, hlevels, hexact, hless, hreach, hlarge⟩ := hcheck
  obtain ⟨identity, hdo⟩ := Eval.exists_of_meansDo hdo
  obtain ⟨hwell, hzero, hmagnitude⟩ := Numeral.isWellFormed_toDigits false largest
  have hwide : ¬Numeral.IsSmall n.value := by
    have hpower : (2 : Int) ^ 63 ≤ (largest : Int) := Int.ofNat_le.mpr (Nat.le_of_ble_eq_true hlarge)
    rintro ⟨-, hsmall⟩
    rw [show n.value = (largest : Int) from congrArg Nat.cast hmagnitude] at hsmall
    exact Int.not_le.mpr hsmall hpower
  obtain ⟨_, _, _, hnumber⟩ := Numeral.number?_of_not_isSmall hwell hzero hwide
  rw [hmagnitude, if_neg (Nat.not_lt.mpr (Nat.le_of_ble_eq_true hreach))] at hnumber
  have hrefuses := (decimal_outcome hdo hlevels hwell).2 hnumber
  refine ⟨hwell, hzero, hmagnitude, hexact, Nat.le_of_ble_eq_true hless, hrefuses, fun d hgives => ?_⟩
  obtain ⟨place, herror⟩ := hrefuses
  cases hgives.symm.trans herror

end Numerals

end Interpreter

end Lisplet
