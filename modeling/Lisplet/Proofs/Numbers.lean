import Mathlib.Algebra.Group.Nat.Defs
import Lisplet.Proofs.Equality

/-! # Sets of numbers

An integer equals the double nearest to it. Up to 2⁵³ every integer has a double of its own, but beyond it some share
one: 2⁵³ and 2⁵³ + 1 do. So two items of a set of integers may find the same float in another set, and something else in
that set is left over without a counterpart. Then the first set equals the second, and the second does not equal the
first. This is the only way in which the order of two sets of numbers can matter. -/

namespace Lisplet

/-! ### Integers as doubles -/

namespace Double

theorem sameNumber_self (a : Double) : a.sameNumber a = true :=
  sameNumber_iff.mpr ⟨rfl, .inr rfl⟩

theorem sameNumber_trans {a b c : Double} (hab : a.sameNumber b = true) (hbc : b.sameNumber c = true) :
    a.sameNumber c = true := by
  rw [sameNumber_iff] at hab hbc ⊢
  refine ⟨hab.1.trans hbc.1, ?_⟩
  rcases hab.2 with hzero | hsign
  · exact .inl hzero
  · exact hbc.2.imp (hab.1.trans ·) hsign.trans

theorem roundDiv_mul {den : Nat} (hden : 0 < den) (q : Nat) : roundDiv (q * den) den = q := by
  rw [roundDiv, Nat.mul_mod_left, Nat.mul_div_cancel q hden, if_pos (by simpa using hden)]

/-- A multiple of a power of two with at most 53 binary digits before that power is kept when it is rounded. -/
theorem roundUnits_mul_two_pow {k : Nat} (h : k < 2 ^ 53) (e : Nat) : roundUnits (k * 2 ^ e) 1 = k * 2 ^ e := by
  have hspacing : spacing (k * 2 ^ e) ≤ e := by
    unfold spacing bitLength
    split
    · omega
    · next hne =>
      have hlog : (k * 2 ^ e).log2 < 53 + e := (Nat.log2_lt hne).mpr (by
        rw [Nat.pow_add]
        exact Nat.mul_lt_mul_of_pos_right h (Nat.two_pow_pos e))
      omega
  have hsplit : k * 2 ^ e = k * 2 ^ (e - spacing (k * 2 ^ e)) * 2 ^ spacing (k * 2 ^ e) := by
    rw [Nat.mul_assoc, ← Nat.pow_add, Nat.sub_add_cancel hspacing]
  rw [roundUnits, Nat.div_one, Nat.one_mul, Nat.pow_eq]
  generalize spacing (k * 2 ^ e) = step at hsplit ⊢
  rw [hsplit, roundDiv_mul (Nat.two_pow_pos step)]

theorem exists_one_eq : ∃ e, one = 2 ^ e := by
  unfold one
  generalize 1074 = e
  exact ⟨e, Nat.pow_eq⟩

theorem one_pos : 0 < one := by
  obtain ⟨e, he⟩ := exists_one_eq
  exact he ▸ Nat.two_pow_pos e

/-- Whole numbers up to 2⁵³ are doubles. -/
theorem ofNat_eq {n : Nat} (h : n ≤ 2 ^ 53) : ofNat n = n * one := by
  obtain ⟨e, he⟩ := exists_one_eq
  rw [ofNat, he]
  rcases Nat.lt_or_eq_of_le h with hlt | heq
  · exact roundUnits_mul_two_pow hlt e
  · rw [heq, ← Nat.pow_add, ← Nat.one_mul (2 ^ (53 + e))]
    exact roundUnits_mul_two_pow (by decide) _

theorem units_ofInt {n : Int} (h : n.natAbs ≤ 2 ^ 53) : (ofInt n).units = n.natAbs * one := ofNat_eq h

/-- Different integers with the same double are not both that small. -/
theorem eq_of_sameNumber_ofInt {m n : Int} (hm : m.natAbs ≤ 2 ^ 53) (hn : n.natAbs ≤ 2 ^ 53)
    (h : (ofInt m).sameNumber (ofInt n) = true) : m = n := by
  obtain ⟨hunits, hsign⟩ := sameNumber_iff.mp h
  rw [units_ofInt hm] at hunits hsign
  rw [units_ofInt hn] at hunits
  have habs : m.natAbs = n.natAbs := Nat.eq_of_mul_eq_mul_right one_pos hunits
  rcases hsign with hzero | hsign
  · have hm0 : m.natAbs = 0 := (Nat.mul_eq_zero.mp hzero).resolve_right (Nat.ne_of_gt one_pos)
    omega
  · have hneg : (m < 0) ↔ (n < 0) := by simpa [ofInt] using hsign
    omega

end Double

/-! ### Equality of numbers -/

namespace Value

variable {x y a b : Value}

/-- Whether a value is an integer or a float. -/
def isNumber : Value → Bool
  | int _ | double _ => true
  | _ => false

/-- The double nearest to a number. -/
def nearest : Value → Double
  | int n => .ofInt n.toInt
  | double d => d
  | _ => ⟨false, 0⟩

/-- Numbers are equal if their doubles are; if both are integers they have to be the same. -/
theorem equals_numbers_iff (hx : x.isNumber = true) (hy : y.isNumber = true) :
    x.equals y = true ↔ x.nearest.sameNumber y.nearest = true ∧ ∀ m n, x = int m → y = int n → m = n := by
  rw [equals, same.eq_def]
  cases x with
  | int m =>
    cases y with
    | int n =>
      simp only [beq_iff_eq, int.injEq]
      refine ⟨?_, fun h => h.2 m n rfl rfl⟩
      rintro rfl
      exact ⟨Double.sameNumber_self _, fun _ _ hm hn => hm.symm.trans hn⟩
    | double e => simp [nearest]
    | _ => cases hy
  | double d =>
    cases y with
    | int n => simp [nearest, Double.sameNumber_comm d]
    | double e => simp [nearest]
    | _ => cases hy
  | _ => cases hx

theorem equals_numbers_comm (hx : x.isNumber = true) (hy : y.isNumber = true) :
    x.equals y = true ↔ y.equals x = true := by
  rw [equals_numbers_iff hx hy, equals_numbers_iff hy hx, Double.sameNumber_comm]
  exact and_congr_right fun _ => ⟨fun h m n hm hn => (h n m hn hm).symm, fun h m n hm hn => (h n m hn hm).symm⟩

/-- Different numbers that equal the same number are integers, and that number is the double of both. -/
theorem exists_shared_double (ha : a.isNumber = true) (hb : b.isNumber = true) (hy : y.isNumber = true)
    (hne : a.equals b = false) (hya : y.equals a = true) (hyb : y.equals b = true) :
    ∃ (m n : Int64) (d : Double), a = int m ∧ b = int n ∧ y = double d ∧ m ≠ n ∧
      (Double.ofInt m.toInt).sameNumber d = true ∧ (Double.ofInt n.toInt).sameNumber d = true := by
  obtain ⟨hnear, hsame⟩ := (equals_numbers_iff hy ha).mp hya
  obtain ⟨hnear', hsame'⟩ := (equals_numbers_iff hy hb).mp hyb
  rw [Double.sameNumber_comm] at hnear
  have hdiffer : ∃ m n, a = int m ∧ b = int n ∧ m ≠ n := by
    by_contra hall
    push Not at hall
    have heq := (equals_numbers_iff ha hb).mpr ⟨Double.sameNumber_trans hnear hnear', hall⟩
    rw [hne] at heq
    cases heq
  obtain ⟨m, n, rfl, rfl, hmn⟩ := hdiffer
  cases y with
  | int k => exact absurd ((hsame k m rfl rfl).symm.trans (hsame' k n rfl rfl)) hmn
  | double d =>
    rw [Double.sameNumber_comm] at hnear'
    exact ⟨m, n, d, rfl, rfl, rfl, hmn, hnear, hnear'⟩
  | _ => cases hy

/-! ### Sets -/

theorem mem_of_mem_ofItems {vs : List Value} {v : Value} (h : v ∈ distinctOnto [] vs) : v ∈ vs :=
  (Hereditary.mem_of_distinctOnto h).resolve_left (by simp)

/-- If a set of numbers equals another, the other equals it too, unless two different integers in it are the same
    double, which the other holds. At least one of them is beyond 2⁵³ then. -/
theorem equals_ofItems_turned {xs ys : List Value} (hxs : ∀ x ∈ xs, x.isNumber = true)
    (hys : ∀ y ∈ ys, y.isNumber = true) (h : (ofItems xs).equals (ofItems ys) = true) :
    (ofItems ys).equals (ofItems xs) = true ∨
      ∃ (m n : Int64) (d : Double), int m ∈ xs ∧ int n ∈ xs ∧ double d ∈ ys ∧ m ≠ n ∧
        (Double.ofInt m.toInt).sameNumber d = true ∧ (Double.ofInt n.toInt).sameNumber d = true ∧
        (2 ^ 53 < m.toInt.natAbs ∨ 2 ^ 53 < n.toInt.natAbs) := by
  have hx : ∀ a ∈ distinctOnto [] xs, a.isNumber = true := fun a ha => hxs a (mem_of_mem_ofItems ha)
  have hy : ∀ b ∈ distinctOnto [] ys, b.isNumber = true := fun b hb => hys b (mem_of_mem_ofItems hb)
  obtain ⟨hlength, hfound⟩ := equals_sets_iff.mp h
  refine or_iff_not_imp_right.mpr fun hnone => ?_
  have hapart : (distinctOnto [] xs).Pairwise fun a b =>
      ∀ y ∈ distinctOnto [] ys, y.equals a = true → ¬y.equals b = true := by
    refine (pairwise_distinctOnto .nil xs).imp_of_mem fun {a b} ha hb hne y hmem hya hyb => hnone ?_
    obtain ⟨m, n, d, rfl, rfl, rfl, hmn, hm, hn⟩ := exists_shared_double (hx a ha) (hx b hb) (hy y hmem) hne hya hyb
    refine ⟨m, n, d, mem_of_mem_ofItems ha, mem_of_mem_ofItems hb, mem_of_mem_ofItems hmem, hmn, hm, hn, ?_⟩
    -- two integers up to 2⁵³ would be the same, as their doubles are
    by_contra hsmall
    obtain ⟨hmsmall, hnsmall⟩ := not_or.mp hsmall
    rw [Double.sameNumber_comm] at hn
    exact hmn (Int64.toInt_inj.mp (Double.eq_of_sameNumber_ofInt (Nat.not_lt.mp hmsmall) (Nat.not_lt.mp hnsmall)
      (Double.sameNumber_trans hm hn)))
  refine equals_sets_iff.mpr ⟨hlength.symm, fun y hmem => ?_⟩
  obtain ⟨x, hxmem, hyx⟩ := exists_finder hfound hapart (Nat.le_of_eq hlength.symm) y hmem
  exact ⟨x, hxmem, (equals_numbers_comm (hy y hmem) (hx x hxmem)).mp hyx⟩

/-- The numbers that literals stand for. -/
def numbersOf (texts : List String) : List Value :=
  texts.filterMap fun text => (Literal.number? text).map ofNumber

/-- An integer that is no double, and a float. -/
def integerAndFloat : List Value := numbersOf ["9007199254740993", "2.0"]

/-- The float that the integer equals, and the integer that equals the float. -/
def floatAndInteger : List Value := numbersOf ["9007199254740992.0", "2"]

theorem equals_ofItems_turned_integerAndFloat :
    (∀ x ∈ integerAndFloat, x.isNumber = true) ∧ (∀ y ∈ floatAndInteger, y.isNumber = true) ∧
    (ofItems integerAndFloat).equals (ofItems floatAndInteger) = true ∧
    ((ofItems floatAndInteger).equals (ofItems integerAndFloat) = true ∨
      ∃ (m n : Int64) (d : Double), int m ∈ integerAndFloat ∧ int n ∈ integerAndFloat ∧ double d ∈ floatAndInteger ∧
        m ≠ n ∧ (Double.ofInt m.toInt).sameNumber d = true ∧ (Double.ofInt n.toInt).sameNumber d = true ∧
        (2 ^ 53 < m.toInt.natAbs ∨ 2 ^ 53 < n.toInt.natAbs)) := by
  have hcheck : (∀ x ∈ integerAndFloat, x.isNumber = true) ∧ (∀ y ∈ floatAndInteger, y.isNumber = true) ∧
      (ofItems integerAndFloat).equals (ofItems floatAndInteger) = true := by decide +kernel
  obtain ⟨hxs, hys, heq⟩ := hcheck
  exact ⟨hxs, hys, heq, equals_ofItems_turned hxs hys heq⟩

/-- Two integers that share a double. -/
def sharingIntegers : List Value := numbersOf ["9007199254740992", "9007199254740993"]

/-- The double that they share, and another number. -/
def sharedDouble : List Value := numbersOf ["9007199254740992.0", "5"]

/-- The integers 2⁵³ and 2⁵³ + 1 find the same float in the other set, in which 5 is left over. -/
theorem not_equals_turned_sharedDouble :
    (∀ x ∈ sharingIntegers ++ sharedDouble, x.isNumber = true) ∧
    (ofItems sharingIntegers).equals (ofItems sharedDouble) = true ∧
    (ofItems sharedDouble).equals (ofItems sharingIntegers) = false := by
  decide +kernel

end Value

end Lisplet
