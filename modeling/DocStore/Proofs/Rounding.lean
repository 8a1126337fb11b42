import DocStore.Double
import Mathlib.Algebra.Order.Ring.Nat
import Mathlib.Tactic.Ring

/-!
# Integers as doubles

An integer is rounded to the fifty-three bits from its highest one on, and what
these do not reach is lost. So integers of up to fifty-three bits are exact, and
every integer of sixty-four bits is finite.
-/

set_option autoImplicit false

namespace DocStore

namespace Double

/-! ## The fields of a double -/

theorem magnitude_eq (x : Double) :
    x.magnitude = if x.exponentField = 0 then x.fraction
      else (2 ^ 52 + x.fraction) * 2 ^ (x.exponentField - 1) := by
  rw [magnitude, Nat.shiftLeft_eq]
  rfl

theorem isNaN_of_isFinite {x : Double} (h : x.isFinite = true) : x.isNaN = false := by
  have below : x.exponentField < 2047 := of_decide_eq_true h
  rw [isNaN, beq_eq_false_iff_ne.2 (Nat.ne_of_lt below), Bool.false_and]

theorem toNat_bits_pack {negative : Bool} {rest : Nat} (h : rest < 2 ^ 63) :
    (pack negative rest).bits.toNat = if negative then 2 ^ 63 + rest else rest := by
  cases negative
  · exact UInt64.toNat_ofNat_of_lt' (Nat.lt_trans h (by decide))
  · exact UInt64.toNat_ofNat_of_lt' (show 2 ^ 63 + rest < 2 ^ 64 by omega)

/-- The sign, the exponent and the fraction stand beside each other. -/
theorem fields_pack (negative : Bool) {rest : Nat} (h : rest < 2 ^ 63) :
    (pack negative rest).isNegative = negative ∧
    (pack negative rest).exponentField = rest / 2 ^ 52 ∧
      (pack negative rest).fraction = rest % 2 ^ 52 := by
  simp only [isNegative, exponentField, fraction, toNat_bits_pack h, Nat.shiftRight_eq_div_pow,
    Nat.shiftLeft_eq, Nat.one_mul]
  cases negative
  · refine ⟨decide_eq_false (Nat.not_le_of_lt h), Nat.mod_eq_of_lt ?_, rfl⟩
    simp only [Bool.false_eq_true, if_false]
    omega
  · refine ⟨decide_eq_true (Nat.le_add_right _ _), ?_, ?_⟩ <;> simp only [if_true] <;> omega

/-- A significand of fifty-three bits counts a power of two; the next power of two
carries into the exponent. -/
theorem magnitude_pack {negative : Bool} {shift m : Nat} (low : 2 ^ 52 ≤ m) (high : m ≤ 2 ^ 53)
    (range : shift * 2 ^ 52 + m < 2 ^ 63) :
    (pack negative (shift * 2 ^ 52 + m)).magnitude = m * 2 ^ shift := by
  obtain ⟨_, exponent, fraction⟩ := fields_pack negative range
  rw [magnitude_eq, exponent, fraction]
  rcases Nat.lt_or_eq_of_le high with less | rfl
  · have quotient : (shift * 2 ^ 52 + m) / 2 ^ 52 = shift + 1 := by omega
    have remainder : (shift * 2 ^ 52 + m) % 2 ^ 52 = m - 2 ^ 52 := by omega
    rw [quotient, remainder, if_neg (Nat.succ_ne_zero _), Nat.add_sub_cancel,
      Nat.add_sub_cancel' low]
  · have quotient : (shift * 2 ^ 52 + 2 ^ 53) / 2 ^ 52 = shift + 2 := by omega
    have remainder : (shift * 2 ^ 52 + 2 ^ 53) % 2 ^ 52 = 0 := by omega
    have exponent : shift + 2 - 1 = shift + 1 := rfl
    rw [quotient, remainder, if_neg (Nat.succ_ne_zero _), Nat.add_zero, exponent,
      Nat.pow_succ 2 shift]
    ring

/-! ## Rounding -/

theorem roundHalfEven_mem (num den : Nat) :
    num / den ≤ roundHalfEven num den ∧ roundHalfEven num den ≤ num / den + 1 := by
  simp only [roundHalfEven]
  split <;> omega

theorem roundHalfEven_mul (q : Nat) {den : Nat} (h : 0 < den) :
    roundHalfEven (q * den) den = q := by
  simp only [roundHalfEven, Nat.mul_div_cancel _ h, Nat.mul_mod_left]
  exact if_neg (by omega)

theorem log2_mul_two_pow {n : Nat} (positive : n ≠ 0) (k : Nat) :
    (n * 2 ^ k).log2 = n.log2 + k := by
  induction k with
  | zero => simp
  | succ k ih =>
    have rest : n * 2 ^ k ≠ 0 := Nat.mul_ne_zero positive (Nat.ne_of_gt (Nat.two_pow_pos _))
    rw [Nat.pow_succ, ← Nat.mul_assoc, Nat.mul_comm _ 2, Nat.log2_two_mul rest, ih]
    rfl

theorem quotient_mem {n : Nat} (positive : n ≠ 0) (k : Nat) :
    2 ^ 52 ≤ n * 2 ^ (k + 52) / 2 ^ (n.log2 + k) ∧
    n * 2 ^ (k + 52) / 2 ^ (n.log2 + k) < 2 ^ 53 := by
  rw [Nat.le_div_iff_mul_le (Nat.two_pow_pos _), Nat.div_lt_iff_lt_mul (Nat.two_pow_pos _)]
  have low : 2 ^ 52 * 2 ^ (n.log2 + k) = 2 ^ n.log2 * 2 ^ (k + 52) := by ring
  have high : 2 ^ 53 * 2 ^ (n.log2 + k) = 2 ^ (n.log2 + 1) * 2 ^ (k + 52) := by ring
  rw [low, high]
  exact ⟨Nat.mul_le_mul_right _ (Nat.log2_self_le positive),
    Nat.mul_lt_mul_of_pos_right Nat.lt_log2_self (Nat.two_pow_pos _)⟩

theorem unitsPerOne_eq : unitsPerOne = 2 ^ (1022 + 52) := by decide +kernel

/-- The power of two, in the units of doubles, that the last of the bits of an integer counts. -/
def lastPlace (n : Nat) : Nat := n.log2 + 1022

/-- The bits to which an integer is rounded. -/
def significand (n : Nat) : Nat := roundHalfEven (n * unitsPerOne) (2 ^ lastPlace n)

theorem significand_mem {n : Nat} (positive : n ≠ 0) :
    2 ^ 52 ≤ significand n ∧ significand n ≤ 2 ^ 53 := by
  obtain ⟨low, high⟩ := quotient_mem positive 1022
  rw [← unitsPerOne_eq] at low high
  obtain ⟨below, above⟩ := roundHalfEven_mem (n * unitsPerOne) (2 ^ lastPlace n)
  exact ⟨Nat.le_trans low below, Nat.le_trans above high⟩

theorem nearestBits_one {n : Nat} (positive : n ≠ 0) (range : n < 2 ^ 65) :
    nearestBits n 1 = lastPlace n * 2 ^ 52 + significand n ∧
    lastPlace n * 2 ^ 52 + significand n < 2047 * 2 ^ 52 := by
  have place : lastPlace n ≤ 1086 :=
    Nat.add_le_add_right (Nat.le_of_lt_succ ((Nat.log2_lt positive).2 range)) _
  have small : lastPlace n * 2 ^ 52 + significand n < 2047 * 2 ^ 52 :=
    Nat.lt_of_le_of_lt (Nat.add_le_add (Nat.mul_le_mul_right _ place) (significand_mem positive).2)
      (by decide)
  refine ⟨?_, small⟩
  have units : n <<< 1074 = n * unitsPerOne := by
    simp only [unitsPerOne, Nat.shiftLeft_eq, Nat.one_mul]
  have shift : (n * unitsPerOne).log2 - 52 = lastPlace n := by
    rw [unitsPerOne_eq, log2_mul_two_pow positive, ← Nat.add_assoc, Nat.add_sub_cancel, lastPlace]
  simp only [nearestBits, units, Nat.div_one, shift, Nat.shiftLeft_eq, Nat.one_mul]
  exact Nat.min_eq_left (Nat.le_of_lt small)

/-- Integers of sixty-four bits, signed or not, are finite doubles. -/
theorem isFinite_ofInt {i : Int} (range : i.natAbs < 2 ^ 65) : (ofInt i).isFinite = true := by
  by_cases zero : i.natAbs = 0
  · rw [ofInt, zero]
    cases decide (i < 0) <;> decide +kernel
  · obtain ⟨bits, small⟩ := nearestBits_one zero range
    rw [isFinite, ofInt, ofRatio, bits,
      (fields_pack _ (Nat.lt_trans small (by decide : 2047 * 2 ^ 52 < 2 ^ 63))).2.1]
    exact decide_eq_true ((Nat.div_lt_iff_lt_mul (Nat.two_pow_pos 52)).2 small)

/-! ## Exact integers -/

/-- The last place divides an integer that has no more bits, and the next integer. -/
theorem two_pow_dvd {n : Nat} (range : n ≤ 2 ^ 53) (k : Nat) :
    2 ^ (n.log2 + k) ∣ n * 2 ^ (k + 52) := by
  rcases Nat.lt_or_eq_of_le range with less | rfl
  · have length : n.log2 ≤ 52 := by
      rcases Nat.eq_zero_or_pos n with rfl | positive
      · decide
      · exact Nat.le_of_lt_succ ((Nat.log2_lt (Nat.ne_of_gt positive)).2 less)
    have divides : 2 ^ (n.log2 + k) ∣ 2 ^ (k + 52) := Nat.pow_dvd_pow 2 (by omega)
    exact divides.mul_left n
  · rw [Nat.log2_two_pow, ← Nat.pow_add]
    exact Nat.pow_dvd_pow 2 (by omega)

theorem significand_exact {n : Nat} (range : n ≤ 2 ^ 53) :
    significand n * 2 ^ lastPlace n = n * unitsPerOne := by
  have multiple := two_pow_dvd range 1022
  rw [← unitsPerOne_eq] at multiple
  obtain ⟨q, hq⟩ := multiple
  rw [significand, lastPlace, hq, Nat.mul_comm _ q, roundHalfEven_mul q (Nat.two_pow_pos _)]

/-- Integers of up to fifty-three bits, and the next ones, are exact doubles. -/
theorem scaled_ofInt {i : Int} (range : i.natAbs ≤ 2 ^ 53) :
    (ofInt i).scaled = i * unitsPerOne := by
  by_cases zero : i = 0
  · subst zero
    decide +kernel
  · have positive : i.natAbs ≠ 0 := Int.natAbs_ne_zero.2 zero
    obtain ⟨bits, small⟩ := nearestBits_one positive (Nat.lt_of_le_of_lt range (by decide))
    obtain ⟨low, high⟩ := significand_mem positive
    have all := Nat.lt_trans small (by decide : 2047 * 2 ^ 52 < 2 ^ 63)
    rw [ofInt, ofRatio, bits, scaled, magnitude_pack low high all, significand_exact range,
      (fields_pack _ all).1]
    simp only [decide_eq_true_eq]
    split
    · next below =>
        rw [Int.natCast_mul, Int.ofNat_natAbs_of_nonpos (Int.le_of_lt below), Int.neg_mul,
          Int.neg_neg]
    · next above => rw [Int.natCast_mul, Int.natAbs_of_nonneg (Int.not_lt.1 above)]

theorem ofInt_inj {i j : Int} (hi : i.natAbs ≤ 2 ^ 53) (hj : j.natAbs ≤ 2 ^ 53)
    (same : ofInt i = ofInt j) : i = j := by
  have scaled := congrArg scaled same
  rw [scaled_ofInt hi, scaled_ofInt hj] at scaled
  exact Int.eq_of_mul_eq_mul_right (by decide +kernel) scaled

end Double

end DocStore
