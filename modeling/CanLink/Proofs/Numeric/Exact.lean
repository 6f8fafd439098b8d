import CanLink.Numeric.Binary
import Mathlib.Algebra.Order.Field.Basic
import Mathlib.Algebra.Order.Field.Rat
import Mathlib.Data.Rat.Floor
import Mathlib.Tactic.FieldSimp

/-!
Numbers that rounding does not change. A magnitude whose significand fits a format, and whose last
place is not finer than the format's, is a number of the format, and rounding its quotient gives it
back (`Format.value_round`). Rounding to an integer with a half going up is the floor of what is one
half more (`nearestUp_eq_floor`).
-/

namespace CanLink.Numeric

theorem nearestUp_eq_floor (num : Nat) {den : Nat} (pos : 0 < den) :
    (nearestUp num den : ℤ) = ⌊(num / den + 1 / 2 : ℚ)⌋ := by
  have nonzero : (den : ℚ) ≠ 0 := Nat.cast_ne_zero.mpr pos.ne'
  have quotient : (num / den + 1 / 2 : ℚ) = ((2 * num + den : ℕ) : ℤ) / ((2 * den : ℕ) : ℚ) := by
    push_cast
    field_simp
  rw [quotient, Rat.floor_intCast_div_natCast, nearestUp]
  norm_cast

namespace Magnitude

/-- The rational number. -/
def value (x : Magnitude) : ℚ := x.significand * 2 ^ x.exponent

theorem denominator_pos (x : Magnitude) : 0 < x.denominator := Nat.two_pow_pos _

/-- Numerator and denominator make up the number. -/
theorem value_eq_div (x : Magnitude) : x.value = x.numerator / x.denominator := by
  have numerator : (x.numerator : ℚ) = x.significand * 2 ^ x.exponent.toNat :=
    (Nat.cast_mul ..).trans (congrArg _ (Nat.cast_pow ..))
  have denominator : (x.denominator : ℚ) = 2 ^ (-x.exponent).toNat := Nat.cast_pow ..
  rw [value, numerator, denominator, mul_div_assoc]
  congr 1
  rw [← zpow_natCast, ← zpow_natCast, ← zpow_sub₀ two_ne_zero]
  congr 1
  omega

theorem value_nonneg (x : Magnitude) : 0 ≤ x.value :=
  mul_nonneg (Nat.cast_nonneg _) (zpow_nonneg zero_le_two _)

theorem value_eq_zero_iff {x : Magnitude} : x.value = 0 ↔ x.significand = 0 := by
  have power : (2 : ℚ) ^ x.exponent ≠ 0 := zpow_ne_zero _ two_ne_zero
  simp [value, power]

/-- The number exceeds one exactly if its numerator exceeds its denominator. -/
theorem one_lt_value_iff {x : Magnitude} : 1 < x.value ↔ x.denominator < x.numerator := by
  have positive : (0 : ℚ) < x.denominator := Nat.cast_pos.mpr x.denominator_pos
  rw [value_eq_div, one_lt_div positive, Nat.cast_lt]

end Magnitude

namespace Format

variable {x : Magnitude} {precision : Nat}

/-- The leading place of a significand that fits the precision is not too far before the last. -/
theorem binade_le (nonzero : x.numerator ≠ 0) (small : x.significand < 2 ^ precision) :
    binade x.numerator x.denominator ≤ x.exponent + (precision - 1 : Nat) := by
  have leading : x.numerator.log2 < precision + x.exponent.toNat := by
    rw [Nat.log2_lt nonzero, Nat.pow_add]
    exact Nat.mul_lt_mul_of_pos_right small (Nat.two_pow_pos _)
  have denominator : x.denominator.log2 = (-x.exponent).toNat := Nat.log2_two_pow
  rw [binade, denominator]
  split <;> omega

/-- Moving the last place down by some places multiplies the significand. -/
theorem nearestEven_shifted {fine : Int} (coarser : fine ≤ x.exponent) :
    nearestEven (x.numerator * Nat.pow 2 (-fine).toNat) (x.denominator * Nat.pow 2 fine.toNat) =
      x.significand * 2 ^ (x.exponent - fine).toNat := by
  have places : x.exponent.toNat + (-fine).toNat =
      (x.exponent - fine).toNat + ((-x.exponent).toNat + fine.toNat) := by omega
  have whole : x.numerator * Nat.pow 2 (-fine).toNat =
      x.significand * 2 ^ (x.exponent - fine).toNat * (x.denominator * Nat.pow 2 fine.toNat) := by
    simp only [Magnitude.numerator, Magnitude.denominator, Nat.pow_eq, Nat.mul_assoc, ← Nat.pow_add,
      places]
  rw [whole]
  exact nearestEven_mul _ _ (Nat.mul_pos x.denominator_pos (Nat.two_pow_pos _))

/-- A number of a format stays what it is when it is rounded to the format. -/
theorem value_round (f : Format) (small : x.significand < 2 ^ f.precision)
    (coarse : f.leastExponent ≤ x.exponent) :
    (f.round x.numerator x.denominator).value = x.value := by
  rw [round]
  set fine : Int := if x.numerator = 0 then f.leastExponent
    else max (binade x.numerator x.denominator - (f.precision - 1 : Nat)) f.leastExponent
    with isFine
  have coarser : fine ≤ x.exponent := by
    rw [isFine]
    split
    · exact coarse
    · rename_i nonzero
      have leading := binade_le nonzero small
      omega
  have back : ((x.exponent - fine).toNat : Int) + fine = x.exponent := by omega
  simp only [Magnitude.value, nearestEven_shifted coarser]
  rw [Nat.cast_mul, Nat.cast_pow, mul_assoc, Nat.cast_ofNat, ← zpow_natCast,
    ← zpow_add₀ two_ne_zero, back]

end Format

/-- The number with a sign. -/
def Magnitude.signed (negative : Bool) (x : Magnitude) : ℚ := if negative then -x.value else x.value

namespace Reading

/-- Less than `bound`. What is not a number is neither less nor more than any. -/
def Below (bound : ℚ) : Reading → Prop
  | nan => False
  | infinite negative => negative = true
  | finite negative magnitude => magnitude.signed negative < bound

/-- More than `bound`. -/
def Above (bound : ℚ) : Reading → Prop
  | nan => False
  | infinite negative => negative = false
  | finite negative magnitude => bound < magnitude.signed negative

end Reading

namespace Number

variable {f : Format} {x : Number f}

/-- The pattern stands for a finite number. -/
def Denotes (x : Number f) (v : ℚ) : Prop :=
  ∃ negative magnitude, x.reading = .finite negative magnitude ∧ v = magnitude.signed negative

theorem magnitude_of_reading {negative : Bool} {m : Magnitude}
    (finite : x.reading = .finite negative m) : m = x.magnitude := by
  rw [reading] at finite
  split_ifs at finite
  cases finite
  rfl

/-- Significand and exponent of a number are those of its format. -/
theorem magnitude_bounds (x : Number f) (precise : 0 < f.precision) :
    x.magnitude.significand < 2 ^ f.precision ∧ f.leastExponent ≤ x.magnitude.exponent := by
  have fraction : x.fraction < 2 ^ (f.precision - 1) := Nat.mod_lt _ (Nat.two_pow_pos _)
  have doubled : 2 ^ f.precision = 2 ^ (f.precision - 1) + 2 ^ (f.precision - 1) := by
    rw [← Nat.two_mul, ← Nat.pow_succ']
    congr
    omega
  rw [magnitude]
  split <;> simp only [Nat.pow_eq] <;> omega

end Number

end CanLink.Numeric
