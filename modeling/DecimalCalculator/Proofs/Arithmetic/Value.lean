import DecimalCalculator.Proofs.Arithmetic.Finite
import DecimalCalculator.Text.Numeral.Lemmas
import Mathlib.Algebra.Order.Field.Basic
import Mathlib.Algebra.Order.Field.Rat
import Mathlib.Tactic.Linarith

/-!
# The values of decimals

The rational number that a finite decimal stands for, and what the parts of the decimal say about
it: the exponent of the leading digit says below which power of ten the magnitude lies, the sign
whether the value is negative, and a decimal is whole exactly when its value is an integer, which
then is its integer part.
-/
namespace DecimalCalculator

namespace Decimal

/-- The value of a finite decimal. What is infinite or not a number counts as zero. -/
def toRat : Decimal → ℚ
  | finite negative coefficient exponent => signed negative coefficient * 10 ^ exponent
  | _ => 0

def exponent : Decimal → Int
  | finite _ _ e => e
  | _ => 0

def coefficient : Decimal → Nat
  | finite _ c _ => c
  | _ => 0

/-- The number of digits of the integer part of a finite decimal. -/
def integerCount : Decimal → Nat
  | finite _ c e => scaledCount c e.toNat
  | _ => 0

theorem ten_ne_zero : (10 : ℚ) ≠ 0 := by norm_num

theorem ten_zpow_pos (e : Int) : (0 : ℚ) < 10 ^ e := zpow_pos (by norm_num) e

theorem powerOfTen_cast (places : Nat) : ((Text.powerOfTen places : Nat) : ℚ) = 10 ^ places := by
  change ((10 ^ places : Nat) : ℚ) = _
  push_cast
  rfl

theorem scale_eq (coefficient places : Nat) :
    scale coefficient places = coefficient * Text.powerOfTen places := by
  unfold scale
  split
  · next h => rw [h, Nat.zero_mul]
  · rfl

@[simp] theorem signed_zero (s : Bool) : signed s 0 = 0 := by
  cases s <;> rfl

theorem signed_mul (s t : Bool) (c d : Nat) :
    signed (s != t) (c * d) = signed s c * signed t d := by
  cases s <;> cases t <;> simp [signed]

theorem signed_mul_natCast (s : Bool) (c k : Nat) : signed s (c * k) = signed s c * k := by
  cases s <;> simp [signed]

theorem signed_not (s : Bool) (c : Nat) : signed (!s) c = -signed s c := by
  cases s <;> simp [signed]

theorem abs_signed (s : Bool) (c : Nat) : |signed s c| = c := by
  cases s <;> simp [signed]

theorem signed_natAbs (n : Int) : signed (n < 0) n.natAbs = n := by
  by_cases h : n < 0
  · simp only [h, decide_true, signed, if_true]
    omega
  · simp only [h, decide_false, signed, Bool.false_eq_true, if_false]
    omega

@[simp] theorem toRat_ofInt (n : Int) : (ofInt n).toRat = n := by
  rw [ofInt, toRat, signed_natAbs, zpow_zero, mul_one]

@[simp] theorem toRat_neg (a : Decimal) : a.neg.toRat = -a.toRat := by
  cases a with
  | finite s c e => simp [neg, toRat, signed_not]
  | infinity s => simp [neg, toRat]
  | nan s g p => simp [neg, toRat]

@[simp] theorem toRat_abs (a : Decimal) : a.abs.toRat = |a.toRat| := by
  cases a with
  | finite s c e =>
    have hpos := ten_zpow_pos e
    have hcast : |((signed s c : Int) : ℚ)| = c := by
      rw [← Int.cast_abs, abs_signed, Int.cast_natCast]
    simp only [abs, toRat, abs_mul, abs_of_pos hpos, hcast]
    simp [signed]
  | infinity s => simp [abs, toRat]
  | nan s g p => simp [abs, toRat]

/-! ## Sizes and signs -/

/-- The leading digit stands no higher than a place if the magnitude lies below the next power. -/
theorem leading_le_iff {c : Nat} (hc : c ≠ 0) (e m : Int) :
    leading c e ≤ m ↔ (c : ℚ) * 10 ^ e < 10 ^ (m + 1) := by
  have hpos := ten_zpow_pos e
  have hsplit : (10 : ℚ) ^ (m + 1) = 10 ^ (m + 1 - e) * 10 ^ e := by
    rw [← zpow_add₀ ten_ne_zero, Int.sub_add_cancel]
  rw [hsplit, mul_lt_mul_iff_left₀ hpos, leading]
  have hdigits := Text.digitCount_pos c
  by_cases hk : 0 < m + 1 - e
  · obtain ⟨k, hk'⟩ := Int.eq_ofNat_of_zero_le hk.le
    have hiff := Text.digitCount_le_iff (n := c) (k := k) (by omega)
    rw [hk', zpow_natCast, ← powerOfTen_cast, Nat.cast_lt, ← hiff]
    omega
  · have hle : (10 : ℚ) ^ (m + 1 - e) ≤ 1 := zpow_le_one_of_nonpos₀ (by norm_num) (by omega)
    have hone : (1 : ℚ) ≤ c := by exact_mod_cast Nat.one_le_iff_ne_zero.2 hc
    constructor
    · omega
    · intro hlt
      linarith

theorem toRat_nonneg_iff {s : Bool} {c : Nat} {e : Int} :
    0 ≤ (finite s c e).toRat ↔ s = false ∨ c = 0 := by
  have hpos := ten_zpow_pos e
  rw [toRat, mul_nonneg_iff_of_pos_right hpos, Int.cast_nonneg_iff]
  cases s with
  | false => simp [signed]
  | true =>
    simp only [signed, if_true, Bool.true_eq_false, false_or]
    omega

/-! ## Integers -/

theorem toRat_mul_powerOfTen {e : Int} (he : e < 0) (s : Bool) (c : Nat) :
    (finite s c e).toRat * Text.powerOfTen (-e).toNat = signed s c := by
  have hexponent : e = -((-e).toNat : Int) := by omega
  rw [toRat, powerOfTen_cast, mul_assoc]
  conv =>
    lhs
    rw [hexponent]
  rw [Int.neg_neg, Int.toNat_natCast, zpow_neg, zpow_natCast,
    inv_mul_cancel₀ (pow_ne_zero _ ten_ne_zero), mul_one]

theorem toRat_of_exponent_nonneg {e : Int} (he : 0 ≤ e) (s : Bool) (c : Nat) :
    (finite s c e).toRat = signed s (scale c e.toNat) := by
  obtain ⟨k, rfl⟩ := Int.eq_ofNat_of_zero_le he
  rw [toRat, scale_eq, signed_mul_natCast, Int.toNat_natCast, zpow_natCast, Int.cast_mul,
    Int.cast_natCast, powerOfTen_cast]

theorem exists_natCast_of_exponent_nonneg {e : Int} (he : 0 ≤ e) (c : Nat) :
    ∃ n : Nat, (finite false c e).toRat = n := by
  refine ⟨scale c e.toNat, ?_⟩
  rw [toRat_of_exponent_nonneg he, ← Int.cast_natCast]
  rfl

theorem toRat_of_isWhole {s : Bool} {c : Nat} {e : Int} (h : (finite s c e).isWhole) :
    (finite s c e).toRat = signed s (wholePart c e) := by
  by_cases he : 0 ≤ e
  · rw [toRat_of_exponent_nonneg he, wholePart, if_pos he]
  · have hneg : e < 0 := Int.not_le.1 he
    rw [wholePart, if_neg he]
    by_cases hc : c = 0
    · simp [hc, toRat]
    · simp only [isWhole, he, beq_eq_false_iff_ne.2 hc, decide_false, Bool.false_or,
        Bool.and_eq_true, decide_eq_true_eq, beq_iff_eq] at h
      have hunit : ((Text.powerOfTen (-e).toNat : Nat) : ℚ) ≠ 0 :=
        Nat.cast_ne_zero.2 (Text.powerOfTen_pos _).ne'
      rw [if_neg (Nat.not_le.2 h.1)]
      refine mul_right_cancel₀ hunit ?_
      rw [toRat_mul_powerOfTen hneg, ← Int.cast_natCast, ← Int.cast_mul, ← signed_mul_natCast,
        Nat.div_mul_cancel (Nat.dvd_of_mod_eq_zero h.2)]

theorem isWhole_of_toRat {s : Bool} {c : Nat} {e n : Int} (h : (finite s c e).toRat = n) :
    (finite s c e).isWhole := by
  by_cases he : 0 ≤ e
  · simp [isWhole, he]
  · by_cases hc : c = 0
    · simp [isWhole, hc]
    · have hproduct := toRat_mul_powerOfTen (Int.not_le.1 he) s c
      have hsigned : n * Text.powerOfTen (-e).toNat = signed s c := by
        rw [h] at hproduct
        exact_mod_cast hproduct
      have hdvd : Text.powerOfTen (-e).toNat ∣ c := by
        have habs := abs_signed s c
        rw [← Int.natCast_dvd_natCast, ← habs, dvd_abs, ← hsigned]
        exact dvd_mul_left _ _
      have hle : ¬c < Text.powerOfTen (-e).toNat :=
        Nat.not_lt.2 (Nat.le_of_dvd (Nat.pos_of_ne_zero hc) hdvd)
      rw [← Text.digitCount_le_iff (by omega), Nat.not_le] at hle
      simp [isWhole, hle, Nat.mod_eq_zero_of_dvd hdvd]

end Decimal

namespace Arithmetic

open Decimal

variable {a : Decimal} (ha : a.isFinite)
include ha

theorem requirePositive_eq_ok_iff : requirePositive a = .ok () ↔ 0 ≤ a.toRat := by
  obtain ⟨s, c, e, rfl⟩ := isFinite_iff.1 ha
  rw [toRat_nonneg_iff]
  cases s <;> by_cases hc : c = 0 <;> simp [requirePositive, isNegative, isZero, hc]

theorem requireWhole_eq_ok_iff : requireWhole a = .ok () ↔ ∃ n : Int, a.toRat = n := by
  obtain ⟨s, c, e, rfl⟩ := isFinite_iff.1 ha
  have hrequire : requireWhole (finite s c e) =
      if (finite s c e).isWhole then .ok () else .error CalcError.notWhole := rfl
  rw [hrequire]
  constructor
  · split
    · next hwhole => exact fun _ => ⟨_, toRat_of_isWhole hwhole⟩
    · rintro ⟨⟩
  · rintro ⟨n, hn⟩
    rw [if_pos (isWhole_of_toRat hn)]

theorem integerPart_of_toRat (memory : Memory) {n : Int} (h : a.toRat = n) :
    integerPart memory a = demand memory .integer a.integerCount >>= fun _ => .ok n := by
  obtain ⟨s, c, e, rfl⟩ := isFinite_iff.1 ha
  have hvalue := toRat_of_isWhole (isWhole_of_toRat h)
  rw [h, Int.cast_inj] at hvalue
  rw [integerPart, ← hvalue]
  rfl

end Arithmetic

end DecimalCalculator
