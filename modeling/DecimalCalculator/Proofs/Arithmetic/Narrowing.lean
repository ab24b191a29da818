import DecimalCalculator.Arithmetic.Narrowing
import DecimalCalculator.Proofs.Arithmetic.Value
import Mathlib.Data.Rat.Floor

/-!
# Narrowing as truncation and a check of the range

Narrowing looks at a decimal, at its sign, its coefficient and its exponent, and never writes out
more digits than a machine integer has. What it comes to is said here by the value of the decimal
alone: the fraction is dropped towards zero, and the integer that is left must lie between the
bounds. The early refusal by the exponent of the leading digit agrees with this for every decimal
but zero, since a leading digit that is not zero beyond the twentieth place makes a magnitude beyond
both bounds. The leading digit of a zero says nothing about its magnitude, so a zero with an
exponent beyond 20 is refused although it lies in the range.
-/
namespace DecimalCalculator

/-- A rational number without its fraction. -/
def towardZero (q : ℚ) : Int :=
  if 0 ≤ q then ⌊q⌋ else ⌈q⌉

theorem towardZero_of_nonneg {q : ℚ} (h : 0 ≤ q) : towardZero q = ⌊q⌋ := if_pos h

theorem towardZero_neg {q : ℚ} (h : 0 ≤ q) : towardZero (-q) = -⌊q⌋ := by
  unfold towardZero
  split
  · next hneg =>
    have hzero : q = 0 := by linarith
    simp [hzero]
  · exact Int.ceil_neg

namespace Decimal

/-- A zero whose exponent lies beyond the twentieth place. -/
def isHighZero : Decimal → Bool
  | finite _ c e => c == 0 && 20 < e
  | _ => false

theorem leading_zero (e : Int) : leading 0 e = e := by
  have hdigits : Text.digitCount 0 = 1 := rfl
  rw [leading, hdigits]
  omega

theorem isHighZero_iff {s : Bool} {c : Nat} {e : Int} :
    (finite s c e).isHighZero = true ↔ c = 0 ∧ 20 < leading c e := by
  simp only [isHighZero, Bool.and_eq_true, beq_iff_eq, decide_eq_true_eq]
  refine and_congr_right fun hc => ?_
  rw [hc, leading_zero]

theorem wholePart_eq_floor (c : Nat) (e : Int) : (wholePart c e : Int) = ⌊(c : ℚ) * 10 ^ e⌋ := by
  unfold wholePart
  by_cases he : 0 ≤ e
  · obtain ⟨k, rfl⟩ := Int.eq_ofNat_of_zero_le he
    rw [if_pos he, scale_eq, Int.toNat_natCast, zpow_natCast, ← powerOfTen_cast, ← Nat.cast_mul,
      Int.floor_natCast]
  · have hexponent : e = -((-e).toNat : Int) := by omega
    have hquotient : (c : ℚ) * 10 ^ e = (c : ℚ) / (Text.powerOfTen (-e).toNat : Nat) := by
      rw [powerOfTen_cast, div_eq_mul_inv, ← zpow_natCast, ← zpow_neg, ← hexponent]
    have hdigits := Text.digitCount_le_iff (n := c) (k := (-e).toNat) (by omega)
    rw [if_neg he, hquotient, Rat.floor_natCast_div_natCast]
    split
    · next hle =>
      have hlt : (c : Int) < Text.powerOfTen (-e).toNat := by exact_mod_cast hdigits.1 hle
      rw [Int.ediv_eq_zero_of_lt (Int.natCast_nonneg c) hlt, Nat.cast_zero]
    · exact Int.natCast_ediv _ _

theorem towardZero_toRat (s : Bool) (c : Nat) (e : Int) :
    towardZero (finite s c e).toRat = signed s (wholePart c e) := by
  have hmagnitude : (0 : ℚ) ≤ c * 10 ^ e := mul_nonneg (Nat.cast_nonneg c) (ten_zpow_pos e).le
  cases s with
  | false =>
    rw [signed, if_neg Bool.false_ne_true, wholePart_eq_floor, ← towardZero_of_nonneg hmagnitude]
    simp [toRat, signed]
  | true =>
    rw [signed, if_pos rfl, wholePart_eq_floor, ← towardZero_neg hmagnitude]
    simp [toRat, signed]

theorem le_wholePart {c : Nat} (hc : c ≠ 0) {e : Int} (h : 20 < leading c e) :
    10 ^ 21 ≤ wholePart c e := by
  have hvalue : ((10 ^ 21 : Int) : ℚ) ≤ c * 10 ^ e := by
    have hlarge := mt (leading_le_iff hc e 20).2 (Int.not_le.2 h)
    push_cast
    exact not_lt.1 hlarge
  have hfloor := Int.le_floor.2 hvalue
  rw [← wholePart_eq_floor] at hfloor
  exact_mod_cast hfloor

end Decimal

namespace Arithmetic

open Decimal

def inRange (primitive : String) (low high n : Int) : Except Failure Int :=
  if low ≤ n ∧ n ≤ high then .ok n else .error (CalcError.notPrimitive primitive)

/-- Narrowing by the value alone, for bounds of at most 21 digits. -/
theorem narrow_eq {primitive : String} {low high : Int} (hlow : -10 ^ 21 < low)
    (hhigh : high < 10 ^ 21) {a : Decimal} (ha : a.isFinite) :
    narrow primitive low high a =
      if a.isHighZero then .error (CalcError.notPrimitive primitive)
      else inRange primitive low high (towardZero a.toRat) := by
  obtain ⟨s, c, e, rfl⟩ := isFinite_iff.1 ha
  rw [towardZero_toRat, narrow, inRange]
  by_cases hleading : 20 < leading c e
  · rw [if_pos hleading]
    -- Only of a zero does the leading digit say nothing about the magnitude.
    by_cases hc : c = 0
    · rw [if_pos (isHighZero_iff.2 ⟨hc, hleading⟩)]
    · have hlarge : (10 ^ 21 : Int) ≤ wholePart c e := by exact_mod_cast le_wholePart hc hleading
      have hout : ¬(low ≤ signed s (wholePart c e) ∧ signed s (wholePart c e) ≤ high) := by
        cases s <;> simp only [signed, Bool.false_eq_true, if_false, if_true] <;> omega
      rw [if_neg hout, ite_self]
  · rw [if_neg hleading, if_neg fun h => hleading (isHighZero_iff.1 h).2]
    by_cases hrange : low ≤ signed s (wholePart c e) ∧ signed s (wholePart c e) ≤ high
    · rw [if_pos hrange, if_neg (by omega)]
    · rw [if_neg hrange, if_pos (by omega)]

/-- What narrowing to the machine integers comes to when it goes by the value alone. -/
structure NarrowsByValue (a : Decimal) : Prop where
  signed64 : toSigned64 a = inRange "i64" (-2 ^ 63) (2 ^ 63 - 1) (towardZero a.toRat)
  unsigned64 : toUnsigned64 a = inRange "usize" 0 (2 ^ 64 - 1) (towardZero a.toRat)

/-- Narrowing drops the fraction and checks the range, except that a zero with an exponent beyond
20 is always refused. So decimals of one value are narrowed alike unless one is such a zero. -/
theorem narrowing_truncates {a : Decimal} (ha : a.isFinite) :
    (a.isHighZero = false → NarrowsByValue a) ∧
      (a.isHighZero = true → toSigned64 a = .error (CalcError.notPrimitive "i64") ∧
        toUnsigned64 a = .error (CalcError.notPrimitive "usize")) ∧
      ∀ b : Decimal, b.isFinite → b.toRat = a.toRat → b.isHighZero = a.isHighZero →
        toSigned64 b = toSigned64 a ∧ toUnsigned64 b = toUnsigned64 a := by
  have hsigned : ∀ b : Decimal, b.isFinite → toSigned64 b = _ := fun _ =>
    narrow_eq (by decide) (by decide)
  have hunsigned : ∀ b : Decimal, b.isFinite → toUnsigned64 b = _ := fun _ =>
    narrow_eq (by decide) (by decide)
  refine ⟨fun hzero => ⟨?_, ?_⟩, fun hzero => ⟨?_, ?_⟩, fun b hb hvalue hzero => ⟨?_, ?_⟩⟩
  · rw [hsigned a ha, hzero]
    rfl
  · rw [hunsigned a ha, hzero]
    rfl
  · rw [hsigned a ha, if_pos hzero]
  · rw [hunsigned a ha, if_pos hzero]
  · rw [hsigned a ha, hsigned b hb, hvalue, hzero]
  · rw [hunsigned a ha, hunsigned b hb, hvalue, hzero]

/-- The quotient of zero and `1E-21` is a zero with the exponent 21. It equals the zero that is
narrowed to zero, and it is refused. -/
theorem quotientZero_is_refused :
    (div .default 100 zero (finite false 1 (-21))).toOption = some (finite false 0 21) ∧
      (finite false 0 21).sameValue zero ∧ (finite false 0 21).isFinite ∧
      toSigned64 zero = .ok 0 ∧ toSigned64 (finite false 0 21) ≠ .ok 0 ∧
      ¬NarrowsByValue (finite false 0 21) := by
  have hrefused : toSigned64 (finite false 0 21) ≠ .ok 0 := nofun
  refine ⟨by decide +kernel, by decide, rfl, rfl, hrefused, fun h => hrefused ?_⟩
  rw [h.signed64]
  simp [toRat, towardZero, inRange]

/-- A number that lies by a fraction below the least signed integer is narrowed to it. -/
theorem fractionBelowLeast_is_truncated :
    (finite true 92233720368547758089 (-1)).isFinite ∧
      NarrowsByValue (finite true 92233720368547758089 (-1)) ∧
      toSigned64 (finite true 92233720368547758089 (-1)) = .ok (-9223372036854775808) :=
  ⟨rfl, (narrowing_truncates (by decide)).1 (by decide), by rfl⟩

end Arithmetic

end DecimalCalculator
