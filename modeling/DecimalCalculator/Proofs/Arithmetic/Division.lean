import DecimalCalculator.Arithmetic.Basic
import DecimalCalculator.Proofs.Arithmetic.Expansion
import DecimalCalculator.Proofs.Arithmetic.Rounding
import Mathlib.Data.Nat.Cast.Order.Field

/-!
# Division is correctly rounded

What the quotient of two finite decimals is at a precision, said without the algorithm. The quotient
of the values may have forms `n * 10 ^ k` with no more digits than the precision, and then the
result is the one of them whose exponent is closest to the difference of the exponents. Otherwise
the result is the quotient rounded to the precision, with all its digits. There is always exactly
one such decimal, and division gives it wherever it fits into the range of exponents.

Two things stand in the way. A precision above `maxPrecision` is refused, whatever the operands are.
And the digits that the precision takes have to fit into the memory. Where they do not, a quotient
is still had if it ends, if its leading digit does not stand below `minExponent`, and if the digits
that a quotient that ends takes do fit.

A quotient that does not end is computed with more digits than the precision and a last digit that
is no multiple of five. It then lies on the same side of every half as the quotient itself.
-/
namespace DecimalCalculator

namespace Decimal

/-- The magnitude `n * 10 ^ k` is `q`, and its coefficient has at most so many digits. -/
def IsForm (precision : Nat) (q : ℚ) (n : Nat) (k : Int) : Prop :=
  (n : ℚ) * 10 ^ k = q ∧ (Nat.digits 10 n).length ≤ precision

/-- A form whose exponent is as close to the ideal one as that of any other. -/
def IsClosestForm (precision : Nat) (ideal : Int) (q : ℚ) (n : Nat) (k : Int) : Prop :=
  IsForm precision q n k ∧
    ∀ (n' : Nat) (k' : Int), IsForm precision q n' k' → |k - ideal| ≤ |k' - ideal|

/-- The coefficient and the exponent that the quotient `q` is written with: a zero has the ideal
exponent, a quotient with a form is written exactly, and any other is rounded. -/
inductive IsWritten (precision : Nat) (ideal : Int) (q : ℚ) : Nat → Int → Prop
  | zero : q = 0 → IsWritten precision ideal q 0 ideal
  | exact {n : Nat} {k : Int} : q ≠ 0 → IsClosestForm precision ideal q n k →
    IsWritten precision ideal q n k
  | rounded {n : Nat} {k : Int} : (∀ (n' : Nat) (k' : Int), ¬IsForm precision q n' k') →
    IsRounded precision q n k → IsWritten precision ideal q n k

/-- The decimal `r` is the quotient of `a` and `b`, correctly rounded and with the right
exponent. -/
def IsQuotient (precision : Nat) (a b r : Decimal) : Prop :=
  ∃ n k, r = finite (a.isNegative != b.isNegative) n k ∧
    IsWritten precision (a.exponent - b.exponent) |a.toRat / b.toRat| n k

/-- The quotient `q` of two coefficients and a power of ten cannot be had at this precision for lack
of memory. -/
def OutgrowsMemory (memory : Memory) (precision c d : Nat) (q : ℚ) : Prop :=
  q ≠ 0 ∧ ¬memory.fits .quotient (quotientCount precision d) ∧
    ((∀ (n : Nat) (k : Int), (n : ℚ) * 10 ^ k ≠ q) ∨ q < 10 ^ minExponent ∨
      ¬memory.fits .quotient (quotientCount (endingPrecision c d) d))

/-! ## Forms -/

section

variable {precision : Nat} {q : ℚ} {n : Nat} {k : Int}

theorem IsForm.ne_zero (h : IsForm precision q n k) (hq : q ≠ 0) : n ≠ 0 := by
  rintro rfl
  exact hq (by simpa using h.1.symm)

theorem mul_powerOfTen_scaled (n places : Nat) {i k : Int} (h : i + places = k) :
    ((n * Text.powerOfTen places : Nat) : ℚ) * 10 ^ i = n * 10 ^ k := by
  rw [Nat.cast_mul, powerOfTen_cast, mul_assoc, ← zpow_natCast, ← zpow_add₀ ten_ne_zero,
    Int.add_comm, h]

/-- A coefficient that has a form with a higher exponent ends in a zero. -/
theorem ten_dvd_of_scaled_eq {m : Nat} {i : Int} (h : (m : ℚ) * 10 ^ i = n * 10 ^ k)
    (hlt : k < i) : 10 ∣ n := by
  obtain ⟨j, hj⟩ := Int.eq_ofNat_of_zero_le (show 0 ≤ i - k - 1 by omega)
  have hvalue := mul_powerOfTen_scaled m (j + 1)
    (show k + ((j + 1 : Nat) : Int) = i by push_cast; omega)
  rw [← eq_of_scaled_eq (hvalue.trans h), Text.powerOfTen_succ, ← Nat.mul_assoc]
  exact Nat.dvd_mul_left 10 _

/-- A form with all the digits that the precision allows is its own rounding. -/
theorem isRounded_of_digits (hn : n ≠ 0) (hdigits : Text.digitCount n = precision) :
    IsRounded precision ((n : ℚ) * 10 ^ k) n k := by
  have hplace : Int.log 10 ((n : ℚ) * 10 ^ k) - precision + 1 = k := by
    rw [← leading_eq_log hn, leading, hdigits]
    omega
  rw [IsRounded, hplace, length_digits_eq_digitCount hn,
    mul_div_cancel_right₀ _ (ten_zpow_pos k).ne']
  exact ⟨hdigits, n, isNearestEven_natCast n, rfl⟩

/-- Zeros at the end of a form fill it up to the precision; this is the form with the least
exponent. -/
theorem IsForm.fill (h : IsForm precision q n k) (hq : q ≠ 0) :
    ∃ m, IsRounded precision q m (Int.log 10 q - precision + 1) ∧
      IsForm precision q m (Int.log 10 q - precision + 1) ∧ Int.log 10 q - precision + 1 ≤ k := by
  have hn := h.ne_zero hq
  obtain ⟨rfl, hdigits⟩ := h
  rw [length_digits_eq_digitCount hn] at hdigits
  have hm : n * Text.powerOfTen (precision - Text.digitCount n) ≠ 0 :=
    Nat.mul_ne_zero hn (Text.powerOfTen_pos _).ne'
  have hplace : Int.log 10 ((n : ℚ) * 10 ^ k) - precision + 1 =
      k - (precision - Text.digitCount n : Nat) := by
    rw [← leading_eq_log hn, leading]
    omega
  have hfull : Text.digitCount (n * Text.powerOfTen (precision - Text.digitCount n)) =
      precision := by
    rw [Text.digitCount_mul_powerOfTen hn]
    omega
  have hvalue := mul_powerOfTen_scaled n (precision - Text.digitCount n)
    (Int.sub_add_cancel k (precision - Text.digitCount n : Nat))
  refine ⟨n * Text.powerOfTen (precision - Text.digitCount n), ?_, ⟨?_, ?_⟩, ?_⟩
  · rw [hplace, ← hvalue]
    exact isRounded_of_digits hm hfull
  · rw [hplace, hvalue]
  · rw [length_digits_eq_digitCount hm, hfull]
  · rw [hplace]
    omega

/-- Between the exponents of two forms every exponent has a form. -/
theorem IsForm.between {m : Nat} {j i : Int} (hq : q ≠ 0) (h : IsForm precision q n k)
    (h' : IsForm precision q m j) (hlow : j ≤ i) (hhigh : i ≤ k) :
    IsForm precision q (n * Text.powerOfTen (k - i).toNat) i := by
  have hn := h.ne_zero hq
  have hm := h'.ne_zero hq
  obtain ⟨hvalue, -⟩ := h
  obtain ⟨hvalue', hdigits'⟩ := h'
  have hleading : leading n k = leading m j := by
    rw [leading_eq_log hn, leading_eq_log hm, hvalue, hvalue']
  rw [length_digits_eq_digitCount hm] at hdigits'
  simp only [leading] at hleading
  constructor
  · rw [mul_powerOfTen_scaled n _ (show i + (k - i).toNat = k by omega), hvalue]
  · rw [length_digits_eq_digitCount (Nat.mul_ne_zero hn (Text.powerOfTen_pos _).ne'),
      Text.digitCount_mul_powerOfTen hn]
    omega

theorem IsClosestForm.unique {ideal : Int} {m : Nat} {j : Int} (hq : q ≠ 0)
    (h : IsClosestForm precision ideal q m j) (h' : IsClosestForm precision ideal q n k) :
    m = n ∧ j = k := by
  obtain rfl : j = k := by
    wlog hlt : j < k generalizing m n j k
    · rcases lt_trichotomy j k with hjk | hjk | hjk
      · exact absurd hjk hlt
      · exact hjk
      · exact (this h' h hjk).symm
    -- at two equal distances, the ideal exponent between them has a form itself
    have hdistance := le_antisymm (h.2 n k h'.1) (h'.2 m j h.1)
    rcases abs_eq_abs.1 hdistance with heq | heq
    · omega
    · have hideal := h.2 _ ideal (h'.1.between hq h.1 (i := ideal) (by omega) (by omega))
      rw [sub_self, abs_zero] at hideal
      have hzero := abs_nonpos_iff.1 hideal
      omega
  exact ⟨eq_of_scaled_eq (h.1.1.trans h'.1.1.symm), rfl⟩

theorem IsWritten.unique (hprecision : 0 < precision) {ideal : Int} {m : Nat} {j : Int}
    (h : IsWritten precision ideal q m j) (h' : IsWritten precision ideal q n k) :
    m = n ∧ j = k := by
  cases h with
  | zero hq =>
    cases h' with
    | zero _ => exact ⟨rfl, rfl⟩
    | exact hne _ => exact absurd hq hne
    | rounded hnone _ => exact absurd ⟨by simp [hq], by simp⟩ (hnone 0 0)
  | exact hne hclosest =>
    cases h' with
    | zero hq => exact absurd hq hne
    | exact _ hclosest' => exact hclosest.unique hne hclosest'
    | rounded hnone _ => exact absurd hclosest.1 (hnone m j)
  | rounded hnone hrounded =>
    cases h' with
    | zero hq => exact absurd ⟨by simp [hq], by simp⟩ (hnone 0 0)
    | exact _ hclosest => exact absurd hclosest.1 (hnone n k)
    | rounded _ hrounded' => exact hrounded.unique hprecision hrounded'

end

/-! ## Quotients that end -/

section

variable {precision n : Nat} {ideal : Int}

/-- A coefficient that is not too long, and that has a zero at its end only if it stands at the
ideal exponent, is the closest form. -/
theorem isClosestForm_of_short {places : Nat} (hn : n ≠ 0)
    (hshort : Text.digitCount n ≤ precision) (hend : places = 0 ∨ ¬10 ∣ n) :
    IsClosestForm precision ideal ((n : ℚ) * 10 ^ (ideal - places)) n (ideal - places) := by
  refine ⟨⟨rfl, (length_digits_eq_digitCount hn).trans_le hshort⟩, fun n' k' hform => ?_⟩
  rcases hend with rfl | hend
  · simp
  · have hle : k' ≤ ideal - places := by
      by_contra hlt
      exact hend (ten_dvd_of_scaled_eq hform.1 (Int.not_le.1 hlt))
    rw [abs_of_nonpos (by omega), abs_of_nonpos (by omega)]
    omega

/-- A coefficient that is too long becomes the closest form if there is a form at all: it has zeros
at its end then, and stands at the ideal exponent. -/
theorem isClosestForm_shorten {places : Nat} (hprecision : 0 < precision)
    (hlong : precision < Text.digitCount n) (hend : places = 0 ∨ ¬10 ∣ n)
    {n' : Nat} {k' : Int}
    (hform : IsForm precision ((n : ℚ) * 10 ^ (ideal - places)) n' k') :
    IsClosestForm precision ideal ((n : ℚ) * 10 ^ (ideal - places))
      (shorten precision n (ideal - places)).1 (shorten precision n (ideal - places)).2 := by
  have hn := ne_zero_of_long hprecision hlong
  have hq : (n : ℚ) * 10 ^ (ideal - places) ≠ 0 :=
    mul_ne_zero (Nat.cast_ne_zero.2 hn) (ten_zpow_pos _).ne'
  obtain ⟨m, hrounded, hfull, -⟩ := hform.fill hq
  have hplace : Int.log 10 ((n : ℚ) * 10 ^ (ideal - places)) - precision + 1 =
      ideal - places + (Text.digitCount n - precision : Nat) := by
    rw [← leading_eq_log hn, leading]
    omega
  obtain ⟨hcoefficient, hexponent⟩ :=
    (isRounded_shorten hprecision hlong (ideal - places)).unique hprecision hrounded
  have hplaces : places = 0 := by
    refine hend.resolve_right fun hzero => hzero ?_
    exact ten_dvd_of_scaled_eq hfull.1 (by rw [hplace]; omega)
  rw [hcoefficient, hexponent]
  refine ⟨hfull, fun x k hx => ?_⟩
  obtain ⟨-, -, -, hle⟩ := hx.fill hq
  rw [abs_of_nonneg (by omega), abs_of_nonneg (by omega)]
  omega

end

/-! ## Quotients that do not end -/

section

variable {precision c d : Nat} (hd : d ≠ 0)
include hd

/-- Where no expansion that ends is found, no decimal is the quotient. -/
theorem scaled_ne_of_finiteQuotient?_eq_none (h : finiteQuotient? c d = none) (ideal : Int)
    (n : Nat) (k : Int) : (n : ℚ) * 10 ^ k ≠ c / d * 10 ^ ideal := by
  intro hvalue
  have hd' : (d : ℚ) ≠ 0 := Nat.cast_ne_zero.2 hd
  rw [div_mul_eq_mul_div, eq_div_iff hd'] at hvalue
  rcases Int.le_total ideal k with hle | hle
  · have hscaled := mul_powerOfTen_scaled n (k - ideal).toNat
      (show ideal + (k - ideal).toNat = k by omega)
    rw [← hscaled, mul_right_comm, ← Nat.cast_mul] at hvalue
    refine ne_of_finiteQuotient?_eq_none hd h (n * Text.powerOfTen (k - ideal).toNat) 0 ?_
    rw [eq_of_scaled_eq hvalue]
    exact (Nat.mul_one c).symm
  · have hscaled := mul_powerOfTen_scaled c (ideal - k).toNat
      (show k + (ideal - k).toNat = ideal by omega)
    rw [← hscaled, mul_right_comm, ← Nat.cast_mul] at hvalue
    exact ne_of_finiteQuotient?_eq_none hd h n (ideal - k).toNat (eq_of_scaled_eq hvalue)

theorem scaled_div_eq (c : Nat) (shift : Int) :
    (c : ℚ) / d * 10 ^ shift =
      (c * Text.powerOfTen shift.toNat : Nat) / (d * Text.powerOfTen (-shift).toNat : Nat) := by
  have hd' : (d : ℚ) ≠ 0 := Nat.cast_ne_zero.2 hd
  have hunit : (10 : ℚ) ^ (-shift).toNat ≠ 0 := pow_ne_zero _ ten_ne_zero
  have hpower : (10 : ℚ) ^ shift.toNat = 10 ^ shift * 10 ^ (-shift).toNat := by
    rw [← zpow_natCast, ← zpow_natCast, ← zpow_add₀ ten_ne_zero]
    congr 1
    omega
  push_cast [powerOfTen_cast]
  rw [hpower, eq_div_iff (mul_ne_zero hd' hunit)]
  field_simp

theorem powerOfTen_le_quotient (hc : c ≠ 0) {shift : Int}
    (hshift : (Text.digitCount d : Int) - Text.digitCount c + precision + 1 = shift) :
    Text.powerOfTen precision ≤
      c * Text.powerOfTen shift.toNat / (d * Text.powerOfTen (-shift).toNat) := by
  have hunit := Text.powerOfTen_pos (-shift).toNat
  have hdigits := Text.digitCount_pos c
  rw [Nat.le_div_iff_mul_le (Nat.mul_pos (Nat.pos_of_ne_zero hd) hunit)]
  calc Text.powerOfTen precision * (d * Text.powerOfTen (-shift).toNat)
      ≤ Text.powerOfTen precision *
          (Text.powerOfTen (Text.digitCount d) * Text.powerOfTen (-shift).toNat) :=
        Nat.mul_le_mul_left _ (Nat.mul_le_mul_right _ (Text.lt_powerOfTen_digitCount d).le)
    _ = Text.powerOfTen (Text.digitCount c - 1) * Text.powerOfTen shift.toNat := by
        rw [← Text.powerOfTen_add, ← Text.powerOfTen_add, ← Text.powerOfTen_add]
        congr 1
        omega
    _ ≤ c * Text.powerOfTen shift.toNat := Nat.mul_le_mul_right _ (Text.powerOfTen_le_self hc)

/-- The long quotient has more digits than the precision, and lies on one side of every multiple of
five with the quotient that it stands for. -/
theorem longQuotient_spec (precision : Nat) (hc : c ≠ 0) (h : finiteQuotient? c d = none) :
    Text.powerOfTen precision ≤ (longQuotient precision c d).1 ∧
      OneSided (longQuotient precision c d).1 (c / d * 10 ^ (longQuotient precision c d).2) := by
  unfold longQuotient
  dsimp only
  generalize hshift :
    (Text.digitCount d : Int) - Text.digitCount c + precision + 1 = shift
  have hlarge := powerOfTen_le_quotient hd hc hshift
  have hexact := scaled_div_eq hd c shift
  have hdivisor : 0 < d * Text.powerOfTen (-shift).toNat :=
    Nat.mul_pos (Nat.pos_of_ne_zero hd) (Text.powerOfTen_pos _)
  have hne := scaled_ne_of_finiteQuotient?_eq_none hd h shift
  generalize c * Text.powerOfTen shift.toNat = dividend at *
  generalize d * Text.powerOfTen (-shift).toNat = divisor at *
  constructor
  · split <;> omega
  · apply oneSided_of_floor
    · refine lt_of_le_of_ne (hexact ▸ Nat.cast_div_le) fun heq => ?_
      exact hne (dividend / divisor) 0 (by rw [zpow_zero, mul_one, heq])
    · rw [hexact, div_lt_iff₀ (Nat.cast_pos.2 hdivisor), mul_comm]
      exact_mod_cast Nat.lt_mul_div_succ dividend hdivisor

end

/-! ## Division -/

theorem abs_toRat_div (s t : Bool) (c d : Nat) (e f : Int) :
    |(finite s c e).toRat / (finite t d f).toRat| = c / d * 10 ^ (e - f) := by
  rw [abs_div, ← toRat_abs, ← toRat_abs, zpow_sub₀ ten_ne_zero]
  simp only [abs, toRat, signed, Bool.false_eq_true, if_false, Int.cast_natCast]
  exact mul_div_mul_comm _ _ _ _

section

variable {memory : Memory} {precision c d : Nat} {s t : Bool} {e f : Int}

/-- A quotient is written in the right form, which division gives where the form fits into the range
and the digits into the memory. -/
structure IsDivided (memory : Memory) (precision : Nat) (s : Bool) (c : Nat) (e : Int) (t : Bool)
    (d : Nat) (f : Int) (n : Nat) (k : Int) : Prop where
  written : IsWritten precision (e - f) (c / d * 10 ^ (e - f)) n k
  gives : ¬OutgrowsMemory memory precision c d (c / d * 10 ^ (e - f)) →
    (finite (s != t) n k).Fits precision →
    divFinite memory precision s c e t d f = .ok (finite (s != t) n k)
  outgrows : OutgrowsMemory memory precision c d (c / d * 10 ^ (e - f)) →
    divFinite memory precision s c e t d f = .error .outOfMemory

theorem isDivided_zero : IsDivided memory precision s 0 e t d f 0 (e - f) := by
  constructor
  · exact .zero (by simp)
  · intro _ hfits
    exact round_zero hfits
  · intro h
    exact absurd (by simp) h.1

theorem outgrowsMemory_iff_of_ending {n : Nat} (hn : n ≠ 0) (k : Int) :
    OutgrowsMemory memory precision c d ((n : ℚ) * 10 ^ k) ↔
      ¬memory.fits .quotient (quotientCount precision d) ∧ (leading n k < minExponent ∨
        ¬memory.fits .quotient (quotientCount (endingPrecision c d) d)) := by
  have hq : (n : ℚ) * 10 ^ k ≠ 0 :=
    mul_ne_zero (Nat.cast_ne_zero.2 hn) (ten_zpow_pos k).ne'
  have hlow := leading_le_iff hn k (minExponent - 1)
  rw [Int.sub_add_cancel] at hlow
  rw [OutgrowsMemory, ← hlow, Int.le_sub_one_iff]
  constructor
  · intro h
    exact ⟨h.2.1, h.2.2.resolve_left fun hnone => hnone n k rfl⟩
  · intro h
    exact ⟨hq, h.1, .inr h.2⟩

theorem isNormal_iff {power : Int} :
    isNormal power ↔ minExponent ≤ power ∧ power ≤ maxExponent := by
  simp [isNormal]

theorem isDivided_of_ending (hc : c ≠ 0) (hd : d ≠ 0) {n places m : Nat} {k : Int} (hn : n ≠ 0)
    (hm : m ≠ 0) (h : finiteQuotient? c d = some (n, places))
    (hwritten : IsWritten precision (e - f) ((n : ℚ) * 10 ^ (e - f - places)) m k)
    (hleading : leading n (e - f - places) ≤ leading m k)
    (hround : (finite (s != t) m k).Fits precision →
      round precision (s != t) n (e - f - places) = .ok (finite (s != t) m k)) :
    IsDivided memory precision s c e t d f m k := by
  have hvalue := (finiteQuotient?_eq_some hd h).1
  have hratio : (c : ℚ) / d * 10 ^ (e - f) = n * 10 ^ (e - f - places) := by
    have hscaled := mul_powerOfTen_scaled c places (Int.sub_add_cancel (e - f) places)
    rw [div_mul_eq_mul_div, div_eq_iff (Nat.cast_ne_zero.2 hd), mul_right_comm, ← Nat.cast_mul,
      hvalue, hscaled]
  have hdiv : divFinite memory precision s c e t d f =
      if memory.fits .quotient (quotientCount precision d) ||
          isNormal (leading n (e - f - places)) &&
            memory.fits .quotient (quotientCount (endingPrecision c d) d) then
        round precision (s != t) n (e - f - places)
      else
        .error .outOfMemory := by
    rw [divFinite, if_neg hc, h]
  have hmemory : OutgrowsMemory memory precision c d (n * 10 ^ (e - f - places)) ↔ _ :=
    outgrowsMemory_iff_of_ending hn (e - f - places)
  rw [← hratio] at hwritten hmemory
  constructor
  · exact hwritten
  · intro ho hfits
    have hhigh := hfits.2
    rw [if_neg hm] at hhigh
    have hroom : memory.fits .quotient (quotientCount precision d) ∨
        isNormal (leading n (e - f - places)) ∧
          memory.fits .quotient (quotientCount (endingPrecision c d) d) := by
      rw [hmemory, not_and_or, not_or, not_not, not_not, Int.not_lt] at ho
      refine ho.imp_right fun hending => ⟨?_, hending.2⟩
      exact isNormal_iff.2 ⟨hending.1, hleading.trans hhigh⟩
    rw [hdiv, if_pos (by simpa using hroom), hround hfits]
  · intro ho
    obtain ⟨hlarge, hlow⟩ := hmemory.1 ho
    have hroom : ¬(memory.fits .quotient (quotientCount precision d) ∨
        isNormal (leading n (e - f - places)) ∧
          memory.fits .quotient (quotientCount (endingPrecision c d) d)) := by
      rintro (hprecision | ⟨hnormal, hending⟩)
      · exact hlarge hprecision
      · rw [isNormal_iff] at hnormal
        exact hlow.elim (by omega) fun hnot => hnot hending
    rw [hdiv, if_neg (by simpa using hroom)]

theorem exists_isDivided_of_ending (hprecision : 0 < precision) (hc : c ≠ 0) (hd : d ≠ 0)
    {n places : Nat} (h : finiteQuotient? c d = some (n, places)) :
    ∃ m k, IsDivided memory precision s c e t d f m k := by
  obtain ⟨hvalue, hend⟩ := finiteQuotient?_eq_some hd h
  have hn : n ≠ 0 := by
    rintro rfl
    rw [Nat.zero_mul] at hvalue
    exact Nat.mul_ne_zero hc (Text.powerOfTen_pos places).ne' hvalue.symm
  have hq : (n : ℚ) * 10 ^ (e - f - places) ≠ 0 :=
    mul_ne_zero (Nat.cast_ne_zero.2 hn) (ten_zpow_pos _).ne'
  by_cases hshort : Text.digitCount n ≤ precision
  · refine ⟨n, e - f - places, isDivided_of_ending hc hd hn hn h ?_ le_rfl ?_⟩
    · exact .exact hq (isClosestForm_of_short hn hshort hend)
    · exact round_of_short hn hshort
  · have hlong := Nat.not_le.1 hshort
    refine ⟨(shorten precision n (e - f - places)).1, (shorten precision n (e - f - places)).2,
      isDivided_of_ending hc hd hn (shorten_ne_zero hprecision hlong _) h ?_
        (leading_le_leading_shorten hprecision hlong _) (round_of_long hprecision hlong)⟩
    by_cases hform : ∃ n' k', IsForm precision ((n : ℚ) * 10 ^ (e - f - places)) n' k'
    · obtain ⟨n', k', hform⟩ := hform
      exact .exact hq (isClosestForm_shorten hprecision hlong hend hform)
    · exact .rounded (fun n' k' h' => hform ⟨n', k', h'⟩) (isRounded_shorten hprecision hlong _)

theorem exists_isDivided_of_endless (hprecision : 0 < precision) (hc : c ≠ 0) (hd : d ≠ 0)
    (h : finiteQuotient? c d = none) : ∃ m k, IsDivided memory precision s c e t d f m k := by
  have hendless := scaled_ne_of_finiteQuotient?_eq_none hd h (e - f)
  have hq : (c : ℚ) / d * 10 ^ (e - f) ≠ 0 :=
    mul_ne_zero (div_ne_zero (Nat.cast_ne_zero.2 hc) (Nat.cast_ne_zero.2 hd)) (ten_zpow_pos _).ne'
  have houtgrows : OutgrowsMemory memory precision c d (c / d * 10 ^ (e - f)) ↔
      ¬memory.fits .quotient (quotientCount precision d) :=
    ⟨fun h => h.2.1, fun h => ⟨hq, h, .inl hendless⟩⟩
  have hdiv : divFinite memory precision s c e t d f =
      if memory.fits .quotient (quotientCount precision d) then
        round precision (s != t) (longQuotient precision c d).1
          (e - f - (longQuotient precision c d).2)
      else
        .error .outOfMemory := by
    rw [divFinite, if_neg hc, h]
  obtain ⟨hlarge, hside⟩ := longQuotient_spec hd precision hc h
  generalize longQuotient precision c d = long at *
  have hlong : precision < Text.digitCount long.1 := by
    by_contra hshort
    exact absurd ((Text.digitCount_le_iff hprecision).1 (Nat.not_lt.1 hshort))
      (Nat.not_lt.2 hlarge)
  have hrounded := (isRounded_shorten hprecision hlong (e - f - long.2)).of_oneSided hside
    hprecision (by rw [← powerOfTen_cast]; exact_mod_cast hlarge)
  rw [mul_assoc, ← zpow_add₀ ten_ne_zero, add_sub_cancel] at hrounded
  refine ⟨_, _, .rounded (fun n k hform => hendless n k hform.1) hrounded, ?_, ?_⟩
  · intro ho hfits
    rw [houtgrows, not_not] at ho
    rw [hdiv, if_pos ho, round_of_long hprecision hlong hfits]
  · intro ho
    rw [hdiv, if_neg (houtgrows.1 ho)]

variable (memory) in
theorem exists_isDivided (hprecision : 0 < precision) (s : Bool) (c : Nat) (e : Int) (t : Bool)
    (hd : d ≠ 0) (f : Int) : ∃ n k, IsDivided memory precision s c e t d f n k := by
  by_cases hc : c = 0
  · subst hc
    exact ⟨0, e - f, isDivided_zero⟩
  · cases h : finiteQuotient? c d with
    | some found => exact exists_isDivided_of_ending hprecision hc hd h
    | none => exact exists_isDivided_of_endless hprecision hc hd h

end

theorem IsQuotient.unique {a b r r' : Decimal} {precision : Nat} (hprecision : 0 < precision)
    (h : IsQuotient precision a b r) (h' : IsQuotient precision a b r') : r = r' := by
  obtain ⟨n, k, rfl, hwritten⟩ := h
  obtain ⟨m, j, rfl, hwritten'⟩ := h'
  obtain ⟨rfl, rfl⟩ := hwritten.unique hprecision hwritten'
  rfl

/-- There is a quotient unless the divisor is zero, and division gives it or is out of memory. -/
theorem exists_isQuotient {a b : Decimal} (ha : a.isFinite) (hb : b.isFinite)
    (hzero : ¬b.isZero) (memory : Memory) {precision : Nat} (hprecision : 0 < precision) :
    ∃ r, IsQuotient precision a b r ∧
      (OutgrowsMemory memory precision a.coefficient b.coefficient |a.toRat / b.toRat| →
        a.div memory precision b = .error .outOfMemory) ∧
      (¬OutgrowsMemory memory precision a.coefficient b.coefficient |a.toRat / b.toRat| →
        r.Fits precision → a.div memory precision b = .ok r) := by
  obtain ⟨s, c, e, rfl⟩ := isFinite_iff.1 ha
  obtain ⟨t, d, f, rfl⟩ := isFinite_iff.1 hb
  have hd : d ≠ 0 := by
    rintro rfl
    exact hzero rfl
  obtain ⟨n, k, hdivided⟩ := exists_isDivided memory hprecision s c e t hd f
  refine ⟨finite (s != t) n k, ⟨n, k, rfl, ?_⟩, ?_⟩
  · rw [abs_toRat_div]
    exact hdivided.written
  · rw [abs_toRat_div]
    exact ⟨hdivided.outgrows, hdivided.gives⟩

end Decimal

namespace Arithmetic

open Decimal

variable {memory : Memory}

theorem div_eq_ofSignal {a b : Decimal} (hzero : ¬b.isZero) {precision : Nat}
    (hprecision : 0 < precision) (hmax : precision ≤ maxPrecision) :
    div memory precision a b = Failure.ofSignal (a.div memory precision b) := by
  have hwidth : maxPrecision ≤ 0x7FFFFFFFFFFFFFFF := by decide
  rw [div, if_neg hzero, if_neg (by omega), if_neg (by omega), Int.toNat_natCast]

theorem div_of_maxPrecision_lt {a b : Decimal} (hzero : ¬b.isZero) {precision : Nat}
    (hmax : maxPrecision < precision) :
    div memory precision a b = .error (if precision ≤ 0x7FFFFFFFFFFFFFFF then Fault.precisionLimit
      else Fault.precisionWidth) := by
  rw [div, if_neg hzero]
  by_cases hwidth : precision ≤ 0x7FFFFFFFFFFFFFFF
  · rw [if_neg (by omega), if_pos (by omega), if_pos hwidth]
  · rw [if_pos (by omega), if_neg hwidth]

theorem div_eq_divideByZero_iff {a b : Decimal} {precision : Int} :
    div memory precision a b = .error CalcError.divideByZero ↔ b.isZero := by
  constructor
  · intro h
    by_contra hzero
    rw [div, if_neg hzero] at h
    split_ifs at h
    · cases h
    · cases h
    · cases hdiv : a.div memory precision.toNat b with
      | ok r => cases (congrArg Failure.ofSignal hdiv).symm.trans h
      | error signal => cases (congrArg Failure.ofSignal hdiv).symm.trans h
  · intro hzero
    rw [div, if_pos hzero]

/-- Division by zero, and only that, is refused as such. Otherwise there is exactly one correctly
rounded quotient, and division up to `maxPrecision` gives it where it fits into the range of
exponents and its digits into the memory. -/
theorem div_is_correctly_rounded {a b : Decimal} (ha : a.isFinite) (hb : b.isFinite)
    (memory : Memory) {precision : Nat} (hprecision : 0 < precision) :
    (div memory precision a b = .error CalcError.divideByZero ↔ b.isZero) ∧
      (¬b.isZero →
        (∃! r, IsQuotient precision a b r) ∧
          (maxPrecision < precision → div memory precision a b =
            .error (if precision ≤ 0x7FFFFFFFFFFFFFFF then Fault.precisionLimit
              else Fault.precisionWidth)) ∧
          (precision ≤ maxPrecision →
            (OutgrowsMemory memory precision a.coefficient b.coefficient |a.toRat / b.toRat| →
              div memory precision a b = .error (Fault.signal .outOfMemory)) ∧
            (¬OutgrowsMemory memory precision a.coefficient b.coefficient |a.toRat / b.toRat| →
              ∀ r, IsQuotient precision a b r → r.Fits precision →
                div memory precision a b = .ok r))) := by
  refine ⟨div_eq_divideByZero_iff, fun hzero => ?_⟩
  obtain ⟨r, hr, houtgrows, hgives⟩ := exists_isQuotient ha hb hzero memory hprecision
  refine ⟨⟨r, hr, fun r' hr' => hr'.unique hprecision hr⟩, div_of_maxPrecision_lt hzero, ?_⟩
  intro hmax
  rw [div_eq_ofSignal hzero hprecision hmax]
  constructor
  · intro ho
    rw [houtgrows ho]
    rfl
  · intro ho r' hr' hfits
    rw [hr'.unique hprecision hr] at hfits ⊢
    rw [hgives ho hfits]
    rfl

/-! ## A quotient that carries and two that are refused -/

theorem halfBelowThousand_eq :
    |(finite false 9995 (-1)).toRat / one.toRat| = (9995 : Nat) * 10 ^ (-1 : Int) := by
  norm_num [toRat, one, signed]

theorem log_halfBelowThousand : Int.log 10 ((9995 : Nat) * 10 ^ (-1 : Int) : ℚ) = 2 := by
  rw [← leading_eq_log (by decide)]
  decide

theorem halfBelowThousand_isQuotient :
    IsQuotient 3 (finite false 9995 (-1)) one (finite false 100 1) := by
  have hq : ((9995 : Nat) * 10 ^ (-1 : Int) : ℚ) ≠ 0 := by norm_num
  have hplace : (2 : Int) - (3 : Nat) + 1 = 0 := by norm_num
  refine ⟨100, 1, rfl, ?_⟩
  rw [halfBelowThousand_eq]
  refine .rounded ?_ ⟨by norm_num, 1000, ?_, ?_⟩
  · intro n k hform
    obtain ⟨m, -, hfull, -⟩ := hform.fill hq
    rw [log_halfBelowThousand, hplace] at hfull
    have hodd : 2 * m = 1999 := by
      have hvalue := hfull.1
      norm_num at hvalue
      have hcast : (2 * m : ℚ) = 1999 := by linarith
      exact_mod_cast hcast
    omega
  · rw [log_halfBelowThousand, hplace]
    constructor
    · norm_num
    · exact fun _ => by decide
  · rw [log_halfBelowThousand, hplace]
    norm_num

/-- At three digits 999.5 goes to the even one of its two neighbours, which is a power of ten. -/
theorem halfBelowThousand_is_rounded :
    (finite false 9995 (-1)).isFinite ∧ one.isFinite ∧ 0 < 3 ∧ ¬one.isZero ∧ 3 ≤ maxPrecision ∧
      ¬OutgrowsMemory .default 3 9995 1 |(finite false 9995 (-1)).toRat / one.toRat| ∧
      IsQuotient 3 (finite false 9995 (-1)) one (finite false 100 1) ∧
      (finite false 100 1).Fits 3 ∧
      div .default 3 (finite false 9995 (-1)) one = .ok (finite false 100 1) := by
  have hzero : ¬one.isZero := by decide
  have hmemory :
      ¬OutgrowsMemory .default 3 9995 1 |(finite false 9995 (-1)).toRat / one.toRat| := by
    intro h
    exact h.2.1 (by decide)
  have hfits : (finite false 100 1).Fits 3 := by decide
  exact ⟨rfl, rfl, by decide, hzero, by decide, hmemory, halfBelowThousand_isQuotient, hfits,
    (((div_is_correctly_rounded rfl rfl .default (by decide)).2 hzero).2.2 (by decide)).2 hmemory _
      halfBelowThousand_isQuotient hfits⟩

theorem quarter_isQuotient {precision : Nat} (hprecision : 2 ≤ precision) (e : Int) :
    IsQuotient precision (finite false 1 e) (ofInt 4) (finite false 25 (e - 2)) := by
  have hquarter : |(finite false 1 e).toRat / (ofInt 4).toRat| =
      (25 : Nat) * 10 ^ (e - (2 : Nat)) := by
    rw [ofInt, abs_toRat_div, Int.sub_zero, zpow_sub₀ ten_ne_zero, zpow_natCast]
    norm_num
    ring
  have hexponent : (finite false 1 e).exponent - (ofInt 4).exponent = e := Int.sub_zero e
  refine ⟨25, e - 2, rfl, ?_⟩
  rw [hquarter, hexponent]
  refine .exact ?_ (isClosestForm_of_short (by decide) ?_ (.inr (by decide)))
  · exact mul_ne_zero (by norm_num) (ten_zpow_pos _).ne'
  · exact (show Text.digitCount 25 = 2 by decide) ▸ hprecision

/-- A quarter has a form with two digits that lies in the range, but at a precision of one more than
the largest the division is refused. At the largest precision, a quarter of a number below the
normal ones is refused for lack of memory, although two digits are all that it has. -/
theorem quarters_are_refused :
    (IsQuotient 1000000000000000000 one (ofInt 4) (finite false 25 (-2)) ∧
      (finite false 25 (-2)).Fits 1000000000000000000 ∧
      div .default 1000000000000000000 one (ofInt 4) = .error Fault.precisionLimit) ∧
    IsQuotient maxPrecision (finite false 1 (-1500000000000000000)) (ofInt 4)
      (finite false 25 (-1500000000000000002)) ∧
      (finite false 25 (-1500000000000000002)).Fits maxPrecision ∧
      div .default maxPrecision (finite false 1 (-1500000000000000000)) (ofInt 4) =
        .error (Fault.signal .outOfMemory) :=
  ⟨⟨quarter_isQuotient (by decide) 0, by decide, by decide⟩,
    quarter_isQuotient (by decide) (-1500000000000000000), by decide, by decide +kernel⟩

end Arithmetic

end DecimalCalculator
