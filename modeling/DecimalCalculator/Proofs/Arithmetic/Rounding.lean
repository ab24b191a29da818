import DecimalCalculator.Decimal.Rounding
import DecimalCalculator.Proofs.Arithmetic.Value
import Mathlib.Data.Int.Log
import Mathlib.Data.Nat.Digits.Lemmas
import Mathlib.Data.Rat.Floor

/-!
# Rounding to significant digits

What it means that a decimal is a number rounded to some significant digits, and that rounding a
coefficient that is too long gives this decimal. The last digit that is kept stands `precision`
places behind the leading one, the kept digits are the nearest integer in units of that place, and
of two that are equally near the even one. When the nearest integer is the next power of ten it has
a digit too many, and the result has its exponent one higher.

Rounding looks at the lowest place that a result may have as well. A result that fits into the range
of exponents is not affected by it, also when only the carry has brought it into the range.
-/
namespace DecimalCalculator

namespace Decimal

/-- The integer that is nearest to a number; of two that are equally near, the even one. -/
def IsNearestEven (x : ℚ) (n : Nat) : Prop :=
  |x - n| ≤ 1 / 2 ∧ (|x - n| = 1 / 2 → Even n)

/-- The magnitude `n * 10 ^ k` is `q` rounded to significant digits, written with exactly as
many. -/
def IsRounded (precision : Nat) (q : ℚ) (n : Nat) (k : Int) : Prop :=
  (Nat.digits 10 n).length = precision ∧
    ∃ m : Nat, IsNearestEven (q / 10 ^ (Int.log 10 q - precision + 1)) m ∧
      (n : ℚ) * 10 ^ k = m * 10 ^ (Int.log 10 q - precision + 1)

/-- The exponent and the leading digit of a finite decimal lie where results of the given precision
may have them. -/
def Fits (precision : Nat) : Decimal → Prop
  | finite _ c e =>
    tinyExponent precision ≤ e ∧ (if c = 0 then e else leading c e) ≤ maxExponent
  | _ => False

instance (precision : Nat) : DecidablePred (Fits precision)
  | finite _ c e =>
    inferInstanceAs (Decidable (tinyExponent precision ≤ e ∧
      (if c = 0 then e else leading c e) ≤ maxExponent))
  | infinity _ => inferInstanceAs (Decidable False)
  | nan _ _ _ => inferInstanceAs (Decidable False)

/-! ## Nearest integers -/

theorem isNearestEven_natCast (n : Nat) : IsNearestEven n n := by
  constructor <;> norm_num

theorem isNearestEven_of_between {x : ℚ} {n : Nat} (hlow : (n : ℚ) - 1 / 2 < x)
    (hhigh : x < n + 1 / 2) : IsNearestEven x n := by
  have hlt : |x - n| < 1 / 2 := abs_lt.2 ⟨by linarith, by linarith⟩
  exact ⟨hlt.le, fun h => absurd h hlt.ne⟩

theorem IsNearestEven.bounds {x : ℚ} {n : Nat} (h : IsNearestEven x n) :
    (n : ℚ) - 1 / 2 ≤ x ∧ x ≤ n + 1 / 2 := by
  have hle := abs_le.1 h.1
  constructor
  · linarith
  · linarith

theorem IsNearestEven.unique {x : ℚ} {m n : Nat} (hm : IsNearestEven x m)
    (hn : IsNearestEven x n) : m = n := by
  wlog hlt : m < n generalizing m n
  · rcases Nat.lt_trichotomy m n with h | h | h
    · exact absurd h hlt
    · exact h
    · exact (this hn hm h).symm
  have hgap : (m : ℚ) + 1 ≤ n := by exact_mod_cast hlt
  have hx : x = m + 1 / 2 := by linarith [hm.bounds.2, hn.bounds.1]
  have hnext : n = m + 1 := by
    have hcast : (n : ℚ) ≤ m + 1 := by linarith [hn.bounds.1]
    have hle : n ≤ m + 1 := by exact_mod_cast hcast
    omega
  have hm' : Even m := hm.2 (by rw [hx]; norm_num)
  have hn' : Even n := hn.2 (by rw [hx, hnext]; push_cast; norm_num)
  rw [hnext, Nat.even_add_one] at hn'
  exact absurd hm' hn'

/-- A number is not rounded across an integer. -/
theorem IsNearestEven.natCast_le {x : ℚ} {a n : Nat} (h : IsNearestEven x n) (ha : (a : ℚ) ≤ x) :
    a ≤ n := by
  by_contra hlt
  have hgap : (n : ℚ) + 1 ≤ a := by exact_mod_cast Nat.not_le.1 hlt
  linarith [h.bounds.2]

theorem IsNearestEven.le_natCast {x : ℚ} {b n : Nat} (h : IsNearestEven x n) (hb : x ≤ (b : ℚ)) :
    n ≤ b := by
  by_contra hlt
  have hgap : (b : ℚ) + 1 ≤ n := by exact_mod_cast Nat.not_le.1 hlt
  linarith [h.bounds.1]

theorem isNearestEven_div (c : Nat) {u : Nat} (hu : 0 < u) :
    IsNearestEven ((c : ℚ) / u)
      (if u < 2 * (c % u) ∨ (2 * (c % u) = u ∧ c / u % 2 = 1) then c / u + 1 else c / u) := by
  have hpos : (0 : ℚ) < u := Nat.cast_pos.2 hu
  have hquotient : (c : ℚ) / u = (c / u : Nat) + ((c % u : Nat) : ℚ) / u := by
    rw [div_eq_iff hpos.ne', add_mul, div_mul_cancel₀ _ hpos.ne']
    exact_mod_cast (Nat.div_add_mod' c u).symm
  have hrest : ((c % u : Nat) : ℚ) / u < 1 := by
    rw [div_lt_one hpos]
    exact_mod_cast Nat.mod_lt c hu
  have hnonneg : 0 ≤ ((c % u : Nat) : ℚ) / u := by positivity
  have hbelow : (2 * (c % u) < u) ↔ ((c % u : Nat) : ℚ) / u < 1 / 2 := by
    rw [div_lt_div_iff₀ hpos two_pos]
    norm_cast
    omega
  have habove : (u < 2 * (c % u)) ↔ 1 / 2 < ((c % u : Nat) : ℚ) / u := by
    rw [div_lt_div_iff₀ two_pos hpos]
    norm_cast
    omega
  rw [hquotient]
  generalize ((c % u : Nat) : ℚ) / u = rest at *
  rcases lt_trichotomy rest (1 / 2) with hlt | heq | hgt
  · have hsmall := hbelow.2 hlt
    rw [if_neg (by omega)]
    apply isNearestEven_of_between <;> linarith
  · have hhalf : 2 * (c % u) = u := by
      have hnot := mt hbelow.1 heq.not_lt
      have hnot' := mt habove.1 heq.not_gt
      omega
    by_cases hodd : c / u % 2 = 1
    · rw [if_pos (.inr ⟨hhalf, hodd⟩), heq]
      constructor
      · push_cast
        norm_num [add_sub_add_left_eq_sub]
      · exact fun _ => (Nat.odd_iff.2 hodd).add_one
    · rw [if_neg (by omega), heq]
      constructor
      · norm_num
      · exact fun _ => Nat.even_iff.2 (by omega)
  · rw [if_pos (.inl (habove.2 hgt))]
    apply isNearestEven_of_between <;> push_cast <;> linarith

theorem isNearestEven_roundHalfEven (c places : Nat) :
    IsNearestEven ((c : ℚ) / 10 ^ places) (roundHalfEven c places) := by
  unfold roundHalfEven
  split
  · next hshort =>
    cases places with
    | zero => omega
    | succ places =>
      have hpos := Text.digitCount_pos c
      have hlt : c < Text.powerOfTen places := (Text.digitCount_le_iff (by omega)).1 (by omega)
      have hcast : (c : ℚ) < 10 ^ places := by
        rw [← powerOfTen_cast]
        exact_mod_cast hlt
      have hunit : (0 : ℚ) < 10 ^ places := by positivity
      apply isNearestEven_of_between
      · have hnonneg : (0 : ℚ) ≤ (c : ℚ) / 10 ^ (places + 1) := by positivity
        push_cast
        linarith
      · rw [div_lt_iff₀ (by positivity), pow_succ]
        push_cast
        linarith
  · rw [← powerOfTen_cast]
    exact isNearestEven_div c (Text.powerOfTen_pos places)

/-! ## Digits and places -/

theorem length_digits_eq_digitCount {c : Nat} (hc : c ≠ 0) :
    (Nat.digits 10 c).length = Text.digitCount c := by
  refine eq_of_forall_ge_iff fun k => ?_
  rw [Nat.digits_length_le_iff (by decide)]
  cases k with
  | zero =>
    have hpos := Text.digitCount_pos c
    omega
  | succ k => exact (Text.digitCount_le_iff k.succ_pos).symm

theorem leading_eq_log {c : Nat} (hc : c ≠ 0) (e : Int) :
    leading c e = Int.log 10 ((c : ℚ) * 10 ^ e) := by
  have hpos : (0 : ℚ) < c * 10 ^ e :=
    mul_pos (Nat.cast_pos.2 (Nat.pos_of_ne_zero hc)) (ten_zpow_pos e)
  refine eq_of_forall_ge_iff fun m => ?_
  rw [leading_le_iff hc, ← Int.lt_add_one_iff, ← Int.lt_zpow_iff_log_lt (by decide) hpos]
  rfl

theorem digitCount_powerOfTen (places : Nat) :
    Text.digitCount (Text.powerOfTen places) = places + 1 := by
  rw [← Nat.one_mul (Text.powerOfTen places), Text.digitCount_mul_powerOfTen one_ne_zero,
    Nat.add_comm]
  rfl

theorem eq_of_scaled_eq {m n : Nat} {k : Int} (h : (m : ℚ) * 10 ^ k = n * 10 ^ k) : m = n :=
  Nat.cast_injective (mul_right_cancel₀ (ten_zpow_pos k).ne' h)

/-- Equal magnitudes with equally many digits are written in the same way. -/
theorem eq_of_digits_eq {m n : Nat} {j k : Int} (hm : m ≠ 0) (hn : n ≠ 0)
    (h : (m : ℚ) * 10 ^ j = n * 10 ^ k) (hdigits : Text.digitCount m = Text.digitCount n) :
    m = n ∧ j = k := by
  have hleading : leading m j = leading n k := by rw [leading_eq_log hm, leading_eq_log hn, h]
  obtain rfl : j = k := by
    rw [leading, leading, hdigits] at hleading
    omega
  exact ⟨eq_of_scaled_eq h, rfl⟩

theorem IsRounded.unique {precision : Nat} (hprecision : 0 < precision) {q : ℚ} {m n : Nat}
    {j k : Int} (h : IsRounded precision q m j) (h' : IsRounded precision q n k) :
    m = n ∧ j = k := by
  obtain ⟨hdigits, x, hx, hvalue⟩ := h
  obtain ⟨hdigits', y, hy, hvalue'⟩ := h'
  have hm : m ≠ 0 := by
    rintro rfl
    exact hprecision.ne hdigits
  have hn : n ≠ 0 := by
    rintro rfl
    exact hprecision.ne hdigits'
  obtain rfl := hx.unique hy
  refine eq_of_digits_eq hm hn (hvalue.trans hvalue'.symm) ?_
  rw [← length_digits_eq_digitCount hm, ← length_digits_eq_digitCount hn, hdigits, hdigits']

/-! ## Rounding on one side of the halves -/

/-- Two numbers lie strictly on one side of every multiple of five. -/
def OneSided (x y : ℚ) : Prop :=
  ∀ m : ℤ, (x < 5 * m ∧ y < 5 * m) ∨ (5 * m < x ∧ 5 * m < y)

/-- An integer part without a last digit that is a multiple of five stands for the whole number. -/
theorem oneSided_of_floor {quotient : Nat} {x : ℚ} (hlow : (quotient : ℚ) < x)
    (hhigh : x < quotient + 1) :
    OneSided ((if quotient % 5 = 0 then quotient + 1 else quotient : Nat) : ℚ) x := by
  generalize hjammed : (if quotient % 5 = 0 then quotient + 1 else quotient) = jammed
  have hrest : jammed % 5 ≠ 0 ∧ quotient ≤ jammed ∧ jammed ≤ quotient + 1 := by
    rw [← hjammed]
    split <;> omega
  intro m
  rcases Int.lt_trichotomy (jammed : Int) (5 * m) with hlt | heq | hgt
  · left
    have hle : ((quotient : ℚ) + 1) ≤ 5 * m := by exact_mod_cast (by omega)
    exact ⟨by exact_mod_cast hlt, hhigh.trans_le hle⟩
  · omega
  · right
    have hle : (5 * m : ℚ) ≤ quotient := by
      have hle' : 5 * m ≤ (quotient : Int) := by omega
      exact_mod_cast hle'
    exact ⟨by exact_mod_cast hgt, hle.trans_lt hlow⟩

namespace OneSided

variable {x y : ℚ} (h : OneSided x y)
include h

theorem below {z : ℚ} (m : ℤ) (hz : z = 5 * m) (hx : x ≤ z) : y < z := by
  rcases h m with ⟨-, hy⟩ | ⟨hlt, -⟩
  · rwa [hz]
  · exact absurd (hlt.trans_le (hx.trans_eq hz)) (lt_irrefl _)

theorem above {z : ℚ} (m : ℤ) (hz : z = 5 * m) (hx : z ≤ x) : z < y := by
  rcases h m with ⟨hlt, -⟩ | ⟨-, hy⟩
  · exact absurd (hlt.trans_le (hz.symm.trans_le hx)) (lt_irrefl _)
  · rwa [hz]

/-- They are rounded to the same integer when a digit is dropped, since halves are then multiples of
five. -/
theorem isNearestEven {places n : Nat} (hn : IsNearestEven (x / 10 ^ (places + 1)) n) :
    IsNearestEven (y / 10 ^ (places + 1)) n := by
  have hunit : (0 : ℚ) < 10 ^ (places + 1) := by positivity
  obtain ⟨hlow, hhigh⟩ := hn.bounds
  rw [le_div_iff₀ hunit] at hlow
  rw [div_le_iff₀ hunit] at hhigh
  apply isNearestEven_of_between
  · rw [lt_div_iff₀ hunit]
    refine h.above ((2 * n - 1) * 10 ^ places) ?_ hlow
    push_cast
    ring
  · rw [div_lt_iff₀ hunit]
    refine h.below ((2 * n + 1) * 10 ^ places) ?_ hhigh
    push_cast
    ring

/-- Their leading digits have the same exponent, since powers of ten are multiples of five. -/
theorem log_eq (hx : 10 ≤ x) : Int.log 10 x = Int.log 10 y := by
  have hpos : 0 < x := by linarith
  have hone : 1 ≤ Int.log 10 x := by
    rw [← Int.zpow_le_iff_le_log (by decide) hpos]
    simpa using hx
  obtain ⟨i, hi⟩ := Int.eq_ofNat_of_zero_le (show 0 ≤ Int.log 10 x - 1 by omega)
  have hpower (j : Nat) : (10 : ℚ) ^ ((j : Int) + 1) = 5 * (2 * 10 ^ j : ℤ) := by
    rw [zpow_add_one₀ ten_ne_zero, zpow_natCast]
    push_cast
    ring
  have hlow := Int.zpow_log_le_self (b := 10) (by decide) hpos
  have hhigh := (Int.lt_zpow_succ_log_self (b := 10) (by decide) x).le
  rw [show Int.log 10 x = i + 1 by omega] at hlow hhigh ⊢
  have hlow' := h.above _ (hpower i) hlow
  have hhigh' := h.below _ (hpower (i + 1)) (by exact_mod_cast hhigh)
  have hpos' : 0 < y := (ten_zpow_pos _).trans hlow'
  apply le_antisymm
  · rw [← Int.zpow_le_iff_le_log (by decide) hpos']
    exact_mod_cast hlow'.le
  · rw [← Int.lt_add_one_iff, ← Int.lt_zpow_iff_log_lt (by decide) hpos']
    exact_mod_cast hhigh'

end OneSided

theorem log_mul_zpow {x : ℚ} (hx : 0 < x) (e : Int) :
    Int.log 10 (x * 10 ^ e) = Int.log 10 x + e := by
  have hpos : 0 < x * 10 ^ e := mul_pos hx (ten_zpow_pos e)
  refine eq_of_forall_le_iff fun m => ?_
  rw [← Int.zpow_le_iff_le_log (by decide) hpos, ← sub_le_iff_le_add,
    ← Int.zpow_le_iff_le_log (by decide) hx]
  push_cast
  rw [zpow_sub₀ ten_ne_zero, div_le_iff₀ (ten_zpow_pos e)]

/-- Rounding that drops a digit cannot tell two numbers on one side apart. -/
theorem IsRounded.of_oneSided {precision : Nat} {x y : ℚ} {e : Int} {n : Nat} {k : Int}
    (h : OneSided x y) (hprecision : 0 < precision) (hlong : 10 ^ precision ≤ x)
    (hrounded : IsRounded precision (x * 10 ^ e) n k) : IsRounded precision (y * 10 ^ e) n k := by
  have hten : 10 ≤ x := by
    refine le_trans ?_ hlong
    calc (10 : ℚ) = 10 ^ 1 := (pow_one _).symm
      _ ≤ 10 ^ precision := pow_le_pow_right₀ (by norm_num) hprecision
  have hpos : 0 < x := by linarith
  have hpos' : 0 < y := by
    have hy := h.above (z := 0) 0 (by norm_num) hpos.le
    exact hy
  have hlog : (precision : Int) ≤ Int.log 10 x := by
    rw [← Int.zpow_le_iff_le_log (by decide) hpos, zpow_natCast]
    exact_mod_cast hlong
  obtain ⟨places, hplaces⟩ := Int.eq_ofNat_of_zero_le (Int.sub_nonneg_of_le hlog)
  have hscaled (z : ℚ) : z * 10 ^ e / 10 ^ (Int.log 10 x + e - precision + 1) =
      z / 10 ^ (places + 1) := by
    rw [show Int.log 10 x + e - precision + 1 = e + ((places + 1 : Nat) : Int) by
      push_cast; omega, zpow_add₀ ten_ne_zero, zpow_natCast, mul_comm z,
      mul_div_mul_left _ _ (ten_zpow_pos e).ne']
  rw [IsRounded, log_mul_zpow hpos, hscaled] at hrounded
  obtain ⟨hdigits, m, hnearest, hvalue⟩ := hrounded
  rw [IsRounded, log_mul_zpow hpos', ← h.log_eq hten, hscaled]
  exact ⟨hdigits, m, h.isNearestEven hnearest, hvalue⟩

/-! ## Rounding a coefficient that is too long -/

theorem round_eq {precision c : Nat} {e : Int} {s : Bool} (hc : c ≠ 0)
    (hfirst : leading c e ≤ maxExponent) :
    round precision s c e =
      let kept := roundAt (max (tinyExponent precision) (leading c e - precision + 1)) c e
      let carried := carry precision kept.1 kept.2
      if maxExponent < leading carried.1 carried.2 then .error .overflow
      else .ok (finite s carried.1 carried.2) := by
  rw [round, if_neg hc, if_neg (Int.not_lt.2 hfirst)]

/-- A coefficient with more digits than the precision, rounded to it, and its exponent. -/
def shorten (precision c : Nat) (e : Int) : Nat × Int :=
  carry precision (roundHalfEven c (Text.digitCount c - precision))
    (e + (Text.digitCount c - precision : Nat))

section

variable {precision c : Nat} (hprecision : 0 < precision) (hlong : precision < Text.digitCount c)
include hprecision hlong

theorem ne_zero_of_long : c ≠ 0 := by
  rintro rfl
  have hone : Text.digitCount 0 = 1 := rfl
  omega

/-- Either as many digits are kept as the precision asks for, or they have become the next power of
ten. -/
theorem shorten_cases (e : Int) :
    ∃ m, IsNearestEven ((c : ℚ) / 10 ^ (Text.digitCount c - precision)) m ∧
      ((m ≠ 0 ∧ Text.digitCount m = precision ∧
          shorten precision c e = (m, e + (Text.digitCount c - precision : Nat))) ∨
        (m = Text.powerOfTen precision ∧
          shorten precision c e = (Text.powerOfTen (precision - 1),
            e + (Text.digitCount c - precision : Nat) + 1))) := by
  have hc := ne_zero_of_long hprecision hlong
  have hnearest := isNearestEven_roundHalfEven c (Text.digitCount c - precision)
  unfold shorten
  generalize hdropped : Text.digitCount c - precision = dropped at *
  generalize roundHalfEven c dropped = m at *
  have hunit : (0 : ℚ) < 10 ^ dropped := by positivity
  have hlow : Text.powerOfTen (precision - 1) ≤ m := by
    refine hnearest.natCast_le ?_
    rw [le_div_iff₀ hunit, ← powerOfTen_cast, ← Nat.cast_mul, ← Text.powerOfTen_add, Nat.cast_le,
      show precision - 1 + dropped = Text.digitCount c - 1 by omega]
    exact Text.powerOfTen_le_self hc
  have hhigh : m ≤ Text.powerOfTen precision := by
    refine hnearest.le_natCast ?_
    rw [div_le_iff₀ hunit, ← powerOfTen_cast, ← Nat.cast_mul, ← Text.powerOfTen_add, Nat.cast_le,
      show precision + dropped = Text.digitCount c by omega]
    exact (Text.lt_powerOfTen_digitCount c).le
  refine ⟨m, hnearest, ?_⟩
  unfold carry
  split
  · next hcarry =>
    right
    have hge : Text.powerOfTen precision ≤ m := by
      by_contra hlt
      exact absurd ((Text.digitCount_le_iff hprecision).2 (Nat.not_le.1 hlt))
        (Nat.not_le.2 hcarry)
    have hsplit : Text.powerOfTen precision = Text.powerOfTen (precision - 1) * 10 := by
      rw [← Text.powerOfTen_succ, Nat.sub_add_cancel hprecision]
    obtain rfl := Nat.le_antisymm hhigh hge
    exact ⟨rfl, by rw [hsplit, Nat.mul_div_cancel _ (by decide)]⟩
  · next hcarry =>
    left
    have hm : m ≠ 0 := (Nat.lt_of_lt_of_le (Text.powerOfTen_pos _) hlow).ne'
    refine ⟨hm, Nat.le_antisymm (Nat.not_lt.1 hcarry) ?_, rfl⟩
    by_contra hfew
    have hlt : m < Text.powerOfTen (precision - 1) :=
      (Text.digitCount_le_iff (by have := Text.digitCount_pos m; omega)).1 (by omega)
    exact absurd hlow (Nat.not_le.2 hlt)

theorem isRounded_shorten (e : Int) :
    IsRounded precision ((c : ℚ) * 10 ^ e) (shorten precision c e).1
      (shorten precision c e).2 := by
  have hc := ne_zero_of_long hprecision hlong
  obtain ⟨m, hnearest, hcases⟩ := shorten_cases hprecision hlong e
  have hplace : Int.log 10 ((c : ℚ) * 10 ^ e) - precision + 1 =
      e + (Text.digitCount c - precision : Nat) := by
    rw [← leading_eq_log hc, leading]
    omega
  have hscaled : (c : ℚ) * 10 ^ e / 10 ^ (e + (Text.digitCount c - precision : Nat)) =
      c / 10 ^ (Text.digitCount c - precision) := by
    rw [zpow_add₀ ten_ne_zero, zpow_natCast, mul_comm, mul_div_mul_left _ _ (ten_zpow_pos e).ne']
  rw [IsRounded, hplace, hscaled]
  rcases hcases with ⟨hm, hdigits, hshorten⟩ | ⟨hpower, hshorten⟩
  · rw [hshorten]
    exact ⟨(length_digits_eq_digitCount hm).trans hdigits, m, hnearest, rfl⟩
  · rw [hshorten]
    refine ⟨?_, m, hnearest, ?_⟩
    · rw [length_digits_eq_digitCount (Text.powerOfTen_pos _).ne', digitCount_powerOfTen,
        Nat.sub_add_cancel hprecision]
    · have hsplit : Text.powerOfTen precision = Text.powerOfTen (precision - 1) * 10 := by
        rw [← Text.powerOfTen_succ, Nat.sub_add_cancel hprecision]
      rw [hpower, hsplit, zpow_add_one₀ ten_ne_zero]
      push_cast
      ring

theorem shorten_ne_zero (e : Int) : (shorten precision c e).1 ≠ 0 := by
  obtain ⟨m, -, ⟨hm, -, hshorten⟩ | ⟨-, hshorten⟩⟩ := shorten_cases hprecision hlong e
  · rwa [hshorten]
  · rw [hshorten]
    exact (Text.powerOfTen_pos _).ne'

theorem leading_le_leading_shorten (e : Int) :
    leading c e ≤ leading (shorten precision c e).1 (shorten precision c e).2 := by
  obtain ⟨m, -, ⟨-, hdigits, hshorten⟩ | ⟨-, hshorten⟩⟩ := shorten_cases hprecision hlong e
  · rw [hshorten, leading, leading, hdigits]
    omega
  · rw [hshorten, leading, leading, digitCount_powerOfTen]
    omega

omit hlong in
/-- Rounded at the place above, digits that become the next power of ten become that power too. -/
theorem roundHalfEven_succ_of_power {places : Nat}
    (h : IsNearestEven ((c : ℚ) / 10 ^ places) (Text.powerOfTen precision)) :
    roundHalfEven c (places + 1) = Text.powerOfTen (precision - 1) := by
  refine (isNearestEven_roundHalfEven c (places + 1)).unique ?_
  have hsplit : (Text.powerOfTen precision : ℚ) = Text.powerOfTen (precision - 1) * 10 := by
    exact_mod_cast congrArg Text.powerOfTen (Nat.sub_add_cancel hprecision).symm
  have hunit : (c : ℚ) / 10 ^ (places + 1) = c / 10 ^ places / 10 := by
    rw [pow_succ, div_mul_eq_div_div]
  have hbounds := h.bounds
  rw [hsplit] at hbounds
  rw [hunit]
  apply isNearestEven_of_between <;> linarith [hbounds.1, hbounds.2]

/-- The lowest place of all results does not matter to a shortened coefficient that lies above
it. -/
theorem carry_roundAt {e : Int} (h : tinyExponent precision ≤ (shorten precision c e).2) :
    carry precision
      (roundAt (max (tinyExponent precision) (leading c e - precision + 1)) c e).1
      (roundAt (max (tinyExponent precision) (leading c e - precision + 1)) c e).2 =
      shorten precision c e := by
  have hplace : leading c e - precision + 1 = e + (Text.digitCount c - precision : Nat) := by
    rw [leading]
    omega
  rw [hplace, roundAt, if_pos (by omega)]
  by_cases hnormal : tinyExponent precision ≤ e + (Text.digitCount c - precision : Nat)
  · rw [max_eq_right hnormal, add_sub_cancel_left, Int.toNat_natCast]
    rfl
  · -- only the carry has brought the result up to the lowest place
    obtain ⟨m, hnearest, ⟨-, -, hshorten⟩ | ⟨rfl, hshorten⟩⟩ :=
      shorten_cases hprecision hlong e
    · rw [hshorten] at h
      exact absurd h hnormal
    · have hlow : tinyExponent precision = e + (Text.digitCount c - precision : Nat) + 1 := by
        rw [hshorten] at h
        change _ ≤ e + (Text.digitCount c - precision : Nat) + 1 at h
        omega
      have hplaces : (e + (Text.digitCount c - precision : Nat) + 1 - e).toNat =
          Text.digitCount c - precision + 1 := by omega
      rw [hlow, max_eq_left (by omega), hplaces, hshorten,
        roundHalfEven_succ_of_power hprecision hnearest]
      dsimp only
      rw [carry, if_neg (by rw [digitCount_powerOfTen]; omega)]

/-- Where the shortened coefficient fits, rounding gives it. -/
theorem round_of_long {e : Int} {s : Bool}
    (h : (finite s (shorten precision c e).1 (shorten precision c e).2).Fits precision) :
    round precision s c e =
      .ok (finite s (shorten precision c e).1 (shorten precision c e).2) := by
  obtain ⟨htiny, hhigh⟩ := h
  rw [if_neg (shorten_ne_zero hprecision hlong e)] at hhigh
  have hfirst := (leading_le_leading_shorten hprecision hlong e).trans hhigh
  rw [round_eq (ne_zero_of_long hprecision hlong) hfirst]
  dsimp only
  rw [carry_roundAt hprecision hlong htiny, if_neg (Int.not_lt.2 hhigh)]

end

theorem round_of_short {precision c : Nat} (hc : c ≠ 0) (hshort : Text.digitCount c ≤ precision)
    {e : Int} {s : Bool} (h : (finite s c e).Fits precision) :
    round precision s c e = .ok (finite s c e) := by
  obtain ⟨hlow, hhigh⟩ := h
  rw [if_neg hc] at hhigh
  have hplace : max (tinyExponent precision) (leading c e - precision + 1) ≤ e := by
    rw [leading]
    omega
  rw [round_eq hc hhigh, roundAt, if_neg (Int.not_lt.2 hplace)]
  dsimp only
  rw [carry, if_neg (Nat.not_lt.2 hshort), if_neg (Int.not_lt.2 hhigh)]

theorem round_zero {precision : Nat} {e : Int} {s : Bool} (h : (finite s 0 e).Fits precision) :
    round precision s 0 e = .ok (finite s 0 e) := by
  obtain ⟨hlow, hhigh⟩ := h
  rw [if_pos rfl] at hhigh
  rw [round, if_pos rfl, confineZero, min_eq_left hhigh, max_eq_right hlow]

end Decimal

end DecimalCalculator
