import DecimalCalculator.Decimal.Arithmetic
import DecimalCalculator.Text.Numeral.Lemmas
import Mathlib.Algebra.GCDMonoid.Nat
import Mathlib.Data.Nat.Prime.Basic
import Mathlib.Tactic.Ring

/-!
# Expansions that end

A quotient of natural numbers has a decimal expansion that ends exactly if its divisor, in lowest
terms, divides a power of ten. Such a divisor is a power of two times a power of five and divides
already the power of ten whose exponent is its binary logarithm, so one test decides it. The
coefficient is then freed of the zeros that it need not have.
-/
namespace DecimalCalculator

namespace Text

/-- Taking zeros off loses nothing, and goes on until the limit is reached or none is left. The
runs that may still be taken have less than twice the length of the longest one, or else there are
not that many zeros. -/
theorem dropRuns_spec {level limit n : Nat}
    (h : limit < 1 <<< level ∨ ¬powerOfTen (1 <<< level) ∣ n) :
    n = (dropRuns level limit n).1 * powerOfTen (dropRuns level limit n).2 ∧
      (dropRuns level limit n).2 ≤ limit ∧
      ((dropRuns level limit n).2 = limit ∨ ¬10 ∣ (dropRuns level limit n).1) := by
  induction level generalizing limit n with
  | zero =>
    refine ⟨(Nat.mul_one n).symm, limit.zero_le, ?_⟩
    rcases h with hlimit | hzero
    · left
      change 0 = limit
      change limit < 1 at hlimit
      omega
    · exact .inr hzero
  | succ level ih =>
    rw [shiftLeft_one_succ, powerOfTen_add] at h
    rw [dropRuns]
    dsimp only
    split
    · next hrun =>
      obtain ⟨hfits, hzeros⟩ := hrun
      have hunit := powerOfTen_pos (1 <<< level)
      obtain ⟨rest, rfl⟩ := Nat.dvd_of_mod_eq_zero hzeros
      rw [Nat.mul_div_cancel_left _ hunit]
      have hrest : limit - 1 <<< level < 1 <<< level ∨ ¬powerOfTen (1 <<< level) ∣ rest := by
        rcases h with hlimit | hmore
        · left
          omega
        · right
          intro hdvd
          exact hmore (Nat.mul_dvd_mul_left _ hdvd)
      obtain ⟨hvalue, hle, hend⟩ := ih hrest
      refine ⟨?_, by omega, ?_⟩
      · rw [powerOfTen_add, ← Nat.mul_assoc, ← hvalue, Nat.mul_comm]
      · exact hend.imp_left fun heq => by omega
    · next hrun =>
      apply ih
      by_cases hfits : 1 <<< level ≤ limit
      · right
        intro hdvd
        exact hrun ⟨hfits, Nat.mod_eq_zero_of_dvd hdvd⟩
      · left
        omega

theorem dropZeros_spec (limit n : Nat) :
    n = (dropZeros limit n).1 * powerOfTen (dropZeros limit n).2 ∧
      (dropZeros limit n).2 ≤ limit ∧
      ((dropZeros limit n).2 = limit ∨ ¬10 ∣ (dropZeros limit n).1) := by
  apply dropRuns_spec
  left
  rw [Nat.one_shiftLeft]
  exact Nat.lt_log2_self

/-- A divisor of any power of ten divides the one with its binary logarithm as the exponent. -/
theorem dvd_powerOfTen_log2 {m k : Nat} (h : m ∣ powerOfTen k) : m ∣ powerOfTen m.log2 := by
  have hne : m ≠ 0 := ne_zero_of_dvd_ne_zero (powerOfTen_pos k).ne' h
  have hsplit (j : Nat) : powerOfTen j = 2 ^ j * 5 ^ j := Nat.mul_pow 2 5 j
  rw [hsplit] at h
  obtain ⟨x, y, hx, hy, rfl⟩ := (dvd_mul (k := m)).1 h
  obtain ⟨i, -, rfl⟩ := (Nat.dvd_prime_pow Nat.prime_two).1 hx
  obtain ⟨j, -, rfl⟩ := (Nat.dvd_prime_pow Nat.prime_five).1 hy
  have hpos : 0 < 2 ^ i := Nat.pow_pos (by decide)
  have hpos' : 0 < 5 ^ j := Nat.pow_pos (by decide)
  have hi : i ≤ (2 ^ i * 5 ^ j).log2 :=
    (Nat.le_log2 hne).2 (Nat.le_mul_of_pos_right _ hpos')
  have hj : j ≤ (2 ^ i * 5 ^ j).log2 := by
    rw [Nat.le_log2 hne]
    calc 2 ^ j ≤ 5 ^ j := Nat.pow_le_pow_left (by decide) j
      _ ≤ 2 ^ i * 5 ^ j := Nat.le_mul_of_pos_left _ hpos
  rw [hsplit]
  exact Nat.mul_dvd_mul (Nat.pow_dvd_pow 2 hi) (Nat.pow_dvd_pow 5 hj)

end Text

namespace Decimal

theorem finiteQuotient?_of_coprime {x y common : Nat} (hcommon : 0 < common)
    (h : Nat.Coprime x y) :
    finiteQuotient? (x * common) (y * common) =
      let dropped := Text.dropZeros y.log2 (x * (Text.powerOfTen y.log2 / y))
      if y ∣ Text.powerOfTen y.log2 then some (dropped.1, y.log2 - dropped.2) else none := by
  have hgcd : Nat.gcd (x * common) (y * common) = common := by
    rw [Nat.gcd_mul_right, h.gcd_eq_one, Nat.one_mul]
  simp only [finiteQuotient?, hgcd, Nat.mul_div_cancel _ hcommon, Nat.dvd_iff_mod_eq_zero]

variable {c d : Nat} (hd : d ≠ 0)
include hd

/-- An expansion that ends is found. The coefficient is the quotient moved up by the places, and
unless no place is needed it has no zero at its end. -/
theorem finiteQuotient?_eq_some {n places : Nat} (h : finiteQuotient? c d = some (n, places)) :
    n * d = c * Text.powerOfTen places ∧ (places = 0 ∨ ¬10 ∣ n) := by
  have hcommon : 0 < Nat.gcd c d := Nat.gcd_pos_of_pos_right c (Nat.pos_of_ne_zero hd)
  obtain ⟨x, y, hcoprime, hx, hy⟩ := Nat.exists_coprime c d
  generalize Nat.gcd c d = common at *
  subst hx hy
  rw [finiteQuotient?_of_coprime hcommon hcoprime] at h
  obtain ⟨hvalue, hle, hend⟩ := Text.dropZeros_spec y.log2 (x * (Text.powerOfTen y.log2 / y))
  generalize Text.dropZeros y.log2 (x * (Text.powerOfTen y.log2 / y)) = dropped at *
  by_cases hdvd : y ∣ Text.powerOfTen y.log2
  · dsimp only at h
    rw [if_pos hdvd] at h
    obtain ⟨rfl, rfl⟩ := Prod.mk.inj (Option.some.inj h)
    refine ⟨?_, hend.imp_left fun heq => by omega⟩
    refine Nat.eq_of_mul_eq_mul_right (Text.powerOfTen_pos dropped.2) ?_
    calc dropped.1 * (y * common) * Text.powerOfTen dropped.2
        = dropped.1 * Text.powerOfTen dropped.2 * y * common := by ring
      _ = x * (Text.powerOfTen y.log2 / y * y) * common := by rw [← hvalue, Nat.mul_assoc x]
      _ = x * common * Text.powerOfTen y.log2 := by
        rw [Nat.div_mul_cancel hdvd, Nat.mul_right_comm]
      _ = x * common * Text.powerOfTen (y.log2 - dropped.2) * Text.powerOfTen dropped.2 := by
        rw [Nat.mul_assoc _ (Text.powerOfTen _), ← Text.powerOfTen_add, Nat.sub_add_cancel hle]
  · dsimp only at h
    rw [if_neg hdvd] at h
    cases h

/-- Where none is found there is none. -/
theorem ne_of_finiteQuotient?_eq_none (h : finiteQuotient? c d = none) (n places : Nat) :
    n * d ≠ c * Text.powerOfTen places := by
  have hcommon : 0 < Nat.gcd c d := Nat.gcd_pos_of_pos_right c (Nat.pos_of_ne_zero hd)
  obtain ⟨x, y, hcoprime, hx, hy⟩ := Nat.exists_coprime c d
  generalize Nat.gcd c d = common at *
  subst hx hy
  intro hvalue
  have hlowest : n * y = x * Text.powerOfTen places :=
    Nat.eq_of_mul_eq_mul_right hcommon (by rw [Nat.mul_assoc, hvalue, Nat.mul_right_comm])
  have hdvd : y ∣ Text.powerOfTen places :=
    hcoprime.symm.dvd_of_dvd_mul_left ⟨n, by rw [← hlowest, Nat.mul_comm]⟩
  rw [finiteQuotient?_of_coprime hcommon hcoprime] at h
  dsimp only at h
  rw [if_pos (Text.dvd_powerOfTen_log2 hdvd)] at h
  cases h

end Decimal

end DecimalCalculator
