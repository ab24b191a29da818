import DecimalCalculator.Arithmetic.Power
import DecimalCalculator.Proofs.Arithmetic.Value
import Mathlib.Data.Nat.Factorial.Basic

/-!
# Exact arithmetic

Sums, differences, products, factorials and powers without any bound on the exponents or on the
number of digits, and their values. Where such a result lies in the range of exponents, the
operation of the calculator gives this very result, digit by digit, if what it writes out fits into
the memory.

A power is computed from powers with smaller exponents. If the power lies in the range then so do
all of them, and they have no more digits than the power has.
-/
namespace DecimalCalculator

namespace Decimal

/-- The exponent and the leading digit lie in the range of exponents. -/
def InRange : Decimal → Prop
  | finite _ c e =>
    tinyExponent maxPrecision ≤ e ∧ (if c = 0 then e else leading c e) ≤ maxExponent
  | _ => False

instance : DecidablePred InRange
  | finite _ c e =>
    inferInstanceAs (Decidable (tinyExponent maxPrecision ≤ e ∧
      (if c = 0 then e else leading c e) ≤ maxExponent))
  | infinity _ => inferInstanceAs (Decidable False)
  | nan _ _ _ => inferInstanceAs (Decidable False)

def exactSum : Decimal → Decimal → Decimal
  | finite s c e, finite t d f =>
    let low := min e f
    let total := signed s (scale c (e - low).toNat) + signed t (scale d (f - low).toNat)
    finite (if total = 0 then s && t else total < 0) total.natAbs low
  | _, _ => zero

/-- The number of digits of the longer term of a sum at the lower of the two exponents. -/
def sumCount : Decimal → Decimal → Nat
  | finite _ c e, finite _ d f => alignedCount c e d f
  | _, _ => 0

def exactProduct : Decimal → Decimal → Decimal
  | finite s c e, finite t d f => finite (s != t) (c * d) (e + f)
  | _, _ => zero

def productCount : Decimal → Decimal → Nat
  | finite _ c _, finite _ d _ => Text.digitCount (c * d)
  | _, _ => 0

def exactPower : Decimal → Nat → Decimal
  | finite s c e, n => finite (s && n % 2 == 1) (c ^ n) (n * e)
  | _, _ => zero

def powerCount : Decimal → Nat → Nat
  | finite _ c _, n => Text.digitCount (c ^ n)
  | _, _ => 0

theorem confine_of_inRange {s : Bool} {c : Nat} {e : Int} (h : (finite s c e).InRange) :
    confine s c e = .ok (finite s c e) := by
  obtain ⟨hlow, hhigh⟩ := h
  unfold confine
  by_cases hc : c = 0
  · rw [if_pos hc] at hhigh
    simp only [hc, if_true, confineZero]
    rw [min_eq_left hhigh, max_eq_right hlow]
  · rw [if_neg hc] at hhigh
    simp only [hc, if_false, if_neg (Int.not_lt.2 hhigh), roundAt, if_neg (Int.not_lt.2 hlow)]

theorem signed_scale_mul {low e : Int} (h : low ≤ e) (s : Bool) (c : Nat) :
    (signed s (scale c (e - low).toNat) : ℚ) * 10 ^ low = (finite s c e).toRat := by
  have hplaces : ((e - low).toNat : Int) = e - low := Int.toNat_of_nonneg (by omega)
  rw [scale_eq, signed_mul_natCast, Int.cast_mul, Int.cast_natCast, powerOfTen_cast, mul_assoc,
    ← zpow_natCast, hplaces, ← zpow_add₀ ten_ne_zero, Int.sub_add_cancel, toRat]

section

variable {a b : Decimal} (ha : a.isFinite) (hb : b.isFinite)
include ha hb

theorem toRat_exactSum : (exactSum a b).toRat = a.toRat + b.toRat := by
  obtain ⟨s, c, e, rfl⟩ := isFinite_iff.1 ha
  obtain ⟨t, d, f, rfl⟩ := isFinite_iff.1 hb
  rw [← signed_scale_mul (min_le_left e f) s c, ← signed_scale_mul (min_le_right e f) t d,
    ← add_mul, ← Int.cast_add]
  simp only [exactSum]
  generalize signed s _ + signed t _ = total
  by_cases htotal : total = 0
  · simp [htotal, toRat]
  · rw [if_neg htotal, toRat, signed_natAbs]

theorem toRat_exactProduct : (exactProduct a b).toRat = a.toRat * b.toRat := by
  obtain ⟨s, c, e, rfl⟩ := isFinite_iff.1 ha
  obtain ⟨t, d, f, rfl⟩ := isFinite_iff.1 hb
  rw [exactProduct, toRat, toRat, toRat, signed_mul, Int.cast_mul, zpow_add₀ ten_ne_zero]
  exact mul_mul_mul_comm _ _ _ _

theorem add_of_inRange (memory : Memory) (h : (exactSum a b).InRange) :
    a.add memory b = demand memory .sum (sumCount a b) >>= fun _ => .ok (exactSum a b) := by
  obtain ⟨s, c, e, rfl⟩ := isFinite_iff.1 ha
  obtain ⟨t, d, f, rfl⟩ := isFinite_iff.1 hb
  exact congrArg (demand memory .sum _ >>= ·) (funext fun _ => confine_of_inRange h)

theorem mul_of_inRange (memory : Memory) (h : (exactProduct a b).InRange) :
    a.mul memory b =
      demand memory .product (productCount a b) >>= fun _ => .ok (exactProduct a b) := by
  obtain ⟨s, c, e, rfl⟩ := isFinite_iff.1 ha
  obtain ⟨t, d, f, rfl⟩ := isFinite_iff.1 hb
  exact congrArg (demand memory .product _ >>= ·) (funext fun _ => confine_of_inRange h)

theorem isFinite_exactSum : (exactSum a b).isFinite := by
  obtain ⟨s, c, e, rfl⟩ := isFinite_iff.1 ha
  obtain ⟨t, d, f, rfl⟩ := isFinite_iff.1 hb
  rfl

theorem isFinite_exactProduct : (exactProduct a b).isFinite := by
  obtain ⟨s, c, e, rfl⟩ := isFinite_iff.1 ha
  obtain ⟨t, d, f, rfl⟩ := isFinite_iff.1 hb
  rfl

end

/-! ## Powers -/

section

variable {a : Decimal} (ha : a.isFinite)
include ha

theorem isFinite_exactPower (n : Nat) : (exactPower a n).isFinite := by
  obtain ⟨s, c, e, rfl⟩ := isFinite_iff.1 ha
  rfl

@[simp] theorem exactPower_zero : exactPower a 0 = one := by
  obtain ⟨s, c, e, rfl⟩ := isFinite_iff.1 ha
  simp [exactPower, one]

@[simp] theorem exactPower_one : exactPower a 1 = a := by
  obtain ⟨s, c, e, rfl⟩ := isFinite_iff.1 ha
  simp [exactPower]

theorem exactProduct_exactPower (j k : Nat) :
    exactProduct (exactPower a j) (exactPower a k) = exactPower a (j + k) := by
  obtain ⟨s, c, e, rfl⟩ := isFinite_iff.1 ha
  have hparity : ((j % 2 == 1) != (k % 2 == 1)) = ((j + k) % 2 == 1) := by
    rcases Nat.mod_two_eq_zero_or_one j with hj | hj <;>
      rcases Nat.mod_two_eq_zero_or_one k with hk | hk <;> simp [Nat.add_mod, hj, hk]
  have hsign : ((s && j % 2 == 1) != (s && k % 2 == 1)) = (s && (j + k) % 2 == 1) := by
    rw [← hparity]
    cases s <;> rfl
  rw [exactPower, exactPower, exactPower, exactProduct, hsign, ← pow_add, ← add_mul, Nat.cast_add]

theorem productCount_exactPower (j k : Nat) :
    productCount (exactPower a j) (exactPower a k) = powerCount a (j + k) := by
  obtain ⟨s, c, e, rfl⟩ := isFinite_iff.1 ha
  rw [exactPower, exactPower, productCount, powerCount, ← pow_add]

/-- A power has no more digits than those with larger exponents. The empty product has one digit,
also of a zero. -/
theorem powerCount_le {m n : Nat} (h : m ≤ n) : powerCount a m ≤ powerCount a n := by
  obtain ⟨s, c, e, rfl⟩ := isFinite_iff.1 ha
  by_cases hc : c = 0
  · have hone (k : Nat) : Text.digitCount (0 ^ k) = 1 := by
      cases k with
      | zero => decide
      | succ k => rw [zero_pow k.succ_ne_zero]; decide
    simp only [powerCount, hc, hone, le_refl]
  · exact Text.digitCount_le_of_le (Nat.pow_le_pow_right (Nat.pos_of_ne_zero hc) h)

theorem fits_powerCount_zero (memory : Memory) : memory.fits .product (powerCount a 0) := by
  obtain ⟨s, c, e, rfl⟩ := isFinite_iff.1 ha
  have hcount : (finite s c e).powerCount 0 = 1 := by
    rw [powerCount, pow_zero]
    decide
  rw [hcount]
  exact memory.fits_one .product

theorem toRat_exactPower (n : Nat) : (exactPower a n).toRat = a.toRat ^ n := by
  induction n with
  | zero => simp [exactPower_zero ha, one, toRat, signed]
  | succ n ih =>
    have hstep := toRat_exactProduct (isFinite_exactPower ha n) (isFinite_exactPower ha 1)
    rw [exactProduct_exactPower ha, exactPower_one ha, ih] at hstep
    rw [hstep, pow_succ]

omit ha in
theorem cast_pow_mul (c : Nat) (e : Int) (n : Nat) :
    ((c ^ n : Nat) : ℚ) * 10 ^ (n * e) = (c * 10 ^ e) ^ n := by
  rw [Nat.cast_pow, mul_pow, mul_comm (n : Int), zpow_mul, zpow_natCast]

omit ha in
theorem leading_pow_le {c : Nat} (hc : c ≠ 0) (e : Int) {m n : Nat} (hle : m ≤ n)
    (h : leading (c ^ n) (n * e) ≤ maxExponent) : leading (c ^ m) (m * e) ≤ maxExponent := by
  have hroom : (1 : ℚ) < 10 ^ (maxExponent + 1) := one_lt_zpow₀ (by norm_num) (by decide)
  have hnonneg : (0 : ℚ) ≤ c * 10 ^ e := mul_nonneg c.cast_nonneg (ten_zpow_pos e).le
  rw [leading_le_iff (pow_ne_zero n hc), cast_pow_mul] at h
  rw [leading_le_iff (pow_ne_zero m hc), cast_pow_mul]
  by_cases hone : (c : ℚ) * 10 ^ e ≤ 1
  · exact (pow_le_one₀ hnonneg hone).trans_lt hroom
  · exact (pow_le_pow_right₀ (not_le.1 hone).le hle).trans_lt h

theorem inRange_exactPower_of_le {m n : Nat} (hle : m ≤ n) (h : (exactPower a n).InRange) :
    (exactPower a m).InRange := by
  obtain ⟨s, c, e, rfl⟩ := isFinite_iff.1 ha
  obtain ⟨hlow, hhigh⟩ := h
  have hcast : (m : Int) ≤ n := Int.ofNat_le.2 hle
  have hends : min 0 (n * e) ≤ m * e ∧ m * e ≤ max 0 (n * e) := by
    rcases Int.le_total 0 e with he | he
    · have hmul := Int.mul_le_mul_of_nonneg_right hcast he
      have hpos := Int.mul_nonneg (Int.natCast_nonneg m) he
      omega
    · have hmul := Int.mul_le_mul_of_nonpos_right hcast he
      have hneg := Int.mul_nonpos_of_nonneg_of_nonpos (Int.natCast_nonneg m) he
      omega
  have hzero : tinyExponent maxPrecision ≤ 0 ∧ 0 ≤ maxExponent := by decide
  refine ⟨by omega, ?_⟩
  by_cases hc : c = 0
  · subst hc
    cases m with
    | zero => simp [leading]; decide
    | succ m =>
      have hn : n ≠ 0 := by omega
      rw [zero_pow hn, if_pos rfl] at hhigh
      rw [zero_pow m.succ_ne_zero, if_pos rfl]
      omega
  · rw [if_neg (pow_ne_zero n hc)] at hhigh
    rw [if_neg (pow_ne_zero m hc)]
    exact leading_pow_le hc e hle hhigh

end

end Decimal

namespace Arithmetic

open Decimal

variable {memory : Memory} {a b v : Decimal}

/-! ## Memory -/

section

variable {use : Memory.Use} {m n : Nat}

theorem demand_of_fits (h : memory.fits use n) : demand memory use n = .ok () := by
  rw [demand, Decimal.demand, if_pos h]
  rfl

theorem demand_of_not_fits (h : ¬memory.fits use n) :
    demand memory use n = .error (Fault.signal .outOfMemory) := by
  rw [demand, Decimal.demand, if_neg h]
  rfl

theorem ofSignal_demand {α : Type} (a : α) :
    Failure.ofSignal (Decimal.demand memory use n >>= fun _ => .ok a) =
      demand memory use n >>= fun _ => .ok a := by
  rw [demand, Decimal.demand]
  split <;> rfl

theorem demand_ok_bind {α β : Type} (a : α) (f : α → Except Failure β) :
    (demand memory use n >>= fun _ => .ok a) >>= f = demand memory use n >>= fun _ => f a := by
  cases demand memory use n <;> rfl

/-- What is asked for before something longer makes no difference. -/
theorem demand_bind_of_le {α : Type} (h : m ≤ n) (x : Except Failure α) :
    (demand memory use m >>= fun _ => demand memory use n >>= fun _ => x) =
      demand memory use n >>= fun _ => x := by
  by_cases hfits : memory.fits use n
  · rw [demand_of_fits (memory.fits_of_le h hfits)]
    rfl
  · rw [demand_of_not_fits hfits]
    by_cases hfirst : memory.fits use m
    · rw [demand_of_fits hfirst]
      rfl
    · rw [demand_of_not_fits hfirst]
      rfl

end

/-! ## Factorials -/

theorem product_eq_factorial (n : Nat) : product n = n.factorial := by
  induction n with
  | zero => rfl
  | succ n ih => rw [product, ih, Nat.factorial_succ]

theorem exists_of_bind_eq_ok {α β : Type} {x : Except Failure α} {f : α → Except Failure β} {b : β}
    (h : x >>= f = .ok b) : ∃ a, x = .ok a ∧ f a = .ok b := by
  cases x with
  | ok a => exact ⟨a, rfl, h⟩
  | error failure => cases h

theorem factorial_of_toRat (ha : a.isFinite) {n : Nat} (h : a.toRat = n) :
    factorial memory a = demand memory .integer a.integerCount >>= fun _ =>
      demand memory .factorial (Text.digitCount n.factorial) >>= fun _ =>
        .ok (ofInt n.factorial) := by
  have hinteger : a.toRat = (n : Int) := h.trans (Int.cast_natCast n).symm
  have hnonneg : 0 ≤ a.toRat := h ▸ n.cast_nonneg
  rw [factorial, (requireWhole_eq_ok_iff ha).2 ⟨n, hinteger⟩,
    (requirePositive_eq_ok_iff ha).2 hnonneg, integerPart_of_toRat ha memory hinteger,
    ← product_eq_factorial]
  cases demand memory .integer a.integerCount with
  | ok _ => rfl
  | error failure => rfl

theorem exists_natCast_of_nonneg {q : ℚ} {n : Int} (hq : 0 ≤ q) (h : q = n) :
    ∃ m : Nat, q = m := by
  rw [h, Int.cast_nonneg_iff] at hq
  obtain ⟨m, rfl⟩ := Int.eq_ofNat_of_zero_le hq
  exact ⟨m, h.trans (Int.cast_natCast m)⟩

theorem toRat_of_factorial (ha : a.isFinite) (h : factorial memory a = .ok v) :
    ∃ n : Nat, a.toRat = n := by
  obtain ⟨_, hwhole, h⟩ := exists_of_bind_eq_ok h
  obtain ⟨_, hpositive, -⟩ := exists_of_bind_eq_ok h
  obtain ⟨n, hn⟩ := (requireWhole_eq_ok_iff ha).1 hwhole
  exact exists_natCast_of_nonneg ((requirePositive_eq_ok_iff ha).1 hpositive) hn

/-! ## Powers -/

theorem squareAndMultiply_of_ne_zero {result square : Decimal} {n : Nat} (hn : n ≠ 0) :
    squareAndMultiply memory result square n =
      (if n % 2 = 1 then mul memory result square else .ok result) >>= fun next =>
        if n / 2 = 0 then .ok next
        else mul memory square square >>= fun squared =>
          squareAndMultiply memory next squared (n / 2) := by
  rw [squareAndMultiply, if_neg hn]
  by_cases hodd : n % 2 = 1
  · rw [if_pos hodd, if_pos hodd]
  · rw [if_neg hodd, if_neg hodd]

variable (memory) in
theorem mul_exactPower (ha : a.isFinite) {i j : Nat} (h : (exactPower a (i + j)).InRange) :
    mul memory (exactPower a i) (exactPower a j) =
      demand memory .product (powerCount a (i + j)) >>= fun _ => .ok (exactPower a (i + j)) := by
  rw [← exactProduct_exactPower ha] at h
  rw [mul, mul_of_inRange (isFinite_exactPower ha i) (isFinite_exactPower ha j) memory h,
    ofSignal_demand, productCount_exactPower ha, exactProduct_exactPower ha]

variable (memory) in
/-- Multiplying by squares gives the power. The products on the way are exact, and none of them is
longer than the power. -/
theorem squareAndMultiply_exactPower (ha : a.isFinite) {j k n : Nat} (hn : n ≠ 0)
    (h : (exactPower a (j + k * n)).InRange) :
    squareAndMultiply memory (exactPower a j) (exactPower a k) n =
      demand memory .product (powerCount a (j + k * n)) >>= fun _ =>
        .ok (exactPower a (j + k * n)) := by
  induction n using Nat.strongRecOn generalizing j k with
  | ind n ih =>
    have hdigits : j + k * (n % 2) + (k + k) * (n / 2) = j + k * n := by
      rw [Nat.add_assoc, ← Nat.two_mul, Nat.mul_assoc, Nat.mul_left_comm, ← Nat.mul_add,
        Nat.mod_add_div]
    have hrest : n / 2 ≠ 0 → mul memory (exactPower a k) (exactPower a k) >>= (fun squared =>
        squareAndMultiply memory (exactPower a (j + k * (n % 2))) squared (n / 2)) =
          demand memory .product (powerCount a (j + k * n)) >>= fun _ =>
            .ok (exactPower a (j + k * n)) := by
      intro hhalf
      have hsquare : k + k ≤ j + k * n := by
        calc k + k = k * 2 := (Nat.mul_two k).symm
          _ ≤ k * n := Nat.mul_le_mul_left k (by omega)
          _ ≤ j + k * n := Nat.le_add_left _ _
      rw [mul_exactPower memory ha (inRange_exactPower_of_le ha hsquare h), demand_ok_bind]
      rw [← hdigits] at h
      rw [ih (n / 2) (by omega) hhalf h, hdigits]
      exact demand_bind_of_le (powerCount_le ha hsquare) _
    rw [squareAndMultiply_of_ne_zero hn]
    rcases Nat.mod_two_eq_zero_or_one n with hparity | hparity
    · have hhalf : n / 2 ≠ 0 := by omega
      rw [hparity, Nat.mul_zero, Nat.add_zero] at hrest
      rw [if_neg (by omega)]
      change (if n / 2 = 0 then _ else _) = _
      rw [if_neg hhalf]
      exact hrest hhalf
    · have hfirst : j + k ≤ j + k * n :=
        Nat.add_le_add_left (Nat.le_mul_of_pos_right k (Nat.pos_of_ne_zero hn)) j
      rw [hparity, Nat.mul_one] at hrest hdigits
      rw [if_pos hparity, mul_exactPower memory ha (inRange_exactPower_of_le ha hfirst h),
        demand_ok_bind]
      by_cases hhalf : n / 2 = 0
      · rw [if_pos hhalf, ← hdigits, hhalf, Nat.mul_zero, Nat.add_zero]
      · rw [if_neg hhalf, hrest hhalf]
        exact demand_bind_of_le (powerCount_le ha hfirst) _

theorem squareAndMultiply_one (ha : a.isFinite) {n : Nat} (h : (exactPower a n).InRange) :
    squareAndMultiply memory one a n =
      demand memory .product (powerCount a n) >>= fun _ => .ok (exactPower a n) := by
  by_cases hn : n = 0
  · rw [hn, squareAndMultiply, if_pos rfl, demand_of_fits (fits_powerCount_zero ha memory),
      exactPower_zero ha]
    rfl
  · have hpower := squareAndMultiply_exactPower memory ha (j := 0) (k := 1) hn
      (by simpa using h)
    rwa [exactPower_zero ha, exactPower_one ha, Nat.one_mul, Nat.zero_add] at hpower

/-- The minus sign of a number other than zero says that it is negative. -/
theorem isNegative_and_not_isZero (hb : b.isFinite) :
    (b.isNegative && !b.isZero) = decide (b.toRat < 0) := by
  obtain ⟨s, c, e, rfl⟩ := isFinite_iff.1 hb
  rw [Bool.eq_iff_iff, decide_eq_true_eq, ← not_le, toRat_nonneg_iff]
  simp [isNegative, isZero]

theorem power_of_nonneg (hb : b.isFinite) (h : 0 ≤ b.toRat) (precision : Int) (a : Decimal) :
    power memory precision a b = requirePositive a >>= fun _ => requireWhole b >>= fun _ =>
      integerPart memory b >>= fun n => squareAndMultiply memory one a n.natAbs := by
  have hlast (x : Except Failure Decimal) : (x >>= fun result => Except.ok result) = x :=
    bind_pure x
  unfold power
  simp only [isNegative_and_not_isZero hb, decide_eq_true_eq, if_neg (not_lt.2 h), hlast]

variable (memory) in
/-- Behind the conditions, a whole exponent is converted, and the products are taken. -/
theorem power_of_whole (ha : a.isFinite) (hb : b.isFinite) (hbase : 0 ≤ a.toRat) {n : Int}
    (hn : b.toRat = n) (precision : Int) :
    power memory precision a b = demand memory .integer b.integerCount >>= fun _ =>
      squareAndMultiply memory one a n.natAbs >>= fun result =>
        if n < 0 then
          if a.isZero then .error CalcError.divideByZero else div memory precision one result
        else .ok result := by
  rw [power, (requirePositive_eq_ok_iff ha).2 hbase, (requireWhole_eq_ok_iff hb).2 ⟨n, hn⟩,
    integerPart_of_toRat hb memory hn, isNegative_and_not_isZero hb, hn]
  simp only [decide_eq_true_eq, Int.cast_lt_zero]
  cases demand memory .integer b.integerCount with
  | ok _ => rfl
  | error failure => rfl

theorem power_of_toRat (ha : a.isFinite) (hb : b.isFinite) (hbase : 0 ≤ a.toRat) {n : Nat}
    (hn : b.toRat = n) (h : (exactPower a n).InRange) (precision : Int) :
    power memory precision a b = demand memory .integer b.integerCount >>= fun _ =>
      demand memory .product (powerCount a n) >>= fun _ => .ok (exactPower a n) := by
  have hinteger : b.toRat = (n : Int) := hn.trans (Int.cast_natCast n).symm
  rw [power_of_whole memory ha hb hbase hinteger, Int.natAbs_natCast, squareAndMultiply_one ha h]
  simp only [if_neg (Int.not_lt.2 (Int.natCast_nonneg n))]
  exact congrArg (demand memory .integer _ >>= ·) (funext fun _ => bind_pure _)

/-- Only numbers that are not negative have powers, and only whole exponents. -/
theorem toRat_of_power (ha : a.isFinite) (hb : b.isFinite) {precision : Int}
    (h : power memory precision a b = .ok v) : 0 ≤ a.toRat ∧ ∃ n : Int, b.toRat = n := by
  obtain ⟨_, hpositive, h⟩ := exists_of_bind_eq_ok h
  obtain ⟨_, hwhole, -⟩ := exists_of_bind_eq_ok h
  exact ⟨(requirePositive_eq_ok_iff ha).1 hpositive, (requireWhole_eq_ok_iff hb).1 hwhole⟩

end Arithmetic

end DecimalCalculator
