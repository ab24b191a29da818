import DecimalCalculator.Proofs.Arithmetic.Exact
import Mathlib.Algebra.BigOperators.Group.List.Basic
import Mathlib.Algebra.Order.BigOperators.Group.List
import Mathlib.Algebra.Ring.Parity
import Mathlib.Order.Bounds.Basic

/-!
# Sums and products of many terms

The exact sum of a list of decimals is told without an order of its terms: its value is the sum of
their values, its exponent is the lowest of theirs, and it has a minus sign if it is negative or if
all the terms are zeros with a minus sign (`IsSum`). In the exact product values are multiplied,
exponents are added, and the minus signs are counted (`IsProduct`). A decimal is determined by its
value, its exponent and its sign, so there is only one sum and only one product, whatever the order
in which the terms are brought together.
-/
namespace DecimalCalculator

namespace Decimal

/-- The decimal is the sum of some terms with all its digits. -/
structure IsSum (ts : List Decimal) (d : Decimal) : Prop where
  isFinite : d.isFinite
  value : d.toRat = (ts.map toRat).sum
  lowest : IsLeast {e | ∃ t ∈ ts, t.exponent = e} d.exponent
  sign : d.isNegative ↔ d.toRat < 0 ∨ ∀ t ∈ ts, t.isNegative ∧ t.isZero

structure IsProduct (ts : List Decimal) (d : Decimal) : Prop where
  isFinite : d.isFinite
  value : d.toRat = (ts.map toRat).prod
  exponent : d.exponent = (ts.map exponent).sum
  sign : d.isNegative ↔ Odd (ts.countP isNegative)

/-- Terms brought together by an operation, beginning with the last two. -/
def total (f : Decimal → Decimal → Decimal) : List Decimal → Decimal
  | [] => zero
  | [a] => a
  | a :: b :: rest => f a (total f (b :: rest))

/-! ## Uniqueness -/

section

variable {a b d : Decimal} {ts us : List Decimal}

/-- A decimal is determined by its value, its exponent and its sign. -/
theorem eq_of_toRat (ha : a.isFinite) (hb : b.isFinite) (hvalue : a.toRat = b.toRat)
    (hexponent : a.exponent = b.exponent) (hsign : a.isNegative = b.isNegative) : a = b := by
  obtain ⟨s, c, e, rfl⟩ := isFinite_iff.1 ha
  obtain ⟨t, d, f, rfl⟩ := isFinite_iff.1 hb
  obtain rfl : e = f := hexponent
  obtain rfl : s = t := hsign
  have hsigned : signed s c = signed s d := by
    exact_mod_cast mul_right_cancel₀ (ten_zpow_pos e).ne' hvalue
  have habs : (c : Int) = d := by rw [← abs_signed s c, hsigned, abs_signed]
  rw [Int.ofNat_inj.1 habs]

theorem IsSum.unique (h : IsSum ts a) (h' : IsSum ts b) : a = b := by
  have hvalue : a.toRat = b.toRat := h.value.trans h'.value.symm
  refine eq_of_toRat h.isFinite h'.isFinite hvalue (h.lowest.unique h'.lowest) ?_
  rw [Bool.eq_iff_iff, h.sign, h'.sign, hvalue]

theorem IsProduct.unique (h : IsProduct ts a) (h' : IsProduct ts b) : a = b := by
  refine eq_of_toRat h.isFinite h'.isFinite (h.value.trans h'.value.symm)
    (h.exponent.trans h'.exponent.symm) ?_
  rw [Bool.eq_iff_iff, h.sign, h'.sign]

theorem IsSum.perm (h : IsSum ts d) (hperm : us.Perm ts) : IsSum us d where
  isFinite := h.isFinite
  value := h.value.trans (hperm.map toRat).sum_eq.symm
  lowest := by simpa only [hperm.mem_iff] using h.lowest
  sign := by simpa only [hperm.mem_iff] using h.sign

theorem IsProduct.perm (h : IsProduct ts d) (hperm : us.Perm ts) : IsProduct us d where
  isFinite := h.isFinite
  value := h.value.trans (hperm.map toRat).prod_eq.symm
  exponent := h.exponent.trans (hperm.map Decimal.exponent).sum_eq.symm
  sign := by rw [h.sign, hperm.countP_eq]

end

/-! ## Bringing sums together -/

section

variable {a b : Decimal} {ts us : List Decimal}

theorem toRat_of_isZero (h : a.isZero) : a.toRat = 0 := by
  cases a with
  | finite s c e =>
    obtain rfl : c = 0 := by simpa [isZero] using h
    simp [toRat]
  | infinity s => rfl
  | nan s g p => rfl

theorem isNegative_iff (ha : a.isFinite) :
    a.isNegative ↔ a.toRat < 0 ∨ a.isNegative ∧ a.isZero := by
  have hsign := Arithmetic.isNegative_and_not_isZero ha
  by_cases hzero : a.isZero
  · simp [hzero, toRat_of_isZero hzero]
  · have hnegative : a.isNegative = decide (a.toRat < 0) := by simpa [hzero] using hsign
    simp [hnegative, hzero]

theorem isSum_singleton (ha : a.isFinite) : IsSum [a] a where
  isFinite := ha
  value := by simp
  lowest := by simp
  sign := by simpa using isNegative_iff ha

theorem isProduct_singleton (ha : a.isFinite) : IsProduct [a] a where
  isFinite := ha
  value := by simp
  exponent := by simp
  sign := by cases h : a.isNegative <;> simp [h]

theorem exponent_exactSum (ha : a.isFinite) (hb : b.isFinite) :
    (exactSum a b).exponent = min a.exponent b.exponent := by
  obtain ⟨s, c, e, rfl⟩ := isFinite_iff.1 ha
  obtain ⟨t, d, f, rfl⟩ := isFinite_iff.1 hb
  rfl

/-- A sum that is zero has a minus sign only if both terms have one. -/
theorem isNegative_exactSum (ha : a.isFinite) (hb : b.isFinite) :
    (exactSum a b).isNegative ↔
      a.toRat + b.toRat < 0 ∨ a.toRat + b.toRat = 0 ∧ a.isNegative ∧ b.isNegative := by
  obtain ⟨s, c, e, rfl⟩ := isFinite_iff.1 ha
  obtain ⟨t, d, f, rfl⟩ := isFinite_iff.1 hb
  have hpos := ten_zpow_pos (min e f)
  rw [← signed_scale_mul (min_le_left e f) s c, ← signed_scale_mul (min_le_right e f) t d,
    ← add_mul, ← Int.cast_add, ← not_le, mul_nonneg_iff_of_pos_right hpos, mul_eq_zero,
    Int.cast_nonneg_iff, Int.cast_eq_zero, or_iff_left hpos.ne', not_le]
  simp only [exactSum, isNegative]
  generalize signed s _ + signed t _ = total
  by_cases htotal : total = 0
  · simp [htotal]
  · simp [htotal]

theorem IsSum.toRat_of_zeros {d : Decimal} (h : IsSum ts d)
    (hzeros : ∀ t ∈ ts, t.isNegative ∧ t.isZero) : d.toRat = 0 := by
  rw [h.value]
  refine List.sum_eq_zero fun q hq => ?_
  obtain ⟨t, ht, rfl⟩ := List.mem_map.1 hq
  exact toRat_of_isZero (hzeros t ht).2

theorem IsSum.append (ha : IsSum ts a) (hb : IsSum us b) : IsSum (ts ++ us) (exactSum a b) := by
  have hvalue := toRat_exactSum ha.isFinite hb.isFinite
  refine ⟨isFinite_exactSum ha.isFinite hb.isFinite, ?_, ?_, ?_⟩
  · rw [hvalue, ha.value, hb.value, List.map_append, List.sum_append]
  · have hunion := ha.lowest.union hb.lowest
    have hterms : {e | ∃ t ∈ ts, t.exponent = e} ∪ {e | ∃ t ∈ us, t.exponent = e} =
        {e | ∃ t ∈ ts ++ us, t.exponent = e} := by
      ext e
      simp [or_and_right, exists_or]
    rwa [← exponent_exactSum ha.isFinite hb.isFinite, hterms] at hunion
  · rw [isNegative_exactSum ha.isFinite hb.isFinite, hvalue, List.forall_mem_append]
    refine or_congr_right ⟨?_, ?_⟩
    · rintro ⟨hzero, hfirst, hsecond⟩
      rcases ha.sign.1 hfirst with hneg | hts <;> rcases hb.sign.1 hsecond with hneg' | hus
      · linarith
      · linarith [hb.toRat_of_zeros hus]
      · linarith [ha.toRat_of_zeros hts]
      · exact ⟨hts, hus⟩
    · rintro ⟨hts, hus⟩
      refine ⟨?_, ha.sign.2 (.inr hts), hb.sign.2 (.inr hus)⟩
      rw [ha.toRat_of_zeros hts, hb.toRat_of_zeros hus, add_zero]

theorem IsProduct.append (ha : IsProduct ts a) (hb : IsProduct us b) :
    IsProduct (ts ++ us) (exactProduct a b) := by
  have hvalue := toRat_exactProduct ha.isFinite hb.isFinite
  have hexponent : (exactProduct a b).exponent = a.exponent + b.exponent := by
    obtain ⟨s, c, e, rfl⟩ := isFinite_iff.1 ha.isFinite
    obtain ⟨t, d, f, rfl⟩ := isFinite_iff.1 hb.isFinite
    rfl
  have hsign : (exactProduct a b).isNegative = (a.isNegative != b.isNegative) := by
    obtain ⟨s, c, e, rfl⟩ := isFinite_iff.1 ha.isFinite
    obtain ⟨t, d, f, rfl⟩ := isFinite_iff.1 hb.isFinite
    rfl
  refine ⟨isFinite_exactProduct ha.isFinite hb.isFinite, ?_, ?_, ?_⟩
  · rw [hvalue, ha.value, hb.value, List.map_append, List.prod_append]
  · rw [hexponent, ha.exponent, hb.exponent, List.map_append, List.sum_append]
  · rw [hsign, List.countP_append, Nat.odd_add, ← ha.sign, ← Nat.not_odd_iff_even, ← hb.sign]
    cases a.isNegative <;> cases b.isNegative <;> simp

end

/-! ## Totals -/

/-- What an operation makes of several terms is told without an order of them. -/
structure OrderFree (f : Decimal → Decimal → Decimal) (P : List Decimal → Decimal → Prop) :
    Prop where
  singleton : ∀ {a}, a.isFinite → P [a] a
  append : ∀ {ts us a b}, P ts a → P us b → P (ts ++ us) (f a b)
  perm : ∀ {ts us d}, P ts d → us.Perm ts → P us d
  unique : ∀ {ts a b}, P ts a → P ts b → a = b

theorem orderFree_exactSum : OrderFree exactSum IsSum :=
  ⟨isSum_singleton, IsSum.append, IsSum.perm, IsSum.unique⟩

theorem orderFree_exactProduct : OrderFree exactProduct IsProduct :=
  ⟨isProduct_singleton, IsProduct.append, IsProduct.perm, IsProduct.unique⟩

section

variable {f : Decimal → Decimal → Decimal} {P : List Decimal → Decimal → Prop}
  {ts us : List Decimal}

theorem total_cons (f : Decimal → Decimal → Decimal) (a : Decimal) (hne : ts ≠ []) :
    total f (a :: ts) = f a (total f ts) := by
  obtain ⟨b, rest, rfl⟩ := List.exists_cons_of_ne_nil hne
  rfl

theorem OrderFree.total (h : OrderFree f P) (hne : ts ≠ []) (hfinite : ∀ t ∈ ts, t.isFinite) :
    P ts (total f ts) := by
  induction ts with
  | nil => exact absurd rfl hne
  | cons a rest ih =>
    obtain ⟨ha, hrest⟩ := List.forall_mem_cons.1 hfinite
    by_cases hlast : rest = []
    · rw [hlast]
      exact h.singleton ha
    · rw [total_cons f a hlast]
      exact h.append (h.singleton ha) (ih hlast hrest)

theorem OrderFree.total_perm (h : OrderFree f P) (hne : ts ≠ []) (hfinite : ∀ t ∈ ts, t.isFinite)
    (hperm : us.Perm ts) : Decimal.total f us = Decimal.total f ts := by
  have hne' : us ≠ [] := fun hnil => hne (hnil ▸ hperm).nil_eq.symm
  have hfinite' : ∀ u ∈ us, u.isFinite := fun u hu => hfinite u (hperm.mem_iff.1 hu)
  exact h.unique (h.total hne' hfinite') (h.perm (h.total hne hfinite) hperm)

theorem OrderFree.total_concat (h : OrderFree f P) (hne : ts ≠ []) {a : Decimal}
    (hfinite : ∀ t ∈ ts ++ [a], t.isFinite) :
    Decimal.total f (ts ++ [a]) = f (Decimal.total f ts) a := by
  obtain ⟨hts, ha⟩ := List.forall_mem_append.1 hfinite
  refine h.unique (h.total (List.append_ne_nil_of_left_ne_nil hne _) hfinite) ?_
  exact h.append (h.total hne hts) (h.singleton (ha a (List.mem_singleton_self a)))

end

/-! ## Ranges -/

theorem inRange_of_toRat {d : Decimal} (hd : d.isFinite)
    (hlow : tinyExponent maxPrecision ≤ d.exponent) (hhigh : d.exponent ≤ maxExponent)
    (h : |d.toRat| < 10 ^ (maxExponent + 1)) : d.InRange := by
  obtain ⟨s, c, e, rfl⟩ := isFinite_iff.1 hd
  refine ⟨hlow, ?_⟩
  split
  · exact hhigh
  · next hc =>
    rw [leading_le_iff hc]
    rwa [toRat, abs_mul, abs_of_pos (ten_zpow_pos e), ← Int.cast_abs, abs_signed,
      Int.cast_natCast] at h

theorem abs_sum_le (ts : List Decimal) :
    |(ts.map toRat).sum| ≤ (ts.map fun t => |t.toRat|).sum := by
  induction ts with
  | nil => simp
  | cons t ts ih =>
    simp only [List.map_cons, List.sum_cons]
    exact (abs_add_le _ _).trans (add_le_add_right ih _)

theorem sum_abs_le_of_subperm {ts part : List Decimal} (h : part.Subperm ts) :
    (part.map fun t => |t.toRat|).sum ≤ (ts.map fun t => |t.toRat|).sum := by
  obtain ⟨chosen, hperm, hsub⟩ := h
  have hmagnitudes : (chosen.map fun t => |t.toRat|).Sublist (ts.map fun t => |t.toRat|) :=
    hsub.map _
  have hnonneg : ∀ q ∈ ts.map fun t => |t.toRat|, 0 ≤ q := by
    intro q hq
    obtain ⟨t, -, rfl⟩ := List.mem_map.1 hq
    exact abs_nonneg t.toRat
  rw [← (hperm.map fun t => |t.toRat|).sum_eq]
  exact hmagnitudes.sum_le_sum hnonneg

/-- Where the magnitudes of all terms together lie in the range, so does the sum of any of the
terms, in any order. -/
theorem inRange_total_of_subperm {ts part : List Decimal} (hfinite : ∀ t ∈ ts, t.isFinite)
    (hexponent : ∀ t ∈ ts, tinyExponent maxPrecision ≤ t.exponent ∧ t.exponent ≤ maxExponent)
    (hsum : (ts.map fun t => |t.toRat|).sum < 10 ^ (maxExponent + 1)) (hpart : part.Subperm ts) :
    (total exactSum part).InRange := by
  by_cases hne : part = []
  · rw [hne]
    decide
  · have htotal := orderFree_exactSum.total hne fun t ht => hfinite t (hpart.subset ht)
    obtain ⟨⟨t, ht, hlowest⟩, -⟩ := htotal.lowest
    obtain ⟨hlow, hhigh⟩ := hexponent t (hpart.subset ht)
    refine inRange_of_toRat htotal.isFinite (hlowest ▸ hlow) (hlowest ▸ hhigh) ?_
    rw [htotal.value]
    exact ((abs_sum_le part).trans (sum_abs_le_of_subperm hpart)).trans_lt hsum

end Decimal

end DecimalCalculator
