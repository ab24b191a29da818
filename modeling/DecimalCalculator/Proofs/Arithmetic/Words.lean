import DecimalCalculator.Arithmetic.Operator
import DecimalCalculator.Proofs.Arithmetic.Narrowing
import DecimalCalculator.Proofs.Syntax.Expr
import Mathlib.Data.Int.Bitwise

/-!
# Integers and words

The bitwise operations are made on words of 64 bits. In two's complement an integer has a bit at
every place, and from some place on all its bits are its sign; a word keeps the first 64 of them
(`getLsbD_word`). An integer fits a signed word exactly if its bits are its sign from the place 63
on (`isSigned64_iff`). An operation that goes bit by bit keeps this up, so on integers that fit it
makes no difference whether it is made on the words or on the integers themselves, of whatever size:
the result fits again, and nothing is lost (`bitwise_eq`, `complement_eq`).
-/
namespace DecimalCalculator

/-- What a bitwise operator does to integers, all of their bits included. -/
def Symbol.onIntegers : Symbol → Int → Int → Int
  | .xor => Int.xor
  | .or => Int.lor
  | .and => Int.land
  | _ => fun _ _ => 0

def Symbol.onWords : Symbol → BitVec 64 → BitVec 64 → BitVec 64
  | .xor => (· ^^^ ·)
  | .or => (· ||| ·)
  | .and => (· &&& ·)
  | _ => fun _ _ => 0

theorem Symbol.eq_of_family_bitwise {op : Symbol} (h : op.family = .bitwise) :
    op = .xor ∨ op = .or ∨ op = .and := by
  cases op <;> simp [family] at h <;> simp

namespace Arithmetic

def IsSigned64 (n : Int) : Prop :=
  -2 ^ 63 ≤ n ∧ n < 2 ^ 63

/-! ## Bits -/

theorem getLsbD_word (n : Int) (i : Nat) :
    (word n).getLsbD i = (decide (i < 64) && n.testBit i) := by
  cases n with
  | ofNat m => simp [word, BitVec.getLsbD_ofNat, Int.testBit]
  | negSucc m =>
    rw [word, BitVec.ofInt_negSucc_eq_not_ofNat, BitVec.getLsbD_not, BitVec.getLsbD_ofNat]
    by_cases hi : i < 64 <;> simp [hi, Int.testBit]

theorem lt_two_pow_iff {m k : Nat} : m < 2 ^ k ↔ ∀ i, k ≤ i → m.testBit i = false := by
  constructor
  · intro h i hi
    exact Nat.testBit_lt_two_pow (Nat.lt_of_lt_of_le h (Nat.pow_le_pow_right (by omega) hi))
  · exact Nat.lt_pow_two_of_testBit m

/-- The bits of a natural number end in zeros. -/
theorem eq_false_of_testBit {m k : Nat} {sign : Bool} (h : ∀ i, k ≤ i → m.testBit i = sign) :
    sign = false := by
  have hlarge : m.testBit (max k m) = false :=
    Nat.testBit_lt_two_pow (Nat.lt_of_lt_of_le Nat.lt_two_pow_self
      (Nat.pow_le_pow_right (by omega) (Nat.le_max_right k m)))
  rw [← h (max k m) (Nat.le_max_left k m), hlarge]

theorem isSigned64_iff {n : Int} : IsSigned64 n ↔ ∃ sign, ∀ i, 63 ≤ i → n.testBit i = sign := by
  cases n with
  | ofNat m =>
    have hrange : IsSigned64 (Int.ofNat m) ↔ m < 2 ^ 63 := by
      simp only [IsSigned64, Int.ofNat_eq_natCast]
      omega
    rw [hrange, lt_two_pow_iff]
    constructor
    · exact fun h => ⟨false, h⟩
    · rintro ⟨sign, h⟩
      obtain rfl := eq_false_of_testBit h
      exact h
  | negSucc m =>
    have hrange : IsSigned64 (Int.negSucc m) ↔ m < 2 ^ 63 := by
      simp only [IsSigned64, Int.negSucc_eq]
      omega
    rw [hrange, lt_two_pow_iff]
    constructor
    · exact fun h => ⟨true, fun i hi => by simp [Int.testBit, h i hi]⟩
    · rintro ⟨sign, h⟩
      have hflip : ∀ i, 63 ≤ i → m.testBit i = !sign := by
        intro i hi
        have hbit := h i hi
        simp only [Int.testBit] at hbit
        rw [← hbit, Bool.not_not]
      rwa [eq_false_of_testBit hflip] at hflip

theorem toInt_word {n : Int} (h : IsSigned64 n) : (word n).toInt = n :=
  BitVec.toInt_ofInt_eq_self (by decide) h.1 h.2

/-! ## Operations bit by bit -/

theorem word_lnot (n : Int) : word n.lnot = ~~~word n := by
  refine BitVec.eq_of_getLsbD_eq fun i hi => ?_
  rw [BitVec.getLsbD_not, getLsbD_word, getLsbD_word, Int.testBit_lnot]
  simp [hi]

theorem IsSigned64.lnot {n : Int} (h : IsSigned64 n) : IsSigned64 n.lnot := by
  obtain ⟨sign, hsign⟩ := isSigned64_iff.1 h
  exact isSigned64_iff.2 ⟨!sign, fun i hi => by rw [Int.testBit_lnot, hsign i hi]⟩

theorem lnot_eq (n : Int) : n.lnot = -n - 1 := by
  cases n with
  | ofNat m =>
    change Int.negSucc m = _
    simp only [Int.negSucc_eq, Int.ofNat_eq_natCast]
    omega
  | negSucc m =>
    change (m : Int) = _
    simp only [Int.negSucc_eq]
    omega

theorem word_onIntegers {op : Symbol} (hop : op.family = .bitwise) (m n : Int) :
    word (op.onIntegers m n) = op.onWords (word m) (word n) := by
  refine BitVec.eq_of_getLsbD_eq fun i hi => ?_
  obtain rfl | rfl | rfl := Symbol.eq_of_family_bitwise hop
  · simp only [Symbol.onIntegers, Symbol.onWords, BitVec.getLsbD_xor, getLsbD_word,
      Int.testBit_lxor, hi, decide_true, Bool.true_and]
  · simp only [Symbol.onIntegers, Symbol.onWords, BitVec.getLsbD_or, getLsbD_word,
      Int.testBit_lor, hi, decide_true, Bool.true_and]
  · simp only [Symbol.onIntegers, Symbol.onWords, BitVec.getLsbD_and, getLsbD_word,
      Int.testBit_land, hi, decide_true, Bool.true_and]

theorem IsSigned64.onIntegers {op : Symbol} (hop : op.family = .bitwise) {m n : Int}
    (hm : IsSigned64 m) (hn : IsSigned64 n) : IsSigned64 (op.onIntegers m n) := by
  obtain ⟨s, hs⟩ := isSigned64_iff.1 hm
  obtain ⟨t, ht⟩ := isSigned64_iff.1 hn
  rw [isSigned64_iff]
  obtain rfl | rfl | rfl := Symbol.eq_of_family_bitwise hop
  · exact ⟨s ^^ t, fun i hi => by rw [Symbol.onIntegers, Int.testBit_lxor, hs i hi, ht i hi]⟩
  · exact ⟨s || t, fun i hi => by rw [Symbol.onIntegers, Int.testBit_lor, hs i hi, ht i hi]⟩
  · exact ⟨s && t, fun i hi => by rw [Symbol.onIntegers, Int.testBit_land, hs i hi, ht i hi]⟩

/-! ## Narrowed decimals -/

/-- What a decimal is narrowed to is its value without the fraction, and fits a signed word. -/
theorem of_toSigned64_eq_ok {a : Decimal} {n : Int} (h : toSigned64 a = .ok n) :
    n = towardZero a.toRat ∧ IsSigned64 n := by
  have ha : a.isFinite := by
    cases a with
    | finite s c e => rfl
    | _ => cases h
  rw [toSigned64, narrow_eq (by decide) (by decide) ha, inRange] at h
  split_ifs at h with hzero hrange
  cases h
  exact ⟨rfl, by simp only [IsSigned64]; omega⟩

/-- An integer that fits is narrowed to itself. -/
theorem toSigned64_ofInt {n : Int} (h : IsSigned64 n) : toSigned64 (Decimal.ofInt n) = .ok n := by
  have hfinite : (Decimal.ofInt n).isFinite := rfl
  have hzero : (Decimal.ofInt n).isHighZero = false := by simp [Decimal.ofInt, Decimal.isHighZero]
  have hwhole : towardZero (Decimal.ofInt n).toRat = n := by
    rw [Decimal.toRat_ofInt]
    simp [towardZero]
  obtain ⟨hlow, hhigh⟩ := h
  rw [toSigned64, narrow_eq (by decide) (by decide) hfinite, hzero, hwhole, inRange,
    if_neg Bool.false_ne_true, if_pos (by omega)]

theorem complement_eq {a : Decimal} {n : Int} (h : toSigned64 a = .ok n) :
    complement a = .ok (Decimal.ofInt n.lnot) := by
  have hn := (of_toSigned64_eq_ok h).2
  have hword : (~~~word n).toInt = n.lnot := by rw [← word_lnot, toInt_word hn.lnot]
  rw [complement, h, ← hword]
  rfl

theorem bitwise_eq {op : Symbol} (hop : op.family = .bitwise) {a b : Decimal} {m n : Int}
    (ha : toSigned64 a = .ok m) (hb : toSigned64 b = .ok n) :
    bitwise (.symbol op) a b = .ok (Decimal.ofInt (op.onIntegers m n)) := by
  have hm := (of_toSigned64_eq_ok ha).2
  have hn := (of_toSigned64_eq_ok hb).2
  have hword : (op.onWords (word m) (word n)).toInt = op.onIntegers m n := by
    rw [← word_onIntegers hop, toInt_word (hm.onIntegers hop hn)]
  rw [bitwise, ha, hb, ← hword]
  obtain rfl | rfl | rfl := Symbol.eq_of_family_bitwise hop <;> rfl

end Arithmetic

end DecimalCalculator
