import DecimalCalculator.Text.Numeral

/-!
# Laws of numerals

However a number is cut in halves, its digits are those of the usual notation
(`digits_eq_toDigits`), so reading them gives the number back (`digitsValue_digits`). How many
digits a number has says between which powers of ten it lies (`digitCount_le_iff`), and is the
length of its notation (`length_digits`).
-/
namespace DecimalCalculator.Text

theorem shiftLeft_one_succ (level : Nat) : 1 <<< (level + 1) = 1 <<< level + 1 <<< level := by
  simp only [Nat.shiftLeft_succ]
  omega

/-! ## Halving -/

/-- The last `width` digits of a number, zeros in front included. -/
def lastDigits : Nat → Nat → List Char
  | 0, _ => []
  | width + 1, n => lastDigits width (n / 10) ++ [Nat.digitChar (n % 10)]

theorem lastDigits_mod (width n : Nat) :
    lastDigits width (n % powerOfTen width) = lastDigits width n := by
  induction width generalizing n with
  | zero => rfl
  | succ width ih =>
    have hdiv : n % powerOfTen (width + 1) / 10 = n / 10 % powerOfTen width := by
      rw [powerOfTen_succ, Nat.mul_comm, Nat.mod_mul_right_div_self]
    have hmod : n % powerOfTen (width + 1) % 10 = n % 10 :=
      Nat.mod_mod_of_dvd n ⟨powerOfTen width, by rw [powerOfTen_succ, Nat.mul_comm]⟩
    rw [lastDigits, lastDigits, hdiv, hmod, ih]

theorem lastDigits_add (a b n : Nat) :
    lastDigits (a + b) n = lastDigits a (n / powerOfTen b) ++ lastDigits b n := by
  induction b generalizing n with
  | zero => simp [lastDigits, powerOfTen]
  | succ b ih =>
    rw [Nat.add_succ, lastDigits, ih, lastDigits, powerOfTen_succ, Nat.mul_comm,
      ← Nat.div_div_eq_div_mul, List.append_assoc]

theorem prependLast_eq (level n : Nat) (tail : List Char) :
    prependLast level n tail = lastDigits (1 <<< level) n ++ tail := by
  induction level generalizing n tail with
  | zero => rfl
  | succ level ih =>
    rw [prependLast, ih, ih, lastDigits_mod, shiftLeft_one_succ, lastDigits_add,
      List.append_assoc]

/-- Cutting the last digits off a number that has more of them cuts them off its notation. -/
theorem toDigits_append_lastDigits {width n : Nat} (h : powerOfTen width ≤ n) :
    Nat.toDigits 10 (n / powerOfTen width) ++ lastDigits width n = Nat.toDigits 10 n := by
  induction width generalizing n with
  | zero => simp [lastDigits, powerOfTen]
  | succ width ih =>
    rw [powerOfTen_succ] at h
    have htop : powerOfTen width ≤ n / 10 := (Nat.le_div_iff_mul_le (by decide)).2 h
    have hpos : 0 < n / 10 := Nat.lt_of_lt_of_le (powerOfTen_pos width) htop
    have hlast : Nat.toDigits 10 (n % 10) = [Nat.digitChar (n % 10)] :=
      Nat.toDigits_of_lt_base (Nat.mod_lt n (by decide))
    rw [lastDigits, powerOfTen_succ, Nat.mul_comm, ← Nat.div_div_eq_div_mul, ← List.append_assoc,
      ih htop, ← hlast, Nat.toDigits_append_toDigits (by decide) hpos (Nat.mod_lt n (by decide)),
      Nat.div_add_mod]

theorem prependDigits_eq {level n : Nat} (h : n < powerOfTen (1 <<< level)) (tail : List Char) :
    prependDigits level n tail = Nat.toDigits 10 n ++ tail := by
  induction level generalizing n tail with
  | zero =>
    have hlt : n < 10 := h
    rw [prependDigits, Nat.toDigits_of_lt_base hlt, List.singleton_append]
  | succ level ih =>
    rw [prependDigits]
    split
    · next hlt => exact ih hlt tail
    · next hge =>
      have hle := Nat.le_of_not_lt hge
      rw [shiftLeft_one_succ, powerOfTen_add] at h
      rw [ih (Nat.div_lt_of_lt_mul h), prependLast_eq, lastDigits_mod, ← List.append_assoc,
        toDigits_append_lastDigits hle]

/-- A number has no more digits than the room that halving starts with. -/
theorem lt_powerOfTen_shiftLeft_log2 (n : Nat) : n < powerOfTen (1 <<< (n.log2.log2 + 1)) := by
  rw [Nat.one_shiftLeft]
  exact Nat.lt_of_lt_of_le Nat.lt_log2_self
    (Nat.le_trans (Nat.pow_le_pow_right (by decide) Nat.lt_log2_self)
      (Nat.pow_le_pow_left (by decide) _))

theorem digits_eq_toDigits (n : Nat) : digits n = Nat.toDigits 10 n := by
  rw [digits, prependDigits_eq (lt_powerOfTen_shiftLeft_log2 n), List.append_nil]

theorem digitsValue_digits (n : Nat) : digitsValue (digits n) = n := by
  rw [digits_eq_toDigits]
  exact Nat.ofDigitChars_toDigits (by decide) (by decide)

/-! ## Counting -/

theorem lt_countAbove (n k room : Nat) : k < countAbove n k room := by
  fun_induction countAbove n k room with
  | case1 k => omega
  | case2 k room _ ih => omega
  | case3 k room _ => omega

theorem countAbove_le_iff {n k room m : Nat} (hroom : n < powerOfTen (k + room + 1)) (hk : k < m) :
    countAbove n k room ≤ m ↔ n < powerOfTen m := by
  fun_induction countAbove n k room with
  | case1 k => exact ⟨fun _ => Nat.lt_of_lt_of_le hroom (powerOfTen_le hk), fun _ => hk⟩
  | case2 k room h ih =>
    by_cases hm : k + 1 < m
    · exact ih (by rwa [Nat.add_right_comm k 1 room]) hm
    · have hge : powerOfTen m ≤ n := Nat.le_trans (powerOfTen_le (Nat.le_of_not_lt hm)) h
      have hlt := lt_countAbove n (k + 1) room
      omega
  | case3 k room h =>
    exact ⟨fun _ => Nat.lt_of_lt_of_le (Nat.lt_of_not_le h) (powerOfTen_le hk), fun _ => hk⟩

/-- A power of ten whose exponent is `643 / 2136` of that of a power of two is not above it. -/
theorem powerOfTen_le_shiftLeft (bits : Nat) : powerOfTen (bits * 643 / 2136) ≤ 1 <<< bits := by
  have hbase : Nat.pow 10 643 ≤ Nat.pow 2 2136 := by decide +kernel
  rw [Nat.one_shiftLeft]
  generalize hk : bits * 643 / 2136 = k
  have hratio : 2136 * k ≤ bits * 643 := by omega
  have hroot : 643 ≠ 0 := by decide
  generalize 643 = p at hbase hratio hroot
  generalize 2136 = q at hbase hratio
  refine (Nat.pow_le_pow_iff_left hroot).1 ?_
  calc Nat.pow (powerOfTen k) p = Nat.pow (Nat.pow 10 p) k := Nat.pow_right_comm 10 k p
    _ ≤ Nat.pow (Nat.pow 2 q) k := Nat.pow_le_pow_left hbase k
    _ = Nat.pow 2 (q * k) := (Nat.pow_mul 2 q k).symm
    _ ≤ Nat.pow 2 (bits * p) := Nat.pow_le_pow_right (by decide) hratio
    _ = Nat.pow (Nat.pow 2 bits) p := Nat.pow_mul 2 bits p

theorem powerOfTen_le_of_log2 {n : Nat} (hn : n ≠ 0) : powerOfTen (n.log2 * 643 / 2136) ≤ n := by
  refine Nat.le_trans (powerOfTen_le_shiftLeft n.log2) ?_
  rw [Nat.one_shiftLeft]
  exact Nat.log2_self_le hn

theorem lt_powerOfTen_log2 (n : Nat) : n < powerOfTen (n.log2 + 1) :=
  Nat.lt_of_lt_of_le Nat.lt_log2_self (Nat.pow_le_pow_left (by decide) _)

theorem digitCount_le_iff {n k : Nat} (hk : 0 < k) : digitCount n ≤ k ↔ n < powerOfTen k := by
  by_cases h : n.log2 * 643 / 2136 < k
  · refine countAbove_le_iff ?_ h
    rw [Nat.add_sub_cancel' (by omega)]
    exact lt_powerOfTen_log2 n
  · have hn : n ≠ 0 := by
      rintro rfl
      exact h (by simpa using hk)
    have hge := Nat.le_trans (powerOfTen_le (Nat.le_of_not_lt h)) (powerOfTen_le_of_log2 hn)
    have hlt := lt_countAbove n (n.log2 * 643 / 2136) (n.log2 - n.log2 * 643 / 2136)
    rw [digitCount]
    omega

theorem digitCount_pos (n : Nat) : 0 < digitCount n :=
  Nat.zero_lt_of_lt (lt_countAbove n _ _)

theorem digitCount_le_of_le {m n : Nat} (h : m ≤ n) : digitCount m ≤ digitCount n := by
  have hpos := digitCount_pos n
  rw [digitCount_le_iff hpos]
  exact Nat.lt_of_le_of_lt h ((digitCount_le_iff hpos).1 (Nat.le_refl _))

theorem lt_powerOfTen_digitCount (n : Nat) : n < powerOfTen (digitCount n) :=
  (digitCount_le_iff (digitCount_pos n)).1 (Nat.le_refl _)

theorem powerOfTen_le_self {n : Nat} (hn : n ≠ 0) : powerOfTen (digitCount n - 1) ≤ n := by
  refine Nat.le_of_not_lt fun hlt => ?_
  have hpos := digitCount_pos n
  by_cases hone : 0 < digitCount n - 1
  · have hle := (digitCount_le_iff hone).2 hlt
    omega
  · rw [Nat.eq_zero_of_not_pos hone] at hlt
    exact hn (Nat.lt_one_iff.1 hlt)

theorem digitCount_mul_powerOfTen {n : Nat} (hn : n ≠ 0) (places : Nat) :
    digitCount (n * powerOfTen places) = digitCount n + places := by
  have hpos := digitCount_pos n
  refine Nat.le_antisymm ?_ (Nat.le_of_not_lt fun hlt => ?_)
  · rw [digitCount_le_iff (by omega), powerOfTen_add]
    exact Nat.mul_lt_mul_of_pos_right (lt_powerOfTen_digitCount n) (powerOfTen_pos places)
  · refine Nat.not_lt.2 (Nat.mul_le_mul_right (powerOfTen places) (powerOfTen_le_self hn)) ?_
    rw [← powerOfTen_add]
    exact Nat.lt_of_lt_of_le (lt_powerOfTen_digitCount _) (powerOfTen_le (by omega))

theorem digit_lt_ten {c : Char} (h : c.isDigit = true) : c.toNat - '0'.toNat < 10 := by
  simp only [Char.isDigit, Bool.and_eq_true, decide_eq_true_eq] at h
  have hle : c.toNat ≤ '9'.toNat := UInt32.le_iff_toNat_le.1 h.2
  have hnine : '9'.toNat = 57 := rfl
  have hzero : '0'.toNat = 48 := rfl
  omega

theorem ofDigitChars_lt {ds : List Char} (h : ∀ c ∈ ds, c.isDigit = true) (init : Nat) :
    Nat.ofDigitChars 10 ds init < (init + 1) * powerOfTen ds.length := by
  induction ds generalizing init with
  | nil => simp [powerOfTen]
  | cons c ds ih =>
    have hdigit := digit_lt_ten (h c List.mem_cons_self)
    rw [Nat.ofDigitChars_cons, List.length_cons, powerOfTen_succ, Nat.mul_comm (powerOfTen _) 10,
      ← Nat.mul_assoc]
    exact Nat.lt_of_lt_of_le (ih (fun d hd => h d (List.mem_cons_of_mem c hd)) _)
      (Nat.mul_le_mul_right _ (by omega))

theorem digitCount_digitsValue_le {ds : List Char} (hne : ds ≠ [])
    (h : ∀ c ∈ ds, c.isDigit = true) : digitCount (digitsValue ds) ≤ ds.length := by
  rw [digitCount_le_iff (List.length_pos_iff.2 hne)]
  exact Nat.lt_of_lt_of_eq (ofDigitChars_lt h 0) (Nat.one_mul _)

theorem length_digits (n : Nat) : (digits n).length = digitCount n := by
  have hiff (k : Nat) (hk : 0 < k) : (digits n).length ≤ k ↔ digitCount n ≤ k := by
    rw [digits_eq_toDigits, digitCount_le_iff hk]
    exact Nat.length_toDigits_le_iff (by decide) hk
  have hpos : 0 < (digits n).length := by
    rw [digits_eq_toDigits]
    exact Nat.length_toDigits_pos
  exact Nat.le_antisymm ((hiff _ (digitCount_pos n)).2 (Nat.le_refl _))
    ((hiff _ hpos).1 (Nat.le_refl _))

end DecimalCalculator.Text
