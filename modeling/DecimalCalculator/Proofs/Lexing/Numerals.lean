import DecimalCalculator.Decimal.Notation
import DecimalCalculator.Decimal.Reader
import DecimalCalculator.Proofs.Lexing.Leaves
import DecimalCalculator.Text.Numeral.Lemmas
import Mathlib.Tactic.IntervalCases

/-!
# Numerals in source texts

A number of a source text has no sign and no power of ten, so it is read as a decimal that is not
negative and whose exponent is minus the number of digits after the point. The plain notation of
such a decimal is again a numeral of this kind, and reading it gives the decimal back with the same
coefficient and exponent: zeros at the end are kept on both ways.
-/
namespace DecimalCalculator

open Lexeme

def numeralChars : List Char :=
  ['0', '1', '2', '3', '4', '5', '6', '7', '8', '9', '.']

theorem mem_numeralChars_of_isDigit {c : Char} (h : c.isDigit) : c ∈ numeralChars := by
  obtain ⟨hlow, hhigh⟩ := toNat_of_isDigit h
  rw [← Char.ofNat_toNat c]
  interval_cases c.toNat <;> decide

theorem Lexeme.IsNumeral.subset {text : List Char} (h : IsNumeral text) : text ⊆ numeralChars := by
  intro c hc
  cases h with
  | whole _ hdigits => exact mem_numeralChars_of_isDigit (hdigits c hc)
  | pointed _ hwhole hfraction =>
    rcases List.mem_append.1 hc with hc | hc
    · exact mem_numeralChars_of_isDigit (hwhole c hc)
    · rcases List.mem_cons.1 hc with rfl | hc
      · decide
      · exact mem_numeralChars_of_isDigit (hfraction c hc)

theorem Lexeme.IsNumeral.ne_nil {text : List Char} (h : IsNumeral text) : text ≠ [] := by
  cases h with
  | whole hne _ => exact hne
  | pointed _ _ _ => simp

namespace Decimal

/-! ## Reading -/

theorem isBlank_of_mem_numeralChars {c : Char} (h : c ∈ numeralChars) :
    Text.isBlank c = false := by
  have hall : numeralChars.all (!Text.isBlank ·) := by decide
  simpa only [Bool.not_eq_true'] using List.all_eq_true.1 hall c h

theorem trim_of_subset {cs : List Char} (h : cs ⊆ numeralChars) : Text.trim cs = cs := by
  have hdrop (xs : List Char) (hxs : xs ⊆ numeralChars) : xs.dropWhile Text.isBlank = xs := by
    cases xs with
    | nil => rfl
    | cons x xs =>
      have hblank := isBlank_of_mem_numeralChars (hxs List.mem_cons_self)
      rw [List.dropWhile_cons_of_neg (by simp [hblank])]
  rw [Text.trim, hdrop cs h, hdrop cs.reverse fun c hc => h (List.mem_reverse.1 hc),
    List.reverse_reverse]

/-- Reading leaves the characters of a numeral as they are. -/
theorem significantChars_of_subset {cs : List Char} (h : cs ⊆ numeralChars) :
    significantChars cs = cs := by
  have hall : numeralChars.all fun c => c != '_' && Text.plainDigit c == c := by decide
  have hplain : ∀ c ∈ numeralChars, (c != '_') = true ∧ Text.plainDigit c = c := by
    simpa only [List.all_eq_true, Bool.and_eq_true, beq_iff_eq] using hall
  rw [significantChars, trim_of_subset h, List.filter_eq_self.2 fun c hc => (hplain c (h hc)).1]
  exact (List.map_congr_left fun c hc => (hplain c (h hc)).2).trans (List.map_id cs)

theorem readChars_of_subset {cs : List Char} (hne : cs ≠ []) (h : cs ⊆ numeralChars) :
    readChars cs = readNumeral false cs := by
  obtain ⟨c, rest, rfl⟩ := List.exists_cons_of_ne_nil hne
  have hall : numeralChars.all fun c => c != '-' && c != '+' && c.toLower != 'i' &&
      c.toLower != 'n' && c.toLower != 's' := by
    decide
  have hfirst := List.all_eq_true.1 hall c (h List.mem_cons_self)
  simp only [Bool.and_eq_true, bne_iff_ne] at hfirst
  obtain ⟨⟨⟨⟨hminus, hplus⟩, hi⟩, hn⟩, hs⟩ := hfirst
  have hsign : splitSign (c :: rest) = (false, c :: rest) := by
    unfold splitSign
    split
    · next heq => cases heq; exact absurd rfl hminus
    · next heq => cases heq; exact absurd rfl hplus
    · rfl
  have hnan : nan? false (c.toLower :: rest.map Char.toLower) = none := by
    unfold nan?
    split
    · next heq => exact absurd (List.cons.inj heq).1 hn
    · next heq => exact absurd (List.cons.inj heq).1 hs
    · rfl
  rw [readChars, significantChars_of_subset h, hsign]
  simp [hi, hnan]

theorem readChars_whole {ds : List Char} (hne : ds ≠ []) (hdigits : ∀ c ∈ ds, c.isDigit) :
    readChars ds = .ok (finite false (Text.digitsValue ds) 0) := by
  have htake : ds.takeWhile Char.isDigit = ds := List.takeWhile_eq_self_iff.2 hdigits
  have hdrop : ds.dropWhile Char.isDigit = [] := List.dropWhile_eq_nil_iff.2 hdigits
  have hsubset : ds ⊆ numeralChars := (IsNumeral.whole hne hdigits).subset
  rw [readChars_of_subset hne hsubset, readNumeral, splitNumeral, hdrop]
  simp [htake, hne]

theorem readChars_pointed {whole fraction : List Char} (hne : whole ++ fraction ≠ [])
    (hwhole : ∀ c ∈ whole, c.isDigit) (hfraction : ∀ c ∈ fraction, c.isDigit) :
    readChars (whole ++ '.' :: fraction) =
      .ok (finite false (Text.digitsValue (whole ++ fraction)) (-fraction.length)) := by
  have hnumeral := IsNumeral.pointed hne hwhole hfraction
  have hpoint : ∀ c, ('.' :: fraction).head? = some c → c.isDigit = false := by
    rintro _ ⟨⟩
    rfl
  have hfront := takeWhile_eq_of_stop hwhole hpoint
  have hback := dropWhile_eq_of_stop hwhole hpoint
  have htake : fraction.takeWhile Char.isDigit = fraction := List.takeWhile_eq_self_iff.2 hfraction
  have hdrop : fraction.dropWhile Char.isDigit = [] := List.dropWhile_eq_nil_iff.2 hfraction
  have hempty : (whole.isEmpty && fraction.isEmpty) = false := by
    cases whole with
    | nil => cases fraction with
      | nil => exact absurd rfl hne
      | cons c cs => rfl
    | cons c cs => rfl
  rw [readChars_of_subset hnumeral.ne_nil hnumeral.subset, readNumeral, splitNumeral, hback]
  simp [hfront, htake, hdrop, hempty]

theorem readChars_numeral {text : List Char} (h : IsNumeral text) :
    ∃ coefficient places : Nat, readChars text = .ok (finite false coefficient (-places)) := by
  cases h with
  | whole hne hdigits => exact ⟨_, 0, readChars_whole hne hdigits⟩
  | pointed hne hwhole hfraction => exact ⟨_, _, readChars_pointed hne hwhole hfraction⟩

/-! ## Writing -/

theorem isDigit_of_mem_digits {n : Nat} : ∀ c ∈ Text.digits n, c.isDigit := by
  intro c hc
  rw [Text.digits_eq_toDigits] at hc
  exact Nat.isDigit_of_mem_toDigits (by decide) (by decide) hc

theorem digitsValue_replicate (count : Nat) (ds : List Char) :
    Text.digitsValue (List.replicate count '0' ++ ds) = Text.digitsValue ds := by
  induction count with
  | zero => rfl
  | succ count ih =>
    rw [List.replicate_succ, List.cons_append, Text.digitsValue, Nat.ofDigitChars_cons]
    exact ih

/-- The digits of a decimal with places after the point, cut at the point. -/
theorem plainChars_cut (coefficient : Nat) {places : Nat} (hplaces : places ≠ 0) :
    ∃ whole fraction : List Char, (∀ c ∈ whole, c.isDigit) ∧ (∀ c ∈ fraction, c.isDigit) ∧
      fraction.length = places ∧ Text.digitsValue (whole ++ fraction) = coefficient ∧
      plainChars (finite false coefficient (-places)) = whole ++ '.' :: fraction := by
  obtain ⟨padded, hpadded⟩ : ∃ padded, padded =
      List.replicate (places + 1 - (Text.digits coefficient).length) '0' ++
        Text.digits coefficient := ⟨_, rfl⟩
  have hdigits : ∀ c ∈ padded, c.isDigit := by
    intro c hc
    rw [hpadded] at hc
    rcases List.mem_append.1 hc with hc | hc
    · rw [List.eq_of_mem_replicate hc]
      rfl
    · exact isDigit_of_mem_digits c hc
  have hlength : places < padded.length := by
    rw [hpadded, List.length_append, List.length_replicate]
    omega
  have hvalue : Text.digitsValue padded = coefficient := by
    rw [hpadded, digitsValue_replicate, Text.digitsValue_digits]
  refine ⟨padded.take (padded.length - places), padded.drop (padded.length - places),
    fun c hc => hdigits c (List.mem_of_mem_take hc),
    fun c hc => hdigits c (List.mem_of_mem_drop hc),
    ?_, ?_, ?_⟩
  · rw [List.length_drop]
    omega
  · rw [List.take_append_drop, hvalue]
  · have hnegative : -(places : Int) < 0 := by omega
    have hcount : (-(-(places : Int))).toNat = places := by omega
    rw [plainChars, plainMagnitude, if_pos hnegative, hcount, Text.pointed, if_neg hplaces,
      ← hpadded]
    rfl

theorem plainChars_whole (coefficient : Nat) :
    plainChars (finite false coefficient 0) = Text.digits coefficient := by
  have hscale : scale coefficient 0 = coefficient := by
    unfold scale
    split
    · next h => exact h.symm
    · exact Nat.mul_one coefficient
  rw [plainChars, plainMagnitude, if_neg (by decide), Int.toNat_zero, hscale]
  rfl

theorem digits_ne_nil (n : Nat) : Text.digits n ≠ [] :=
  List.ne_nil_of_length_pos (Text.length_digits n ▸ Text.digitCount_pos n)

theorem isNumeral_plainChars (coefficient places : Nat) :
    IsNumeral (plainChars (finite false coefficient (-places))) := by
  by_cases hplaces : places = 0
  · subst hplaces
    change IsNumeral (plainChars (finite false coefficient 0))
    rw [plainChars_whole]
    exact .whole (digits_ne_nil coefficient) isDigit_of_mem_digits
  · obtain ⟨whole, fraction, hwhole, hfraction, hlength, -, hchars⟩ :=
      plainChars_cut coefficient hplaces
    rw [hchars]
    refine .pointed ?_ hwhole hfraction
    exact List.append_ne_nil_of_right_ne_nil _ (List.ne_nil_of_length_pos (by omega))

/-- The plain notation of what a numeral was read as is read as the same decimal. -/
theorem readChars_plainChars (coefficient places : Nat) :
    readChars (plainChars (finite false coefficient (-places))) =
      .ok (finite false coefficient (-places)) := by
  by_cases hplaces : places = 0
  · subst hplaces
    change readChars (plainChars (finite false coefficient 0)) = _
    rw [plainChars_whole, readChars_whole (digits_ne_nil coefficient) isDigit_of_mem_digits,
      Text.digitsValue_digits]
    rfl
  · obtain ⟨whole, fraction, hwhole, hfraction, hlength, hvalue, hchars⟩ :=
      plainChars_cut coefficient hplaces
    have hne : whole ++ fraction ≠ [] :=
      List.append_ne_nil_of_right_ne_nil _ (List.ne_nil_of_length_pos (by omega))
    rw [hchars, readChars_pointed hne hwhole hfraction, hvalue, hlength]

end Decimal

end DecimalCalculator
