import DecimalCalculator.Proofs.Arithmetic.Words
import DecimalCalculator.Proofs.Evaluation.Pure

/-!
# Bitwise expressions

A tree of bitwise operators, complement signs and groups over numbers is an expression on 64-bit
words in two's complement: its value is the integer of the word that the same tree comes to when
every number in it stands for the word of its integer part (`bitwise_is_word_arithmetic`). A number
that stands alone keeps its fraction, so this needs an operator or a sign somewhere in the tree.

The evaluation narrows the operands of every operator anew. From the numbers on, what is narrowed is
an integer that fits a word, and the operators lead from such integers to such integers
(`Yields`), so it is only at the numbers that a fraction is dropped or a narrowing can fail.
-/
namespace DecimalCalculator

namespace Expr

/-- The tree consists of groups, complement signs and bitwise operators over numbers that can be
narrowed to signed words. -/
inductive IsBitwise : Expr → Prop
  | number {value : Decimal} {n : Int} : Arithmetic.toSigned64 value = .ok n →
    IsBitwise (.number value)
  | group {e : Expr} : IsBitwise e → IsBitwise (.group e)
  | complement {e : Expr} : IsBitwise e → IsBitwise (.complement e)
  | binary {op : Symbol} {left right : Expr} : op.family = .bitwise → IsBitwise left →
    IsBitwise right → IsBitwise (.binary op left right)

/-- There is an operator or a sign in the tree, not only a number and groups around it. -/
def HasOperator : Expr → Prop
  | group e => e.HasOperator
  | complement _ | binary _ _ _ => True
  | _ => False

/-- The word that a bitwise tree comes to, over the words of the integer parts of its numbers. -/
def wordValue : Expr → BitVec 64
  | number value => Arithmetic.word (towardZero value.toRat)
  | group e => e.wordValue
  | complement e => ~~~e.wordValue
  | binary op left right => op.onWords left.wordValue right.wordValue
  | _ => 0

/-- The integer that a bitwise tree comes to, over the integer parts of its numbers, with no bound
on the bits. -/
def integerValue : Expr → Int
  | number value => towardZero value.toRat
  | group e => e.integerValue
  | complement e => e.integerValue.lnot
  | binary op left right => op.onIntegers left.integerValue right.integerValue
  | _ => 0

theorem IsBitwise.isPure {e : Expr} (h : e.IsBitwise) : e.IsPure := by
  induction h with
  | number _ => exact .number _
  | group _ ih => exact .group ih
  | complement _ ih => exact .complement ih
  | binary _ _ _ ihleft ihright => exact .binary ihleft ihright

/-- The result is a decimal that is narrowed to the integer, and that is this integer itself if an
operator has been applied. -/
def Yields (r : Except Failure Decimal) (n : Int) (applied : Prop) : Prop :=
  ∃ a, r = .ok a ∧ Arithmetic.toSigned64 a = .ok n ∧ (applied → a = Decimal.ofInt n)

theorem yields_ofInt {n : Int} (h : Arithmetic.IsSigned64 n) (applied : Prop) :
    Yields (.ok (Decimal.ofInt n)) n applied :=
  ⟨_, rfl, Arithmetic.toSigned64_ofInt h, fun _ => rfl⟩

/-- On integers that fit a word, the words and the integers of a bitwise tree are the same. -/
theorem IsBitwise.word_integerValue {e : Expr} (h : e.IsBitwise) :
    Arithmetic.IsSigned64 e.integerValue ∧ Arithmetic.word e.integerValue = e.wordValue := by
  induction h with
  | number hvalue =>
    obtain ⟨rfl, hn⟩ := Arithmetic.of_toSigned64_eq_ok hvalue
    exact ⟨hn, rfl⟩
  | group _ ih => exact ih
  | complement _ ih =>
    refine ⟨ih.1.lnot, ?_⟩
    rw [integerValue, Arithmetic.word_lnot, ih.2, wordValue]
  | binary hop _ _ ihleft ihright =>
    refine ⟨ihleft.1.onIntegers hop ihright.1, ?_⟩
    rw [integerValue, Arithmetic.word_onIntegers hop, ihleft.2, ihright.2, wordValue]

/-- A bitwise tree is computed without failure, by induction on the tree: every operand is narrowed
to the integer of its part of the tree. -/
theorem IsBitwise.yields {e : Expr} (h : e.IsBitwise) (settings : Settings)
    (values : Bindings Decimal) :
    Yields (e.compute settings values) e.integerValue e.HasOperator := by
  induction h with
  | @number value n hvalue =>
    obtain ⟨rfl, -⟩ := Arithmetic.of_toSigned64_eq_ok hvalue
    exact ⟨value, rfl, hvalue, False.elim⟩
  | group _ ih => exact ih
  | complement h ih =>
    obtain ⟨a, ha, hnarrow, -⟩ := ih
    have hresult := Arithmetic.complement_eq hnarrow
    rw [compute, ha]
    change Yields (Arithmetic.complement a) _ _
    rw [hresult]
    exact yields_ofInt h.word_integerValue.1.lnot _
  | @binary op left right hop hleft hright ihleft ihright =>
    obtain ⟨a, ha, hnarrow, -⟩ := ihleft
    obtain ⟨b, hb, hnarrow', -⟩ := ihright
    have hresult := Arithmetic.bitwise_eq hop hnarrow hnarrow'
    rw [compute, ha, hb, hop]
    change Yields (Arithmetic.bitwise (.symbol op) a b) _ _
    rw [hresult]
    exact yields_ofInt (hleft.word_integerValue.1.onIntegers hop hright.word_integerValue.1) _

/-! ## Runs of complement signs -/

def complementRun (value : Decimal) : Nat → Expr
  | 0 => .number value
  | count + 1 => .complement (complementRun value count)

section

variable {value : Decimal}

theorem spelling_complementRun (count : Nat) :
    (complementRun value count).spelling =
      List.replicate count (.symbol .not) ++ [.number value] := by
  induction count with
  | zero => rfl
  | succ count ih =>
    rw [complementRun, spelling, ih]
    rfl

theorem level_complementRun (count : Nat) : 8 ≤ (complementRun value count).level := by
  cases count <;> simp [complementRun, level]

theorem wellFormed_complementRun (bound count : Nat) :
    (complementRun value count).WellFormed bound := by
  induction count with
  | zero => exact .number value
  | succ count ih => exact .complement ih (level_complementRun count)

theorem depth_complementRun (count : Nat) : (complementRun value count).depth = 0 := by
  induction count with
  | zero => rfl
  | succ count ih => exact ih

theorem isBitwise_complementRun {n : Int} (h : Arithmetic.toSigned64 value = .ok n) (count : Nat) :
    (complementRun value count).IsBitwise := by
  induction count with
  | zero => exact .number h
  | succ count ih => exact .complement ih

/-- Two signs cancel each other. -/
theorem integerValue_complementRun (count : Nat) :
    (complementRun value count).integerValue =
      if count % 2 = 0 then towardZero value.toRat else -towardZero value.toRat - 1 := by
  induction count with
  | zero => rfl
  | succ count ih =>
    rw [complementRun, integerValue, ih, Arithmetic.lnot_eq]
    split_ifs <;> omega

end

end Expr

/-- Bitwise expressions are arithmetic on 64-bit words. The evaluation of a tree of `^`, `|`, `&`,
`~` and groups over numbers that can be narrowed, with an operator in it and no deeper than is
allowed, always returns: with the integer, written with the exponent zero, of the word to which the
tree comes over the words of the integer parts of its numbers. This is also what it comes to over
the integers themselves, with no bound on their bits. So an even run of `~` in front of a number
leaves its integer part, and an odd one the negative of that less one. -/
theorem bitwise_is_word_arithmetic (settings : Settings) (values : Bindings Decimal)
    (functions : Bindings (List Token)) :
    (∀ (e : Expr) (bodyBound : Nat), e.IsBitwise → e.WellFormed bodyBound → e.HasOperator →
      e.depth < settings.maxDepth →
      (evaluate settings e.spelling values functions).result =
          .ok (Decimal.ofInt e.wordValue.toInt) ∧
        e.integerValue = e.wordValue.toInt) ∧
    ∀ (value : Decimal) (n : Int) (count : Nat), Arithmetic.toSigned64 value = .ok n → 0 < count →
      (evaluate settings (List.replicate count (.symbol .not) ++ [.number value]) values
        functions).result =
      .ok (Decimal.ofInt
        (if count % 2 = 0 then towardZero value.toRat else -towardZero value.toRat - 1)) := by
  have htree (e : Expr) (bodyBound : Nat) (h : e.IsBitwise) (hwf : e.WellFormed bodyBound)
      (hop : e.HasOperator) (hdepth : e.depth < settings.maxDepth) :
      (evaluate settings e.spelling values functions).result =
        .ok (Decimal.ofInt e.integerValue) := by
    obtain ⟨a, ha, -, happlied⟩ := h.yields settings values
    rw [evaluate_of_isPure h.isPure hwf hdepth, ha, happlied hop]
  constructor
  · intro e bodyBound h hwf hop hdepth
    obtain ⟨hfits, hword⟩ := h.word_integerValue
    have hsame : e.integerValue = e.wordValue.toInt := by rw [← hword, Arithmetic.toInt_word hfits]
    rw [← hsame]
    exact ⟨htree e bodyBound h hwf hop hdepth, rfl⟩
  · intro value n count hvalue hcount
    obtain ⟨more, rfl⟩ := Nat.exists_eq_add_of_le' hcount
    have hrun := htree (Expr.complementRun value (more + 1)) 0
      (Expr.isBitwise_complementRun hvalue _) (Expr.wellFormed_complementRun 0 _) trivial
      (by rw [Expr.depth_complementRun]; exact settings.maxDepth_pos)
    rwa [Expr.spelling_complementRun, Expr.integerValue_complementRun] at hrun

/-- `~0.9 ^ (9223372036854775807 & 5)` is the word of all ones with the bits of five turned, and
`~~~5.9` is `-6`. -/
theorem bitwise_of_fractions :
    (evaluate Settings.default
        [.symbol .not, .number (.finite false 9 (-1)), .symbol .xor, .symbol .parenOpen,
          .number (.finite false 9223372036854775807 0), .symbol .and,
          .number (.finite false 5 0), .symbol .parenClose] .empty .empty).result =
      .ok (.finite true 6 0) ∧
    (evaluate Settings.default
        [.symbol .not, .symbol .not, .symbol .not, .number (.finite false 59 (-1))] .empty
        .empty).result =
      .ok (.finite true 6 0) := by
  obtain ⟨htree, hrun⟩ := bitwise_is_word_arithmetic Settings.default .empty .empty
  constructor
  · have hbits := htree (.binary .xor (.complement (.number (.finite false 9 (-1))))
      (.group (.binary .and (.number (.finite false 9223372036854775807 0))
        (.number (.finite false 5 0))))) 0
      (.binary rfl (.complement (.number rfl)) (.group (.binary rfl (.number rfl) (.number rfl))))
      (.binary (by decide) (by decide) (.complement (.number _) (by decide)) (by decide) id
        (.group (.binary (by decide) (by decide) (.number _) (by decide) id (.number _)
          (by decide))) (by decide))
      trivial (by decide)
    exact hbits.1.trans (by decide +kernel)
  · exact (hrun (.finite false 59 (-1)) 5 3 rfl (by decide)).trans (by decide +kernel)

end DecimalCalculator
