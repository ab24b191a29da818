import DecimalCalculator.Arithmetic.Operator
import DecimalCalculator.Arithmetic.Power
import Mathlib.Tactic.SplitIfs

/-!
# Failures of the arithmetic

An operation on numbers fails because of its operands: a zero divisor, a number of the wrong kind,
or a fault of the arithmetic itself. It never fails because something is nested too deeply, or
because of a name or of the form of an expression. Every operation has its line here, built from
the lines of the operations that it uses.
-/
namespace DecimalCalculator

def Failure.IsArithmetic : Failure → Prop
  | .calculation .divideByZero => True
  | .calculation .notPositive => True
  | .calculation .notWhole => True
  | .calculation (.notPrimitive _) => True
  | .fault _ => True
  | _ => False

namespace Arithmetic

variable {α β : Type} (memory : Memory)

/-- If the computation fails, then with an arithmetic failure. -/
def FailsArithmetically (x : Except Failure α) : Prop :=
  ∀ failure, x = .error failure → failure.IsArithmetic

theorem failsArithmetically_ok (a : α) : FailsArithmetically (.ok a) := by
  intro failure h
  cases h

theorem failsArithmetically_error {failure : Failure} (h : failure.IsArithmetic) :
    FailsArithmetically (.error failure : Except Failure α) := by
  rintro _ ⟨⟩
  exact h

theorem FailsArithmetically.bind {x : Except Failure α} {f : α → Except Failure β}
    (hx : FailsArithmetically x) (hf : ∀ a, FailsArithmetically (f a)) :
    FailsArithmetically (x >>= f) := by
  cases x with
  | ok a => exact hf a
  | error failure => exact failsArithmetically_error (hx failure rfl)

theorem failsArithmetically_ofSignal (x : Except Decimal.Signal α) :
    FailsArithmetically (Failure.ofSignal x) := by
  cases x with
  | ok a => exact failsArithmetically_ok a
  | error s => exact failsArithmetically_error trivial

theorem failsArithmetically_demand (use : Memory.Use) (digits : Nat) :
    FailsArithmetically (demand memory use digits) :=
  failsArithmetically_ofSignal _

theorem failsArithmetically_div (precision : Int) (a b : Decimal) :
    FailsArithmetically (div memory precision a b) := by
  unfold div
  split_ifs
  · exact failsArithmetically_error trivial
  · exact failsArithmetically_error trivial
  · exact failsArithmetically_error trivial
  · exact failsArithmetically_ofSignal _

theorem failsArithmetically_requireWhole (a : Decimal) : FailsArithmetically (requireWhole a) := by
  refine .bind ?_ fun whole => ?_
  · unfold isWhole
    split_ifs
    · exact failsArithmetically_error trivial
    · exact failsArithmetically_ok _
  · cases whole with
    | true => exact failsArithmetically_ok _
    | false => exact failsArithmetically_error trivial

theorem failsArithmetically_requirePositive (a : Decimal) :
    FailsArithmetically (requirePositive a) := by
  unfold requirePositive
  split_ifs
  · exact failsArithmetically_error trivial
  · exact failsArithmetically_ok _

theorem failsArithmetically_integerPart (a : Decimal) :
    FailsArithmetically (integerPart memory a) := by
  unfold integerPart
  split
  · exact .bind (failsArithmetically_demand _ _ _) fun _ => failsArithmetically_ok _
  · exact failsArithmetically_error trivial

theorem failsArithmetically_narrow (primitive : String) (low high : Int) (a : Decimal) :
    FailsArithmetically (narrow primitive low high a) := by
  unfold narrow
  split
  · dsimp only
    split_ifs
    · exact failsArithmetically_error trivial
    · exact failsArithmetically_error trivial
    · exact failsArithmetically_ok _
  · exact failsArithmetically_error trivial

theorem failsArithmetically_complement (a : Decimal) : FailsArithmetically (complement a) :=
  .bind (failsArithmetically_narrow _ _ _ a) fun _ => failsArithmetically_ok _

theorem failsArithmetically_complements (count : Nat) (a : Decimal) :
    FailsArithmetically (complements count a) := by
  induction count generalizing a with
  | zero => exact failsArithmetically_ok a
  | succ count ih => exact .bind (failsArithmetically_complement a) ih

theorem failsArithmetically_bitwise (op : TokenKind) (a b : Decimal) :
    FailsArithmetically (bitwise op a b) := by
  refine .bind (failsArithmetically_narrow _ _ _ a) fun x =>
    .bind (failsArithmetically_narrow _ _ _ b) fun y => ?_
  split
  · exact failsArithmetically_ok _
  · exact failsArithmetically_ok _
  · exact failsArithmetically_ok _
  · exact failsArithmetically_error trivial

theorem failsArithmetically_shift (op : TokenKind) (a b : Decimal) :
    FailsArithmetically (shift memory op a b) := by
  refine .bind (failsArithmetically_narrow _ _ _ b) fun amount =>
    .bind (.bind (failsArithmetically_requireWhole a) fun _ =>
      failsArithmetically_integerPart memory a) fun n => ?_
  split
  · refine .bind ?_ fun _ => failsArithmetically_ok _
    unfold shiftLeft
    split_ifs
    · exact failsArithmetically_ok _
    · exact .bind (failsArithmetically_demand _ _ _) fun _ => failsArithmetically_ok _
  · exact failsArithmetically_ok _
  · exact failsArithmetically_error trivial

theorem failsArithmetically_apply (precision : Int) (family : OperatorFamily) (op : TokenKind)
    (a b : Decimal) : FailsArithmetically (apply memory precision family op a b) := by
  cases family with
  | bitwise => exact failsArithmetically_bitwise op a b
  | shift => exact failsArithmetically_shift memory op a b
  | arithmetic =>
    change FailsArithmetically (arithmetic memory precision op a b)
    unfold arithmetic
    split
    · exact failsArithmetically_ofSignal _
    · exact failsArithmetically_ofSignal _
    · exact failsArithmetically_ofSignal _
    · exact failsArithmetically_div _ _ _ _
    · exact failsArithmetically_error trivial

theorem failsArithmetically_factorial (a : Decimal) :
    FailsArithmetically (factorial memory a) :=
  .bind (failsArithmetically_requireWhole a) fun _ =>
    .bind (failsArithmetically_requirePositive a) fun _ =>
      .bind (failsArithmetically_integerPart memory a) fun _ =>
        .bind (failsArithmetically_demand _ _ _) fun _ => failsArithmetically_ok _

theorem failsArithmetically_squareAndMultiply (result square : Decimal) (remaining : Nat) :
    FailsArithmetically (squareAndMultiply memory result square remaining) := by
  induction remaining using Nat.strongRecOn generalizing result square with
  | ind remaining ih =>
    rw [squareAndMultiply]
    split_ifs with hzero hhalf hodd hodd
    · exact failsArithmetically_ok _
    · exact .bind (failsArithmetically_ofSignal _) fun _ => failsArithmetically_ok _
    · exact .bind (failsArithmetically_ok _) fun _ => failsArithmetically_ok _
    · exact .bind (failsArithmetically_ofSignal _) fun _ =>
        .bind (failsArithmetically_ofSignal _) fun _ => ih _ (by omega) _ _
    · exact .bind (failsArithmetically_ok _) fun _ =>
        .bind (failsArithmetically_ofSignal _) fun _ => ih _ (by omega) _ _

theorem failsArithmetically_power (precision : Int) (base exponent : Decimal) :
    FailsArithmetically (power memory precision base exponent) := by
  refine .bind (failsArithmetically_requirePositive base) fun _ =>
    .bind (failsArithmetically_requireWhole exponent) fun _ =>
      .bind (failsArithmetically_integerPart memory exponent) fun n =>
        .bind (failsArithmetically_squareAndMultiply _ _ _ _) fun result => ?_
  split_ifs
  · exact failsArithmetically_error trivial
  · exact failsArithmetically_div _ _ _ _
  · exact failsArithmetically_ok _

end Arithmetic

end DecimalCalculator
