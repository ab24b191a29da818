import DecimalCalculator.Arithmetic.Operator
import DecimalCalculator.Arithmetic.Power
import DecimalCalculator.Evaluation.Settings
import Mathlib.Tactic.SplitIfs

/-!
# Operations on finite numbers

An operation on finite numbers gives a finite number or fails in a way that can be foreseen: because
of its operands, because the result overflows, or because it does not fit into the memory. A
division may also fail because of its precision, but only if the settings ask for more digits than
the arithmetic can give (`Settings.Foresees`). That an operation has no result, that an infinity has
no integer part and that an operator belongs to another family are failures which never happen.
-/
namespace DecimalCalculator

/-- How a computation can fail when all its numbers are finite. -/
inductive Settings.Foresees (settings : Settings) : Failure → Prop
  | calculation {error : CalcError} : error ≠ .unspecified → Foresees settings error
  | overflow : Foresees settings (Fault.signal .overflow)
  | outOfMemory : Foresees settings (Fault.signal .outOfMemory)
  | precisionLimit : Decimal.maxPrecision < settings.precision →
    settings.precision ≤ 0x7FFFFFFFFFFFFFFF → Foresees settings Fault.precisionLimit
  | precisionWidth : 0x7FFFFFFFFFFFFFFF < settings.precision →
    Foresees settings Fault.precisionWidth

/-- The computation gives a value with the property, or fails in a way that can be foreseen. -/
def Settings.Admits {α : Type} (settings : Settings) (P : α → Prop) : Except Failure α → Prop
  | .ok a => P a
  | .error failure => settings.Foresees failure

theorem Settings.Admits.bind {α β : Type} {settings : Settings} {P : α → Prop} {Q : β → Prop}
    {x : Except Failure α} {f : α → Except Failure β} (hx : settings.Admits P x)
    (hf : ∀ a, P a → settings.Admits Q (f a)) : settings.Admits Q (x >>= f) := by
  cases x with
  | ok a => exact hf a hx
  | error failure => exact hx

/-! ## Decimals -/

namespace Decimal

theorem isFinite_iff {a : Decimal} : a.isFinite ↔ ∃ s c e, a = finite s c e := by
  cases a <;> simp [isFinite]

theorem isFinite_neg {a : Decimal} (h : a.isFinite) : a.neg.isFinite := by
  cases a with
  | finite s c e => rfl
  | infinity s => cases h
  | nan s g p => cases h

theorem isFinite_abs {a : Decimal} (h : a.isFinite) : a.abs.isFinite := by
  cases a with
  | finite s c e => rfl
  | infinity s => cases h
  | nan s g p => cases h

/-- A finite number, or no result for lack of exponents or of memory. -/
def IsBounded : Except Signal Decimal → Prop
  | .ok a => a.isFinite
  | .error s => s = .overflow ∨ s = .outOfMemory

theorem isBounded_confine (negative : Bool) (coefficient : Nat) (exponent : Int) :
    IsBounded (confine negative coefficient exponent) := by
  unfold confine
  dsimp only
  split_ifs
  · rfl
  · exact .inl rfl
  · rfl

theorem isBounded_round (precision : Nat) (negative : Bool) (coefficient : Nat) (exponent : Int) :
    IsBounded (round precision negative coefficient exponent) := by
  unfold round
  dsimp only
  split_ifs
  · rfl
  · exact .inl rfl
  · exact .inl rfl
  · rfl

section

variable (memory : Memory)

theorem isBounded_of_demand (use : Memory.Use) (digits : Nat) {x : Except Signal Decimal}
    (h : IsBounded x) : IsBounded (demand memory use digits >>= fun _ => x) := by
  unfold demand
  split_ifs
  · exact h
  · exact .inr rfl

theorem isBounded_add {a b : Decimal} (ha : a.isFinite) (hb : b.isFinite) :
    IsBounded (a.add memory b) := by
  obtain ⟨s, c, e, rfl⟩ := isFinite_iff.1 ha
  obtain ⟨t, d, f, rfl⟩ := isFinite_iff.1 hb
  exact isBounded_of_demand memory _ _ (isBounded_confine _ _ _)

theorem isBounded_sub {a b : Decimal} (ha : a.isFinite) (hb : b.isFinite) :
    IsBounded (a.sub memory b) := by
  have hadd := isBounded_add memory ha (isFinite_neg hb)
  obtain ⟨t, d, f, rfl⟩ := isFinite_iff.1 hb
  exact hadd

theorem isBounded_mul {a b : Decimal} (ha : a.isFinite) (hb : b.isFinite) :
    IsBounded (a.mul memory b) := by
  obtain ⟨s, c, e, rfl⟩ := isFinite_iff.1 ha
  obtain ⟨t, d, f, rfl⟩ := isFinite_iff.1 hb
  exact isBounded_of_demand memory _ _ (isBounded_confine _ _ _)

theorem isBounded_div (precision : Nat) {a b : Decimal} (ha : a.isFinite) (hb : b.isFinite) :
    IsBounded (a.div memory precision b) := by
  obtain ⟨s, c, e, rfl⟩ := isFinite_iff.1 ha
  obtain ⟨t, d, f, rfl⟩ := isFinite_iff.1 hb
  change IsBounded (divFinite memory precision s c e t d f)
  unfold divFinite
  by_cases hzero : c = 0
  · rw [if_pos hzero]
    exact isBounded_round _ _ _ _
  · rw [if_neg hzero]
    cases finiteQuotient? c d with
    | some found =>
      dsimp only
      split_ifs
      · exact isBounded_round _ _ _ _
      · exact .inr rfl
    | none =>
      dsimp only
      split_ifs
      · exact isBounded_round _ _ _ _
      · exact .inr rfl

end

end Decimal

/-! ## Operations of the calculator -/

namespace Arithmetic

variable {settings : Settings} {a b : Decimal}

theorem admits_ofSignal {x : Except Decimal.Signal Decimal} (h : Decimal.IsBounded x) :
    settings.Admits (·.isFinite) (Failure.ofSignal x) := by
  cases x with
  | ok a => exact h
  | error s =>
    rcases h with rfl | rfl
    · exact .overflow
    · exact .outOfMemory

theorem admits_demand (use : Memory.Use) (digits : Nat) :
    settings.Admits (fun _ => True) (demand settings.memory use digits) := by
  unfold demand Decimal.demand
  split_ifs
  · trivial
  · exact .outOfMemory

theorem admits_div (ha : a.isFinite) (hb : b.isFinite) :
    settings.Admits (·.isFinite) (div settings.memory settings.precision a b) := by
  have hpos := settings.precision_pos
  unfold div
  split_ifs with hzero hwidth hlimit
  · exact .calculation (by simp)
  · exact .precisionWidth (by omega)
  · exact .precisionLimit (by omega) (by omega)
  · exact admits_ofSignal (Decimal.isBounded_div _ _ ha hb)

theorem admits_requireWhole (ha : a.isFinite) :
    settings.Admits (fun _ => True) (requireWhole a) := by
  obtain ⟨s, c, e, rfl⟩ := Decimal.isFinite_iff.1 ha
  change settings.Admits _ (if Decimal.isWhole _ then _ else _)
  split_ifs
  · trivial
  · exact .calculation (by simp)

theorem admits_requirePositive : settings.Admits (fun _ => True) (requirePositive a) := by
  unfold requirePositive
  split_ifs
  · exact .calculation (by simp)
  · trivial

theorem admits_integerPart (ha : a.isFinite) :
    settings.Admits (fun _ => True) (integerPart settings.memory a) := by
  obtain ⟨s, c, e, rfl⟩ := Decimal.isFinite_iff.1 ha
  exact .bind (admits_demand _ _) fun _ _ => trivial

theorem admits_narrow (primitive : String) (low high : Int) (a : Decimal) :
    settings.Admits (fun _ => True) (narrow primitive low high a) := by
  unfold narrow
  split
  · dsimp only
    split_ifs
    · exact .calculation (by simp)
    · exact .calculation (by simp)
    · trivial
  · exact .calculation (by simp)

theorem admits_complements (count : Nat) (ha : a.isFinite) :
    settings.Admits (·.isFinite) (complements count a) := by
  induction count generalizing a with
  | zero => exact ha
  | succ count ih =>
    have hone : settings.Admits (·.isFinite) (complement a) :=
      .bind (admits_narrow _ _ _ a) fun _ _ => rfl
    exact .bind hone fun _ => ih

theorem admits_factorial (ha : a.isFinite) :
    settings.Admits (·.isFinite) (factorial settings.memory a) :=
  .bind (admits_requireWhole ha) fun _ _ => .bind admits_requirePositive fun _ _ =>
    .bind (admits_integerPart ha) fun _ _ => .bind (admits_demand _ _) fun _ _ => rfl

theorem admits_squareAndMultiply {result square : Decimal} (hresult : result.isFinite)
    (hsquare : square.isFinite) (remaining : Nat) :
    settings.Admits (·.isFinite) (squareAndMultiply settings.memory result square remaining) := by
  induction remaining using Nat.strongRecOn generalizing result square with
  | ind remaining ih =>
    have hproduct : settings.Admits (·.isFinite) (mul settings.memory result square) :=
      admits_ofSignal (Decimal.isBounded_mul _ hresult hsquare)
    have hsame : settings.Admits (·.isFinite) (.ok result) := hresult
    have hnext : settings.Admits (·.isFinite) (mul settings.memory square square) :=
      admits_ofSignal (Decimal.isBounded_mul _ hsquare hsquare)
    rw [squareAndMultiply]
    split_ifs with hzero hhalf hodd hodd
    · exact hresult
    · exact .bind hproduct fun _ h => h
    · exact hresult
    · exact .bind hproduct fun _ h => .bind hnext fun _ h' => ih _ (by omega) h h'
    · exact .bind hsame fun _ h => .bind hnext fun _ h' => ih _ (by omega) h h'

theorem admits_power (ha : a.isFinite) (hb : b.isFinite) :
    settings.Admits (·.isFinite) (power settings.memory settings.precision a b) := by
  refine .bind admits_requirePositive fun _ _ => .bind (admits_requireWhole hb) fun _ _ =>
    .bind (admits_integerPart hb) fun n _ =>
      .bind (admits_squareAndMultiply rfl ha n.natAbs) fun result hresult => ?_
  split_ifs
  · exact .calculation (by simp)
  · exact admits_div rfl hresult
  · exact hresult

/-! ## Operators -/

def IsOfFamily : OperatorFamily → Symbol → Prop
  | .bitwise, op => op = .xor ∨ op = .or ∨ op = .and
  | .shift, op => op = .shiftLeft ∨ op = .shiftRight
  | .arithmetic, op => op = .add ∨ op = .sub ∨ op = .mul ∨ op = .div

theorem admits_bitwise {op : Symbol} (hop : IsOfFamily .bitwise op) (a b : Decimal) :
    settings.Admits (·.isFinite) (bitwise (.symbol op) a b) := by
  refine .bind (admits_narrow _ _ _ a) fun x _ => .bind (admits_narrow _ _ _ b) fun y _ => ?_
  rcases hop with rfl | rfl | rfl <;> exact Decimal.isFinite_iff.2 ⟨_, _, _, rfl⟩

theorem admits_shift {op : Symbol} (hop : IsOfFamily .shift op) (ha : a.isFinite) (b : Decimal) :
    settings.Admits (·.isFinite) (shift settings.memory (.symbol op) a b) := by
  have hinteger : settings.Admits (fun _ => True) (toInteger settings.memory a) :=
    .bind (admits_requireWhole ha) fun _ _ => admits_integerPart ha
  refine .bind (admits_narrow _ _ _ b) fun amount _ => .bind hinteger fun n _ => ?_
  rcases hop with rfl | rfl
  · have hmoved : settings.Admits (fun _ => True)
        (shiftLeft settings.memory n amount.toNat) := by
      unfold shiftLeft
      split_ifs
      · trivial
      · exact .bind (admits_demand _ _) fun _ _ => trivial
    exact .bind hmoved fun _ _ => Decimal.isFinite_iff.2 ⟨_, _, _, rfl⟩
  · exact Decimal.isFinite_iff.2 ⟨_, _, _, rfl⟩

/-- The operators of a family take finite numbers to finite numbers. -/
theorem admits_apply {family : OperatorFamily} {op : Symbol} (hop : IsOfFamily family op)
    (ha : a.isFinite) (hb : b.isFinite) :
    settings.Admits (·.isFinite)
      (apply settings.memory settings.precision family (.symbol op) a b) := by
  cases family with
  | bitwise => exact admits_bitwise hop a b
  | shift => exact admits_shift hop ha b
  | arithmetic =>
    rcases hop with rfl | rfl | rfl | rfl
    · exact admits_ofSignal (Decimal.isBounded_add _ ha hb)
    · exact admits_ofSignal (Decimal.isBounded_sub _ ha hb)
    · exact admits_ofSignal (Decimal.isBounded_mul _ ha hb)
    · exact admits_div ha hb

end Arithmetic

end DecimalCalculator
