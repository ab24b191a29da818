import DecimalCalculator.Decimal.Arithmetic
import DecimalCalculator.Decimal.Integral
import DecimalCalculator.Failure

/-!
# The arithmetic of the calculator

The four operations, and the conditions that other operations put on their operands. A zero divisor
is a failed calculation of its own, whatever the dividend and the precision are. A precision is an
integer of any size, of which division takes those from one to the largest number of digits.
-/
namespace DecimalCalculator.Arithmetic

def defaultPrecision : Nat := 100

section

variable (memory : Memory)

def demand (use : Memory.Use) (digits : Nat) : Except Failure Unit :=
  Failure.ofSignal (Decimal.demand memory use digits)

def add (a b : Decimal) : Except Failure Decimal := Failure.ofSignal (a.add memory b)

def sub (a b : Decimal) : Except Failure Decimal := Failure.ofSignal (a.sub memory b)

def mul (a b : Decimal) : Except Failure Decimal := Failure.ofSignal (a.mul memory b)

/-- The quotient, rounded to `precision` digits. -/
def div (precision : Int) (a b : Decimal) : Except Failure Decimal :=
  if b.isZero then
    .error CalcError.divideByZero
  else if precision < -0x8000000000000000 ∨ 0x7FFFFFFFFFFFFFFF < precision then
    .error Fault.precisionWidth
  else if precision < 1 ∨ (Decimal.maxPrecision : Int) < precision then
    .error Fault.precisionLimit
  else
    Failure.ofSignal (a.div memory precision.toNat b)

end

/-- Whether a number is whole. A signaling value cannot be asked. -/
def isWhole (a : Decimal) : Except Failure Bool :=
  if a.isSignaling then .error (Fault.signal .invalidOperation) else .ok a.isWhole

def requireWhole (a : Decimal) : Except Failure Unit := do
  if ← isWhole a then .ok () else .error CalcError.notWhole

/-- Demands that a number has no minus sign; zero may have one. -/
def requirePositive (a : Decimal) : Except Failure Unit :=
  if a.isNegative && !a.isZero then .error CalcError.notPositive else .ok ()

/-- The integer part of a number. An infinity has none. -/
def integerPart (memory : Memory) : Decimal → Except Failure Int
  | .finite negative c e => do
    demand memory .integer (Decimal.scaledCount c e.toNat)
    return Decimal.signed negative (Decimal.wholePart c e)
  | _ => .error Fault.infiniteInteger

def toInteger (memory : Memory) (a : Decimal) : Except Failure Int := do
  requireWhole a
  integerPart memory a

end DecimalCalculator.Arithmetic
