import DecimalCalculator.Arithmetic.Basic

/-!
# Settings of an evaluation

Two settings can be chosen: the number of digits of a quotient, and how deep groups and function
bodies may be nested. Both lie in a range, and settings outside it cannot be made.

The rest is up to the machine. Its memory is one half. The other half is its stack: assignments are
nested without adding to the depth, so the number of expressions that may be evaluated inside one
another is limited as well. An evaluation makes the stack larger for every depth that is allowed,
which leaves room for an expression at each of them and for some hundred assignments besides; but
what its caller uses of the stack is missing.
-/
namespace DecimalCalculator

def depthCeiling : Nat := 255

/-- The frames that an evaluation adds to the stack for every depth that is allowed. -/
def framesPerLevel : Nat := 24

/-- The frames that an expression takes when it is assigned. In a group or a body it takes one
more. -/
def framesPerExpression : Nat := 16

/-- What an evaluation runs on: a memory, a stack of so many frames, and the frames that are in use
before it begins. -/
structure Machine where
  memory : Memory
  frames : Nat
  framesInUse : Nat
  room : framesInUse + framesPerExpression ≤ frames

/-- A machine with a stack that nothing uses yet. -/
def Machine.default : Machine where
  memory := .default
  frames := 1000
  framesInUse := 0
  room := by decide

/-- The settings of an evaluation and the machine that it runs on. -/
structure Settings extends Machine where
  precision : Nat
  maxDepth : Nat
  precision_pos : 0 < precision
  maxDepth_pos : 0 < maxDepth
  maxDepth_le : maxDepth ≤ depthCeiling

namespace Settings

/-- The settings that are used on a machine unless others are chosen. -/
def standard (machine : Machine) : Settings where
  toMachine := machine
  precision := Arithmetic.defaultPrecision
  maxDepth := depthCeiling
  precision_pos := by decide
  maxDepth_pos := by decide
  maxDepth_le := Nat.le_refl _

def default : Settings := .standard .default

/-- The settings with the given values; the depth is checked first. -/
def ofInts (machine : Machine) (precision maxDepth : Int) : Except Failure Settings :=
  if hd : 0 < maxDepth ∧ maxDepth ≤ depthCeiling then
    if hp : 0 < precision then
      .ok ⟨machine, precision.toNat, maxDepth.toNat, by omega, by omega, by omega⟩
    else
      .error (Fault.precisionSetting precision)
  else
    .error (Fault.depthSetting maxDepth)

/-- How many expressions may be evaluated inside one another. -/
def expressionLimit (settings : Settings) : Nat :=
  (settings.frames + framesPerLevel * settings.maxDepth - settings.framesInUse) /
    framesPerExpression

/-- The limit leaves room for an expression at every depth. -/
theorem maxDepth_lt_expressionLimit (settings : Settings) :
    settings.maxDepth < settings.expressionLimit := by
  have hroom := settings.room
  simp only [expressionLimit, framesPerLevel, framesPerExpression] at *
  omega

end Settings

end DecimalCalculator
