/-!
# Memory

How many digits fit into the memory is not for the calculator to say. It depends on the machine, and
on what the digits are for: a sum needs less room than a product of the same length. So the memory
is an argument of every operation that writes digits out, and nothing more is known of it than that
there is room for a single digit, and that a shorter number fits where a longer one does.
-/
namespace DecimalCalculator

/-- What the digits of a number are written out for. In a shift they are binary digits. -/
inductive Memory.Use where
  | sum
  | product
  | quotient
  | integer
  | factorial
  | shift
  | text
  deriving DecidableEq, Repr

/-- The numbers of digits that fit into the memory for each use. -/
structure Memory where
  fits : Memory.Use → Nat → Bool
  fits_one : ∀ use, fits use 1
  fits_of_le : ∀ {use m n}, m ≤ n → fits use n → fits use m

/-- A memory for numbers of at most so many digits, whatever they are written out for. -/
def Memory.upTo (digits : Nat) (hpos : 0 < digits) : Memory where
  fits _ n := n ≤ digits
  fits_one _ := decide_eq_true hpos
  fits_of_le hle h := decide_eq_true (Nat.le_trans hle (of_decide_eq_true h))

/-- A memory for numbers of up to ten thousand million digits. -/
def Memory.default : Memory :=
  .upTo 10000000000 (by decide)

end DecimalCalculator
