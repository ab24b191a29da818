/-!
# Numerals

The digits of a natural number, and the placing of a decimal point among digits. Large numbers are
cut in halves at powers of ten, so that writing them takes few long divisions, and digits are
counted without writing them.
-/
namespace DecimalCalculator.Text

/-- One followed by `places` zeros. -/
def powerOfTen (places : Nat) : Nat :=
  Nat.pow 10 places

/-- The last `1 <<< level` digits of a number, zeros in front included, before `tail`. -/
def prependLast : Nat → Nat → List Char → List Char
  | 0, n, tail => Nat.digitChar (n % 10) :: tail
  | level + 1, n, tail =>
    let unit := powerOfTen (1 <<< level)
    prependLast level (n / unit) (prependLast level (n % unit) tail)

/-- The digits of a number of at most `1 <<< level` digits, before `tail`. -/
def prependDigits : Nat → Nat → List Char → List Char
  | 0, n, tail => Nat.digitChar n :: tail
  | level + 1, n, tail =>
    let unit := powerOfTen (1 <<< level)
    if n < unit then
      prependDigits level n tail
    else
      prependDigits level (n / unit) (prependLast level (n % unit) tail)

/-- The decimal digits of a number, without leading zeros. -/
def digits (n : Nat) : List Char :=
  prependDigits (n.log2.log2 + 1) n []

/-- The least number of digits above `k` that is enough for `n`, which is at most `room` more than
the next. -/
def countAbove (n k : Nat) : Nat → Nat
  | 0 => k + 1
  | room + 1 => if powerOfTen (k + 1) ≤ n then countAbove n (k + 1) room else k + 1

/-- How many decimal digits a number has; zero has one. The search starts a little below the number
of bits times the logarithm of two to the base ten, and a number has no more digits than bits. -/
def digitCount (n : Nat) : Nat :=
  let start := n.log2 * 643 / 2136
  countAbove n start (n.log2 - start)

def digitsValue (cs : List Char) : Nat :=
  Nat.ofDigitChars 10 cs 0

def signedDigits (n : Int) : List Char :=
  if n < 0 then '-' :: digits n.natAbs else digits n.natAbs

/-- Digits with the last `places` of them after a point; at least one digit stands before it. -/
def pointed (ds : List Char) (places : Nat) : List Char :=
  if places = 0 then
    ds
  else
    let padded := List.replicate (places + 1 - ds.length) '0' ++ ds
    padded.take (padded.length - places) ++ '.' :: padded.drop (padded.length - places)

/-- Takes runs of zeros off the end of a number, at most `limit` zeros together, and counts them.
The runs have the lengths `1 <<< k` for `k` below `level`, the longest first. -/
def dropRuns : Nat → Nat → Nat → Nat × Nat
  | 0, _, n => (n, 0)
  | level + 1, limit, n =>
    let run := 1 <<< level
    if run ≤ limit ∧ n % powerOfTen run = 0 then
      let (rest, count) := dropRuns level (limit - run) (n / powerOfTen run)
      (rest, count + run)
    else
      dropRuns level limit n

/-- Takes zeros off the end of a number, as many as there are but at most `limit`, and counts
them. -/
def dropZeros (limit n : Nat) : Nat × Nat :=
  dropRuns (limit.log2 + 1) limit n

theorem powerOfTen_succ (places : Nat) : powerOfTen (places + 1) = powerOfTen places * 10 := rfl

theorem powerOfTen_pos (places : Nat) : 0 < powerOfTen places :=
  Nat.pow_pos (by decide)

theorem powerOfTen_add (a b : Nat) : powerOfTen (a + b) = powerOfTen a * powerOfTen b :=
  Nat.pow_add 10 a b

theorem powerOfTen_le {a b : Nat} (h : a ≤ b) : powerOfTen a ≤ powerOfTen b :=
  Nat.pow_le_pow_right (by decide) h

end DecimalCalculator.Text
