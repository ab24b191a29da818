import DecimalCalculator.Arithmetic.Narrowing

/-!
# Applying operators

The binary operators fall into three families. Bitwise operators narrow both operands and work on
64-bit words in two's complement. Shifts take an amount that fits an unsigned word and move a whole
number of any size. The arithmetic operators take any numbers. An operator of another family is a
fault, found after the operands have been converted.
-/
namespace DecimalCalculator.Arithmetic

/-- The word that represents an integer in two's complement. -/
def word (n : Int) : BitVec 64 := BitVec.ofInt 64 n

/-- The complement of a number as a 64-bit word. -/
def complement (a : Decimal) : Except Failure Decimal := do
  return Decimal.ofInt (~~~ word (← toSigned64 a)).toInt

def complements : Nat → Decimal → Except Failure Decimal
  | 0, a => .ok a
  | n + 1, a => complement a >>= complements n

def bitwise (op : TokenKind) (a b : Decimal) : Except Failure Decimal := do
  let x := word (← toSigned64 a)
  let y := word (← toSigned64 b)
  match op with
  | .symbol .xor => return Decimal.ofInt (x ^^^ y).toInt
  | .symbol .or => return Decimal.ofInt (x ||| y).toInt
  | .symbol .and => return Decimal.ofInt (x &&& y).toInt
  | _ => Except.error (Fault.wrongFamily .bitwise op)

variable (memory : Memory)

/-- An integer moved up by an amount. Zero is not moved. -/
def shiftLeft (n : Int) (amount : Nat) : Except Failure Int :=
  if n = 0 then
    .ok 0
  else do
    demand memory .shift (n.natAbs.log2 + 1 + amount)
    return n <<< amount

/-- Applies a shift. The amount is converted first. -/
def shift (op : TokenKind) (a b : Decimal) : Except Failure Decimal := do
  let amount := (← toUnsigned64 b).toNat
  let n ← toInteger memory a
  match op with
  | .symbol .shiftLeft => return Decimal.ofInt (← shiftLeft memory n amount)
  | .symbol .shiftRight => return Decimal.ofInt (n >>> amount)
  | _ => Except.error (Fault.wrongFamily .shift op)

def arithmetic (precision : Int) (op : TokenKind) (a b : Decimal) : Except Failure Decimal :=
  match op with
  | .symbol .add => add memory a b
  | .symbol .sub => sub memory a b
  | .symbol .mul => mul memory a b
  | .symbol .div => div memory precision a b
  | _ => .error (Fault.wrongFamily .arithmetic op)

def apply (precision : Int) : OperatorFamily → TokenKind → Decimal → Decimal →
    Except Failure Decimal
  | .bitwise => bitwise
  | .shift => shift memory
  | .arithmetic => arithmetic memory precision

end DecimalCalculator.Arithmetic
