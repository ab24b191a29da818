import DecimalCalculator.Datum
import DecimalCalculator.Failure

/-!
# Data in place of values

Data of any shape can be shown where a value is expected. Nothing has a word of its own there, and a
list is taken for a token sequence. Its items are data and no tokens, so only the empty list can be
shown.
-/
namespace DecimalCalculator.Datum

/-- A datum as it is shown in place of a value. -/
def print : Datum → Except Failure String
  | null => .ok "none"
  | list [] => .ok ""
  | list (item :: _) => .error (Fault.lacksMember item.shape "kind")
  | d => .ok d.quoted

end DecimalCalculator.Datum
