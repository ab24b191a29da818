import DecimalCalculator.Datum
import DecimalCalculator.Decimal.Reader
import DecimalCalculator.Failure

/-!
# Tokens from unchecked payloads

A token that comes from outside is a kind and a datum. The kinds that carry something need one, the
others must have none; a number may be given as an integer or as a text that reads as a decimal, and
a name as a text.
-/
namespace DecimalCalculator.Token

/-- The token of a kind with a payload, if they fit together. -/
def ofPayload (kind : TokenKind) (payload : Datum) : Except Failure Token :=
  match kind, payload with
  | .symbol s, .null => .ok (symbol s)
  | kind, .null => .error (Fault.invalidPayload kind Datum.null.quoted)
  | .symbol s, payload => .error (Fault.invalidPayload (.symbol s) payload.quoted)
  | .number, .integer n => .ok (number (Decimal.ofInt n))
  | .number, .text s => Failure.ofSignal ((Decimal.read s).map number)
  | .number, payload => .error (Fault.notNumeric payload.quoted)
  | .call, .text name => .ok (call name)
  | .assign, .text name => .ok (assign name)
  | .read, .text name => .ok (read name)
  | kind, payload => .error (Fault.notNaming kind payload.quoted)

end DecimalCalculator.Token
