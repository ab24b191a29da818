/-!
# Cutting text into lines

A text is cut at every character of a given kind; a last line that is empty does not count, so a
final line break adds no line. Typed input is cut at the newline alone. A script is read with its
carriage returns turned into newlines first, and is then also cut at the other characters that end
a line on paper or on a terminal.
-/
namespace DecimalCalculator.Text

/-- The lines of a text, without the characters that end them. -/
def cutLines (ends : Char → Bool) : List Char → List (List Char)
  | [] => []
  | c :: rest =>
    if ends c then
      [] :: cutLines ends rest
    else
      match cutLines ends rest with
      | [] => [[c]]
      | line :: lines => (c :: line) :: lines

def typedLines (text : String) : List String :=
  (cutLines (· == '\n') text.toList).map String.ofList

/-- A carriage return, with or without a newline after it, counts as one newline. -/
def unifyNewlines : List Char → List Char
  | [] => []
  | '\r' :: '\n' :: rest => '\n' :: unifyNewlines rest
  | '\r' :: rest => '\n' :: unifyNewlines rest
  | c :: rest => c :: unifyNewlines rest

/-- The characters that end a line of a script: newline, vertical tab, form feed, the file, group
and record separators, next line, and the line and paragraph separators. -/
def endsScriptLine (c : Char) : Bool :=
  let n := c.toNat
  (0x0A ≤ n && n ≤ 0x0D) || (0x1C ≤ n && n ≤ 0x1E) || n == 0x85 || n == 0x2028 || n == 0x2029

def scriptLines (text : String) : List String :=
  (cutLines endsScriptLine (unifyNewlines text.toList)).map String.ofList

end DecimalCalculator.Text
