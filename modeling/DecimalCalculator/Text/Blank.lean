/-!
# Blank characters

Two different sets of characters count as blank in a calculator line. The first is the set that
trimming removes from the two ends of a text and that makes a line blank; the second is the set
that may stand between two leaves of an expression. They differ in five characters: trimming also
removes the four information separators U+001C to U+001F, and the Mongolian vowel separator
U+180E may stand between leaves although trimming keeps it.
-/
namespace DecimalCalculator.Text

/-- Blank in either sense: the controls tab to carriage return, next line, and the spaces of every
width together with the line and paragraph separators. -/
def isCommonBlank (c : Char) : Bool :=
  let n := c.toNat
  (0x09 ≤ n && n ≤ 0x0D) || n == 0x20 || n == 0x85 || n == 0xA0 || n == 0x1680 ||
    (0x2000 ≤ n && n ≤ 0x200A) || n == 0x2028 || n == 0x2029 || n == 0x202F || n == 0x205F ||
    n == 0x3000

/-- The characters that trimming removes. -/
def isBlank (c : Char) : Bool :=
  isCommonBlank c || (0x1C ≤ c.toNat && c.toNat ≤ 0x1F)

/-- The characters that may stand between two leaves. -/
def isGap (c : Char) : Bool :=
  isCommonBlank c || c.toNat == 0x180E

def trim (cs : List Char) : List Char :=
  ((cs.dropWhile isBlank).reverse.dropWhile isBlank).reverse

def isBlankLine (line : String) : Bool :=
  line.toList.all isBlank

end DecimalCalculator.Text
