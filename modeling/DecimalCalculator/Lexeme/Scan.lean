import DecimalCalculator.Lexeme.Basic
import DecimalCalculator.Text.Blank

/-!
# Scanning a source text

Scanning goes from left to right: it skips the gap before the next leaf and takes the longest leaf
that begins there. A number is a run of digits with at most one point, which may be the last but not
the only character; a name is a letter or underscore followed by letters, digits and underscores, or
a dollar sign followed by digits; an operator is one of thirteen single characters or a doubled
angle bracket. Digits and letters are the plain ones. Text that is left where no leaf begins makes
the whole scan fail.
-/
namespace DecimalCalculator

/-- A place in a text that is being scanned; lines and columns count from one. -/
structure Cursor where
  line : Nat
  column : Nat
  deriving DecidableEq, Repr

namespace Cursor

def start : Cursor := ⟨1, 1⟩

/-- The place after a character; only the newline begins a new line. -/
def after (p : Cursor) (c : Char) : Cursor :=
  if c = '\n' then ⟨p.line + 1, 1⟩ else ⟨p.line, p.column + 1⟩

def position (p : Cursor) : Position :=
  ⟨String.ofList (Text.digits p.line), String.ofList (Text.digits p.column)⟩

end Cursor

namespace Lexeme

/-- The characters that are an operator by themselves. -/
def isOperatorChar (c : Char) : Bool :=
  "-+*/^|&!~(),=".toList.contains c

def isNameStart (c : Char) : Bool := c.isAlpha || c == '_'

def isNamePart (c : Char) : Bool := c.isAlphanum || c == '_'

def longestNumber (first : Char) (rest : List Char) : List Char :=
  first :: rest.takeWhile Char.isDigit ++
    match rest.dropWhile Char.isDigit with
    | '.' :: fraction => '.' :: fraction.takeWhile Char.isDigit
    | _ => []

/-- A mark and the run of digits after it, if there is a digit. -/
def markedDigits (kind : LexemeKind) (mark : Char) (rest : List Char) :
    Option (LexemeKind × List Char) :=
  match rest.takeWhile Char.isDigit with
  | [] => none
  | ds => some (kind, mark :: ds)

/-- The kind and the text of the longest leaf at the beginning of a text. -/
def longest? : List Char → Option (LexemeKind × List Char)
  | [] => none
  | c :: rest =>
    if c.isDigit then some (.number, longestNumber c rest)
    else if c = '.' then markedDigits .number c rest
    else if c = '$' then markedDigits .name c rest
    else if isNameStart c then some (.name, c :: rest.takeWhile isNamePart)
    else if isOperatorChar c then some (.operator, [c])
    else if (c = '<' || c = '>') && rest.head? == some c then some (.operator, [c, c])
    else none

theorem longest?_ne_nil {cs text : List Char} {kind : LexemeKind}
    (h : longest? cs = some (kind, text)) : text ≠ [] := by
  cases cs with
  | nil => simp [longest?] at h
  | cons c rest =>
    simp only [longest?, longestNumber, markedDigits] at h
    split at h
    · cases h; simp
    · split at h
      · split at h <;> cases h; simp
      · split at h
        · split at h <;> cases h; simp
        · split at h
          · cases h; simp
          · split at h
            · cases h; simp
            · split at h <;> cases h; simp

theorem length_drop_longest?_lt {cs rest text : List Char} {c : Char} {kind : LexemeKind}
    (hcs : cs.dropWhile Text.isGap = c :: rest) (h : longest? (c :: rest) = some (kind, text)) :
    ((c :: rest).drop text.length).length < cs.length := by
  have hle : (c :: rest).length ≤ cs.length := by
    rw [← hcs]
    exact (List.dropWhile_suffix _).length_le
  have hpos : 0 < text.length := List.length_pos_iff.2 (longest?_ne_nil h)
  rw [List.length_drop]
  simp only [List.length_cons] at hle ⊢
  omega

def scanFrom (place : Cursor) (cs : List Char) : Option (List Lexeme) :=
  let start := (cs.takeWhile Text.isGap).foldl Cursor.after place
  match _hcs : cs.dropWhile Text.isGap with
  | [] => some []
  | c :: rest =>
    match _h : longest? (c :: rest) with
    | none => none
    | some (kind, text) =>
      (scanFrom (text.foldl Cursor.after start) ((c :: rest).drop text.length)).map
        (⟨kind, .text (String.ofList text), some start.position⟩ :: ·)
termination_by cs.length
decreasing_by exact length_drop_longest?_lt _hcs _h

def scan (source : String) : Option (List Lexeme) :=
  scanFrom .start source.toList

end Lexeme

end DecimalCalculator
