import DecimalCalculator.Lexeme.Basic

/-!
# Leaves of a parse tree

A grammar outside the calculator hands its result over as a datum. A record tagged as a number, a
name or an operator is a leaf; any other tagged record is a node whose children are searched, and a
record without a tag and a list are searched field by field and item by item. Everything else holds
no leaves. Every leaf must be a record with a text and a tag.
-/
namespace DecimalCalculator.Lexeme

def kindOfTag (tag : Datum) : LexemeKind :=
  if tag.isText "number" then .number
  else if tag.isText "name" then .name
  else if tag.isText "op" then .operator
  else .other

def isLeaf (d : Datum) : Bool :=
  match d.field? "tag" with
  | some tag => kindOfTag tag != .other
  | none => false

mutual

def leaves : Datum → List Datum
  | .list items => leavesOfItems items
  | .record fields =>
    let tree := Datum.record fields
    if isLeaf tree then [tree]
    else if (tree.field? "tag").isSome then leavesOfFields (· == "children") fields
    else leavesOfFields (fun _ => true) fields
  | _ => []

def leavesOfItems : List Datum → List Datum
  | [] => []
  | item :: items => leaves item ++ leavesOfItems items

/-- The leaves of those fields of a record whose names are wanted. -/
def leavesOfFields (wanted : String → Bool) : List (String × Datum) → List Datum
  | [] => []
  | (name, item) :: fields =>
    (if wanted name then leaves item else []) ++ leavesOfFields wanted fields

end

/-- The place that a line and a column show, unless one of them is missing. -/
def positionOfData : Datum → Datum → Option Position
  | .null, _ => none
  | _, .null => none
  | line, column => some ⟨line.toText, column.toText⟩

def positionOf (d : Datum) : Option Position :=
  positionOfData ((d.field? "line").getD .null) ((d.field? "col").getD .null)

def require (name : String) (leaf : Datum) : Except Failure Datum :=
  match leaf with
  | .record fields =>
    match fields.lookup name with
    | some d => .ok d
    | none => .error (Fault.unknownKey (Text.quoted name))
  | leaf => .error (Fault.notRecord leaf.shape)

/-- A datum that is looked at for the fields it may have. Absent data has no fields. -/
def inspect (d : Datum) : Except Failure Unit :=
  match d with
  | .record _ => .ok ()
  | d => if d.isPresent then .error (Fault.lacksMember d.shape "get") else .ok ()

/-- The first of the leaves to come if it is an operator; then it must have a text. -/
def operatorAhead : List Datum → Except Failure (Option Lexeme)
  | [] => .ok none
  | leaf :: _ => do
    inspect leaf
    if (leaf.field? "tag").any (·.isText "op") then
      return some ⟨.operator, ← require "text" leaf, positionOf leaf⟩
    else
      return none

def messageOfParse (result : Datum) : String :=
  match result.field? "error_message" with
  | some message => if message.isPresent then message.toText else "parse failed"
  | none => "parse failed"

/-- The tree inside the result of a parser. A result with a status other than success is a failed
parse; one without a status is the tree itself. -/
def treeOfParse (result : Datum) : Except Failure Datum :=
  match result.field? "status" with
  | none => .ok result
  | some status =>
    if status.isText "success" then
      .ok ((result.field? "ast").getD .null)
    else do
      let node := (result.field? "error_node").getD .null
      inspect node
      .error (CalcError.parse (messageOfParse result) (positionOf node))

end DecimalCalculator.Lexeme
