/-!
# Reports on malformed text

What a reader of expressions was looking for when it could not go on, and the report that names the
furthest place it got to.
-/

namespace ExprOpt

/-- Something that the text could have gone on with. -/
inductive Expected where
  | openParen
  | closeParen
  | times
  | plus
  | minus
  | slash
  | endOfInput
  | digit
  | letter
  | expression
  | smallerNumber
  | operand
  | shallowerNesting
  deriving DecidableEq, Repr, Inhabited

namespace Expected

/-- How a report names an expectation. -/
def text : Expected → String
  | .openParen => "\"(\""
  | .closeParen => "\")\""
  | .times => "\"*\""
  | .plus => "\"+\""
  | .minus => "\"-\""
  | .slash => "\"/\""
  | .endOfInput => "EOF"
  | .digit => "['0'..='9']"
  | .letter => "['a'..='z' | 'A'..='Z']"
  | .expression => "expression"
  | .smallerNumber => "integer literal within 64 bits"
  | .operand => "operand"
  | .shallowerNesting => "shallower nesting"

/-- Every expectation, in the byte order of the texts. -/
def all : List Expected :=
  [.openParen, .closeParen, .times, .plus, .minus, .slash, .endOfInput, .digit, .letter,
    .expression, .smallerNumber, .operand, .shallowerNesting]

end Expected

/-- The furthest place at which reading failed, and all that was looked for there. -/
structure Furthest where
  offset : Nat := 0
  expected : List Expected := []
  deriving DecidableEq, Repr, Inhabited

/-- Notes that `what` was looked for at `offset`: a later place displaces an earlier one. -/
def Furthest.record (f : Furthest) (offset : Nat) (what : Expected) : Furthest :=
  if f.offset < offset then { offset, expected := [what] }
  else if offset < f.offset then f
  else { f with expected := what :: f.expected }

/-- Where a text stopped making sense, and what could have stood there instead. -/
structure Report where
  /-- The number of bytes before the place. -/
  offset : Nat
  /-- Counted from 1. -/
  line : Nat
  /-- Counted from 1, in characters. -/
  column : Nat
  /-- Without repetition, in the byte order of the texts. -/
  expected : List Expected
  deriving DecidableEq, Repr, Inhabited

namespace Report

/-- The line and the column after the characters `before`. -/
def position (before : List Char) : Nat × Nat :=
  before.foldl
    (fun (line, column) c => if c = '\n' then (line + 1, 1) else (line, column + 1)) (1, 1)

/-- The report on a text whose reading failed at `furthest`. Whatever was read consists of
single-byte characters, so offsets count characters and bytes alike. -/
def ofFurthest (text : List Char) (furthest : Furthest) : Report :=
  let (line, column) := position (text.take furthest.offset)
  { offset := furthest.offset, line, column,
    expected := Expected.all.filter (· ∈ furthest.expected) }

/-- One expectation is named alone, several as a list. -/
def expectation (r : Report) : String :=
  match r.expected with
  | [e] => e.text
  | es => "one of " ++ ", ".intercalate (es.map Expected.text)

/-- The report in words. -/
def message (r : Report) : String :=
  "error at " ++ toString r.line ++ ":" ++ toString r.column ++ ": expected " ++ r.expectation

end Report

end ExprOpt
