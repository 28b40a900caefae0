import ExprOpt.Grammar.Rule

/-!
# The grammar of expressions

Sums of products of factors. A factor is a letter, a decimal number, a sum in parentheses or a minus
followed by a factor. Sums and products group to the left, blanks may precede every token and end
the text, and parentheses and unary minuses nest no deeper than a fixed limit.

Leaves are handed to the sink when they are read. A series hands over all its operands before the
first of its operators.
-/

namespace ExprOpt.Grammar

/-- The deepest nesting of parentheses and unary minuses. -/
def nestingLimit : Nat := 256

/-- The largest number that may be written down, `2 ^ 63 - 1`. -/
def maxNumber : Nat := 0x7fffffffffffffff

/-- The characters that separate tokens and mean nothing. -/
def isBlank (c : Char) : Bool := c = ' ' || c = '\t' || c = '\r' || c = '\n'

/-- The number that a run of decimal digits spells. -/
def decimal (digits : List Char) : Nat :=
  digits.foldl (fun value c => 10 * value + (c.toNat - '0'.toNat)) 0

variable {σ α : Type}

/-- Any number of blanks. -/
def blanks : Rule σ Unit := do
  let _ ← Rule.span isBlank
  return ()

/-- Goes one level deeper. -/
def descend : Rule σ Unit := do
  let notes ← getThe (Notes σ)
  if notes.depth < nestingLimit then
    set { notes with depth := notes.depth + 1 }
  else
    Rule.lack .shallowerNesting

/-- Comes back one level. -/
def ascend : Rule σ Unit :=
  modifyThe (Notes σ) fun notes => { notes with depth := notes.depth - 1 }

/-- What may or may not stand one level deeper. -/
def nested (r : Rule σ α) : Rule σ (Option α) := do
  descend
  let a ← Rule.optional r
  ascend
  return a

/-- A variable: an ASCII letter. -/
def letter (sink : Sink σ) : Rule σ Handle := do
  let c ← Rule.one Char.isAlpha .letter
  Rule.emit sink (.var c)

/-- A constant: at least one ASCII digit, and then no more than fit. A digit that follows a run of
digits would have belonged to it, so it is looked for at the end of every run. -/
def number (sink : Sink σ) : Rule σ Handle := do
  let digits ← Rule.span Char.isDigit
  Rule.note .digit
  if digits.isEmpty then
    failure
  else if decimal digits ≤ maxNumber then
    Rule.emit sink (.const (Int64.ofNat (decimal digits)))
  else
    Rule.lack .smallerNumber

/-- The closing parenthesis, and what is to be found before it. -/
def closing (inside : Option Handle) : Rule σ Handle := do
  blanks
  Rule.symbol ')' .closeParen
  match inside with
  | some h => return h
  | none => Rule.lack .expression

/-- The minus of an operand that is to be found behind it. -/
def negating (sink : Sink σ) (operand : Option Handle) : Rule σ Handle :=
  match operand with
  | some h => Rule.emit sink (.negation h)
  | none => Rule.lack .operand

/-- Something between parentheses, where `nest` is the way to go one level deeper. -/
def parenthesizedBy (nest : Rule σ Handle → Rule σ (Option Handle)) (inner : Rule σ Handle) :
    Rule σ Handle := do
  Rule.symbol '(' .openParen
  let inside ← nest inner
  closing inside

/-- A minus in front of something, where `nest` is the way to go one level deeper. -/
def negatedBy (nest : Rule σ Handle → Rule σ (Option Handle)) (sink : Sink σ) (inner : Rule σ Handle) :
    Rule σ Handle := do
  Rule.symbol '-' .minus
  let operand ← nest inner
  negating sink operand

/-- Something between parentheses. -/
def parenthesized (inner : Rule σ Handle) : Rule σ Handle := parenthesizedBy nested inner

/-- A minus in front of something. -/
def negated (sink : Sink σ) (inner : Rule σ Handle) : Rule σ Handle := negatedBy nested sink inner

/-- Hands over the operators of a series, from left to right. -/
def link (sink : Sink σ) (first : Handle) (rest : List (Op × Handle)) : Rule σ Handle :=
  rest.foldlM (fun left (op, right) => Rule.emit sink (.binary op left right)) first

/-- Operands with operators between them. -/
def series (sink : Sink σ) (op : Rule σ Op) (operand : Rule σ Handle) : Rule σ Handle := do
  let first ← operand
  let rest ← Rule.many do
    blanks
    let o ← op
    let right ← operand
    return (o, right)
  link sink first rest

/-- Times or divided by. -/
def productOp : Rule σ Op :=
  (do Rule.symbol '*' .times; return .mul) <|> (do Rule.symbol '/' .slash; return .div)

/-- Plus or minus. -/
def sumOp : Rule σ Op :=
  (do Rule.symbol '+' .plus; return .add) <|> (do Rule.symbol '-' .minus; return .sub)

/-- A product of the given factors. -/
def product (sink : Sink σ) (factor : Rule σ Handle) : Rule σ Handle :=
  series sink productOp factor

/-- A sum of products of the given factors. -/
def sum (sink : Sink σ) (factor : Rule σ Handle) : Rule σ Handle :=
  series sink sumOp (product sink factor)

/-- A factor that holds fewer than `levels` others, one inside the next, where `nest` is the way to go
one level deeper. -/
def factorBy (nest : Rule σ Handle → Rule σ (Option Handle)) (sink : Sink σ) : Nat → Rule σ Handle
  | 0 => failure
  | levels + 1 => do
    blanks
    letter sink <|> number sink <|> parenthesizedBy nest (sum sink (factorBy nest sink levels)) <|>
      negatedBy nest sink (factorBy nest sink levels)

/-- A whole text, where `nest` is the way to go one level deeper. Each level of factors is one deeper than
the last, so no more than `nestingLimit + 1` levels can be entered. -/
def expressionBy (nest : Rule σ Handle → Rule σ (Option Handle)) (sink : Sink σ) : Rule σ Handle := do
  let h ← sum sink (factorBy nest sink (nestingLimit + 1))
  blanks
  Rule.done
  return h

/-- A factor that holds fewer than `levels` others, one inside the next. -/
def factor (sink : Sink σ) (levels : Nat) : Rule σ Handle := factorBy nested sink levels

/-- A whole text. -/
def expression (sink : Sink σ) : Rule σ Handle := expressionBy nested sink

/-- The kinds of factors are tried in turn. -/
theorem factor_succ (sink : Sink σ) (levels : Nat) : factor sink (levels + 1) = (do
    blanks
    letter sink <|> number sink <|> parenthesized (sum sink (factor sink levels)) <|>
      negated sink (factor sink levels)) := rfl

end ExprOpt.Grammar
