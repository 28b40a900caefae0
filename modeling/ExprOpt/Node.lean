/-!
# Expression nodes

The nodes of an expression tree: operators, constants and variables. A node refers to its children
by handle, so that one node may stand below several parents.
-/

namespace ExprOpt

/-- The operators of a tree. -/
inductive Op where
  | add
  /-- Subtraction, or negation when the right operand is absent. -/
  | sub
  | mul
  | div
  /-- Binds the variable on its left to the value on its right. -/
  | assign
  /-- Evaluates its left operand, then its right one. -/
  | seq
  deriving DecidableEq, Repr, Inhabited

/-- The character that stands for an operator in every output. -/
def Op.symbol : Op → Char
  | .add => '+'
  | .sub => '-'
  | .mul => '*'
  | .div => '/'
  | .assign => '='
  | .seq => ','

/-- All operators. -/
def Op.all : List Op := [.add, .sub, .mul, .div, .assign, .seq]

/-- The operator that a character stands for. -/
def Op.ofSymbol? (c : Char) : Option Op := Op.all.find? (·.symbol = c)

/-- What a node is, apart from its children. -/
inductive Kind where
  | op (o : Op)
  | const (value : Int64)
  | var (name : Char)
  deriving DecidableEq, Repr, Inhabited

/-- Constants and variables are leaves, whatever their child slots hold. -/
def Kind.isLeaf : Kind → Bool
  | .op _ => false
  | .const _ => true
  | .var _ => true

/-- The value of a constant. -/
def Kind.const? : Kind → Option Int64
  | .const v => some v
  | _ => none

/-- The name of a place in a store. -/
structure Handle where
  index : Nat
  deriving DecidableEq, Repr, Inhabited

/-- A node and its two child slots. -/
structure Node where
  kind : Kind
  left : Option Handle := none
  right : Option Handle := none
  deriving DecidableEq, Repr, Inhabited

namespace Node

/-- A childless constant. -/
def const (value : Int64) : Node := { kind := .const value }

/-- A childless variable. -/
def var (name : Char) : Node := { kind := .var name }

/-- An operator between two operands. -/
def binary (op : Op) (left right : Handle) : Node :=
  { kind := .op op, left := some left, right := some right }

/-- A unary minus: a subtraction that has only a left child. -/
def negation (operand : Handle) : Node := { kind := .op .sub, left := some operand }

/-- Whether the node is a subtraction without a right child. -/
def isNegation (n : Node) : Bool := n.kind = .op .sub && n.right.isNone

end Node

/-- The variable that a hoisted subexpression is bound to. No source text can spell it. -/
def hoistedName : Char := '@'

end ExprOpt
