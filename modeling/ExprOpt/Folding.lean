import ExprOpt.Sweep

/-!
# Constant folding

Operators between constants become constants, and operands that change nothing disappear. Arithmetic
wraps around at 64 bits and division goes toward zero. A division by a constant zero stays.
-/

namespace ExprOpt.Folding

/-- The value of an operator between two constants, if it has one. -/
def evaluate (op : Op) (l r : Int64) : Option Int64 :=
  match op with
  | .add => some (l + r)
  | .sub => some (l - r)
  | .mul => some (l * r)
  | .div => if r = 0 then none else some (l / r)
  | .assign => none
  | .seq => none

/-- What an operator node amounts to. -/
inductive Verdict where
  | unchanged
  | leftOperand
  | rightOperand
  | constant (value : Int64)
  deriving DecidableEq, Repr, Inhabited

/-- An operand that is neutral for the operator leaves the other one, and a factor of zero leaves
zero. The first case that applies decides. -/
def identity (op : Op) (l r : Option Int64) : Verdict :=
  match op with
  | .add => if l = some 0 then .rightOperand else if r = some 0 then .leftOperand else .unchanged
  | .sub => if r = some 0 then .leftOperand else .unchanged
  | .mul =>
    if l = some 1 then .rightOperand
    else if r = some 1 then .leftOperand
    else if l = some 0 ∨ r = some 0 then .constant 0
    else .unchanged
  | .div => if r = some 1 then .leftOperand else .unchanged
  | .assign => .unchanged
  | .seq => .unchanged

/-- The verdict on an operator whose right operand is present, where `l` and `r` are the values of
those operands that are constants. -/
def binary (op : Op) (l r : Option Int64) : Verdict :=
  match l, r with
  | some x, some y =>
    match evaluate op x y with
    | some v => .constant v
    | none => identity op l r
  | _, _ => identity op l r

/-- The verdict on an operator whose right operand is absent. -/
def unary (op : Op) (l : Option Int64) : Verdict :=
  match op, l with
  | .sub, some v => .constant (-v)
  | _, _ => .unchanged

/-- The value of the constant at a handle. -/
def const? (s : Store) (h : Handle) : Option Int64 :=
  (s.node? h).bind (·.kind.const?)

/-- The edit that folds a node whose children are folded. -/
def edit (s : Store) (n : Node) : Edit :=
  match n.kind with
  | .op op =>
    let l := n.left.bind (const? s)
    let verdict :=
      match n.right with
      | none => unary op l
      | some r => binary op l (const? s r)
    match verdict with
    | .unchanged => .keep
    | .leftOperand => .child n.left
    | .rightOperand => .child n.right
    | .constant v => .replace (.const v)
  | _ => .keep

end ExprOpt.Folding

namespace ExprOpt.Build

/-- Folds the constants in the tree below a handle. -/
def fold (h : Handle) : Build Handle := sweep Folding.edit h

end ExprOpt.Build
