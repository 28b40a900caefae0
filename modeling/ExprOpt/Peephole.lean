import ExprOpt.Sweep

/-!
# Peephole simplification

Four local changes of binary operators:

* the leaf of a commutative operator goes to the right of an operand that is not a leaf;
* adding a negation becomes subtracting;
* subtracting from zero becomes a negation;
* a leaf times two becomes the leaf plus itself.
-/

namespace ExprOpt.Peephole

/-- Whether a constant or a variable is at a handle. -/
def isLeaf (s : Store) (h : Handle) : Bool :=
  (s.node? h).any (·.kind.isLeaf)

/-- Whether a given constant is at a handle. -/
def isConst (s : Store) (v : Int64) (h : Handle) : Bool :=
  (s.node? h).any (·.kind = .const v)

/-- The operand of the negation at a handle. -/
def negated? (s : Store) (h : Handle) : Option Handle :=
  match s.node? h with
  | some n => if n.isNegation then n.left else none
  | none => none

/-- The edit at an operator between two operands. The first change that applies is made. -/
def binary (s : Store) (op : Op) (l r : Handle) : Edit :=
  match op with
  | .add =>
    if isLeaf s l && !isLeaf s r then .swap
    else match negated? s r with
      | some x => .replace (.binary .sub l x)
      | none => .keep
  | .sub => if isConst s 0 l then .replace (.negation r) else .keep
  | .mul =>
    if isLeaf s l && !isLeaf s r then .swap
    else if isLeaf s l && isConst s 2 r then .replace (.binary .add l l)
    else .keep
  | .div => .keep
  | .assign => .keep
  | .seq => .keep

/-- The edit at a node whose children are simplified. -/
def edit (s : Store) (n : Node) : Edit :=
  match n.kind, n.left, n.right with
  | .op op, some l, some r => binary s op l r
  | _, _, _ => .keep

end ExprOpt.Peephole

namespace ExprOpt.Build

/-- Simplifies the tree below a handle. -/
def simplify (h : Handle) : Build Handle := sweep Peephole.edit h

end ExprOpt.Build
