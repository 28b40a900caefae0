import ExprOpt.Store

/-!
# Trees

The tree that hangs below a handle of a store. A node that is reached along several paths stands in
the tree once per path.
-/

namespace ExprOpt

/-- Binary trees in which either child may be missing. -/
inductive Tree (α : Type) where
  | nil
  | node (label : α) (left right : Tree α)
  deriving DecidableEq, Repr, Inhabited

namespace Tree

variable {α β : Type}

/-- Relabels every node. -/
def map (f : α → β) : Tree α → Tree β
  | .nil => .nil
  | .node a l r => .node (f a) (l.map f) (r.map f)

/-- The number of nodes. -/
def size : Tree α → Nat
  | .nil => 0
  | .node _ l r => 1 + l.size + r.size

/-- Whether there is no node. -/
def isNil : Tree α → Bool
  | .nil => true
  | .node .. => false

end Tree

/-- An occurrence of a node in a tree. -/
structure Cell where
  handle : Handle
  kind : Kind
  deriving DecidableEq, Repr, Inhabited

namespace Store

/-- The tree below a handle, down to `depth` levels. -/
def unfoldWithin (s : Store) : Nat → Option Handle → Except Error (Tree Cell)
  | _, none => .ok .nil
  | 0, some _ => .error .cyclic
  | depth + 1, some h => do
    let n ← s.node h
    let l ← s.unfoldWithin depth n.left
    let r ← s.unfoldWithin depth n.right
    .ok (.node ⟨h, n.kind⟩ l r)

/-- The tree below a handle. A path without a cycle passes each allocated node at most once, and
one more level is enough to notice that its end dangles. -/
def unfold (s : Store) (h : Option Handle) : Except Error (Tree Cell) :=
  s.unfoldWithin (s.size + 1) h

/-- The number of nodes on the first `depth` levels below a handle. -/
def treeSizeWithin (s : Store) : Nat → Option Handle → Except Error Nat
  | _, none => .ok 0
  | 0, some _ => .error .cyclic
  | depth + 1, some h => do
    let n ← s.node h
    let l ← s.treeSizeWithin depth n.left
    let r ← s.treeSizeWithin depth n.right
    .ok (1 + l + r)

/-- Counting nodes is unfolding the tree and taking its size. -/
theorem treeSizeWithin_eq (s : Store) (depth : Nat) (h : Option Handle) :
    s.treeSizeWithin depth h = Tree.size <$> s.unfoldWithin depth h := by
  induction depth generalizing h with
  | zero => cases h <;> rfl
  | succ depth ih =>
    cases h with
    | none => rfl
    | some h =>
      simp only [treeSizeWithin, unfoldWithin, ih]
      cases s.node h with
      | error e => rfl
      | ok n =>
        simp only [bind, Except.bind]
        cases s.unfoldWithin depth n.left with
        | error e => rfl
        | ok l => cases s.unfoldWithin depth n.right <;> rfl

/-- The number of nodes below a handle, that node included. -/
def treeSize (s : Store) (h : Option Handle) : Except Error Nat :=
  s.treeSizeWithin (s.size + 1) h

/-- Whether the trees below two handles agree on their first `depth` levels. -/
def alikeWithin (s : Store) : Nat → Option Handle → Option Handle → Except Error Bool
  | _, none, none => .ok true
  | 0, some _, some _ => .error .cyclic
  | depth + 1, some a, some b => do
    let m ← s.node a
    let n ← s.node b
    if m.kind = n.kind then
      if ← s.alikeWithin depth m.left n.left then
        s.alikeWithin depth m.right n.right
      else
        .ok false
    else
      .ok false
  | _, some _, none => .ok false
  | _, none, some _ => .ok false

/-- Whether the trees below two handles have the same shape and the same kinds. No node is looked
at beyond the first difference in pre-order. -/
def alike (s : Store) (a b : Option Handle) : Except Error Bool :=
  s.alikeWithin (s.size + 1) a b

end Store

end ExprOpt
