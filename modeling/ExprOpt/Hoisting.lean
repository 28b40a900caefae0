import ExprOpt.Duplicate

/-!
# Hoisting a repeated subexpression

The largest repeated subtree `d` of a tree is computed once: the tree becomes `@ = d, rest`, where
`rest` has `@` in place of every subtree that equals `d`.
-/

namespace ExprOpt.Build

/-- Allocates a copy of a tree in which the hoisted variable stands for every subtree that equals
`x`. Children come before their parent. -/
def copyWithout (x : Tree Kind) : Tree Kind → Build (Option Handle)
  | .nil => return none
  | .node k l r =>
    if .node k l r = x then
      some <$> alloc (.var hoistedName)
    else do
      let left ← copyWithout x l
      let right ← copyWithout x r
      some <$> alloc { kind := k, left, right }

/-- The kinds in the tree below a handle. -/
def kinds (h : Handle) : Build (Tree Kind) :=
  Tree.map Cell.kind <$> inspect (·.unfold (some h))

/-- Hoists the largest repeated subtree below a root. Without one the root itself is returned. -/
def hoist (root : Handle) : Build Handle := do
  match ← inspect (Duplicate.largest · root) with
  | none => return root
  | some hit =>
    let rest ← copyWithout (← kinds hit.handle) (← kinds root)
    let name ← alloc (.var hoistedName)
    let binding ← alloc (.binary .assign name hit.handle)
    alloc { kind := .op .seq, left := some binding, right := rest }

end ExprOpt.Build
