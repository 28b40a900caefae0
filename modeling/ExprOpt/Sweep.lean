import ExprOpt.Store

/-!
# Bottom-up sweeps

A sweep goes through the tree below a handle, children before their parent, and makes a local edit
at every node. Each child slot is overwritten as soon as that child has been dealt with.
-/

namespace ExprOpt

/-- What to do with a node whose children have been dealt with. -/
inductive Edit where
  /-- The node stays as it is. -/
  | keep
  /-- The children change places. -/
  | swap
  /-- A node that exists already takes its place. -/
  | reuse (h : Handle)
  /-- A new node takes its place. -/
  | replace (n : Node)
  deriving DecidableEq, Repr, Inhabited

namespace Edit

/-- One of the node's own children takes its place; a node without that child stays. -/
def child : Option Handle → Edit
  | some h => .reuse h
  | none => .keep

/-- Carries out an edit at `h`, and returns what stands in its place. -/
def perform (h : Handle) : Edit → Build Handle
  | .keep => return h
  | .swap => do
    Build.modifyNode h fun n => { n with left := n.right, right := n.left }
    return h
  | .reuse child => return child
  | .replace n => Build.alloc n

end Edit

/-- Does something about a child that is present. -/
def forChild (child : Option Handle) (act : Handle → Build Unit) : Build Unit :=
  match child with
  | some h => act h
  | none => return ()

/-- Sweeps the tree below a handle, down to `depth` levels. -/
def sweepWithin (edit : Store → Node → Edit) : Nat → Handle → Build Handle
  | 0, _ => throw .cyclic
  | depth + 1, h => do
    forChild (← Build.node h).left fun l => do
      Build.setLeft h (← sweepWithin edit depth l)
    forChild (← Build.node h).right fun r => do
      Build.setRight h (← sweepWithin edit depth r)
    let n ← Build.node h
    (edit (← get) n).perform h

/-- Sweeps the tree below a handle. The store may grow meanwhile, so the levels are counted against
the most that it can ever hold. -/
def sweep (edit : Store → Node → Edit) (h : Handle) : Build Handle := do
  sweepWithin edit ((← get).bound + 1) h

end ExprOpt
