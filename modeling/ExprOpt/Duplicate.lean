import ExprOpt.Tree

/-!
# Repeated subexpressions

The search for the largest subtree that occurs more than once. Candidates are met in pre-order and a
later one must be strictly larger to displace an earlier one, so that of several equally large
repeated subtrees the first one met is chosen.
-/

namespace ExprOpt

/-- A subtree that occurs a second time. -/
structure Hit where
  handle : Handle
  size : Nat
  deriving DecidableEq, Repr, Inhabited

namespace Store

/-- Whether `n` is a node other than `x` that equals `x`. -/
def isCopy (s : Store) (x n : Handle) : Except Error Bool :=
  if n = x then .ok false else s.alike (some x) (some n)

/-- Whether a node other than `x` itself that equals `x` is among the first `depth` levels of a
tree. -/
def occursWithin (s : Store) (x : Handle) : Nat → Option Handle → Except Error Bool
  | _, none => .ok false
  | 0, some _ => .error .cyclic
  | depth + 1, some n => do
    if ← s.isCopy x n then
      .ok true
    else
      let m ← s.node n
      if ← s.occursWithin x depth m.left then
        .ok true
      else
        s.occursWithin x depth m.right

/-- Whether a node other than `x` itself in the tree below a handle equals `x`. Nothing is looked at
beyond the first such node in pre-order. -/
def occurs (s : Store) (x : Handle) (tree : Option Handle) : Except Error Bool :=
  s.occursWithin x (s.size + 1) tree

end Store

namespace Duplicate

/-- Searches that collect ever larger hits, the latest first. -/
abbrev Search := EStateM Error (List Hit)

/-- Subtrees must have more nodes than this to be worth hoisting. -/
def smallest : Nat := 2

/-- The size that a candidate has to exceed. -/
def threshold (hits : List Hit) : Nat :=
  match hits with
  | [] => smallest
  | hit :: _ => max smallest hit.size

/-- The outcome of looking at the store. -/
def look {α : Type} (outcome : Except Error α) : Search α :=
  match outcome with
  | .ok a => return a
  | .error e => throw e

/-- Adds a node below `root` to the hits if it is larger than those before and occurs again. The root
itself is no candidate. -/
def consider (s : Store) (root n : Handle) : Search Unit := do
  if n = root then
    return ()
  else
    let size ← look (s.treeSize (some n))
    if threshold (← get) < size then
      if ← look (s.occurs n (some root)) then
        modify (⟨n, size⟩ :: ·)

/-- Considers the nodes of a tree in pre-order, down to `depth` levels. -/
def surveyWithin (s : Store) (root : Handle) : Nat → Option Handle → Search Unit
  | _, none => return ()
  | 0, some _ => throw .cyclic
  | depth + 1, some n => do
    consider s root n
    let m ← look (s.node n)
    surveyWithin s root depth m.left
    surveyWithin s root depth m.right

/-- The hits below a root, also if the search comes upon a handle that dangles. -/
def survey (s : Store) (root : Handle) : EStateM.Result Error (List Hit) Unit :=
  (surveyWithin s root (s.size + 1) (some root)).run []

/-- The largest repeated subtree below a root. -/
def largest (s : Store) (root : Handle) : Except Error (Option Hit) :=
  match survey s root with
  | .ok _ hits => .ok hits.head?
  | .error e _ => .error e

end Duplicate

end ExprOpt
