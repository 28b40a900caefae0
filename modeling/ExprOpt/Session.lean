import ExprOpt.Compilation

/-!
# Sessions

Commands that work on one store, one after the other. A command that fails leaves what it had
written before, and the next command goes on from there.
-/

namespace ExprOpt

/-- What can be asked of a store. -/
inductive Command where
  | parse (source : String)
  | alloc (node : Node)
  | setLeft (h : Handle) (child : Option Handle)
  | setRight (h : Handle) (child : Option Handle)
  | kind (h : Handle)
  | const (h : Handle)
  | left (h : Handle)
  | right (h : Handle)
  | isLeaf (h : Option Handle)
  | isNegation (h : Handle)
  | alike (a b : Option Handle)
  | treeSize (h : Option Handle)
  | isEmpty
  | capacity
  | pass (p : Pass) (h : Handle)
  | occurs (x : Handle) (tree : Option Handle)
  | largestDuplicate (h : Handle)
  | outline (h : Handle)
  | picture (h : Handle)
  | nodes
  deriving DecidableEq, Repr, Inhabited

/-- What a command answers. -/
inductive Answer where
  | handle (h : Option Handle)
  | done
  | kind (k : Kind)
  | const (v : Option Int64)
  | flag (b : Bool)
  | count (n : Nat)
  | text (s : String)
  | nodes (ns : List Node)
  deriving DecidableEq, Repr, Inhabited

namespace Command

/-- Whether a leaf is at a handle. No handle has no leaf. -/
def leafAt (s : Store) : Option Handle → Except Error Bool
  | none => .ok false
  | some h => (·.kind.isLeaf) <$> s.node h

/-- The answer of a command that only reads the store. -/
def query {α : Type} (read : Store → Except Error α) (answer : α → Answer) : Build Answer :=
  answer <$> Build.inspect read

/-- Carries out a command. -/
def run : Command → Build Answer
  | .parse source => (.handle ∘ some) <$> Build.parse source
  | .alloc n => (.handle ∘ some) <$> Build.alloc n
  | .setLeft h child => do
    Build.setLeft h child
    return .done
  | .setRight h child => do
    Build.setRight h child
    return .done
  | .kind h => query (·.node h) (.kind ·.kind)
  | .const h => query (·.node h) (.const ·.kind.const?)
  | .left h => query (·.node h) (.handle ·.left)
  | .right h => query (·.node h) (.handle ·.right)
  | .isLeaf h => query (leafAt · h) .flag
  | .isNegation h => query (·.node h) (.flag ·.isNegation)
  | .alike a b => query (·.alike a b) .flag
  | .treeSize h => query (·.treeSize h) .count
  | .isEmpty => query (fun s => .ok (s.size == 0)) .flag
  | .capacity => query (fun s => .ok s.capacity) .count
  | .pass p h => (.handle ∘ some) <$> p.run h
  | .occurs x tree => query (·.occurs x tree) .flag
  | .largestDuplicate h => query (Duplicate.largest · h) fun hit => .handle (hit.map Hit.handle)
  | .outline h => query (·.outline h) .text
  | .picture h => query (·.picture h) .text
  | .nodes => query (fun s => .ok s.nodes.toList) .nodes

/-- The events of carrying out a command on a store. -/
def events (s : Store) : Command → List Event
  | .pass p h => p.events s h
  | .largestDuplicate h => Duplicate.surveyEvents s h
  | _ => []

end Command

/-- What a command leaves behind. -/
structure Step where
  outcome : Except Error Answer
  store : Store

/-- Carries out a command on a store. -/
def Command.step (s : Store) (c : Command) : Step :=
  match c.run.run s with
  | .ok answer store => { outcome := .ok answer, store }
  | .error e store => { outcome := .error e, store }

end ExprOpt
