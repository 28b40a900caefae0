import ExprOpt.Grammar.Parsing
import ExprOpt.Folding
import ExprOpt.Peephole
import ExprOpt.Hoisting
import ExprOpt.Outline
import ExprOpt.Picture
import ExprOpt.Event

/-!
# Compilation

An expression is read into a fresh store and goes through the passes that are switched on, in a
fixed order.
-/

namespace ExprOpt

/-- How the resulting tree is shown. -/
inductive Format where
  | outline
  | picture
  deriving DecidableEq, Repr, Inhabited

/-- The passes over a tree. -/
inductive Pass where
  | fold
  | simplify
  | hoist
  deriving DecidableEq, Repr, Inhabited

namespace Pass

/-- Runs a pass on the tree below a handle and returns the root of the new tree. -/
def run : Pass → Handle → Build Handle
  | .fold => Build.fold
  | .simplify => Build.simplify
  | .hoist => Build.hoist

/-- What a log calls the pass. -/
def name : Pass → String
  | .fold => "fold"
  | .simplify => "rewrite"
  | .hoist => "cse"

/-- The events of a pass over the tree below `root`. -/
def events (s : Store) (root : Handle) : Pass → List Event
  | .fold => []
  | .simplify => []
  | .hoist => Duplicate.hoistEvents s root

end Pass

/-- The settings of a compilation. -/
structure Options where
  capacity : Nat := defaultCapacity
  fold : Bool := true
  simplify : Bool := true
  hoist : Bool := true
  format : Format := .outline
  deriving DecidableEq, Repr, Inhabited

/-- The passes that are switched on, in their order. -/
def Options.passes (o : Options) : List Pass :=
  (if o.fold then [.fold] else []) ++ (if o.simplify then [.simplify] else [])
    ++ (if o.hoist then [.hoist] else [])

/-- A compiled expression. -/
structure Compiled where
  store : Store
  root : Handle
  /-- The tree below the root. -/
  tree : Tree Cell
  deriving DecidableEq, Repr, Inhabited

namespace Compiled

/-- The outline of the resulting tree. -/
def outline (c : Compiled) : String := Outline.text (c.tree.map Cell.kind)

/-- The picture of the resulting tree. -/
def picture (c : Compiled) : String := Picture.text c.tree

/-- The resulting tree in a given format. -/
def render (c : Compiled) : Format → String
  | .outline => c.outline
  | .picture => c.picture

end Compiled

/-- Reads an expression and runs the given passes on it. -/
def Build.pipeline (source : String) (passes : List Pass) : Build Handle := do
  passes.foldlM (fun root pass => pass.run root) (← parse source)

/-- Compiles an expression in a store of its own. -/
def compile (source : String) (options : Options) : Except Error Compiled :=
  match (Build.pipeline source options.passes).run { capacity := options.capacity } with
  | .ok root store => do
    let tree ← store.unfold (some root)
    .ok { store, root, tree }
  | .error e _ => .error e

namespace Transcript

/-- The event that a stage has led to the tree below `root`. -/
def completed (stage : String) (s : Store) (root : Handle) : List Event :=
  match s.treeSize (some root) with
  | .ok n => [.completed stage n s.size s.capacity]
  | .error _ => []

/-- The events of running passes one after the other, up to the first that fails. -/
def ofPasses : List Pass → Store → Handle → List Event
  | [], _, _ => []
  | pass :: passes, s, root =>
    pass.events s root ++
      match (pass.run root).run s with
      | .ok root s => completed pass.name s root ++ ofPasses passes s root
      | .error _ _ => []

/-- The events of a compilation. -/
def ofCompilation (source : String) (options : Options) : List Event :=
  match (Build.parse source).run { capacity := options.capacity } with
  | .ok root s => completed "parse" s root ++ ofPasses options.passes s root
  | .error _ _ => []

end Transcript

end ExprOpt
