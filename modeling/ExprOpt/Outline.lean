import ExprOpt.Tree

/-!
# Outlines

A tree as text: one line per node in pre-order, indented by its depth.
-/

namespace ExprOpt.Outline

/-- What the line of a node says. -/
def label : Kind → String
  | .op o => o.symbol.toString
  | .const v => "c(" ++ toString v.toInt ++ ")"
  | .var c => "v(" ++ c.toString ++ ")"

/-- Two blanks per level. -/
def indentation (depth : Nat) : String := String.ofList (List.replicate (2 * depth) ' ')

/-- The lines of a tree whose root stands at the given depth. -/
def lines (depth : Nat) : Tree Kind → List String
  | .nil => []
  | .node k l r => (indentation depth ++ label k) :: (lines (depth + 1) l ++ lines (depth + 1) r)

/-- The outline of a tree. -/
def text (t : Tree Kind) : String := String.join ((lines 0 t).map (· ++ "\n"))

end ExprOpt.Outline

namespace ExprOpt.Store

/-- The outline of the tree below a handle. -/
def outline (s : Store) (h : Handle) : Except Error String := do
  let t ← s.unfold (some h)
  .ok (Outline.text (t.map Cell.kind))

end ExprOpt.Store
