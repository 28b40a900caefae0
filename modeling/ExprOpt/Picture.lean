import ExprOpt.Tree

/-!
# Pictures

A tree as a program in the picture language of troff. Leaves are boxes and operators are circles,
named after their handles; an arrow leads from every node to each of its children.
-/

namespace ExprOpt.Picture

/-- A length in thousandths of an inch. -/
structure Length where
  thousandths : Nat
  deriving DecidableEq, Repr, Inhabited

/-- A length with three decimal places. -/
def Length.text (x : Length) : String :=
  let fraction := toString (x.thousandths % 1000)
  toString (x.thousandths / 1000) ++ "."
    ++ String.ofList (List.replicate (3 - fraction.length) '0') ++ fraction ++ "i"

/-- The side of its parent that a child hangs from. -/
inductive Side where
  | left
  | right
  /-- An only child hangs straight down, whichever slot it is in. -/
  | bottom
  deriving DecidableEq, Repr, Inhabited

/-- How the language names a side. -/
def Side.text : Side → String
  | .left => "left"
  | .right => "right"
  | .bottom => "bottom"

/-- The statements that a picture consists of. -/
inductive Statement where
  /-- Draws the shape of a node at the current place. -/
  | shape (cell : Cell)
  /-- Goes back to a node. -/
  | moveTo (h : Handle)
  /-- Goes down to where a child belongs, aside by the given length unless it is an only child. -/
  | moveDown (side : Side) (aside : Length)
  /-- Joins a node to its child. -/
  | arrow (side : Side) (parent child : Handle)
  deriving DecidableEq, Repr, Inhabited

/-- The label that stands for a node. -/
def name (h : Handle) : String := "N" ++ toString h.index

/-- What a shape is drawn as. -/
def shapeText : Kind → String
  | .op o => "circle radius 0.15i \"" ++ o.symbol.toString ++ "\""
  | .const v => "box width 0.3i height 0.3i \"" ++ toString v.toInt ++ "\""
  | .var c => "box width 0.3i height 0.3i \"" ++ c.toString ++ "\""

/-- The line of a statement. -/
def Statement.text : Statement → String
  | .shape cell => name cell.handle ++ ": " ++ shapeText cell.kind
  | .moveTo h => "move to " ++ name h
  | .moveDown .bottom _ => "move down 0.5i"
  | .moveDown side aside => "move down 0.5i " ++ side.text ++ " " ++ aside.text
  | .arrow side parent child =>
    "arrow from " ++ side.text ++ " of " ++ name parent ++ " to top of " ++ name child

/-- How far apart children are drawn, and how much closer their own children are. -/
structure Spacing where
  aside : Length := ⟨1800⟩
  shrink : Nat := 24
  deriving DecidableEq, Repr, Inhabited

/-- The spacing one level further down. -/
def Spacing.next (spacing : Spacing) : Spacing :=
  { aside := ⟨spacing.aside.thousandths / spacing.shrink⟩, shrink := spacing.shrink + 1 }

/-- The statements that place a child, draw it with `drawing`, and join it to its parent. -/
def branch (parent : Handle) (side : Side) (aside : Length) (child : Tree Cell)
    (drawing : List Statement) : List Statement :=
  match child with
  | .nil => []
  | .node cell _ _ =>
    .moveTo parent :: .moveDown side aside :: (drawing ++ [.arrow side parent cell.handle])

/-- The side for a child whose sibling is `sibling`. -/
def Side.beside (side : Side) (sibling : Tree Cell) : Side :=
  if sibling.isNil then .bottom else side

/-- The statements that draw a tree. -/
def statements (spacing : Spacing) : Tree Cell → List Statement
  | .nil => []
  | .node cell l r =>
    .shape cell ::
      (branch cell.handle (Side.left.beside r) spacing.aside l (statements spacing.next l)
        ++ branch cell.handle (Side.right.beside l) spacing.aside r (statements spacing.next r))

/-- The whole program. -/
def lines (t : Tree Cell) : List String :=
  [".ft C", ".ps 12", ".PS"] ++ (statements {} t).map Statement.text ++ [".PE"]

/-- The program as text. -/
def text (t : Tree Cell) : String := String.join ((lines t).map (· ++ "\n"))

end ExprOpt.Picture

namespace ExprOpt.Store

/-- The picture of the tree below a handle. -/
def picture (s : Store) (h : Handle) : Except Error String := do
  let t ← s.unfold (some h)
  .ok (Picture.text t)

end ExprOpt.Store
