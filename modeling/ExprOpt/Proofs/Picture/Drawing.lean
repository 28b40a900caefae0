import ExprOpt.Proofs.Picture.Reading
import ExprOpt.Proofs.Repeats

/-!
# What a picture shows

The commands of a picture are carried out one after the other (`Command.draw`). A shape is known by its
number, in the order in which shapes are drawn, and a label stands for the shape that was drawn with it
last. A node that is reached along several paths is drawn once for each of them, always with the same
label. Still every arrow joins the shapes that it should join: no node is drawn again while its children
are drawn, since nothing below it leads back to it (`Tree.Straight`).
-/

namespace ExprOpt

/-- No handle stands below itself. -/
def Tree.Straight : Tree Cell → Prop
  | .nil => True
  | .node cell l r => cell.handle ∉ l.handles ++ r.handles ∧ l.Straight ∧ r.Straight

namespace Picture

/-- A place on the sheet. -/
inductive Spot where
  | start
  | on (shape : Nat)
  | under (shape : Nat) (aside : Option (Side × Length))
  deriving DecidableEq

/-- A figure and the place where it is drawn. -/
structure Shape where
  figure : Figure
  spot : Spot
  deriving DecidableEq

/-- An arrow between two shapes, which are known by their numbers. -/
structure Arrow where
  side : Side
  parent : Nat
  child : Nat
  deriving DecidableEq

/-- What has been drawn so far, and what the labels stand for. -/
structure Sheet where
  shapes : List Shape := []
  arrows : List Arrow := []
  labels : Nat → Option Nat := fun _ => none
  spot : Spot := .start

/-- Draws a shape where the pen is, and lets a label stand for it. -/
def Sheet.define (sheet : Sheet) (name : Nat) (figure : Figure) : Sheet where
  shapes := sheet.shapes ++ [⟨figure, sheet.spot⟩]
  arrows := sheet.arrows
  labels := Function.update sheet.labels name (some sheet.shapes.length)
  spot := .on sheet.shapes.length

/-- Carries out a command. It fails if a label has not been defined, or if there is no shape to move down
from. -/
def Command.draw (sheet : Sheet) : Command → Option Sheet
  | .define name figure => some (sheet.define name figure)
  | .moveTo name => do
    let shape ← sheet.labels name
    return { sheet with spot := .on shape }
  | .moveDown aside =>
    match sheet.spot with
    | .on shape => some { sheet with spot := .under shape aside }
    | _ => none
  | .arrow side parent child => do
    let parent ← sheet.labels parent
    let child ← sheet.labels child
    return { sheet with arrows := sheet.arrows ++ [⟨side, parent, child⟩] }

/-- The commands turn one sheet into another. -/
def Sheet.Becomes (sheet : Sheet) (commands : List Command) (sheet' : Sheet) : Prop :=
  commands.foldlM Command.draw sheet = some sheet'

/-- What the text of a picture shows. -/
def sheet? (text : String) : Option Sheet := do
  let commands ← program? text
  commands.foldlM Command.draw {}

/-- The side of a node that the child in a slot hangs from. -/
def hang : Tree Cell → ExprOpt.Side → Side
  | .nil, _ => .bottom
  | .node _ _ r, .left => Side.left.beside r
  | .node _ l _, .right => Side.right.beside l

/-- The shapes of a tree whose root is drawn at the given place and has the given number. -/
def shapes (spacing : Spacing) (spot : Spot) (base : Nat) : Tree Cell → List Shape
  | .nil => []
  | .node cell l r =>
    ⟨figure cell.kind, spot⟩ ::
      (shapes spacing.next (.under base ((Side.left.beside r).aside spacing.aside)) (base + 1) l ++
        shapes spacing.next (.under base ((Side.right.beside l).aside spacing.aside)) (base + 1 + l.size) r)

/-- The arrows of a child, and the one that leads to it. -/
def join (side : Side) (parent child : Nat) (t : Tree Cell) (inner : List Arrow) : List Arrow :=
  match t with
  | .nil => []
  | .node .. => inner ++ [⟨side, parent, child⟩]

/-- The arrows of a tree whose root has the given number. -/
def arrows (base : Nat) : Tree Cell → List Arrow
  | .nil => []
  | .node _ l r =>
    join (Side.left.beside r) base (base + 1) l (arrows (base + 1) l) ++
      join (Side.right.beside l) base (base + 1 + l.size) r (arrows (base + 1 + l.size) r)

/-! ### Drawing a tree -/

variable {c t : Tree Cell} {sheet : Sheet} {spacing : Spacing}

/-- There is one shape for each position of the tree. -/
lemma length_shapes (spacing : Spacing) (spot : Spot) (base : Nat) (c : Tree Cell) :
    (shapes spacing spot base c).length = c.size := by
  induction c generalizing spacing spot base with
  | nil => rfl
  | node cell l r ihl ihr =>
    rw [shapes, List.length_cons, List.length_append, ihl, ihr, Tree.size]
    omega

namespace Sheet.Becomes

variable {command : Command} {commands commands' : List Command} {between sheet' : Sheet}

/-- Without commands a sheet stays as it is. -/
lemma nil : sheet.Becomes [] sheet := rfl

/-- The first command is carried out before the others. -/
lemma cons (step : command.draw sheet = some between) (rest : between.Becomes commands sheet') :
    sheet.Becomes (command :: commands) sheet' := by
  rw [Becomes, List.foldlM_cons, step]
  exact rest

/-- Commands that follow are carried out on what has been drawn. -/
lemma append (first : sheet.Becomes commands between) (second : between.Becomes commands' sheet') :
    sheet.Becomes (commands ++ commands') sheet' := by
  rw [Becomes, List.foldlM_append, first]
  exact second

end Sheet.Becomes

/-- Shapes and arrows have been added to a sheet, and no labels have been redefined but those in a tree. -/
structure Sheet.Gains (sheet sheet' : Sheet) (shapes : List Shape) (arrows : List Arrow) (c : Tree Cell) :
    Prop where
  shapes : sheet'.shapes = sheet.shapes ++ shapes
  arrows : sheet'.arrows = sheet.arrows ++ arrows
  labels : ∀ h ∉ c.handles, sheet'.labels h.index = sheet.labels h.index

/-- A tree is drawn on any sheet, and then its topmost label stands for the first of its shapes. -/
def Draws (spacing : Spacing) (c : Tree Cell) : Prop :=
  ∀ sheet : Sheet, ∃ sheet',
    sheet.Becomes ((statements spacing c).map Statement.command) sheet' ∧
    sheet.Gains sheet' (shapes spacing sheet.spot sheet.shapes.length c) (arrows sheet.shapes.length c) c ∧
    ∀ h, c.top? = some h → sheet'.labels h.index = some sheet.shapes.length

/-- A child is placed below the shape that its parent's label stands for, drawn, and joined to it. -/
lemma Draws.branch {h : Handle} {base : Nat} (draws : Draws spacing t) (side : Side) (x : Length)
    (parent : sheet.labels h.index = some base) (outside : h ∉ t.handles) :
    ∃ sheet',
      sheet.Becomes ((branch h side x t (statements spacing t)).map Statement.command) sheet' ∧
      sheet.Gains sheet' (shapes spacing (.under base (side.aside x)) sheet.shapes.length t)
        (join side base sheet.shapes.length t (arrows sheet.shapes.length t)) t := by
  cases t with
  | nil => exact ⟨sheet, .nil, (List.append_nil _).symm, (List.append_nil _).symm, fun _ _ => rfl⟩
  | node cell l r =>
    obtain ⟨sheet', drawn, gains, top⟩ := draws { sheet with spot := .under base (side.aside x) }
    have back : sheet'.labels h.index = some base := (gains.labels h outside).trans parent
    have go : Command.draw sheet (.moveTo h.index) = some { sheet with spot := .on base } := by
      rw [Command.draw, parent]
      rfl
    refine ⟨{ sheet' with arrows := sheet'.arrows ++ [⟨side, base, sheet.shapes.length⟩] },
      .cons go (.cons rfl ?_), gains.shapes, ?_, gains.labels⟩
    · rw [List.map_append]
      refine drawn.append (.cons ?_ .nil)
      rw [Statement.command, Command.draw, back, top cell.handle rfl]
      rfl
    · rw [gains.arrows, join, List.append_assoc]

/-- A tree in which no handle stands below itself is drawn. Its root's label is still the same when its
children are placed and joined, since they do not define it. -/
lemma draws_of_straight (straight : c.Straight) (spacing : Spacing) : Draws spacing c := by
  induction c generalizing spacing with
  | nil =>
    exact fun sheet =>
      ⟨sheet, .nil, ⟨(List.append_nil _).symm, (List.append_nil _).symm, fun _ _ => rfl⟩, nofun⟩
  | node cell l r ihl ihr =>
    obtain ⟨fresh, straightL, straightR⟩ := straight
    rw [List.mem_append, not_or] at fresh
    obtain ⟨freshL, freshR⟩ := fresh
    intro sheet
    have root : (sheet.define cell.handle.index (figure cell.kind)).labels cell.handle.index =
      some sheet.shapes.length := Function.update_self _ _ _
    obtain ⟨sheetL, left, gainsL⟩ :=
      (ihl straightL spacing.next).branch (Side.left.beside r) spacing.aside root freshL
    -- Nothing below the left child has redefined the label, so the right one is placed below the same shape.
    have rootL := (gainsL.labels _ freshL).trans root
    obtain ⟨sheet', right, gainsR⟩ :=
      (ihr straightR spacing.next).branch (Side.right.beside l) spacing.aside rootL freshR
    have count : (sheet.define cell.handle.index (figure cell.kind)).shapes.length =
      sheet.shapes.length + 1 := List.length_append
    have countL : sheetL.shapes.length = sheet.shapes.length + 1 + l.size := by
      rw [gainsL.shapes, List.length_append, length_shapes, count]
    rw [count] at gainsL
    rw [countL] at gainsR
    refine ⟨sheet', ?_, ⟨?_, ?_, ?_⟩, ?_⟩
    · rw [statements, List.map_cons, List.map_append]
      exact .cons rfl (left.append right)
    · rw [gainsR.shapes, gainsL.shapes, shapes, Sheet.define, List.append_assoc, List.append_assoc]
      rfl
    · rw [gainsR.arrows, gainsL.arrows, arrows, Sheet.define, List.append_assoc]
    · intro g outside
      rw [Tree.handles, List.mem_cons, List.mem_append, not_or, not_or] at outside
      obtain ⟨ne, outsideL, outsideR⟩ := outside
      rw [gainsR.labels g outsideR, gainsL.labels g outsideL]
      exact Function.update_of_ne (fun e => ne (congrArg Handle.mk e)) _ _
    · rintro _ ⟨⟩
      exact (gainsR.labels _ freshR).trans rootL

/-! ### The arrows of a tree -/

variable {cell : Cell} {l r : Tree Cell} {base i j : Nat} {arrow : Arrow}

/-- The arrow from a position to the child in a slot, in a tree whose root has the given number. -/
def edge (base : Nat) (c : Tree Cell) (path : List ExprOpt.Side) (side : ExprOpt.Side) : Arrow :=
  ⟨hang (c.down path) side, base + c.rank path, base + c.rank (path ++ [side])⟩

/-- The left child of the root is drawn right after it. -/
lemma edge_root_left : edge base (.node cell l r) [] .left = ⟨Side.left.beside r, base, base + 1⟩ := by
  simp [edge, hang, Tree.rank, Tree.rank_nil]

/-- The right child of the root is drawn after all of the left one. -/
lemma edge_root_right :
    edge base (.node cell l r) [] .right = ⟨Side.right.beside l, base, base + 1 + l.size⟩ := by
  simp [edge, hang, Tree.rank, Tree.rank_nil, Nat.add_assoc]

/-- Below the left child, shapes are numbered from that child on. -/
lemma edge_left (path : List ExprOpt.Side) (side : ExprOpt.Side) :
    edge base (.node cell l r) (.left :: path) side = edge (base + 1) l path side := by
  rw [edge, edge, List.cons_append, Tree.rank, Tree.rank, Nat.add_assoc, Nat.add_assoc]
  rfl

/-- Below the right child, shapes are numbered from that child on. -/
lemma edge_right (path : List ExprOpt.Side) (side : ExprOpt.Side) :
    edge base (.node cell l r) (.right :: path) side = edge (base + 1 + l.size) r path side := by
  rw [edge, edge, List.cons_append, Tree.rank, Tree.rank, Nat.add_assoc base, Nat.add_assoc base,
    Nat.add_assoc base]
  rfl

/-- The arrows of a child are those inside it and the one that leads to it, if there is a child. -/
lemma mem_join {side : Side} {inner : List Arrow} :
    arrow ∈ join side i j t inner ↔ t ≠ .nil ∧ (arrow ∈ inner ∨ arrow = ⟨side, i, j⟩) := by
  cases t with
  | nil => simp [join]
  | node => simp [join]

/-- There is an arrow for each edge of a tree. -/
lemma mem_arrows : arrow ∈ arrows base c ↔
    ∃ path side, c.down (path ++ [side]) ≠ .nil ∧ arrow = edge base c path side := by
  induction c generalizing base with
  | nil =>
    refine ⟨nofun, ?_⟩
    rintro ⟨path, side, there, -⟩
    exact absurd (Tree.empty_down _) there
  | node cell l r ihl ihr =>
    rw [arrows, List.mem_append, mem_join, mem_join, ihl, ihr]
    constructor
    · rintro (⟨ne, ⟨path, side, there, rfl⟩ | rfl⟩ | ⟨ne, ⟨path, side, there, rfl⟩ | rfl⟩)
      · exact ⟨.left :: path, side, there, (edge_left path side).symm⟩
      · exact ⟨[], .left, ne, edge_root_left.symm⟩
      · exact ⟨.right :: path, side, there, (edge_right path side).symm⟩
      · exact ⟨[], .right, ne, edge_root_right.symm⟩
    · rintro ⟨path, side, there, rfl⟩
      cases path with
      | nil =>
        cases side with
        | left => exact .inl ⟨there, .inr edge_root_left⟩
        | right => exact .inr ⟨there, .inr edge_root_right⟩
      | cons side' path =>
        have below : ((Tree.node cell l r).child side').down (path ++ [side]) ≠ .nil := there
        have ne : (Tree.node cell l r).child side' ≠ .nil := by
          intro e
          rw [e, Tree.empty_down] at below
          exact below rfl
        cases side' with
        | left => exact .inl ⟨ne, .inl ⟨path, side, below, edge_left path side⟩⟩
        | right => exact .inr ⟨ne, .inl ⟨path, side, below, edge_right path side⟩⟩

/-- The arrows of a whole tree, by the places in the list of all positions. -/
lemma mem_arrows_iff_places : arrow ∈ arrows 0 c ↔ ∃ path side parent child,
    c.places[arrow.parent]? = some (path, parent) ∧
    c.places[arrow.child]? = some (path ++ [side], child) ∧
    arrow.side = hang (c.down path) side := by
  rw [mem_arrows]
  constructor
  · rintro ⟨path, side, there, rfl⟩
    rw [Tree.down_concat] at there
    cases atParent : c.down path with
    | nil =>
      rw [atParent] at there
      exact absurd rfl there
    | node parent l r =>
      cases atChild : (c.down path).child side with
      | nil => exact absurd atChild there
      | node child l' r' =>
        rw [← Tree.down_concat] at atChild
        rw [edge, Nat.zero_add, Nat.zero_add]
        exact ⟨path, side, parent, child, Tree.getElem?_rank atParent, Tree.getElem?_rank atChild,
          rfl⟩
  · rintro ⟨path, side, parent, child, atParent, atChild, e⟩
    obtain ⟨rankParent, -⟩ := Tree.getElem?_places.1 atParent
    obtain ⟨rankChild, l, r, found⟩ := Tree.getElem?_places.1 atChild
    refine ⟨path, side, ?_, ?_⟩
    · rw [found]
      exact nofun
    · rw [edge, Nat.zero_add, Nat.zero_add, ← e, ← rankParent, ← rankChild]

/-- An arrow leads to a shape of the tree, but not to its first one. -/
lemma child_range (mem : arrow ∈ arrows base c) : base < arrow.child ∧ arrow.child < base + c.size := by
  obtain ⟨path, side, there, rfl⟩ := mem_arrows.1 mem
  have lt := Tree.rank_lt there
  have pos : 0 < c.rank (path ++ [side]) := by
    cases path with
    | nil => exact Tree.rank_pos there
    | cons side' path => exact Tree.rank_pos there
  rw [edge]
  dsimp only
  omega

/-- The arrows of a child lead to shapes of that child. -/
lemma child_range_join {side : Side} (mem : arrow ∈ join side i j t (arrows j t)) :
    j ≤ arrow.child ∧ arrow.child < j + t.size := by
  obtain ⟨ne, mem | rfl⟩ := mem_join.1 mem
  · obtain ⟨lower, upper⟩ := child_range mem
    exact ⟨lower.le, upper⟩
  · cases t with
    | nil => exact absurd rfl ne
    | node cell l r =>
      rw [Tree.size]
      dsimp only
      omega

/-- No two arrows of a child lead to the same shape. -/
lemma nodup_join {side : Side} (nodup : ((arrows j t).map Arrow.child).Nodup) :
    ((join side i j t (arrows j t)).map Arrow.child).Nodup := by
  cases t with
  | nil => exact List.nodup_nil
  | node cell l r =>
    rw [join, List.map_append, List.map_singleton, ← List.concat_eq_append]
    refine nodup.concat fun mem => ?_
    obtain ⟨arrow, mem, e⟩ := List.mem_map.1 mem
    exact (child_range mem).1.ne e.symm

/-- No two arrows lead to the same shape. -/
lemma nodup_arrows (base : Nat) (c : Tree Cell) : ((arrows base c).map Arrow.child).Nodup := by
  induction c generalizing base with
  | nil => exact List.nodup_nil
  | node cell l r ihl ihr =>
    rw [arrows, List.map_append, List.nodup_append]
    refine ⟨nodup_join (ihl _), nodup_join (ihr _), ?_⟩
    intro i mem j mem'
    obtain ⟨arrow, inside, rfl⟩ := List.mem_map.1 mem
    obtain ⟨arrow', inside', rfl⟩ := List.mem_map.1 mem'
    exact ((child_range_join inside).2.trans_le (child_range_join inside').1).ne

/-- The figures of a tree are those of its nodes in pre-order. -/
lemma map_figure_shapes (spacing : Spacing) (spot : Spot) (base : Nat) (c : Tree Cell) :
    (shapes spacing spot base c).map Shape.figure = c.places.map fun place => figure place.2.kind := by
  induction c generalizing spacing spot base with
  | nil => rfl
  | node cell l r ihl ihr =>
    rw [shapes, Tree.places, List.map_cons, List.map_cons, List.map_append, List.map_append, ihl, ihr,
      List.map_map, List.map_map]
    rfl

/-- The picture of a tree in which no handle stands below itself. -/
lemma sheet?_text (straight : c.Straight) : ∃ sheet, sheet? (text c) = some sheet ∧
    sheet.shapes = shapes {} .start 0 c ∧ sheet.arrows = arrows 0 c := by
  obtain ⟨sheet, drawn, gains, -⟩ := draws_of_straight straight {} {}
  refine ⟨sheet, ?_, gains.shapes, gains.arrows⟩
  rw [sheet?, program?_text]
  exact drawn

end Picture

/-- A tree that hangs in a store is straight: a handle below itself would make it endless. -/
lemma Store.Cells.straight {s : Store} {o : Option Handle} {c : Tree Cell} (cs : s.Cells o c) :
    c.Straight := by
  induction cs with
  | nil => trivial
  | @node h n l r found cl cr ihl ihr =>
    have u := (Store.Cells.node found cl cr).unfolds
    refine ⟨fun mem => ?_, ihl, ihr⟩
    rcases List.mem_append.1 mem with mem | mem
    · cases slot : n.left with
      | none =>
        rw [slot] at cl
        rw [cl.nil_inv] at mem
        cases mem
      | some child => exact u.not_reaches ⟨n, found, .inl slot⟩ (cl.reaches_of_mem slot mem)
    · cases slot : n.right with
      | none =>
        rw [slot] at cr
        rw [cr.nil_inv] at mem
        cases mem
      | some child => exact u.not_reaches ⟨n, found, .inr slot⟩ (cr.reaches_of_mem slot mem)

open Picture

/-- A picture shows the tree below a handle, and nothing else, whatever is shared. Every label has been
defined where it is used. The shapes are those of the nodes, in pre-order. There is exactly one arrow for
each child of a node, and it joins the shapes of just these two positions. -/
theorem picture_shows_tree {s : Store} {root : Handle} (closed : s.Closed) (acyclic : s.Acyclic)
    (there : root.index < s.size) :
    ∃ c text sheet, s.unfold (some root) = .ok c ∧ s.picture root = .ok text ∧
      sheet? text = some sheet ∧
      (sheet.shapes.map Shape.figure = c.places.map fun place => figure place.2.kind) ∧
      sheet.arrows.Nodup ∧
      ∀ arrow, arrow ∈ sheet.arrows ↔ ∃ path side parent child,
        c.places[arrow.parent]? = some (path, parent) ∧
        c.places[arrow.child]? = some (path ++ [side], child) ∧
        arrow.side = hang (c.down path) side := by
  obtain ⟨t, u⟩ := Store.Grounded.of_closed_acyclic closed acyclic root there
  obtain ⟨c, cs, -⟩ := u.cells
  obtain ⟨sheet, read, shapes, arrows⟩ := sheet?_text cs.straight
  refine ⟨c, _, sheet, Store.unfold_eq_ok_iff.2 cs, Store.picture_eq cs, read, ?_, ?_, ?_⟩
  · rw [shapes, map_figure_shapes]
  · rw [arrows]
    exact (nodup_arrows 0 c).of_map
  · intro arrow
    rw [arrows, mem_arrows_iff_places]

/-- A store with the product of a negation by itself at 2. There is only one node for the negation. The
variable in it looks like a quote. -/
def squaredNegation : Store where
  nodes := #[.var '"', .negation ⟨0⟩, .binary .mul ⟨1⟩ ⟨1⟩]
  capacity := 4

/-- The negation is drawn twice, and each time it is joined to the variable that is drawn below it. -/
theorem picture_shows_tree_squaredNegation : ∃ text sheet,
    squaredNegation.picture ⟨2⟩ = .ok text ∧ sheet? text = some sheet ∧
    sheet.shapes.map Shape.figure = [.circle "*", .circle "-", .box "\"", .circle "-", .box "\""] ∧
    ⟨.bottom, 1, 2⟩ ∈ sheet.arrows ∧ ⟨.bottom, 3, 4⟩ ∈ sheet.arrows ∧ ⟨.bottom, 1, 4⟩ ∉ sheet.arrows := by
  have ground : squaredNegation.Grounded := by decide
  obtain ⟨closed, acyclic⟩ := ground.closed_acyclic
  obtain ⟨c, text, sheet, unfolded, picture, read, figures, -, edges⟩ :=
    @picture_shows_tree _ ⟨2⟩ closed acyclic (by decide)
  cases unfolded
  refine ⟨text, sheet, picture, read, figures, (edges _).2 ⟨[.left], .left, _, _, rfl, rfl, rfl⟩,
    (edges _).2 ⟨[.right], .left, _, _, rfl, rfl, rfl⟩, fun wrong => ?_⟩
  obtain ⟨path, side, parent, child, atParent, atChild, -⟩ := (edges _).1 wrong
  cases atParent
  cases atChild

end ExprOpt
