import ExprOpt.Compilation
import ExprOpt.Proofs.Picture.Drawing

/-!
# How far apart siblings are drawn

A child with a sibling is moved aside from its parent, by a length that depends on nothing but the depth of
the parent. Each level divides it by a larger number, and what is less than a thousandth of an inch is lost.
Three divisions leave nothing, so the children of nodes on the first three levels are drawn apart, and all
others on top of each other (`siblings_apart_iff`).
-/

namespace ExprOpt

namespace Picture

variable {c l r : Tree Cell} {cell : Cell} {spacing : Spacing} {spot : Spot} {base i : Nat}

/-- The shapes of the left child come right after that of the root. -/
lemma getElem?_shapes_left (inside : i < l.size) :
    (shapes spacing spot base (.node cell l r))[1 + i]? =
      (shapes spacing.next (.under base ((Side.left.beside r).aside spacing.aside)) (base + 1) l)[i]? := by
  rw [shapes, Nat.add_comm 1, List.getElem?_cons_succ, List.getElem?_append_left]
  rw [length_shapes]
  exact inside

/-- The shapes of the right child come after those of the left one. -/
lemma getElem?_shapes_right :
    (shapes spacing spot base (.node cell l r))[1 + l.size + i]? =
      (shapes spacing.next (.under base ((Side.right.beside l).aside spacing.aside))
        (base + 1 + l.size) r)[i]? := by
  rw [shapes, Nat.add_assoc 1, Nat.add_comm 1, List.getElem?_cons_succ, List.getElem?_append_right]
  · rw [length_shapes, Nat.add_sub_cancel_left]
  · rw [length_shapes]
    exact Nat.le_add_right _ _

/-- A child is drawn below the shape of its parent, and aside as the depth of its parent says. -/
lemma getElem?_shapes {path : List ExprOpt.Side} {side : ExprOpt.Side} {child : Cell} {l r : Tree Cell}
    (found : c.down (path ++ [side]) = .node child l r) :
    (shapes spacing spot base c)[c.rank (path ++ [side])]? = some ⟨figure child.kind,
      .under (base + c.rank path)
        ((hang (c.down path) side).aside (Spacing.next^[path.length] spacing).aside)⟩ := by
  induction path generalizing c spacing spot base with
  | nil =>
    cases c with
    | nil => cases found
    | node cell l' r' =>
      cases side with
      | left =>
        cases found
        rfl
      | right =>
        cases found
        rw [List.nil_append, Tree.rank, getElem?_shapes_right]
        rfl
  | cons side' path ih =>
    cases c with
    | nil =>
      rw [Tree.empty_down] at found
      cases found
    | node cell l' r' =>
      -- Below a child everything is numbered from the child on, and spaced for one level more.
      cases side' with
      | left =>
        have found : l'.down (path ++ [side]) = .node child l r := found
        have inside : l'.rank (path ++ [side]) < l'.size := by
          apply Tree.rank_lt
          rw [found]
          intro e
          cases e
        rw [List.cons_append, Tree.rank, getElem?_shapes_left inside, ih found, Tree.rank, Nat.add_assoc]
        rfl
      | right =>
        have found : r'.down (path ++ [side]) = .node child l r := found
        rw [List.cons_append, Tree.rank, getElem?_shapes_right, ih found, Tree.rank, Nat.add_assoc base,
          Nat.add_assoc base]
        rfl

/-- Of two children each hangs from its own side. -/
lemma hang_of_both {t : Tree Cell} (both : ∀ side, t.child side ≠ .nil) (side : ExprOpt.Side) :
    hang t side = side.pick .left .right := by
  cases t with
  | nil => exact absurd rfl (both .left)
  | node cell l r =>
    cases side with
    | left =>
      cases r with
      | nil => exact absurd rfl (both .right)
      | node => rfl
    | right =>
      cases l with
      | nil => exact absurd rfl (both .left)
      | node => rfl

/-- Nothing is left of the offset after three divisions. -/
lemma aside_pos_iff (k : Nat) : 0 < (Spacing.next^[k] {}).aside.thousandths ↔ k < 3 := by
  have lost (k : Nat) : (Spacing.next^[k + 3] {}).aside.thousandths = 0 := by
    induction k with
    | zero => rfl
    | succ k ih =>
      rw [Nat.succ_add, Function.iterate_succ_apply', Spacing.next, ih]
      exact Nat.zero_div _
  match k with
  | 0 => decide
  | 1 => decide
  | 2 => decide
  | k + 3 =>
    rw [lost]
    omega

end Picture

open Picture

/-- Siblings are moved aside from the shape of their parent, one to the left and one to the right, by the
same length. This length is not zero on the first three levels, and zero on all others. -/
theorem siblings_apart_iff {s : Store} {root : Handle} (closed : s.Closed) (acyclic : s.Acyclic)
    (there : root.index < s.size) :
    ∃ c text sheet, s.unfold (some root) = .ok c ∧ s.picture root = .ok text ∧ sheet? text = some sheet ∧
      ∀ path, (∀ side, c.down (path ++ [side]) ≠ .nil) → ∃ (x : Length) (i : Nat) (parent : Cell),
        c.places[i]? = some (path, parent) ∧ (0 < x.thousandths ↔ path.length < 3) ∧
        ∀ side, ∃ (j : Nat) (child : Cell), c.places[j]? = some (path ++ [side], child) ∧
          sheet.shapes[j]? = some ⟨figure child.kind, .under i (some (side.pick .left .right, x))⟩ := by
  obtain ⟨t, u⟩ := Store.Grounded.of_closed_acyclic closed acyclic root there
  obtain ⟨c, cs, -⟩ := u.cells
  obtain ⟨sheet, read, shapes, -⟩ := sheet?_text cs.straight
  refine ⟨c, _, sheet, Store.unfold_eq_ok_iff.2 cs, Store.picture_eq cs, read, fun path both => ?_⟩
  have children : ∀ side, (c.down path).child side ≠ .nil := by
    intro side
    rw [← Tree.down_concat]
    exact both side
  cases atParent : c.down path with
  | nil =>
    rw [atParent] at children
    exact absurd rfl (children .left)
  | node parent l r =>
    refine ⟨_, _, parent, Tree.getElem?_rank atParent, aside_pos_iff _, fun side => ?_⟩
    cases atChild : c.down (path ++ [side]) with
    | nil => exact absurd atChild (both side)
    | node child l' r' =>
      refine ⟨_, child, Tree.getElem?_rank atChild, ?_⟩
      rw [shapes, getElem?_shapes atChild, Nat.zero_add, hang_of_both children]
      cases side <;> rfl

/-- A store with the sum of five letters at 8. -/
def sumOfFive : Store where
  nodes := #[.var 'a', .var 'b', .var 'c', .var 'd', .var 'e', .binary .add ⟨0⟩ ⟨1⟩, .binary .add ⟨5⟩ ⟨2⟩,
    .binary .add ⟨6⟩ ⟨3⟩, .binary .add ⟨7⟩ ⟨4⟩]
  capacity := 9

/-- The last letter is drawn apart from the sum of the others. -/
theorem siblings_apart_iff_sumOfFive : ∃ text sheet,
    sumOfFive.picture ⟨8⟩ = .ok text ∧ sheet? text = some sheet ∧ ∃ x : Length, 0 < x.thousandths ∧
      sheet.shapes[1]? = some ⟨.circle "+", .under 0 (some (.left, x))⟩ ∧
      sheet.shapes[8]? = some ⟨.box "e", .under 0 (some (.right, x))⟩ := by
  have ground : sumOfFive.Grounded := by decide
  obtain ⟨closed, acyclic⟩ := ground.closed_acyclic
  obtain ⟨c, text, sheet, unfolded, picture, read, apart⟩ :=
    @siblings_apart_iff _ ⟨8⟩ closed acyclic (by decide)
  cases unfolded
  obtain ⟨x, i, parent, atParent, pos, drawn⟩ := apart [] (by rintro (_ | _) <;> exact nofun)
  obtain ⟨rfl, -⟩ := Tree.getElem?_places.1 atParent
  obtain ⟨j, child, atLeft, left⟩ := drawn .left
  obtain ⟨rfl, _, _, e⟩ := Tree.getElem?_places.1 atLeft
  cases e
  obtain ⟨j, child, atRight, right⟩ := drawn .right
  obtain ⟨rfl, _, _, e⟩ := Tree.getElem?_places.1 atRight
  cases e
  exact ⟨text, sheet, picture, read, x, pos.2 (by decide), left, right⟩

/-- The first two letters are drawn on top of each other, right below the shape of their sum. -/
theorem siblings_drawn_together : ∃ c sheet,
    compile "a+b+c+d+e" { hoist := false } = .ok c ∧ sheet? c.picture = some sheet ∧
      sheet.shapes[4]? = some ⟨.box "a", .under 3 (some (.left, ⟨0⟩))⟩ ∧
      sheet.shapes[5]? = some ⟨.box "b", .under 3 (some (.right, ⟨0⟩))⟩ := by
  have compiled : (compile "a+b+c+d+e" { hoist := false }).map Compiled.tree =
      sumOfFive.unfold (some ⟨8⟩) := by
    decide +kernel
  have cs : sumOfFive.Cells (some ⟨8⟩) _ := Store.unfold_eq_ok_iff.1 rfl
  obtain ⟨sheet, read, shapes, -⟩ := sheet?_text cs.straight
  cases ran : compile "a+b+c+d+e" { hoist := false } with
  | error e =>
    rw [ran] at compiled
    cases compiled
  | ok c =>
    rw [ran] at compiled
    have tree : c.tree = _ := Except.ok.inj compiled
    refine ⟨c, sheet, rfl, ?_, ?_, ?_⟩
    · rw [Compiled.picture, tree]
      exact read
    · rw [shapes]
      rfl
    · rw [shapes]
      rfl

end ExprOpt
